import Cote3Mon.AuditTa.Runs
import Cote3Mon.ReceiptChain

namespace Cote3Mon.AuditTa
open ByteText

theorem encodeU64Be_eq (value : UInt64) : encodeU64Be value = beBytes 8 value.toNat := by
  have hbyte : ∀ k, k < 64 → (value >>> UInt64.ofNat k).toUInt8 =
      UInt8.ofNat (value.toNat / 2 ^ k) := by
    intro k hk
    apply UInt8.toNat_inj.mp
    have hk' : (UInt64.ofNat k).toNat = k := UInt64.toNat_ofNat_of_lt' (by
      change k < 18446744073709551616
      omega)
    rw [UInt64.toNat_toUInt8, UInt64.toNat_shiftRight, hk', Nat.mod_eq_of_lt hk,
      Nat.shiftRight_eq_div_pow]
    exact (UInt8.toNat_ofNat').symm
  have hlist : encodeU64Be value =
      [56, 48, 40, 32, 24, 16, 8, 0].map fun k => UInt8.ofNat (value.toNat / 2 ^ k) := by
    simp only [List.map_cons, List.map_nil, ← hbyte 56 (by norm_num), ← hbyte 48 (by norm_num),
      ← hbyte 40 (by norm_num), ← hbyte 32 (by norm_num), ← hbyte 24 (by norm_num),
      ← hbyte 16 (by norm_num), ← hbyte 8 (by norm_num), ← hbyte 0 (by norm_num)]
    rfl
  rw [hlist]
  simp [beBytes, leBytes, Nat.div_div_eq_div_mul]

theorem hmacMessage_eq (sequence : UInt64) (previous alert model : Digest) :
    hmacMessage sequence previous alert model =
      auditMessage sequence.toNat previous.bytes alert.bytes model.bytes := by
  rw [hmacMessage, encodeU64Be_eq, auditMessage, domain]

variable (crypto : Crypto) (key model : Digest)

/-- The receipts continue a chain of `n` receipts whose last head is `p`, all issued with
one key and one model. -/
def Issued : ℕ → Digest → List Receipt → Prop
  | _, _, [] => True
  | n, p, r :: rs =>
    r.sequence = UInt64.ofNat (n + 1) ∧ r.previousHead = p ∧ r.modelHash = model ∧
      r.head = crypto.hmac key.bytes (hmacMessage r.sequence r.previousHead r.alertHash r.modelHash)
      ∧ Issued (n + 1) r.head rs

def lastHead : Digest → List Receipt → Digest
  | p, [] => p
  | _, r :: rs => lastHead r.head rs

variable {crypto key model}

@[simp] theorem lastHead_append_singleton (p : Digest) (rs : List Receipt) (r : Receipt) :
    lastHead p (rs ++ [r]) = r.head := by
  induction rs generalizing p with
  | nil => rfl
  | cons x rs ih => exact ih x.head

theorem issued_append_singleton {n : ℕ} {p : Digest} {rs : List Receipt} {r : Receipt} :
    Issued crypto key model n p (rs ++ [r]) ↔
      Issued crypto key model n p rs ∧ Issued crypto key model (n + rs.length) (lastHead p rs)
          [r] := by
  induction rs generalizing n p with
  | nil => simp [Issued, lastHead]
  | cons x rs ih =>
    simp only [List.cons_append, Issued, ih, lastHead, List.length_cons, and_assoc, Nat.add_assoc,
      Nat.add_comm 1]

/-- Receipt `i`, counted from zero, read off the chain. -/
theorem Issued.getElem {n : ℕ} {p : Digest} {rs : List Receipt}
    (h : Issued crypto key model n p rs) (i : ℕ) (hi : i < rs.length) :
    rs[i].sequence = UInt64.ofNat (n + i + 1) ∧
      rs[i].previousHead = lastHead p (rs.take i) ∧ rs[i].modelHash = model ∧
      rs[i].head = crypto.hmac key.bytes
        (hmacMessage rs[i].sequence rs[i].previousHead rs[i].alertHash rs[i].modelHash) := by
  induction rs generalizing n p i with
  | nil => simp at hi
  | cons r rs ih =>
    obtain ⟨hseq, hprev, hmodel, hhead, htail⟩ := h
    cases i with
    | zero => exact ⟨hseq, hprev, hmodel, hhead⟩
    | succ i =>
      have hget := ih htail i (by simpa using hi)
      simpa [lastHead, Nat.add_right_comm n 1 i, Nat.add_assoc] using hget

theorem lastHead_take {p : Digest} {rs : List Receipt} (i : ℕ) (hi : i < rs.length) :
    lastHead p (rs.take (i + 1)) = rs[i].head := by
  rw [List.take_succ_eq_append_getElem hi, lastHead_append_singleton]

def Outcome.receipt? (out : Outcome) : Option Receipt :=
  match out.output with
  | .receipt r => some r
  | _ => none

@[simp] theorem receipt?_none (result : TeeResult) :
    Outcome.receipt? ⟨result, .none⟩ = none := rfl

@[simp] theorem receipt?_receipt (result : TeeResult) (r : Receipt) :
    Outcome.receipt? ⟨result, .receipt r⟩ = some r := rfl

@[simp] theorem receipt?_head (result : TeeResult) (h : AuditHead) :
    Outcome.receipt? ⟨result, .head h⟩ = none := rfl

theorem Failed.receipt?_eq_none {out : Outcome} (h : Failed out) : out.receipt? = none := by
  unfold Outcome.receipt?
  split
  · exact absurd ‹_› (h.2.1 _)
  · rfl

def receiptsOf (history : List (Invocation × Outcome)) : List Receipt :=
  history.filterMap fun entry => entry.2.receipt?

structure EndsChain (crypto : Crypto) (st : AuditState) (receipts : List Receipt) : Prop where
  wellFormed : WellFormed st
  sequence : st.sequence = UInt64.ofNat receipts.length
  issued : Issued crypto st.key st.modelHash 0 .zero receipts
  head : st.head = lastHead .zero receipts

theorem endsChain_initial (key : Digest) : EndsChain crypto (initialState key) [] :=
  ⟨initialState_wellFormed key, rfl, trivial, rfl⟩

theorem EndsChain.register {st : AuditState} {receipts : List Receipt} {m : Digest}
    (h : EndsChain crypto st receipts) (hcount : receipts.length < 2 ^ 64)
    (hm : st.sequence = 0 ∨ m = st.modelHash) : EndsChain crypto (register st m) receipts := by
  refine ⟨h.wellFormed, h.sequence, ?_, h.head⟩
  rcases hm with hzero | rfl
  · have hlen : receipts.length = 0 := by
      have hnat := congrArg UInt64.toNat (h.sequence.symm.trans hzero)
      rwa [UInt64.toNat_ofNat_of_lt' hcount] at hnat
    rw [List.length_eq_zero_iff.mp hlen]
    trivial
  · exact h.issued

theorem EndsChain.advance {st : AuditState} {receipts : List Receipt}
    (h : EndsChain crypto st receipts) (alert : Digest) :
    EndsChain crypto (advance st (issue crypto st alert)) (receipts ++ [issue crypto st alert]) := by
  have hseq : st.sequence + 1 = UInt64.ofNat (receipts.length + 1) := by
    rw [h.sequence, UInt64.ofNat_add]
    rfl
  refine ⟨h.wellFormed, ?_, ?_, ?_⟩
  · rw [List.length_append, List.length_singleton]
    exact hseq
  · refine issued_append_singleton.mpr ⟨h.issued, ?_⟩
    rw [Nat.zero_add]
    exact ⟨hseq, h.head, rfl, rfl, trivial⟩
  · exact (lastHead_append_singleton _ _ _).symm

/-- The stored object, or its absence, for the receipts returned so far. -/
def Stored (crypto : Crypto) (o : Option AuditState) (receipts : List Receipt) : Prop :=
  match o with
  | none => receipts = []
  | some st => EndsChain crypto st receipts

@[simp] theorem stored_some {st : AuditState} {receipts : List Receipt} :
    Stored crypto (some st) receipts ↔ EndsChain crypto st receipts := Iff.rfl

theorem Stored.created {o o' : Option AuditState} {receipts : List Receipt}
    (h : Stored crypto o receipts) (hc : Created o o') : Stored crypto o' receipts := by
  obtain ⟨rfl, key, rfl⟩ := hc
  obtain rfl : receipts = [] := h
  exact endsChain_initial key

theorem Stored.loaded {o : Option AuditState} {st : AuditState} {receipts : List Receipt}
    (h : Stored crypto o receipts) (hl : Loaded o st) : EndsChain crypto st receipts := by
  rcases hl with rfl | hc
  · exact h
  · exact h.created hc

/-- The step lemma of the chain. -/
theorem Stored.step {inv : Invocation} {o o' : Option AuditState} {out : Outcome}
    {receipts : List Receipt} (h : Stored crypto o receipts) (hcount : receipts.length < 2 ^ 64)
    (hstep : CommandStep crypto inv o out o') :
    Stored crypto o' (receipts ++ out.receipt?.toList) := by
  cases hstep with
  | failed hfail ho =>
    rw [hfail.receipt?_eq_none, Option.toList_none, List.append_nil]
    rcases ho with rfl | hc
    · exact h
    · exact h.created hc
  | registered _ hl _ hok => simpa using (h.loaded hl).register hcount hok
  | appended _ ho _ _ =>
    subst ho
    exact EndsChain.advance h _
  | headRead _ hl => simpa using h.loaded hl
  | verified _ hl _ _ => simpa using h.loaded hl

theorem receiptsOf_append_singleton (history : List (Invocation × Outcome))
    (entry : Invocation × Outcome) :
    receiptsOf (history ++ [entry]) = receiptsOf history ++ entry.2.receipt?.toList := by
  simp only [receiptsOf, List.filterMap_append, List.append_cancel_left_eq]
  cases h : entry.2.receipt? <;> simp [h]

/-- The `append_alert` calls that returned `TEE_SUCCESS`. -/
def appendSuccesses (history : List (Invocation × Outcome)) : ℕ :=
  history.countP fun entry => entry.1.command = cmdAppendAlert ∧ entry.2.result = .success

/-- A `register_model` call that returned `TEE_SUCCESS`. -/
def RegisterSuccess (entry : Invocation × Outcome) : Prop :=
  entry.1.command = cmdRegisterModel ∧ entry.2.result = .success

instance (entry : Invocation × Outcome) : Decidable (RegisterSuccess entry) :=
  inferInstanceAs (Decidable (_ ∧ _))

def Invocation.digest (inv : Invocation) (i : Fin 4) : Digest :=
  Digest.read (inv.parameters i).buffer 0

/-- The registrations that succeeded, in order. -/
def registrations (history : List (Invocation × Outcome)) : List Invocation :=
  (history.filter RegisterSuccess).map Prod.fst

theorem registrations_append_singleton (history : List (Invocation × Outcome))
    (entry : Invocation × Outcome) : registrations (history ++ [entry]) =
      registrations history ++ if RegisterSuccess entry then [entry.1] else [] := by
  rw [registrations, List.filter_append, List.map_append, List.filter_singleton, registrations]
  by_cases h : RegisterSuccess entry
  · rw [if_pos h, decide_eq_true h]
    rfl
  · rw [if_neg h, decide_eq_false h]
    rfl

theorem exists_registerSuccess {history : List (Invocation × Outcome)} {inv : Invocation}
    (h : (registrations history).getLast? = some inv) :
    ∃ entry ∈ history, RegisterSuccess entry := by
  obtain ⟨entry, hentry, -⟩ := List.mem_map.mp (List.mem_of_getLast? h)
  obtain ⟨hmem, hsuccess⟩ := List.mem_filter.mp hentry
  exact ⟨entry, hmem, of_decide_eq_true hsuccess⟩

/-- A command returns a receipt exactly when it is a successful append. -/
theorem CommandStep.receipt_iff {inv : Invocation} {o o' : Option AuditState} {out : Outcome}
    (h : CommandStep crypto inv o out o') :
    out.receipt?.isSome ↔ inv.command = cmdAppendAlert ∧ out.result = .success := by
  cases h with
  | failed hfail _ => simp [hfail.receipt?_eq_none, hfail.1]
  | registered hcmd => simp [hcmd, cmdRegisterModel, cmdAppendAlert]
  | appended hcmd => simp [hcmd]
  | headRead hcmd => simp [hcmd, cmdGetHead, cmdAppendAlert]
  | verified hcmd => simp [hcmd, cmdVerify, cmdAppendAlert]

/-- A receipt is only issued from a stored object with a registered model, for the digest that the
command gives. -/
theorem CommandStep.receipt_registered {inv : Invocation} {o o' : Option AuditState}
    {out : Outcome} {r : Receipt} (h : CommandStep crypto inv o out o')
    (hr : out.receipt? = some r) :
    ∃ st, o = some st ∧ st.modelRegistered ≠ 0 ∧ r.alertHash = inv.digest 0 ∧
      r.modelHash = st.modelHash := by
  cases h with
  | failed hfail _ => simp [hfail.receipt?_eq_none] at hr
  | registered => simp at hr
  | appended _ ho hreg halert =>
    obtain rfl := Option.some.inj hr
    exact ⟨_, ho, hreg, halert, rfl⟩
  | headRead => simp at hr
  | verified => simp at hr

theorem appendSuccesses_eq (choices : ℕ → Choice) (invs : List Invocation) :
    appendSuccesses (run crypto choices invs).history =
      (receiptsOf (run crypto choices invs).history).length := by
  refine run_induction (motive := fun history _ =>
    appendSuccesses history = (receiptsOf history).length) rfl ?_ choices invs
  intro history o inv out o' hstep ih
  have hiff := hstep.receipt_iff
  rw [receiptsOf_append_singleton, List.length_append, ← ih, appendSuccesses,
    List.countP_append, List.countP_singleton]
  cases hr : out.receipt? with
  | none =>
    simp only [hr, Option.isSome_none, Bool.false_eq_true, false_iff] at hiff
    simp [hiff, appendSuccesses]
  | some r =>
    simp only [hr, Option.isSome_some, true_iff] at hiff
    simp [hiff, appendSuccesses]

/-- The stored object of a run is the end of the chain of its receipts. -/
theorem run_stored (choices : ℕ → Choice) (invs : List Invocation)
    (hcount : (receiptsOf (run crypto choices invs).history).length < 2 ^ 64) :
    Stored crypto (run crypto choices invs).world.object
      (receiptsOf (run crypto choices invs).history) := by
  refine run_induction (motive := fun history o =>
    (receiptsOf history).length < 2 ^ 64 → Stored crypto o (receiptsOf history)) (fun _ => rfl) ?_
    choices invs hcount
  intro history o inv out o' hstep ih hlen
  rw [receiptsOf_append_singleton] at hlen ⊢
  have hshort : (receiptsOf history).length < 2 ^ 64 := by
    rw [List.length_append] at hlen
    omega
  exact (ih hshort).step hshort hstep

/-- A registered model in the stored object is the one that was registered last. -/
theorem run_registered (choices : ℕ → Choice) (invs : List Invocation) :
    ∀ st, (run crypto choices invs).world.object = some st → st.modelRegistered ≠ 0 →
      ∃ inv, (registrations (run crypto choices invs).history).getLast? = some inv ∧
        st.modelHash = inv.digest 0 := by
  refine run_induction (motive := fun history o => ∀ st, o = some st → st.modelRegistered ≠ 0 →
    ∃ inv, (registrations history).getLast? = some inv ∧ st.modelHash = inv.digest 0) nofun ?_
    choices invs
  intro history o inv out o' hstep ih st hst hreg
  -- a command that registers nothing leaves the list and the model
  have hkept : ∀ st0, Loaded o st0 → st0.modelRegistered ≠ 0 → ¬ RegisterSuccess (inv, out) →
      ∃ last, (registrations (history ++ [(inv, out)])).getLast? = some last ∧
        st0.modelHash = last.digest 0 := by
    intro st0 hl hreg0 hother
    rw [registrations_append_singleton, if_neg hother, List.append_nil]
    rcases hl with ho | ⟨-, key, hkey⟩
    · exact ih st0 ho hreg0
    · exact absurd (by rw [Option.some.inj hkey]; rfl) hreg0
  cases hstep with
  | failed hfail ho =>
    subst hst
    have hother : ¬ RegisterSuccess (inv, out) := fun h => hfail.1 h.2
    rcases ho with ho | hc
    · exact hkept st (Or.inl ho.symm) hreg hother
    · exact hkept st (Or.inr hc) hreg hother
  | registered hcmd hl hmodel =>
    rw [registrations_append_singleton, if_pos ⟨hcmd, rfl⟩, List.getLast?_concat,
      ← Option.some.inj hst]
    exact ⟨inv, rfl, hmodel⟩
  | @appended st0 alert hcmd ho hreg0 =>
    obtain rfl := Option.some.inj hst
    exact hkept st0 (Or.inl ho) hreg0 fun h => absurd (hcmd.symm.trans h.1) (by decide)
  | headRead hcmd hl =>
    obtain rfl := Option.some.inj hst
    exact hkept _ hl hreg fun h => absurd (hcmd.symm.trans h.1) (by decide)
  | verified hcmd hl =>
    obtain rfl := Option.some.inj hst
    exact hkept _ hl hreg fun h => absurd (hcmd.symm.trans h.1) (by decide)

/-- What holds of every command when it is made holds of every entry of the history. -/
theorem run_entries {P : List (Invocation × Outcome) → Invocation × Outcome → Prop}
    (choices : ℕ → Choice)
    (hlast : ∀ invs inv, P (run crypto choices invs).history
      (inv, (invoke crypto inv (run crypto choices invs).world).1)) (invs : List Invocation) :
    ∀ before entry after, (run crypto choices invs).history = before ++ entry :: after →
      P before entry := by
  induction invs using List.reverseRecOn with
  | nil =>
    intro before entry after h
    exact absurd h (by simp [run, Session.start])
  | append_singleton invs inv ih =>
    intro before entry after h
    rw [run_append_singleton] at h
    rcases List.eq_nil_or_concat after with rfl | ⟨after', last, rfl⟩
    · -- the last command of the run
      obtain ⟨rfl, hentry⟩ := List.append_inj' h rfl
      rw [← List.singleton_inj.mp hentry]
      exact hlast invs inv
    · have h' : (run crypto choices invs).history ++
          [(inv, (invoke crypto inv (run crypto choices invs).world).1)] =
          (before ++ entry :: after') ++ [last] := by
        rw [List.append_assoc, List.cons_append]
        rwa [List.concat_eq_append] at h
      exact ih before entry after' (List.append_inj' h' rfl).1

/-- A receipt holds the digest that its command gives, and the model that was registered last. -/
theorem run_receipt_digests (choices : ℕ → Choice) (invs : List Invocation) :
    ∀ before entry after, (run crypto choices invs).history = before ++ entry :: after →
      ∀ r, entry.2.receipt? = some r →
        r.alertHash = entry.1.digest 0 ∧
          ∃ inv, (registrations before).getLast? = some inv ∧ r.modelHash = inv.digest 0 := by
  refine run_entries choices (fun invs inv r hr => ?_) invs
  obtain ⟨st, ho, hreg, halert, hmodel⟩ := (invoke_step crypto inv _).receipt_registered hr
  rw [hmodel]
  exact ⟨halert, run_registered choices invs st ho hreg⟩

/-- A command keeps the key of the object it found. -/
theorem CommandStep.key_kept {inv : Invocation} {o' : Option AuditState} {out : Outcome}
    {st : AuditState} (h : CommandStep crypto inv (some st) out o') :
    ∃ st', o' = some st' ∧ st'.key = st.key := by
  have hload : ∀ st0, Loaded (some st) st0 → st0 = st := by
    intro st0 hl
    rcases hl with hl | ⟨hl, -⟩
    · exact (Option.some.inj hl).symm
    · cases hl
  cases h with
  | failed _ ho =>
    rcases ho with rfl | ⟨ho, -⟩
    · exact ⟨st, rfl, rfl⟩
    · cases ho
  | registered _ hl => exact ⟨_, rfl, by rw [hload _ hl]; rfl⟩
  | appended _ ho => exact ⟨_, rfl, by rw [Option.some.inj ho]; rfl⟩
  | headRead _ hl => exact ⟨_, rfl, by rw [hload _ hl]⟩
  | verified _ hl => exact ⟨_, rfl, by rw [hload _ hl]⟩

theorem CommandStep.failure_kept {inv : Invocation} {o o' : Option AuditState} {out : Outcome}
    (h : CommandStep crypto inv o out o') (hfail : out.result ≠ .success) :
    o' = o ∨ Created o o' := by
  cases h with
  | failed _ ho => exact ho
  | registered => exact absurd rfl hfail
  | appended => exact absurd rfl hfail
  | headRead => exact absurd rfl hfail
  | verified => exact absurd rfl hfail

/-- The sequence number in storage; there is none before the object exists. -/
def storedSequence : Option AuditState → ℕ
  | none => 0
  | some st => st.sequence.toNat

/-- The head of receipt `i`, counted from one; receipt zero stands for 32 zero bytes. -/
def headOf (receipts : List Receipt) : ℕ → Digest
  | 0 => .zero
  | i + 1 => (receipts.map Receipt.head).getD i .zero

theorem headOf_eq {receipts : List Receipt} {i : ℕ} (hi : i ≤ receipts.length) :
    headOf receipts i = lastHead .zero (receipts.take i) := by
  cases i with
  | zero => rfl
  | succ i =>
    have hi' : i < receipts.length := hi
    rw [lastHead_take i hi', headOf, List.getD_eq_getElem _ _ (by simpa using hi'), List.getElem_map]

/-- The whole contract of a single session, after every run of fewer than `2 ^ 64`
appends: the counter, the chain, one model registered first, the digests that the commands give,
and for the next command a key that stays and a failure that stores at most the initial object. -/
theorem audit_ta_contract (crypto : Crypto) (choices : ℕ → Choice) (invs : List Invocation)
    (hcount : appendSuccesses (run crypto choices invs).history < 2 ^ 64) :
    let s := run crypto choices invs
    let receipts := receiptsOf s.history
    (storedSequence s.world.object = appendSuccesses s.history ∧
      receipts.length = appendSuccesses s.history) ∧
    (∀ st, s.world.object = some st →
      (∀ i (hi : i < receipts.length),
        receipts[i].sequence.toNat = i + 1 ∧
        receipts[i].previousHead = headOf receipts i ∧
        receipts[i].head = crypto.hmac st.key.bytes
          (domain ++ beBytes 8 (i + 1) ++ receipts[i].previousHead.bytes ++
            receipts[i].alertHash.bytes ++ receipts[i].modelHash.bytes)) ∧
      st.head = headOf receipts receipts.length ∧
      ∀ r ∈ receipts, r.modelHash = st.modelHash) ∧
    (s.world.object = none → receipts = []) ∧
    (∀ before entry after, s.history = before ++ entry :: after → entry.2.receipt?.isSome →
      ∃ earlier ∈ before, RegisterSuccess earlier) ∧
    (∀ before entry after, s.history = before ++ entry :: after →
      ∀ r, entry.2.receipt? = some r →
        r.alertHash = entry.1.digest 0 ∧
          ∃ last, (registrations before).getLast? = some last ∧ r.modelHash = last.digest 0) ∧
    ∀ inv, (∀ st, s.world.object = some st →
        ∃ st', (invoke crypto inv s.world).2.object = some st' ∧ st'.key = st.key) ∧
      ((invoke crypto inv s.world).1.result ≠ .success →
        (invoke crypto inv s.world).2.object = s.world.object ∨
        (s.world.object = none ∧
          ∃ key, (invoke crypto inv s.world).2.object = some (initialState key))) := by
  intro s receipts
  have hlen : receipts.length = appendSuccesses s.history := (appendSuccesses_eq choices invs).symm
  have hshort : receipts.length < 2 ^ 64 := by rw [hlen]; exact hcount
  have hstored : Stored crypto s.world.object receipts := run_stored choices invs hshort
  refine ⟨⟨?_, hlen⟩, ?_, ?_, fun before entry after hsplit hr => ?_,
    run_receipt_digests choices invs, ?_⟩
  · rw [← hlen]
    cases ho : s.world.object with
    | none =>
      rw [ho] at hstored
      rw [show receipts = [] from hstored]
      rfl
    | some st =>
      rw [ho] at hstored
      change st.sequence.toNat = _
      rw [EndsChain.sequence hstored, UInt64.toNat_ofNat_of_lt' hshort]
  · intro st ho
    rw [ho] at hstored
    have hchain : EndsChain crypto st receipts := hstored
    refine ⟨?_, ?_, ?_⟩
    · intro i hi
      obtain ⟨hseq, hprev, -, hhead⟩ := hchain.issued.getElem i hi
      have hnat : receipts[i].sequence.toNat = i + 1 := by
        rw [hseq, Nat.zero_add]
        exact UInt64.toNat_ofNat_of_lt' (show i + 1 < 2 ^ 64 by omega)
      refine ⟨hnat, hprev.trans (headOf_eq hi.le).symm, ?_⟩
      rw [hhead, hmacMessage_eq, hnat, auditMessage, domain]
    · rw [hchain.head, headOf_eq le_rfl, List.take_length]
    · intro r hr
      obtain ⟨i, hi, rfl⟩ := List.getElem_of_mem hr
      exact (hchain.issued.getElem i hi).2.2.1
  · intro ho
    rw [ho] at hstored
    exact hstored
  · obtain ⟨r, hreceipt⟩ := Option.isSome_iff_exists.mp hr
    obtain ⟨-, last, hlast, -⟩ := run_receipt_digests choices invs before entry after hsplit r
      hreceipt
    exact exists_registerSuccess hlast
  · intro inv
    have hstep := invoke_step crypto inv s.world
    refine ⟨fun st ho => ?_, fun hfail => hstep.failure_kept hfail⟩
    rw [ho] at hstep
    exact hstep.key_kept

def faultless : Choice := ⟨none, none, .zero, stateSize, 32⟩

def hashMemref (d : Digest) : Memref := ⟨d.bytes, 32⟩
def emptyMemref : Memref := ⟨[], 0⟩

def registerInvocation (model : Digest) : Invocation where
  command := cmdRegisterModel
  parameterTypes := paramTypes paramTypeMemrefInput paramTypeNone paramTypeNone paramTypeNone
  parameters := ![hashMemref model, emptyMemref, emptyMemref, emptyMemref]

def appendInvocation (alert : Digest) : Invocation where
  command := cmdAppendAlert
  parameterTypes :=
    paramTypes paramTypeMemrefInput paramTypeMemrefOutput paramTypeNone paramTypeNone
  parameters := ![hashMemref alert, ⟨List.replicate receiptSize 0, receiptSize⟩, emptyMemref,
    emptyMemref]

theorem audit_ta_contract_two_appends :
    let invs := [registerInvocation .zero, appendInvocation .zero, appendInvocation .zero]
    let s := run .standard (fun _ => faultless) invs
    appendSuccesses s.history = 2 ∧ storedSequence s.world.object = appendSuccesses s.history :=
  ⟨by decide, (audit_ta_contract .standard (fun _ => faultless) _ (by decide)).1.1⟩

end Cote3Mon.AuditTa
