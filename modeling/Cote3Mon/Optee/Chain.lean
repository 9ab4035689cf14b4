import Cote3Mon.Optee.Processes

namespace Cote3Mon.Optee
open ByteText Python AuditTa MacChain

variable {rt : Runtime} {crypto : Crypto} {m : Machine}

theorem step_verify {r : AuditTa.Receipt} {o o' : Option AuditState} {out : Outcome}
    (h : CommandStep crypto (verifyInvocation r) o out o') (hresult : out.result = .success) :
    ∃ st, Loaded o st ∧ o' = some st ∧ crypto.hmac st.key.bytes
      (hmacMessage r.sequence r.previousHead r.alertHash r.modelHash) = r.head := by
  cases h with
  | failed hfail => exact absurd hresult hfail.1
  | registered hcmd => exact absurd hcmd (show cmdVerify ≠ cmdRegisterModel by decide)
  | appended hcmd => exact absurd hcmd (show cmdVerify ≠ cmdAppendAlert by decide)
  | headRead hcmd => exact absurd hcmd (show cmdVerify ≠ cmdGetHead by decide)
  | @verified st r' _ hl hr hmac =>
    obtain rfl : r' = r := hr.trans r.ofBytes_toBytes
    exact ⟨st, hl, rfl, hmac⟩

theorem step_head {o o' : Option AuditState} {out : Outcome}
    (h : CommandStep crypto headInvocation o out o') (hresult : out.result = .success) :
    ∃ st, Loaded o st ∧ o' = some st ∧
      out.output = .head ⟨st.sequence, st.modelHash, st.head⟩ := by
  cases h with
  | failed hfail => exact absurd hresult hfail.1
  | registered hcmd => exact absurd hcmd (show cmdGetHead ≠ cmdRegisterModel by decide)
  | appended hcmd => exact absurd hcmd (show cmdGetHead ≠ cmdAppendAlert by decide)
  | @headRead st _ hl => exact ⟨st, hl, rfl, rfl⟩
  | verified hcmd => exact absurd hcmd (show cmdGetHead ≠ cmdVerify by decide)

theorem step_register {model : Digest} {o o' : Option AuditState} {out : Outcome}
    (h : CommandStep crypto (registerInvocation model) o out o') (hresult : out.result = .success) :
    ∃ st, Loaded o st ∧ o' = some (register st model) := by
  cases h with
  | failed hfail => exact absurd hresult hfail.1
  | @registered st model' _ hl hmodel =>
    obtain rfl : model' = model := hmodel.trans (read_hashMemref model)
    exact ⟨st, hl, rfl⟩
  | appended hcmd => exact absurd hcmd (show cmdRegisterModel ≠ cmdAppendAlert by decide)
  | headRead hcmd => exact absurd hcmd (show cmdRegisterModel ≠ cmdGetHead by decide)
  | verified hcmd => exact absurd hcmd (show cmdRegisterModel ≠ cmdVerify by decide)

theorem step_append {alert : Digest} {o o' : Option AuditState} {out : Outcome}
    (h : CommandStep crypto (appendInvocation alert) o out o') (hresult : out.result = .success) :
    ∃ st, o = some st ∧ o' = some (advance st (AuditTa.issue crypto st alert)) ∧
      out.output = .receipt (AuditTa.issue crypto st alert) := by
  cases h with
  | failed hfail => exact absurd hresult hfail.1
  | registered hcmd => exact absurd hcmd (show cmdAppendAlert ≠ cmdRegisterModel by decide)
  | @appended st alert' _ ho _ halert =>
    obtain rfl : alert' = alert := halert.trans (read_hashMemref alert)
    exact ⟨st, ho, rfl, rfl⟩
  | headRead hcmd => exact absurd hcmd (show cmdAppendAlert ≠ cmdGetHead by decide)
  | verified hcmd => exact absurd hcmd (show cmdAppendAlert ≠ cmdVerify by decide)

def Printed (rt : Runtime) (crypto : Crypto) (entry : Json × Json) (r : AuditTa.Receipt) : Prop :=
  ∃ c, canonicalJson rt entry.1 = .ok c ∧ r.alertHash = crypto.sha256 c ∧
    entry.2 = .obj (receiptDict r)

/-- A registration keeps the chain, whatever becomes of it. -/
theorem registerModel_stored {receipts : List AuditTa.Receipt} (readBytes : Except Exc Bytes)
    (h : Stored crypto m.tee.object receipts) (hcount : receipts.length < 2 ^ 64) :
    Stored crypto (registerModel crypto readBytes m).2.tee.object receipts := by
  unfold registerModel
  rw [Exec.bind_apply, Exec.lift_apply]
  cases readBytes with
  | error e => exact h
  | ok payload =>
    rw [Exec.next_ok, Exec.bind_apply, runClient_register]
    have hobject : ∀ out : Except Exc Text × Machine,
        (Exec.next (fun _ => (pure (crypto.sha256 payload).hex : Backend Text)) out).2 = out.2 := by
      rintro ⟨_ | _, _⟩ <;> rfl
    rw [hobject]
    rcases process_step crypto (registerInvocation (crypto.sha256 payload)) (fun _ => []) m with
      ⟨e, -, hsame⟩ | ⟨out, hstep, -⟩
    · rw [hsame]
      exact h
    · have hnone : out.receipt? = none := by
        have hiff := hstep.receipt_iff
        cases hr : out.receipt? with
        | none => rfl
        | some r =>
          exact absurd (hiff.mp (by simp [hr])).1 (show cmdRegisterModel ≠ cmdAppendAlert by decide)
      simpa [hnone] using h.step hcount hstep

/-- An append fails and leaves the chain, or returns its next receipt. -/
theorem append_stored (rt : Runtime) {receipts : List AuditTa.Receipt} (alert : Json)
    (h : Stored crypto m.tee.object receipts) (hcount : receipts.length < 2 ^ 64) :
    ((∃ e, (append rt crypto alert m).1 = .error e) ∧
        Stored crypto (append rt crypto alert m).2.tee.object receipts) ∨
      ∃ v r, (append rt crypto alert m).1 = .ok v ∧ Printed rt crypto (alert, v) r ∧
        Stored crypto (append rt crypto alert m).2.tee.object (receipts ++ [r]) := by
  unfold append
  rw [Exec.bind_apply, Exec.lift_apply]
  cases hc : canonicalJson rt alert with
  | error e => exact Or.inl ⟨⟨e, rfl⟩, h⟩
  | ok c =>
    rw [Exec.next_ok, Exec.bind_apply, runClient_append]
    rcases process_step crypto (appendInvocation (crypto.sha256 c)) printOutput m with
      ⟨e, he, hsame⟩ | ⟨out, hstep, hout⟩
    · left
      rcases hp : process crypto (appendInvocation (crypto.sha256 c)) printOutput m with ⟨r, m'⟩
      rw [hp] at he hsame
      obtain rfl : r = .error e := he
      rw [Exec.next_error]
      exact ⟨⟨e, rfl⟩, by rw [hsame]; exact h⟩
    · rcases hp : process crypto (appendInvocation (crypto.sha256 c)) printOutput m with ⟨r, m'⟩
      rw [hp] at hout hstep
      have hnext := h.step hcount hstep
      by_cases hresult : out.result = .success
      · right
        obtain ⟨st, ho, ho', houtput⟩ := step_append hstep hresult
        rw [if_pos hresult, houtput] at hout
        obtain rfl : r = _ := hout
        rw [Exec.next_ok, Exec.lift_apply, printOutput, loads_printReceipt]
        refine ⟨_, _, rfl, ⟨c, hc, rfl, rfl⟩, ?_⟩
        have hreceipt : out.receipt? = some (AuditTa.issue crypto st (crypto.sha256 c)) := by
          rw [Outcome.receipt?, houtput]
        simpa [hreceipt] using hnext
      · left
        rw [if_neg hresult] at hout
        obtain rfl : r = _ := hout
        rw [Exec.next_error]
        refine ⟨⟨_, rfl⟩, ?_⟩
        have hnone : out.receipt? = none := by
          have hiff := hstep.receipt_iff
          cases hr : out.receipt? with
          | none => rfl
          | some r => exact absurd (hiff.mp (by simp [hr])).2 hresult
        simpa [hnone] using hnext

theorem run_append_singleton (machine : Machine) (calls : List Call) (c : Call) :
    run rt crypto machine (calls ++ [c]) = (run rt crypto machine calls).step rt crypto c := by
  simp [run]

theorem issued_step (r : Run) (c : Call) :
    (r.step rt crypto c).issued =
      r.issued ++ (issue? (c, (call rt crypto c r.machine).1)).toList := by
  rw [Run.issued, Run.step, List.filterMap_append, Run.issued, List.filterMap_cons]
  cases issue? (c, (call rt crypto c r.machine).1) with
  | none => rfl
  | some entry => rfl

/-- The stored object is the end of a chain, and the returned receipts are its receipts. -/
def Anchored (rt : Runtime) (crypto : Crypto) (o : Option AuditState)
    (entries : List (Json × Json)) (receipts : List AuditTa.Receipt) : Prop :=
  Stored crypto o receipts ∧ List.Forall₂ (Printed rt crypto) entries receipts

theorem Anchored.length {o : Option AuditState} {entries : List (Json × Json)}
    {receipts : List AuditTa.Receipt} (h : Anchored rt crypto o entries receipts) :
    entries.length = receipts.length := h.2.length_eq

theorem Anchored.step {entries : List (Json × Json)} {receipts : List AuditTa.Receipt}
    (h : Anchored rt crypto m.tee.object entries receipts) (hcount : receipts.length < 2 ^ 64)
    (c : Call) : ∃ receipts', Anchored rt crypto (call rt crypto c m).2.tee.object
      (entries ++ (issue? (c, (call rt crypto c m).1)).toList) receipts' := by
  cases c with
  | registerModel readBytes =>
    have hstored := registerModel_stored readBytes h.1 hcount
    refine ⟨receipts, ?_, ?_⟩
    · rw [call, Exec.bind_apply]
      rcases hr : registerModel crypto readBytes m with ⟨_ | _, m'⟩ <;>
      · rw [hr] at hstored
        exact hstored
    · simpa [issue?] using h.2
  | append alert =>
    rw [call, Exec.bind_apply]
    rcases append_stored rt alert h.1 hcount with
      ⟨⟨e, he⟩, hstored⟩ | ⟨v, r, hv, hprinted, hstored⟩
    · rcases ha : append rt crypto alert m with ⟨out, m'⟩
      rw [ha] at he hstored
      obtain rfl : out = .error e := he
      exact ⟨receipts, hstored, by simpa [issue?] using h.2⟩
    · rcases ha : append rt crypto alert m with ⟨out, m'⟩
      rw [ha] at hv hstored
      obtain rfl : out = .ok v := hv
      refine ⟨receipts ++ [r], hstored, ?_⟩
      exact List.rel_append h.2 (.cons hprinted .nil)

theorem run_anchored {machine : Machine} (hempty : machine.tee.object = none) (calls : List Call)
    (hcount : (run rt crypto machine calls).issued.length < 2 ^ 64) :
    ∃ receipts, Anchored rt crypto (run rt crypto machine calls).machine.tee.object
      (run rt crypto machine calls).issued receipts := by
  induction calls using List.reverseRecOn with
  | nil => exact ⟨[], by rw [run, List.foldl_nil, hempty]; rfl, .nil⟩
  | append_singleton calls c ih =>
    rw [run_append_singleton] at hcount ⊢
    rw [issued_step] at hcount ⊢
    have hshort : (run rt crypto machine calls).issued.length < 2 ^ 64 := by
      rw [List.length_append] at hcount
      omega
    obtain ⟨receipts, h⟩ := ih hshort
    exact h.step (h.length ▸ hshort) c

/-- The record of a printed receipt shows what the TA issued. -/
theorem shows_record {entry : Json × Json} {key model : Digest} {n : ℕ} {p : Digest}
    {r : AuditTa.Receipt} {rs : List AuditTa.Receipt} (hprinted : Printed rt crypto entry r)
    (hissued : Issued crypto key model n p (r :: rs)) (hlt : n + 1 < 2 ^ 64) :
    ∃ c, shows rt (record entry) = some (shown crypto.sha256 n p c model r.head) ∧
      r.head = crypto.hmac key.bytes (chainMessage (n + 1) p ⟨crypto.sha256 c, model⟩) := by
  obtain ⟨alert, v⟩ := entry
  obtain ⟨c, hc, halert, rfl⟩ := hprinted
  obtain ⟨hseq, hprev, hmodel, hhead, -⟩ := hissued
  have hnat : r.sequence.toNat = n + 1 := by
    rw [hseq]
    exact UInt64.toNat_ofNat_of_lt' hlt
  have hitem : (receiptDict r).item "sequence" = .ok (.int r.sequence.toNat) := rfl
  have hint : rt.int (.int r.sequence.toNat) = .ok (n + 1 : ℕ) := by rw [Runtime.int, hnat]
  have hprevious : hexField rt (receiptDict r) "previous_head" = .ok p.bytes :=
    hprev ▸ hexField_str rfl
  have halertHash : hexField rt (receiptDict r) "alert_hash" = .ok (crypto.sha256 c).bytes :=
    halert ▸ hexField_str rfl
  have hmodelHash : hexField rt (receiptDict r) "model_hash" = .ok model.bytes :=
    hmodel ▸ hexField_str rfl
  have hheadField : hexField rt (receiptDict r) "head" = .ok r.head.bytes := hexField_str rfl
  have hmessage : hmacMessage r.sequence r.previousHead r.alertHash r.modelHash =
      chainMessage (n + 1) p ⟨crypto.sha256 c, model⟩ := by
    rw [hmacMessage_eq, hnat, hprev, halert, hmodel]
    rfl
  refine ⟨c, ?_, hhead.trans (by rw [hmessage])⟩
  exact shows_eq rfl rfl hc hitem hint hprevious halertHash hmodelHash hheadField

theorem authentic_record {entries : List (Json × Json)} {key model : Digest} {n : ℕ}
    {p : Digest} {receipts : List AuditTa.Receipt}
    (hprinted : List.Forall₂ (Printed rt crypto) entries receipts)
    (hissued : Issued crypto key model n p receipts) (hlt : n + receipts.length < 2 ^ 64) :
    Authentic (shows rt) crypto.sha256 (crypto.hmac key.bytes) n p (entries.map record)
      (lastHead p receipts) := by
  induction hprinted generalizing n p with
  | nil => exact .nil n p
  | @cons entry r entries receipts hp hrest ih =>
    rw [List.length_cons] at hlt
    obtain ⟨c, hshows, hhead⟩ := shows_record hp hissued (by omega)
    exact .cons c model r.head hshows hhead (ih hissued.2.2.2.2 (by omega))

end Cote3Mon.Optee
