import Cote3Mon.AuditTa.Chain

namespace Cote3Mon.AuditTa
open ByteText CallProg

-- `TA_FLAGS` asks for neither a single instance nor a lock, so every session runs the same commands
-- in a TA instance of its own, and one storage call of one session is the unit of interleaving.

/-- A command under way: what is left of it.  `known` only records what its own calls have
shown it of the stored object. -/
structure Running where
  inv : Invocation
  rest : CallProg Call Reply Outcome
  known : Ghost

/-- The shared storage, the sessions with a command under way, and the receipts returned
with `TEE_SUCCESS`, in the order of the returns. -/
structure System where
  object : Option AuditState
  sessions : ℕ → Option Running
  receipts : List Receipt

def System.start : System := ⟨none, fun _ => none, []⟩

inductive Action where
  | begin (session : ℕ) (inv : Invocation)
  | call (session : ℕ) (choice : Choice)

/-- What is known after a call has been answered. -/
def Ghost.after (v : Ghost) : (c : Call) → Reply c → Ghost
  | .openPersistentObject, (r : TeeResult) =>
    if r = .errorItemNotFound then { v with view := .absent } else v
  | .readObjectData, (r : ReadReply) =>
    if r.result = .success ∧ r.count = stateSize then { v with view := .content r.data } else v
  | .createPersistentObject s, (r : TeeResult) => if r = .success then v.write s else v
  | _, _ => v

def System.settle (s : System) (session : ℕ) (running : Running) : System :=
  match running.rest with
  | .done out =>
    { s with
      sessions := Function.update s.sessions session none
      receipts := s.receipts ++ out.receipt?.toList }
  | .call _ _ => { s with sessions := Function.update s.sessions session (some running) }

def System.step (crypto : Crypto) (s : System) : Action → Option System
  | .begin session inv =>
    match s.sessions session with
    | some _ => none
    | none => some (s.settle session ⟨inv, entryPoint inv, .start⟩)
  | .call session choice =>
    match s.sessions session with
    | none => none
    | some running =>
      match running.rest with
      | .done _ => none
      | .call c next =>
        let a := answer crypto running.inv.parameters choice s.object c
        some ({ s with object := a.2 }.settle session
          ⟨running.inv, next a.1, running.known.after c a.1⟩)

def System.run (crypto : Crypto) (s : System) : List Action → Option System
  | [] => some s
  | a :: as => (s.step crypto a).bind fun s' => s'.run crypto as

def Receipt.Verifies (crypto : Crypto) (key : Digest) (r : Receipt) : Prop :=
  crypto.hmac key.bytes (hmacMessage r.sequence r.previousHead r.alertHash r.modelHash) = r.head

/-- The returned receipts form one chain that ends in the stored object. -/
structure OneChain (crypto : Crypto) (s : System) : Prop where
  distinct : s.receipts.Pairwise fun r r' => r.sequence ≠ r'.sequence
  linked : ∀ r ∈ s.receipts, (r.sequence = 1 ∧ r.previousHead = .zero) ∨
    ∃ q ∈ s.receipts, q.sequence.toNat + 1 = r.sequence.toNat ∧ r.previousHead = q.head
  counted : storedSequence s.object = s.receipts.length
  verifies : ∀ r ∈ s.receipts, ∃ st, s.object = some st ∧ r.Verifies crypto st.key

/-- The stored object is what the session last saw. -/
def fresh (object : Option AuditState) : View → Bool
  | .unknown => false
  | .absent => object.isNone
  | .content st => decide (object = some st)

/-- If the action is a `TEE_CreatePersistentObject`, then the stored object is still the one
that the command's own `load_state` found. -/
def freshAction (s : System) : Action → Bool
  | .begin _ _ => true
  | .call session _ =>
    match s.sessions session with
    | none => true
    | some running =>
      match running.rest with
      | .call (.createPersistentObject _) _ => fresh s.object running.known.view
      | _ => true

/-- No save of one session lands between the load and the save of another. -/
def undisturbed (crypto : Crypto) (s : System) : List Action → Bool
  | [] => true
  | a :: as =>
    freshAction s a &&
      match s.step crypto a with
      | none => true
      | some s' => undisturbed crypto s' as

variable {crypto : Crypto}

theorem answer_learns (crypto : Crypto) (parameters : Fin 4 → Memref) (choice : Choice)
    (object : Option AuditState) (v : Ghost) (c : Call) :
    learns crypto parameters v c (answer crypto parameters choice object c).1
      (v.after c (answer crypto parameters choice object c).1) := by
  cases c with
  | macComputeFinal key message => exact ⟨rfl, fun _ _ => rfl⟩
  | readHash i offset => exact ⟨rfl, rfl⟩
  | readSequence i offset => exact ⟨rfl, rfl⟩
  | _ => rfl

/-- Every session is in the middle of a correct command, and has not saved yet. -/
structure Consistent (crypto : Crypto) (s : System) : Prop where
  stored : Stored crypto s.object s.receipts
  running : ∀ session r, s.sessions session = some r →
    r.rest.Always (may crypto) (learns crypto r.inv.parameters) (Finished crypto r.inv) r.known ∧
      r.known.saved = none

theorem consistent_start : Consistent crypto .start := ⟨rfl, nofun⟩

theorem Finished.receipt?_eq_none {inv : Invocation} {out : Outcome} {v : Ghost}
    (h : Finished crypto inv out v) (hv : v.saved = none) : out.receipt? = none := by
  cases h with
  | failed hfail => exact hfail.receipt?_eq_none
  | registered _ _ _ hsaved => exact absurd (hsaved.symm.trans hv) nofun
  | appended _ _ _ hsaved => exact absurd (hsaved.symm.trans hv) nofun
  | headRead => rfl
  | verified => rfl

/-- What a session's save of `s` on `st` adds to the chain is what its command returns. -/
theorem Finished.saved {inv : Invocation} {out : Outcome} {v : Ghost} {st s : AuditState}
    {receipts : List Receipt} (h : Finished crypto inv out v) (hv : v.saved = some (st, s))
    (hchain : EndsChain crypto st receipts) (hcount : receipts.length < 2 ^ 64) :
    EndsChain crypto s (receipts ++ out.receipt?.toList) := by
  cases h with
  | failed _ hsaved => exact absurd (hsaved.symm.trans hv) nofun
  | registered _ _ hok hsaved =>
    obtain ⟨rfl, rfl⟩ := Prod.mk.inj (Option.some.inj (hsaved.symm.trans hv))
    simpa using hchain.register hcount hok
  | appended _ _ _ hsaved =>
    obtain ⟨rfl, rfl⟩ := Prod.mk.inj (Option.some.inj (hsaved.symm.trans hv))
    exact hchain.advance _
  | headRead _ hsaved => exact absurd (hsaved.symm.trans hv) nofun
  | verified _ hsaved => exact absurd (hsaved.symm.trans hv) nofun

/-- A session that has not saved goes on, or returns without a receipt. -/
theorem Consistent.settle {s : System} (h : Consistent crypto s) {session : ℕ} {r : Running}
    (hr : r.rest.Always (may crypto) (learns crypto r.inv.parameters) (Finished crypto r.inv)
      r.known) (hsaved : r.known.saved = none) : Consistent crypto (s.settle session r) := by
  unfold System.settle
  split
  · rename_i out hrest
    rw [hrest] at hr
    have hnone : out.receipt? = none := Finished.receipt?_eq_none hr hsaved
    refine ⟨by simpa [hnone] using h.stored, ?_⟩
    intro id r' hid
    by_cases he : id = session
    · simp [he] at hid
    · exact h.running id r' (by simpa [Function.update_of_ne he] using hid)
  · refine ⟨h.stored, ?_⟩
    intro id r' hid
    by_cases he : id = session
    · subst he
      obtain rfl : r = r' := by simpa using hid
      exact ⟨hr, hsaved⟩
    · exact h.running id r' (by simpa [Function.update_of_ne he] using hid)

/-- A command makes no call after its save: it returns, and its receipt is the chain's next. -/
theorem Consistent.finish {s : System} (h : Consistent crypto s) {session : ℕ} {r : Running}
    {st data : AuditState} (hobject : s.object = some st) (hcount : s.receipts.length < 2 ^ 64)
    (hr : r.rest.Always (may crypto) (learns crypto r.inv.parameters) (Finished crypto r.inv)
      r.known) (hsaved : r.known.saved = some (st, data)) :
    Consistent crypto ({ s with object := some data }.settle session r) := by
  unfold System.settle
  split
  · rename_i out hrest
    rw [hrest] at hr
    have hchain : EndsChain crypto st s.receipts := by simpa [hobject] using h.stored
    refine ⟨Finished.saved hr hsaved hchain hcount, ?_⟩
    intro id r' hid
    by_cases he : id = session
    · simp [he] at hid
    · exact h.running id r' (by simpa [Function.update_of_ne he] using hid)
  · rename_i c next hrest
    rw [hrest] at hr
    exact absurd (hsaved.symm.trans hr.1.1) nofun

/-- Only a successful create changes the object. -/
theorem answer_object (crypto : Crypto) (parameters : Fin 4 → Memref) (choice : Choice)
    (object : Option AuditState) (v : Ghost) (c : Call) :
    ((answer crypto parameters choice object c).2 = object ∧
        (v.after c (answer crypto parameters choice object c).1).saved = v.saved) ∨
      ∃ data, c = .createPersistentObject data ∧
        (answer crypto parameters choice object c).2 = some data ∧
        v.after c (answer crypto parameters choice object c).1 = v.write data := by
  cases c with
  | createPersistentObject data =>
    by_cases hs : choice.result = .success
    · exact Or.inr ⟨data, rfl, by simp [answer, hs], by simp [Ghost.after, answer, hs]⟩
    · exact Or.inl ⟨by simp [answer, hs], by simp [Ghost.after, answer, hs]⟩
  | openPersistentObject =>
    refine Or.inl ⟨rfl, ?_⟩
    simp only [Ghost.after]
    split_ifs <;> rfl
  | readObjectData =>
    refine Or.inl ⟨rfl, ?_⟩
    simp only [Ghost.after]
    split_ifs <;> rfl
  | _ => exact Or.inl ⟨rfl, rfl⟩

theorem Consistent.step {s s' : System} {a : Action} (h : Consistent crypto s)
    (hfresh : freshAction s a) (hcount : s.receipts.length < 2 ^ 64)
    (hstep : s.step crypto a = some s') : Consistent crypto s' := by
  cases a with
  | begin session inv =>
    cases hsession : s.sessions session with
    | some r => simp [System.step, hsession] at hstep
    | none =>
      obtain rfl : s.settle session ⟨inv, entryPoint inv, .start⟩ = s' := by
        simpa [System.step, hsession] using hstep
      exact h.settle (entryPoint_finishes crypto inv rfl) rfl
  | call session choice =>
    cases hsession : s.sessions session with
    | none => simp [System.step, hsession] at hstep
    | some r =>
      obtain ⟨hr, hsaved⟩ := h.running session r hsession
      cases hrest : r.rest with
      | done out => simp [System.step, hsession, hrest] at hstep
      | call c next =>
        rw [hrest] at hr
        obtain ⟨hmay, hnext⟩ := hr
        have hlearn := answer_learns crypto r.inv.parameters choice s.object r.known c
        have hcase := answer_object crypto r.inv.parameters choice s.object r.known c
        have hrun := hnext _ _ hlearn
        have hs' : s' = System.settle
            { s with object := (answer crypto r.inv.parameters choice s.object c).2 } session
            ⟨r.inv, next (answer crypto r.inv.parameters choice s.object c).1,
              r.known.after c (answer crypto r.inv.parameters choice s.object c).1⟩ := by
          simpa [System.step, hsession, hrest] using hstep.symm
        subst hs'
        rcases hcase with ⟨hobject, hkept⟩ | ⟨data, rfl, hobject, hwrite⟩
        · rw [hobject]
          exact h.settle hrun (hkept.trans hsaved)
        · have hf : fresh s.object r.known.view := by
            simpa only [freshAction, hsession, hrest] using hfresh
          obtain ⟨-, ⟨hview, key, rfl⟩ | ⟨st, hview, -⟩⟩ := hmay
          · -- the first command of all creates the object
            have hnone : s.object = none := by simpa [hview, fresh] using hf
            have hempty : s.receipts = [] := by simpa [hnone, Stored] using h.stored
            have hcreated : Consistent crypto { s with object := some (initialState key) } :=
              ⟨by simpa [hempty] using endsChain_initial key, h.running⟩
            rw [hobject]
            exact hcreated.settle hrun (by rw [hwrite]; simp [Ghost.write, hview, hsaved])
          · have hsome : s.object = some st := by simpa [hview, fresh] using hf
            rw [hobject]
            exact h.finish hsome hcount hrun (by rw [hwrite]; simp [Ghost.write, hview])

/-- A step never takes a returned receipt back. -/
theorem step_receipts_length {s s' : System} {a : Action} (hstep : s.step crypto a = some s') :
    s.receipts.length ≤ s'.receipts.length := by
  have hsettle : ∀ (t : System) (session : ℕ) (r : Running),
      t.receipts.length ≤ (t.settle session r).receipts.length := by
    intro t session r
    unfold System.settle
    split
    · simp
    · exact le_rfl
  cases a with
  | begin session inv =>
    simp only [System.step] at hstep
    split at hstep
    · cases hstep
    · obtain rfl := Option.some.inj hstep
      exact hsettle s _ _
  | call session choice =>
    simp only [System.step] at hstep
    split at hstep
    · cases hstep
    · split at hstep
      · cases hstep
      · rename_i r _ _ c next _
        obtain rfl := Option.some.inj hstep
        exact hsettle ⟨(answer crypto r.inv.parameters choice s.object c).2, s.sessions, s.receipts⟩
          session _

theorem run_receipts_length {s s' : System} {as : List Action}
    (hrun : s.run crypto as = some s') : s.receipts.length ≤ s'.receipts.length := by
  induction as generalizing s with
  | nil => rw [Option.some.inj hrun]
  | cons a as ih =>
    obtain ⟨t, hstep, hrest⟩ := Option.bind_eq_some_iff.mp hrun
    exact (step_receipts_length hstep).trans (ih hrest)

/-- The run lemma: undisturbed saves keep every session consistent. -/
theorem Consistent.run {s s' : System} {as : List Action} (h : Consistent crypto s)
    (hundisturbed : undisturbed crypto s as) (hrun : s.run crypto as = some s')
    (hcount : s'.receipts.length < 2 ^ 64) : Consistent crypto s' := by
  induction as generalizing s with
  | nil => rwa [← Option.some.inj hrun]
  | cons a as ih =>
    obtain ⟨t, hstep, hrest⟩ := Option.bind_eq_some_iff.mp hrun
    have hlen : s.receipts.length < 2 ^ 64 :=
      ((step_receipts_length hstep).trans (run_receipts_length hrest)).trans_lt hcount
    simp only [undisturbed, hstep, Bool.and_eq_true] at hundisturbed
    exact ih (h.step hundisturbed.1 hlen hstep) hundisturbed.2 hrest

theorem Stored.oneChain {s : System} (h : Stored crypto s.object s.receipts)
    (hcount : s.receipts.length < 2 ^ 64) : OneChain crypto s := by
  cases ho : s.object with
  | none =>
    have hempty : s.receipts = [] := by simpa [ho, Stored] using h
    exact ⟨by simp [hempty], by simp [hempty], by simp [ho, hempty, storedSequence],
      by simp [hempty]⟩
  | some st =>
    have hchain : EndsChain crypto st s.receipts := by simpa [ho] using h
    have hseq : ∀ i (hi : i < s.receipts.length), s.receipts[i].sequence.toNat = i + 1 := by
      intro i hi
      rw [(hchain.issued.getElem i hi).1, Nat.zero_add]
      exact UInt64.toNat_ofNat_of_lt' (show i + 1 < 2 ^ 64 by omega)
    refine ⟨?_, ?_, ?_, ?_⟩
    · refine List.pairwise_iff_getElem.mpr fun i j hi hj hij he => ?_
      have hnat := congrArg UInt64.toNat he
      rw [hseq i hi, hseq j hj] at hnat
      omega
    · intro r hr
      obtain ⟨i, hi, rfl⟩ := List.getElem_of_mem hr
      obtain ⟨hs, hprev, -⟩ := hchain.issued.getElem i hi
      cases i with
      | zero => exact Or.inl ⟨hs, hprev⟩
      | succ i =>
        have hi' : i < s.receipts.length := by omega
        refine Or.inr ⟨s.receipts[i], List.getElem_mem hi', ?_, ?_⟩
        · rw [hseq i hi', hseq (i + 1) hi]
        · rw [hprev, lastHead_take i hi']
    · rw [ho, storedSequence, hchain.sequence]
      exact UInt64.toNat_ofNat_of_lt' hcount
    · intro r hr
      obtain ⟨i, hi, rfl⟩ := List.getElem_of_mem hr
      exact ⟨st, ho, ((hchain.issued.getElem i hi).2.2.2).symm⟩

/-- Any number of sessions, any interleaving: the receipts form one chain as long as every
save finds the object that its own command loaded. -/
theorem sessions_one_chain (crypto : Crypto) (as : List Action) (s : System)
    (hrun : System.start.run crypto as = some s) (hcount : s.receipts.length < 2 ^ 64)
    (hundisturbed : undisturbed crypto .start as) : OneChain crypto s :=
  (consistent_start.run hundisturbed hrun hcount).stored.oneChain hcount

/-- The next `n` calls of a session, none of which fails. -/
def calls (session n : ℕ) : List Action := List.replicate n (.call session faultless)

def inTurn : List Action :=
  .begin 0 (registerInvocation .zero) :: calls 0 5 ++ .begin 1 (appendInvocation .zero) ::
    calls 1 9 ++ .begin 2 (appendInvocation .zero) :: calls 2 9

theorem sessions_one_chain_inTurn : ∃ s, System.start.run .standard inTurn = some s ∧
    s.receipts.length = 2 ∧ OneChain .standard s := by
  have hcount : (System.start.run .standard inTurn).map (·.receipts.length) = some 2 := by
    decide +kernel
  obtain ⟨s, hrun, hlen⟩ := Option.map_eq_some_iff.mp hcount
  have hshort : s.receipts.length < 2 ^ 64 := by omega
  exact ⟨s, hrun, hlen, sessions_one_chain .standard inTurn s hrun hshort (by decide +kernel)⟩

/-- Two sessions load the same state before either saves. -/
def lostUpdate : List Action :=
  .begin 0 (registerInvocation .zero) :: calls 0 5 ++ .begin 1 (appendInvocation .zero) ::
    .begin 2 (appendInvocation .zero) :: calls 1 8 ++ calls 2 9 ++ calls 1 1

/-- Both appends succeed, and both receipts carry sequence 1. -/
theorem sessions_lose_an_append : ∃ s, System.start.run .standard lostUpdate = some s ∧
    s.receipts.map (·.sequence) = [1, 1] ∧ ¬ OneChain .standard s := by
  have hseq : (System.start.run .standard lostUpdate).map (·.receipts.map (·.sequence)) =
      some [1, 1] := by
    decide +kernel
  obtain ⟨s, hrun, hreceipts⟩ := Option.map_eq_some_iff.mp hseq
  refine ⟨s, hrun, hreceipts, fun hone => ?_⟩
  have hdistinct : (s.receipts.map (·.sequence)).Pairwise (· ≠ ·) :=
    List.pairwise_map.mpr hone.distinct
  rw [hreceipts] at hdistinct
  exact absurd hdistinct (by decide)

end Cote3Mon.AuditTa
