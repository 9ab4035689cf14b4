import Cote3Mon.AuditTa.Chain

namespace Cote3Mon.AuditTa
open ByteText CallProg

/-- The call succeeds and reports the sizes that the TA asked for. -/
structure Choice.Succeeds (ch : Choice) : Prop where
  openFailure : ch.openFailure = none
  failure : ch.failure = none
  readCount : ch.readCount = stateSize
  macSize : ch.macSize = 32

def World.Succeeds (w : World) : Prop := ∀ n, (w.choices n).Succeeds

theorem faultless_succeeds : Choice.Succeeds faultless := ⟨rfl, rfl, rfl, rfl⟩

theorem Choice.Succeeds.result {ch : Choice} (h : ch.Succeeds) : ch.result = .success := by
  rw [Choice.result, h.failure]

variable {crypto : Crypto} {parameters : Fin 4 → Memref} {w : World}

theorem handle_succeeds (crypto : Crypto) (parameters : Fin 4 → Memref) (h : w.Succeeds) (c : Call) :
    (handle crypto parameters c w).2.Succeeds := fun n => h (n + 1)

/-- The function returns `a` and leaves the object `o`. -/
def Yields (crypto : Crypto) (parameters : Fin 4 → Memref) {α : Type} (p : Ta α) (w : World)
    (a : α) (o : Option AuditState) : Prop :=
  ∃ w', p.run.run (handle crypto parameters) w = (.ok a, w') ∧ w'.Succeeds ∧ w'.object = o

/-- Sequencing, when the world after the first function is known. -/
theorem yields_run_bind {α β : Type} {p : Ta α} {f : α → Ta β} {a : α} {b : β} {w' : World}
    {o : Option AuditState} (hp : p.run.run (handle crypto parameters) w = (.ok a, w'))
    (hf : Yields crypto parameters (f a) w' b o) : Yields crypto parameters (p >>= f) w b o := by
  obtain ⟨w2, hrun, hsucceeds, hobject⟩ := hf
  refine ⟨w2, ?_, hsucceeds, hobject⟩
  rw [ExceptT.run_bind, run_bind, hp]
  exact hrun

theorem yields_bind {α β : Type} {p : Ta α} {f : α → Ta β} {a : α} {b : β}
    {o o' : Option AuditState} (hp : Yields crypto parameters p w a o)
    (hf : ∀ w', w'.Succeeds → w'.object = o → Yields crypto parameters (f a) w' b o') :
    Yields crypto parameters (p >>= f) w b o' := by
  obtain ⟨w', hrun, hsucceeds, hobject⟩ := hp
  exact yields_run_bind hrun (hf w' hsucceeds hobject)

theorem yields_pure {α : Type} (h : w.Succeeds) (a : α) :
    Yields crypto parameters (pure a) w a w.object := ⟨w, rfl, h, rfl⟩

theorem api_run (c : Call) : (api c).run.run (handle crypto parameters) w =
    (.ok (handle crypto parameters c w).1, (handle crypto parameters c w).2) := rfl

theorem yields_api (h : w.Succeeds) {c : Call} {r : Reply c} {o : Option AuditState}
    (hr : (handle crypto parameters c w).1 = r) (ho : (handle crypto parameters c w).2.object = o) :
    Yields crypto parameters (api c) w r o :=
  ⟨_, by rw [api_run, hr], handle_succeeds crypto parameters h c, ho⟩

theorem yields_check (h : w.Succeeds) : Yields crypto parameters (check .success) w () w.object :=
  yields_pure h ()

/-- A call that is checked right away. -/
theorem yields_checked {α : Type} {p : Ta TeeResult} {f : Unit → Ta α} {a : α}
    {o o' : Option AuditState} (hp : Yields crypto parameters p w .success o)
    (hf : ∀ w', w'.Succeeds → w'.object = o → Yields crypto parameters (f ()) w' a o') :
    Yields crypto parameters (p >>= fun r => check r >>= f) w a o' := by
  refine yields_bind hp fun w' hw ho => ?_
  subst ho
  exact yields_bind (yields_check hw) hf

theorem yields_prepare {p : Ta TeeResult} (h : w.Succeeds)
    (hp : p ∈ [allocateTransientObject, populateTransientObject, allocateOperation,
      setOperationKey]) : Yields crypto parameters p w .success w.object := by
  have hresult := (h 0).result
  simp only [List.mem_cons, List.not_mem_nil, or_false] at hp
  rcases hp with rfl | rfl | rfl | rfl <;> exact yields_api h hresult rfl

theorem yields_readHash (h : w.Succeeds) (i : Fin 4) (offset : ℕ) :
    Yields crypto parameters (readHash i offset) w (Digest.read (parameters i).buffer offset)
      w.object := yields_api h rfl rfl

theorem yields_readSequence (h : w.Succeeds) (i : Fin 4) (offset : ℕ) :
    Yields crypto parameters (readSequence i offset) w (readU64 (parameters i).buffer offset)
      w.object := yields_api h rfl rfl

theorem yields_saveState (h : w.Succeeds) (s : AuditState) :
    Yields crypto parameters (saveState s) w () (some s) := by
  have hcreate : Yields crypto parameters (createPersistentObject s) w .success (some s) :=
    yields_api h (h 0).result (by simp [handle, answer, (h 0).result])
  refine yields_bind hcreate fun w' hw ho => ?_
  rw [← ho]
  exact yields_check hw

/-- With a stored object `load_state` returns it. -/
theorem yields_loadState {st : AuditState} (h : w.Succeeds) (ho : w.object = some st)
    (hst : WellFormed st) : Yields crypto parameters loadState w st (some st) := by
  have hopen : Yields crypto parameters openPersistentObject w .success (some st) :=
    yields_api h (by simp [handle, answer, (h 0).openFailure, ho]) ho
  refine yields_bind hopen fun w1 hw1 ho1 => ?_
  rw [if_neg (by decide)]
  refine yields_bind (ho1 ▸ yields_check hw1) fun w2 hw2 ho2 => ?_
  have hread : Yields crypto parameters readObjectData w2 ⟨.success, stateSize, st⟩ (some st) :=
    yields_api hw2 (by simp [handle, answer, (hw2 0).result, (hw2 0).readCount, ho2]) ho2
  refine yields_bind hread fun w3 hw3 ho3 => ?_
  refine yields_bind (ho3 ▸ yields_check hw3) fun w4 hw4 ho4 => ?_
  rw [if_neg (by simp [hst.1, hst.2])]
  exact ho4 ▸ yields_pure hw4 st

/-- With no stored object `load_state` creates one. -/
theorem yields_loadState_none (crypto : Crypto) (parameters : Fin 4 → Memref) (h : w.Succeeds)
    (ho : w.object = none) :
    Yields crypto parameters loadState w (initialState (w.choices 1).random)
      (some (initialState (w.choices 1).random)) := by
  have hopen : (handle crypto parameters .openPersistentObject w).1 =
      TeeResult.errorItemNotFound := by
    simp [handle, answer, (h 0).openFailure, ho]
  have hw1 := handle_succeeds crypto parameters h .openPersistentObject
  refine yields_run_bind (api_run .openPersistentObject) ?_
  rw [if_pos hopen]
  refine yields_run_bind (api_run .generateRandom) ?_
  refine yields_bind (yields_saveState (handle_succeeds crypto parameters hw1 _) _) fun w2 hw2
    ho2 => ?_
  exact ho2 ▸ yields_pure hw2 _

def World.next (w : World) : AuditState := w.object.getD (initialState (w.choices 1).random)

theorem yields_next (crypto : Crypto) (parameters : Fin 4 → Memref) (h : w.Succeeds)
    (hst : WellFormed w.next) : Yields crypto parameters loadState w w.next (some w.next) := by
  unfold World.next at hst ⊢
  cases ho : w.object with
  | none => exact yields_loadState_none crypto parameters h ho
  | some st =>
    rw [ho] at hst
    exact yields_loadState h ho hst

/-- The function goes on as `q`, from a world with the object `o`. -/
def Leads (crypto : Crypto) (parameters : Fin 4 → Memref) {α : Type} (p : Ta α) (w : World)
    (q : Ta α) (o : Option AuditState) : Prop :=
  ∃ w', p.run.run (handle crypto parameters) w = q.run.run (handle crypto parameters) w' ∧
    w'.Succeeds ∧ w'.object = o

theorem leads_refl {α : Type} (h : w.Succeeds) (p : Ta α) :
    Leads crypto parameters p w p w.object := ⟨w, rfl, h, rfl⟩

/-- What was called first returns early. -/
theorem leads_throw {α β : Type} {p : Ta α} (f : α → Ta β) {out : Outcome} {o : Option AuditState}
    (hp : Leads crypto parameters p w (throw out) o) :
    Leads crypto parameters (p >>= f) w (throw out) o := by
  obtain ⟨w', hrun, hsucceeds, hobject⟩ := hp
  refine ⟨w', ?_, hsucceeds, hobject⟩
  rw [ExceptT.run_bind, run_bind, hrun]
  rfl

/-- What was called first returns. -/
theorem leads_bind {α β : Type} {p : Ta α} {f : α → Ta β} {q : Ta β} {a : α}
    {o o' : Option AuditState} (hp : Yields crypto parameters p w a o)
    (hf : ∀ w', w'.Succeeds → w'.object = o → Leads crypto parameters (f a) w' q o') :
    Leads crypto parameters (p >>= f) w q o' := by
  obtain ⟨w1, hrun, hsucceeds, hobject⟩ := hp
  obtain ⟨w2, hrun2, hsucceeds2, hobject2⟩ := hf w1 hsucceeds hobject
  refine ⟨w2, ?_, hsucceeds2, hobject2⟩
  rw [ExceptT.run_bind, run_bind, hrun]
  exact hrun2

/-- An object that `save_state` has not written is refused. -/
theorem leads_loadState_corrupt {st : AuditState} (h : w.Succeeds) (ho : w.object = some st)
    (hst : ¬ WellFormed st) :
    Leads crypto parameters loadState w (fail .errorCorruptObject) (some st) := by
  have hopen : Yields crypto parameters openPersistentObject w .success (some st) :=
    yields_api h (by simp [handle, answer, (h 0).openFailure, ho]) ho
  refine leads_bind hopen fun w1 hw1 ho1 => ?_
  rw [if_neg (by decide)]
  refine leads_bind (ho1 ▸ yields_check hw1) fun w2 hw2 ho2 => ?_
  have hread : Yields crypto parameters readObjectData w2 ⟨.success, stateSize, st⟩ (some st) :=
    yields_api hw2 (by simp [handle, answer, (hw2 0).result, (hw2 0).readCount, ho2]) ho2
  refine leads_bind hread fun w3 hw3 ho3 => ?_
  refine leads_bind (ho3 ▸ yields_check hw3) fun w4 hw4 ho4 => ?_
  have hcorrupt : stateSize ≠ stateSize ∨ st.magic ≠ stateMagic ∨ st.version ≠ stateVersion :=
    Or.inr (not_and_or.mp hst)
  rw [if_pos hcorrupt]
  exact ho4 ▸ leads_refl hw4 _

theorem yields_computeHmac (h : w.Succeeds) {st : AuditState} (sequence : UInt64)
    (previous alert model : Digest) :
    Yields crypto parameters (computeHmac st sequence previous alert model) w
      (crypto.hmac st.key.bytes (hmacMessage sequence previous alert model)) w.object := by
  refine yields_checked (yields_prepare h (by simp)) fun w1 hw1 ho1 => ?_
  refine yields_checked (yields_prepare hw1 (by simp)) fun w2 hw2 ho2 => ?_
  refine yields_checked (yields_prepare hw2 (by simp)) fun w3 hw3 ho3 => ?_
  refine yields_checked (yields_prepare hw3 (by simp)) fun w4 hw4 ho4 => ?_
  have hmac : Yields crypto parameters
      (macComputeFinal st.key (hmacMessage sequence previous alert model)) w4
      ⟨.success, crypto.hmac st.key.bytes (hmacMessage sequence previous alert model), 32⟩
      w4.object :=
    yields_api hw4 (by simp [handle, answer, (hw4 0).result, (hw4 0).macSize]) rfl
  refine yields_bind hmac fun w5 hw5 ho5 => ?_
  refine yields_bind (yields_check hw5) fun w6 hw6 ho6 => ?_
  rw [if_neg (by simp), ← ho1, ← ho2, ← ho3, ← ho4, ← ho5, ← ho6]
  exact yields_pure hw6 _

theorem invoke_of_yields {inv : Invocation} {out : Outcome} {o : Option AuditState}
    (h : Yields crypto inv.parameters (invokeCommand inv) w out o) :
    (invoke crypto inv w).1 = out ∧ (invoke crypto inv w).2.Succeeds ∧
      (invoke crypto inv w).2.object = o := by
  obtain ⟨w', hrun, hsucceeds, hobject⟩ := h
  have hinvoke : invoke crypto inv w = (out, w') := by
    rw [invoke, entryPoint, run_bind, hrun]
    rfl
  rw [hinvoke]
  exact ⟨rfl, hsucceeds, hobject⟩

/-- A command that returns early. -/
theorem invoke_of_leads {inv : Invocation} {out : Outcome} {o : Option AuditState}
    (h : Leads crypto inv.parameters (invokeCommand inv) w (throw out) o) :
    (invoke crypto inv w).1 = out ∧ (invoke crypto inv w).2.Succeeds ∧
      (invoke crypto inv w).2.object = o := by
  obtain ⟨w', hrun, hsucceeds, hobject⟩ := h
  have hinvoke : invoke crypto inv w = (out, w') := by
    rw [invoke, entryPoint, run_bind, hrun]
    rfl
  rw [hinvoke]
  exact ⟨rfl, hsucceeds, hobject⟩

theorem read_hashMemref (d : Digest) : Digest.read (hashMemref d).buffer 0 = d := by
  simpa [hashMemref] using Digest.read_append [] [] d

variable {st : AuditState}

/-- A model is registered as long as no alert has been appended, or if it is the same. -/
theorem invoke_register (model : Digest)
    (hload : Yields crypto (registerInvocation model).parameters loadState w st (some st))
    (hmay : st.sequence = 0 ∨ st.modelHash = model) :
    (invoke crypto (registerInvocation model) w).1 = ⟨.success, .none⟩ ∧
      (invoke crypto (registerInvocation model) w).2.Succeeds ∧
      (invoke crypto (registerInvocation model) w).2.object = some (register st model) := by
  have hmodel : Digest.read ((registerInvocation model).parameters 0).buffer 0 = model :=
    read_hashMemref model
  apply invoke_of_yields
  change Yields crypto _ (registerModel (registerInvocation model)) w _ _
  unfold registerModel
  rw [if_neg (by simp [registerInvocation, hashMemref])]
  refine yields_bind hload fun w1 hw1 ho1 => ?_
  have hcheck : Yields crypto (registerInvocation model).parameters (checkModel st) w1
      () w1.object := by
    unfold checkModel
    split_ifs with hseq
    · refine yields_bind (yields_readHash hw1 0 0) fun w2 hw2 ho2 => ?_
      rw [hmodel, if_neg (not_not.mpr (hmay.resolve_left hseq)), ← ho2]
      exact yields_pure hw2 ()
    · exact yields_pure hw1 ()
  refine yields_bind hcheck fun w2 hw2 _ => ?_
  refine yields_bind (yields_readHash hw2 0 0) fun w3 hw3 _ => ?_
  refine yields_bind (yields_saveState hw3 _) fun w4 hw4 ho4 => ?_
  rw [hmodel] at ho4
  rw [register, ← ho4]
  exact yields_pure hw4 _

/-- Another model is refused once an alert has been appended. -/
theorem invoke_register_conflict (model : Digest)
    (hload : Yields crypto (registerInvocation model).parameters loadState w st (some st))
    (hseq : st.sequence ≠ 0) (hmodel : st.modelHash ≠ model) :
    (invoke crypto (registerInvocation model) w).1 = ⟨.errorAccessConflict, .none⟩ ∧
      (invoke crypto (registerInvocation model) w).2.Succeeds ∧
      (invoke crypto (registerInvocation model) w).2.object = some st := by
  have hread : Digest.read ((registerInvocation model).parameters 0).buffer 0 = model :=
    read_hashMemref model
  apply invoke_of_leads
  change Leads crypto _ (registerModel (registerInvocation model)) w _ _
  unfold registerModel
  rw [if_neg (by simp [registerInvocation, hashMemref])]
  refine leads_bind hload fun w1 hw1 ho1 => ?_
  apply leads_throw
  unfold checkModel
  rw [if_pos hseq]
  refine leads_bind (yields_readHash hw1 0 0) fun w2 hw2 ho2 => ?_
  rw [hread, if_pos hmodel, ← ho1, ← ho2]
  exact leads_refl hw2 _

/-- No alert is appended before a model is registered. -/
theorem invoke_append_unregistered (alert : Digest)
    (hload : Yields crypto (appendInvocation alert).parameters loadState w st (some st))
    (hreg : st.modelRegistered = 0) :
    (invoke crypto (appendInvocation alert) w).1 = ⟨.errorBadState, .none⟩ ∧
      (invoke crypto (appendInvocation alert) w).2.Succeeds ∧
      (invoke crypto (appendInvocation alert) w).2.object = some st := by
  apply invoke_of_leads
  change Leads crypto _ (appendAlert (appendInvocation alert)) w _ _
  unfold appendAlert
  rw [if_neg (by simp [appendInvocation, hashMemref]), if_neg (by simp [appendInvocation])]
  refine leads_bind hload fun w1 hw1 ho1 => ?_
  rw [if_pos hreg, ← ho1]
  exact leads_refl hw1 _

/-- An alert is appended as soon as a model is registered. -/
theorem invoke_append (alert : Digest)
    (hload : Yields crypto (appendInvocation alert).parameters loadState w st (some st))
    (hreg : st.modelRegistered ≠ 0) :
    (invoke crypto (appendInvocation alert) w).1 = ⟨.success, .receipt (issue crypto st alert)⟩ ∧
      (invoke crypto (appendInvocation alert) w).2.Succeeds ∧
      (invoke crypto (appendInvocation alert) w).2.object =
        some (advance st (issue crypto st alert)) := by
  apply invoke_of_yields
  change Yields crypto _ (appendAlert (appendInvocation alert)) w _ _
  unfold appendAlert
  rw [if_neg (by simp [appendInvocation, hashMemref]), if_neg (by simp [appendInvocation])]
  refine yields_bind hload fun w1 hw1 ho1 => ?_
  rw [if_neg hreg]
  refine yields_bind (yields_readHash hw1 0 0) fun w2 hw2 _ => ?_
  have halert : Digest.read ((appendInvocation alert).parameters 0).buffer 0 = alert :=
    read_hashMemref alert
  rw [halert]
  refine yields_bind (yields_computeHmac hw2 _ _ _ _) fun w3 hw3 _ => ?_
  refine yields_bind (yields_saveState hw3 _) fun w4 hw4 ho4 => ?_
  change w4.object = some (advance st (issue crypto st alert)) at ho4
  rw [← ho4]
  exact yields_pure hw4 _

def headInvocation : Invocation where
  command := cmdGetHead
  parameterTypes := paramTypes paramTypeMemrefOutput paramTypeNone paramTypeNone paramTypeNone
  parameters := ![⟨List.replicate headSize 0, headSize⟩, emptyMemref, emptyMemref, emptyMemref]

def verifyInvocation (r : Receipt) : Invocation where
  command := cmdVerify
  parameterTypes := paramTypes paramTypeMemrefInput paramTypeNone paramTypeNone paramTypeNone
  parameters := ![⟨r.toBytes, receiptSize⟩, emptyMemref, emptyMemref, emptyMemref]

theorem invoke_head
    (hload : Yields crypto headInvocation.parameters loadState w st (some st)) :
    (invoke crypto headInvocation w).1 =
        ⟨.success, .head ⟨st.sequence, st.modelHash, st.head⟩⟩ ∧
      (invoke crypto headInvocation w).2.Succeeds ∧
      (invoke crypto headInvocation w).2.object = some st := by
  apply invoke_of_yields
  change Yields crypto _ (getHead headInvocation) w _ _
  unfold getHead
  rw [if_neg (by simp [headInvocation]), if_neg (by simp [headInvocation])]
  refine yields_bind hload fun w1 hw1 ho1 => ?_
  rw [← ho1]
  exact yields_pure hw1 _

/-- What the TA reads in place is what the client laid out. -/
theorem read_toBytes (r : Receipt) :
    readU64 r.toBytes 0 = r.sequence ∧ Digest.read r.toBytes 8 = r.previousHead ∧
      Digest.read r.toBytes 40 = r.alertHash ∧ Digest.read r.toBytes 72 = r.modelHash ∧
      Digest.read r.toBytes 104 = r.head := by
  have h := r.ofBytes_toBytes
  obtain ⟨sequence, previousHead, alertHash, modelHash, head⟩ := r
  exact Receipt.mk.inj h

/-- `verify_receipt` gets as far as the comparison of the MACs. -/
theorem leads_verifyReceipt (r : Receipt)
    (hload : Yields crypto (verifyInvocation r).parameters loadState w st (some st)) :
    Leads crypto (verifyInvocation r).parameters (verifyReceipt (verifyInvocation r)) w
      (if crypto.hmac st.key.bytes
          (hmacMessage r.sequence r.previousHead r.alertHash r.modelHash) = r.head then
        return ⟨.success, .none⟩ else fail .errorMacInvalid) (some st) := by
  obtain ⟨hsequence, hprevious, halert, hmodel, hhead⟩ := read_toBytes r
  unfold verifyReceipt
  rw [if_neg (by simp [verifyInvocation])]
  refine leads_bind hload fun w1 hw1 ho1 => ?_
  refine leads_bind (yields_readSequence hw1 0 0) fun w2 hw2 ho2 => ?_
  refine leads_bind (yields_readHash hw2 0 8) fun w3 hw3 ho3 => ?_
  refine leads_bind (yields_readHash hw3 0 40) fun w4 hw4 ho4 => ?_
  refine leads_bind (yields_readHash hw4 0 72) fun w5 hw5 ho5 => ?_
  refine leads_bind (yields_computeHmac hw5 _ _ _ _) fun w6 hw6 ho6 => ?_
  refine leads_bind (yields_readHash hw6 0 104) fun w7 hw7 ho7 => ?_
  change Leads crypto _ (if crypto.hmac st.key.bytes (hmacMessage (readU64 r.toBytes 0)
    (Digest.read r.toBytes 8) (Digest.read r.toBytes 40) (Digest.read r.toBytes 72)) =
      Digest.read r.toBytes 104 then _ else _) w7 _ _
  rw [hsequence, hprevious, halert, hmodel, hhead, ← ho1, ← ho2, ← ho3, ← ho4, ← ho5, ← ho6, ← ho7]
  exact leads_refl hw7 _

/-- With an object that `save_state` has not written no receipt is accepted. -/
theorem invoke_verify_corrupt (r : Receipt) (h : w.Succeeds) (ho : w.object = some st)
    (hst : ¬ WellFormed st) :
    (invoke crypto (verifyInvocation r) w).1 = ⟨.errorCorruptObject, .none⟩ ∧
      (invoke crypto (verifyInvocation r) w).2.Succeeds ∧
      (invoke crypto (verifyInvocation r) w).2.object = some st := by
  apply invoke_of_leads
  change Leads crypto _ (verifyReceipt (verifyInvocation r)) w _ _
  unfold verifyReceipt
  rw [if_neg (by simp [verifyInvocation])]
  exact leads_throw _ (leads_loadState_corrupt h ho hst)

/-- A receipt with the right MAC is accepted. -/
theorem invoke_verify (r : Receipt)
    (hload : Yields crypto (verifyInvocation r).parameters loadState w st (some st))
    (hmac : crypto.hmac st.key.bytes
      (hmacMessage r.sequence r.previousHead r.alertHash r.modelHash) = r.head) :
    (invoke crypto (verifyInvocation r) w).1 = ⟨.success, .none⟩ ∧
      (invoke crypto (verifyInvocation r) w).2.Succeeds ∧
      (invoke crypto (verifyInvocation r) w).2.object = some st := by
  have hleads := leads_verifyReceipt r hload
  rw [if_pos hmac] at hleads
  exact invoke_of_yields hleads

/-- Any other receipt is refused. -/
theorem invoke_verify_invalid (r : Receipt)
    (hload : Yields crypto (verifyInvocation r).parameters loadState w st (some st))
    (hmac : crypto.hmac st.key.bytes
      (hmacMessage r.sequence r.previousHead r.alertHash r.modelHash) ≠ r.head) :
    (invoke crypto (verifyInvocation r) w).1 = ⟨.errorMacInvalid, .none⟩ ∧
      (invoke crypto (verifyInvocation r) w).2.Succeeds ∧
      (invoke crypto (verifyInvocation r) w).2.object = some st := by
  have hleads := leads_verifyReceipt r hload
  rw [if_neg hmac] at hleads
  exact invoke_of_leads hleads

end Cote3Mon.AuditTa
