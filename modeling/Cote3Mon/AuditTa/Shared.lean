import Cote3Mon.AuditTa.Faultless

namespace Cote3Mon.AuditTa
open ByteText CallProg

-- The memory that a caller passes is shared with it, and every read of it may find something else.
-- `register_model` compares one read with the stored model and stores another.

/-- The stored object, what the TEE will answer, and what each read of the caller's memory
will find. -/
structure SharedWorld where
  object : Option AuditState
  choices : ℕ → Choice
  hashes : ℕ → Digest
  sequences : ℕ → UInt64

/-- The world after a call that left the object `o`. -/
def SharedWorld.next (w : SharedWorld) (o : Option AuditState) : SharedWorld :=
  ⟨o, fun n => w.choices (n + 1), fun n => w.hashes (n + 1), fun n => w.sequences (n + 1)⟩

@[simp] theorem SharedWorld.next_object (w : SharedWorld) (o : Option AuditState) :
    (w.next o).object = o := rfl

def handleShared (crypto : Crypto) (c : Call) (w : SharedWorld) : Reply c × SharedWorld :=
  match c with
  | .readHash _ _ => (w.hashes 0, w.next w.object)
  | .readSequence _ _ => (w.sequences 0, w.next w.object)
  | c =>
    let a := answer crypto (fun _ => ⟨[], 0⟩) (w.choices 0) w.object c
    (a.1, w.next a.2)

def invokeShared (crypto : Crypto) (inv : Invocation) (w : SharedWorld) : Outcome × SharedWorld :=
  (entryPoint inv).run (handleShared crypto) w

/-- What the replies say about the stored state `v`, whatever the reads find. -/
def keeps (v : AuditState) : (c : Call) → Reply c → AuditState → Prop
  | .openPersistentObject, (r : TeeResult), v' => r ≠ .errorItemNotFound ∧ v' = v
  | .readObjectData, (r : ReadReply), v' => r.data = v ∧ v' = v
  | .createPersistentObject s, (r : TeeResult), v' => v' = if r = .success then s else v
  | _, _, v' => v' = v

/-- Only states with the model of the stored one are saved. -/
def mayKeep (v : AuditState) (c : Call) : Prop :=
  match c with
  | .createPersistentObject s => s.modelHash = v.modelHash
  | _ => True

def Carried (out : Outcome) (v : AuditState) : Prop :=
  ∀ r, out.output = .receipt r → r.modelHash = v.modelHash

variable {crypto : Crypto} {v : AuditState} {w : SharedWorld} {st : AuditState} {inv : Invocation}

abbrev Keeps {α : Type} (p : Ta α) (v : AuditState) (ok : α → AuditState → Prop) : Prop :=
  Ensures mayKeep keeps ok Carried p v

theorem keeps_bind {α β : Type} {p : Ta α} {f : α → Ta β} {ok : β → AuditState → Prop}
    (h : Keeps p v fun a v' => Keeps (f a) v' ok) : Keeps (p >>= f) v ok :=
  (ensures_bind ok p f v).mpr h

theorem keeps_fail {α : Type} (result : TeeResult) (ok : α → AuditState → Prop) :
    Keeps (fail result) v ok := fun _ => nofun

theorem keeps_check (result : TeeResult) {ok : Unit → AuditState → Prop} (hok : ok () v) :
    Keeps (check result) v ok := by
  unfold check
  split_ifs
  · exact hok
  · exact keeps_fail result ok

/-- A call that neither reads nor writes the object. -/
theorem keeps_api {c : Call} {ok : Reply c → AuditState → Prop} (hmay : mayKeep v c)
    (hok : ∀ r v', keeps v c r v' → ok r v') : Keeps (api c) v ok := ⟨hmay, hok⟩

theorem keeps_loadState : Keeps loadState v fun s v' => s = v ∧ v' = v := by
  apply keeps_bind
  refine keeps_api trivial ?_
  rintro r v' ⟨hfound, rfl⟩
  rw [if_neg hfound]
  apply keeps_bind
  apply keeps_check
  apply keeps_bind
  refine keeps_api trivial ?_
  rintro read v'' ⟨rfl, rfl⟩
  apply keeps_bind
  apply keeps_check
  split_ifs
  · exact keeps_fail _ _
  · exact ⟨rfl, rfl⟩

theorem keeps_prepare {p : Ta TeeResult} (hp : p ∈ [allocateTransientObject,
    populateTransientObject, allocateOperation, setOperationKey])
      {ok : TeeResult → AuditState → Prop}
    (hok : ∀ r, ok r v) : Keeps p v ok := by
  simp only [List.mem_cons, List.not_mem_nil, or_false] at hp
  rcases hp with rfl | rfl | rfl | rfl <;>
  · refine keeps_api trivial ?_
    rintro r v' rfl
    exact hok r

theorem keeps_computeHmac (s : AuditState) (sequence : UInt64) (previous alert model : Digest) :
    Keeps (computeHmac s sequence previous alert model) v fun _ v' => v' = v := by
  apply keeps_bind
  refine keeps_prepare (by simp) fun _ => keeps_bind (keeps_check _ (keeps_bind ?_))
  refine keeps_prepare (by simp) fun _ => keeps_bind (keeps_check _ (keeps_bind ?_))
  refine keeps_prepare (by simp) fun _ => keeps_bind (keeps_check _ (keeps_bind ?_))
  refine keeps_prepare (by simp) fun _ => keeps_bind (keeps_check _ (keeps_bind ?_))
  refine keeps_api trivial ?_
  rintro r v' rfl
  apply keeps_bind
  apply keeps_check
  split_ifs
  · exact keeps_fail _ _
  · rfl

theorem keeps_readHash (i : Fin 4) (offset : ℕ) {ok : Digest → AuditState → Prop}
    (hok : ∀ d, ok d v) : Keeps (readHash i offset) v ok := by
  refine keeps_api trivial ?_
  rintro r v' rfl
  exact hok r

theorem keeps_appendAlert (inv : Invocation) : Keeps (appendAlert inv) v Carried := by
  unfold appendAlert
  split_ifs
  · exact keeps_fail _ _
  · exact fun _ => nofun
  · apply keeps_bind
    refine Ensures.mono keeps_loadState ?_ fun _ _ he => he
    rintro s v' ⟨rfl, rfl⟩
    split_ifs
    · exact keeps_fail _ _
    · refine keeps_bind (keeps_readHash 0 0 fun alert => keeps_bind ?_)
      refine Ensures.mono (keeps_computeHmac _ _ _ _ _) ?_ fun _ _ he => he
      rintro head v'' rfl
      apply keeps_bind
      apply keeps_bind
      have hmay : mayKeep v'' (.createPersistentObject
          { v'' with sequence := v''.sequence + 1, head := head }) := (rfl : v''.modelHash = _)
      refine keeps_api hmay ?_
      intro r v3 hr
      apply keeps_check
      have hmodel : v3.modelHash = v''.modelHash := by
        rw [show v3 = _ from hr]
        split_ifs <;> rfl
      intro receipt hreceipt
      rw [hmodel, ← Output.receipt.inj hreceipt]

theorem keeps_getHead (inv : Invocation) : Keeps (getHead inv) v Carried := by
  unfold getHead
  split_ifs
  · exact keeps_fail _ _
  · exact fun _ => nofun
  · apply keeps_bind
    refine Ensures.mono keeps_loadState ?_ fun _ _ he => he
    rintro s v' -
    exact fun _ => nofun

theorem keeps_verifyReceipt (inv : Invocation) : Keeps (verifyReceipt inv) v Carried := by
  unfold verifyReceipt
  split_ifs
  · exact keeps_fail _ _
  · apply keeps_bind
    refine Ensures.mono keeps_loadState ?_ fun _ _ he => he
    rintro s v' -
    apply keeps_bind
    refine keeps_api trivial ?_
    rintro sequence v'' rfl
    refine keeps_bind (keeps_readHash 0 8 fun _ => keeps_bind (keeps_readHash 0 40 fun _ => ?_))
    refine keeps_bind (keeps_readHash 0 72 fun _ => keeps_bind ?_)
    refine Ensures.mono (keeps_computeHmac _ _ _ _ _) ?_ fun _ _ he => he
    rintro expected v3 rfl
    refine keeps_bind (keeps_readHash 0 104 fun claimed => ?_)
    split_ifs
    · exact fun _ => nofun
    · exact keeps_fail _ _

/-- Every command but a registration keeps the model. -/
theorem keeps_invokeCommand (hcmd : inv.command ≠ cmdRegisterModel) :
    Keeps (invokeCommand inv) v Carried := by
  unfold invokeCommand
  rw [if_neg hcmd]
  split_ifs
  · exact keeps_appendAlert inv
  · exact keeps_getHead inv
  · exact keeps_verifyReceipt inv
  · exact keeps_fail _ _

theorem handleShared_keeps {model : Digest} (c : Call) (w : SharedWorld) (v : AuditState)
    (h : w.object = some v ∧ v.modelHash = model) (hmay : mayKeep v c) :
    ∃ v', keeps v c (handleShared crypto c w).1 v' ∧
      (handleShared crypto c w).2.object = some v' ∧ v'.modelHash = model := by
  obtain ⟨hobject, hmodel⟩ := h
  cases c with
  | openPersistentObject =>
    refine ⟨v, ⟨fun hnot => ?_, rfl⟩, hobject, hmodel⟩
    have hnone := open_not_found crypto (fun _ => ⟨[], 0⟩) (w.choices 0) w.object hnot
    rw [hobject] at hnone
    cases hnone
  | readObjectData =>
    exact ⟨v, ⟨by simp [handleShared, answer, hobject], rfl⟩, hobject, hmodel⟩
  | createPersistentObject s =>
    refine ⟨_, rfl, ?_⟩
    by_cases hs : (w.choices 0).result = .success
    · simpa [handleShared, answer, SharedWorld.next, hs, hmodel] using
        (show s.modelHash = v.modelHash from hmay).trans hmodel
    · simpa [handleShared, answer, SharedWorld.next, hs, hobject] using hmodel
  | macComputeFinal key message => exact ⟨v, rfl, hobject, hmodel⟩
  | readHash i offset => exact ⟨v, rfl, hobject, hmodel⟩
  | readSequence i offset => exact ⟨v, rfl, hobject, hmodel⟩
  | generateRandom => exact ⟨v, rfl, hobject, hmodel⟩
  | allocateTransientObject => exact ⟨v, rfl, hobject, hmodel⟩
  | populateTransientObject => exact ⟨v, rfl, hobject, hmodel⟩
  | allocateOperation => exact ⟨v, rfl, hobject, hmodel⟩
  | setOperationKey => exact ⟨v, rfl, hobject, hmodel⟩

def shared {α : Type} (crypto : Crypto) (p : Ta α) (w : SharedWorld) :
    Except Outcome α × SharedWorld := p.run.run (handleShared crypto) w

theorem shared_bind {α β : Type} (p : Ta α) (f : α → Ta β) (w : SharedWorld) :
    shared crypto (p >>= f) w =
      match shared crypto p w with
      | (.ok a, w') => shared crypto (f a) w'
      | (.error out, w') => (.error out, w') := by
  unfold shared
  rw [ExceptT.run_bind, run_bind]
  rcases hp : p.run.run (handleShared crypto) w with ⟨_ | _, _⟩
  · rfl
  · rfl

theorem shared_api_bind {β : Type} (c : Call) (f : Reply c → Ta β) (w : SharedWorld) :
    shared crypto (api c >>= f) w =
      shared crypto (f (handleShared crypto c w).1) (handleShared crypto c w).2 := rfl

theorem shared_check_bind {β : Type} (result : TeeResult) (f : Unit → Ta β) (w : SharedWorld) :
    shared crypto (check result >>= f) w =
      if result = .success then shared crypto (f ()) w else (.error ⟨result, .none⟩, w) := by
  unfold check
  split_ifs
  · rfl
  · rfl

theorem shared_readHash_bind {β : Type} (i : Fin 4) (offset : ℕ) (f : Digest → Ta β)
    (w : SharedWorld) :
    shared crypto (readHash i offset >>= f) w = shared crypto (f (w.hashes 0)) (w.next w.object) :=
  rfl

theorem shared_saveState (s : AuditState) (w : SharedWorld) :
    shared crypto (saveState s) w =
      if (w.choices 0).result = .success then (.ok (), w.next (some s))
      else (.error ⟨(w.choices 0).result, .none⟩, w.next w.object) := by
  have hreply : (handleShared crypto (.createPersistentObject s) w).1 = (w.choices 0).result := rfl
  have hobject : (handleShared crypto (.createPersistentObject s) w).2 =
      w.next (if (w.choices 0).result = .success then some s else w.object) := rfl
  unfold saveState createPersistentObject check
  rw [shared_api_bind, hreply, hobject]
  split_ifs
  · rfl
  · rfl

/-- `load_state` gets at the stored state. -/
structure Loads (st : AuditState) (w : SharedWorld) : Prop where
  opened : (w.choices 0).openFailure = none
  read : (w.choices 1).result = .success
  count : (w.choices 1).readCount = stateSize
  wellFormed : WellFormed st

theorem shared_loadState (ho : w.object = some st) (h : Loads st w) :
    shared crypto loadState w = (.ok st, (w.next (some st)).next (some st)) := by
  obtain ⟨hopened, hread, hcount, hmagic, hversion⟩ := h
  have hopen : handleShared crypto .openPersistentObject w =
      ((.success : TeeResult), w.next (some st)) := by
    simp [handleShared, answer, hopened, ho]
  have hdata : handleShared crypto .readObjectData (w.next (some st)) =
      ((⟨.success, stateSize, st⟩ : ReadReply), (w.next (some st)).next (some st)) := by
    simp [handleShared, answer, SharedWorld.next, hread, hcount]
  unfold loadState openPersistentObject
  rw [shared_api_bind, hopen, if_neg (by simp), shared_check_bind, if_pos rfl]
  unfold readState readObjectData
  rw [shared_api_bind, hdata, shared_check_bind, if_pos rfl, if_neg (by simp [hmagic, hversion])]
  rfl

theorem shared_loadState_failed (ho : w.object = some st) (h : ¬ Loads st w) :
    ∃ result w', shared crypto loadState w = (.error ⟨result, .none⟩, w') ∧
      w'.object = some st := by
  have hobject : (handleShared crypto .openPersistentObject w).2 = w.next (some st) := by
    simp [handleShared, answer, ho]
  unfold loadState openPersistentObject
  rw [shared_api_bind, hobject]
  cases hopened : (w.choices 0).openFailure with
  | some failure =>
    have hreply : (handleShared crypto .openPersistentObject w).1 = failure.result := by
      simp [handleShared, answer, hopened]
    rw [hreply, if_neg failure.known, shared_check_bind, if_neg failure.failed]
    exact ⟨_, _, rfl, rfl⟩
  | none =>
    have hreply : (handleShared crypto .openPersistentObject w).1 = TeeResult.success := by
      simp [handleShared, answer, hopened, ho]
    have hdata : handleShared crypto .readObjectData (w.next (some st)) =
        ((⟨(w.choices 1).result, (w.choices 1).readCount, st⟩ : ReadReply),
          (w.next (some st)).next (some st)) := by
      simp [handleShared, answer, SharedWorld.next]
    rw [hreply, if_neg (by decide), shared_check_bind, if_pos rfl]
    unfold readState readObjectData
    rw [shared_api_bind, hdata, shared_check_bind]
    split_ifs with hread hbad
    · exact ⟨_, _, rfl, rfl⟩
    · simp only [not_or, not_not] at hbad
      exact absurd ⟨hopened, hread, hbad.1, hbad.2⟩ h
    · exact ⟨_, _, rfl, rfl⟩

/-- The caller changes its buffer between the comparison with the stored model and the copy,
and nothing else stops the registration. -/
structure Raced (inv : Invocation) (st : AuditState) (w : SharedWorld) : Prop where
  command : inv.command = cmdRegisterModel
  types : inv.parameterTypes =
    paramTypes paramTypeMemrefInput paramTypeNone paramTypeNone paramTypeNone
  size : (inv.parameters 0).size = 32
  loads : Loads st w
  compared : w.hashes 2 = st.modelHash
  copied : w.hashes 3 ≠ st.modelHash
  saves : (w.choices 4).result = .success

/-- The command leaves a state with the stored model, and a receipt carries it. -/
def ModelKept (crypto : Crypto) (inv : Invocation) (st : AuditState) (w : SharedWorld) : Prop :=
  ∃ st', (invokeShared crypto inv w).2.object = some st' ∧ st'.modelHash = st.modelHash ∧
    Carried (invokeShared crypto inv w).1 st

/-- The copy of `register_model`, which reads the caller's buffer again, and its save. -/
theorem shared_copy (st : AuditState) (w : SharedWorld) :
    ∃ out w', shared crypto (readHash 0 0 >>= fun model =>
        saveState { st with modelHash := model, modelRegistered := 1 } >>= fun _ =>
          (pure ⟨.success, .none⟩ : Ta Outcome)) w = (out, w') ∧
      w'.object = (if (w.choices 1).result = .success then some (register st (w.hashes 0))
        else w.object) ∧
      (out = .ok ⟨.success, .none⟩ ∨ ∃ result, out = .error ⟨result, .none⟩) := by
  rw [shared_readHash_bind, shared_bind, shared_saveState]
  have hchoice : (w.next w.object).choices 0 = w.choices 1 := rfl
  rw [hchoice]
  split_ifs
  · exact ⟨_, _, rfl, rfl, Or.inl rfl⟩
  · exact ⟨_, _, rfl, rfl, Or.inr ⟨_, rfl⟩⟩

/-- What a registration leaves when it gets as far as the copy. -/
theorem shared_registerModel (ho : w.object = some st) (hseq : st.sequence ≠ 0)
    (htypes : inv.parameterTypes =
      paramTypes paramTypeMemrefInput paramTypeNone paramTypeNone paramTypeNone)
    (hsize : (inv.parameters 0).size = 32) (hload : Loads st w)
    (hcompared : w.hashes 2 = st.modelHash) :
    ∃ out w', shared crypto (registerModel inv) w = (out, w') ∧
      w'.object = (if (w.choices 4).result = .success then some (register st (w.hashes 3))
        else some st) ∧
      (out = .ok ⟨.success, .none⟩ ∨ ∃ result, out = .error ⟨result, .none⟩) := by
  have hread : ((w.next (some st)).next (some st)).hashes 0 = st.modelHash := hcompared
  have hcheck : shared crypto (checkModel st) ((w.next (some st)).next (some st)) =
      (.ok (), ((w.next (some st)).next (some st)).next (some st)) := by
    rw [checkModel, if_pos hseq, shared_readHash_bind, hread, if_neg (not_not.mpr rfl)]
    rfl
  unfold registerModel
  rw [if_neg (by simp [htypes, hsize]), shared_bind, shared_loadState ho hload]
  simp only []
  rw [shared_bind, hcheck]
  exact shared_copy st (((w.next (some st)).next (some st)).next (some st))

/-- A registration that does not get as far as the copy leaves the object. -/
theorem shared_registerModel_stopped (ho : w.object = some st) (hseq : st.sequence ≠ 0)
    (h : ¬ (inv.parameterTypes =
        paramTypes paramTypeMemrefInput paramTypeNone paramTypeNone paramTypeNone ∧
      (inv.parameters 0).size = 32 ∧ Loads st w ∧ w.hashes 2 = st.modelHash)) :
    ∃ result w', shared crypto (registerModel inv) w = (.error ⟨result, .none⟩, w') ∧
      w'.object = some st := by
  unfold registerModel
  split_ifs with hbad
  · exact ⟨_, _, rfl, ho⟩
  · rw [shared_bind]
    by_cases hload : Loads st w
    · have hread : ((w.next (some st)).next (some st)).hashes 0 ≠ st.modelHash := by
        push Not at hbad
        exact fun hsame => h ⟨hbad.1, hbad.2, hload, hsame⟩
      rw [shared_loadState ho hload]
      simp only [checkModel, if_pos hseq]
      rw [shared_bind, shared_readHash_bind, if_pos hread.symm]
      exact ⟨_, _, rfl, rfl⟩
    · obtain ⟨result, w', hfailed, hobject⟩ := shared_loadState_failed ho hload
      exact ⟨result, w', by rw [hfailed], hobject⟩

theorem invokeShared_eq (inv : Invocation) (w : SharedWorld) :
    (invokeShared crypto inv w).2 = (shared crypto (invokeCommand inv) w).2 ∧
      ((shared crypto (invokeCommand inv) w).1 = .ok (invokeShared crypto inv w).1 ∨
        (shared crypto (invokeCommand inv) w).1 = .error (invokeShared crypto inv w).1) := by
  unfold invokeShared entryPoint shared
  rw [run_bind]
  rcases (invokeCommand inv).run.run (handleShared crypto) w with ⟨_ | _, _⟩
  · exact ⟨rfl, Or.inr rfl⟩
  · exact ⟨rfl, Or.inl rfl⟩

theorem modelKept_of_not_register (ho : w.object = some st) (hcmd : inv.command ≠ cmdRegisterModel) :
    ModelKept crypto inv st w := by
  have halways : (entryPoint inv).Always mayKeep keeps Carried st := by
    unfold entryPoint
    rw [always_bind]
    apply Always.mono (keeps_invokeCommand hcmd)
    intro r v' hr
    cases r with
    | ok out => exact hr
    | error out => exact hr
  obtain ⟨v', hcarried, hobject, hmodel⟩ := halways.run (handleShared crypto)
    (fun w v => w.object = some v ∧ v.modelHash = st.modelHash)
    (fun c w v h hmay => handleShared_keeps c w v h hmay) ⟨ho, rfl⟩
  exact ⟨v', hobject, hmodel, fun r hr => (hcarried r hr).trans hmodel⟩

/-- **The model is frozen unless a read is raced.**  Once an alert has been appended, a command
keeps the stored model exactly when it is not a registration whose buffer changes between its
two reads. -/
theorem model_frozen_iff (crypto : Crypto) (inv : Invocation) (w : SharedWorld) (st : AuditState)
    (ho : w.object = some st) (hseq : st.sequence ≠ 0) :
    ModelKept crypto inv st w ↔ ¬ Raced inv st w := by
  by_cases hcmd : inv.command = cmdRegisterModel
  · have hrun : invokeCommand inv = registerModel inv := if_pos hcmd
    obtain ⟨hworld, hout⟩ := invokeShared_eq inv w
    rw [hrun] at hworld hout
    by_cases hcopy : inv.parameterTypes =
        paramTypes paramTypeMemrefInput paramTypeNone paramTypeNone paramTypeNone ∧
      (inv.parameters 0).size = 32 ∧ Loads st w ∧ w.hashes 2 = st.modelHash
    · obtain ⟨htypes, hsize, hload, hcompared⟩ := hcopy
      obtain ⟨out, w', hregister, hobject, hresult⟩ :=
        shared_registerModel ho hseq htypes hsize hload hcompared
      rw [hregister] at hworld hout
      have hnone : (invokeShared crypto inv w).1.output = .none := by
        rcases hresult with rfl | ⟨result, rfl⟩
        · rcases hout with hout | hout
          · rw [← Except.ok.inj hout]
          · cases hout
        · rcases hout with hout | hout
          · cases hout
          · rw [← Except.error.inj hout]
      have hcarried : Carried (invokeShared crypto inv w).1 st := by
        intro r hr
        rw [hnone] at hr
        cases hr
      constructor
      · rintro ⟨st', hst', hmodel, -⟩ hraced
        rw [hworld, hobject, if_pos hraced.saves] at hst'
        rw [← Option.some.inj hst'] at hmodel
        exact hraced.copied hmodel
      · intro hraced
        rw [ModelKept, hworld, hobject]
        split_ifs with hsaves
        · have hsame : w.hashes 3 = st.modelHash := by
            by_contra hne
            exact hraced ⟨hcmd, htypes, hsize, hload, hcompared, hne, hsaves⟩
          exact ⟨_, rfl, hsame, hcarried⟩
        · exact ⟨st, rfl, rfl, hcarried⟩
    · obtain ⟨result, w', hregister, hobject⟩ :=
        shared_registerModel_stopped ho hseq hcopy
      rw [hregister] at hworld hout
      refine iff_of_true ⟨st, by rw [hworld]; exact hobject, rfl, fun r hr => ?_⟩ fun hraced =>
        hcopy ⟨hraced.types, hraced.size, hraced.loads, hraced.compared⟩
      rcases hout with hout | hout
      · cases hout
      · rw [← Except.error.inj hout] at hr
        cases hr
  · exact iff_of_true (modelKept_of_not_register ho hcmd) fun hraced => hcmd hraced.command

def appendedState : AuditState := ⟨stateMagic, stateVersion, 1, 1, .zero, .zero, .zero⟩

def otherModel : Digest := ⟨List.replicate 32 1, rfl⟩

/-- The first two reads of the buffer find the stored model, the third another one. -/
def racingWorld : SharedWorld :=
  ⟨some appendedState, fun _ => faultless, fun n => if n = 3 then otherModel else .zero, fun _ => 0⟩

/-- The registration of another model succeeds after an append. -/
theorem raced_registration : ¬ ModelKept .standard (registerInvocation .zero) appendedState
    racingWorld := by
  rintro ⟨st', hobject, hmodel, -⟩
  have hafter : (invokeShared .standard (registerInvocation .zero) racingWorld).2.object.map
      AuditState.modelHash = some otherModel := by decide
  rw [hobject, Option.map_some, hmodel] at hafter
  exact absurd hafter (by decide)

def steadyWorld : SharedWorld := ⟨some appendedState, fun _ => faultless, fun _ => .zero, fun _ => 0⟩

theorem model_frozen_registration :
    ModelKept .standard (registerInvocation .zero) appendedState steadyWorld :=
  (model_frozen_iff .standard (registerInvocation .zero) steadyWorld appendedState rfl
    (by decide)).mpr fun h => h.copied rfl

end Cote3Mon.AuditTa
