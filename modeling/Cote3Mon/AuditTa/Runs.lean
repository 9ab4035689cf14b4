import Cote3Mon.AuditTa.Commands

namespace Cote3Mon.AuditTa
open ByteText CallProg

structure TeeFailure where
  result : TeeResult
  failed : result ≠ .success

/-- `TEE_ERROR_ITEM_NOT_FOUND` is the answer for a missing object only. -/
structure OpenFailure extends TeeFailure where
  known : result ≠ .errorItemNotFound

/-- What the TEE decides at one call: whether it fails and with which code, the random
bytes, and the sizes it reports. -/
structure Choice where
  openFailure : Option OpenFailure
  failure : Option TeeFailure
  random : Digest
  readCount : ℕ
  macSize : ℕ

def Choice.result (ch : Choice) : TeeResult :=
  match ch.failure with
  | some f => f.result
  | none => .success

/-- The answer to a call on a stored object, and the object after it.
`TEE_CreatePersistentObject` replaces the whole object or fails leaving it as it was. -/
def answer (crypto : Crypto) (parameters : Fin 4 → Memref) (ch : Choice)
    (object : Option AuditState) : (c : Call) → Reply c × Option AuditState
  | .openPersistentObject =>
    (match ch.openFailure, object with
      | some f, _ => f.result
      | none, none => .errorItemNotFound
      | none, some _ => .success, object)
  | .readObjectData =>
    (match object with
      | some st => ⟨ch.result, ch.readCount, st⟩
      | none => ⟨.errorCorruptObject, 0, initialState .zero⟩, object)
  | .createPersistentObject s => (ch.result, if ch.result = .success then some s else object)
  | .generateRandom => (ch.random, object)
  | .allocateTransientObject => (ch.result, object)
  | .populateTransientObject => (ch.result, object)
  | .allocateOperation => (ch.result, object)
  | .setOperationKey => (ch.result, object)
  | .macComputeFinal key message =>
    (⟨ch.result, crypto.hmac key.bytes message, ch.macSize⟩, object)
  | .readHash i offset => (Digest.read (parameters i).buffer offset, object)
  | .readSequence i offset => (readU64 (parameters i).buffer offset, object)

structure World where
  object : Option AuditState
  choices : ℕ → Choice

def handle (crypto : Crypto) (parameters : Fin 4 → Memref) (c : Call) (w : World) :
    Reply c × World :=
  let a := answer crypto parameters (w.choices 0) w.object c
  (a.1, ⟨a.2, fun n => w.choices (n + 1)⟩)

def invoke (crypto : Crypto) (inv : Invocation) (w : World) : Outcome × World :=
  (entryPoint inv).run (handle crypto inv.parameters) w

/-- The object was created by `load_state`. -/
def Created (o o' : Option AuditState) : Prop := o = none ∧ ∃ key, o' = some (initialState key)

/-- The state a command loaded from the object `o`. -/
def Loaded (o : Option AuditState) (st : AuditState) : Prop := o = some st ∨ Created o (some st)

/-- The command began on `o`, the object is now `object`, and `v` is what it has learnt. -/
structure Agrees (o object : Option AuditState) (v : Ghost) : Prop where
  unsaved : v.saved = none → object = o ∨ Created o object
  saved : ∀ st s, v.saved = some (st, s) → object = some s ∧ Loaded o st
  absent : v.view = .absent → object = none
  content : ∀ st, v.view = .content st → object = some st

theorem agrees_start (o : Option AuditState) : Agrees o o Ghost.start where
  unsaved _ := Or.inl rfl
  saved _ _ := nofun
  absent := nofun
  content _ := nofun

theorem Agrees.write {o object : Option AuditState} {v : Ghost} {s : AuditState} {crypto : Crypto}
    (h : Agrees o object v) (hmay : may crypto v (.createPersistentObject s)) :
    Agrees o (some s) (v.write s) := by
  obtain ⟨hsaved, ⟨hview, key, rfl⟩ | ⟨st, hview, hstep⟩⟩ := hmay
  · have hobject := h.absent hview
    have ho : o = none := by
      rcases h.unsaved hsaved with he | ⟨he, -⟩
      · exact he.symm.trans hobject
      · exact he
    have hw : v.write (initialState key) = ⟨.content (initialState key), none⟩ := by
      simp [Ghost.write, hview, hsaved]
    rw [hw]
    exact ⟨fun _ => Or.inr ⟨ho, key, rfl⟩, fun _ _ he => (by cases he), fun he => (by cases he),
      fun _ he => by rw [View.content.inj he]⟩
  · have hobject := h.content st hview
    have hload : Loaded o st := by
      rcases h.unsaved hsaved with he | he
      · exact Or.inl (he.symm.trans hobject)
      · exact Or.inr (hobject ▸ he)
    have hw : v.write s = ⟨.content s, some (st, s)⟩ := by simp [Ghost.write, hview]
    rw [hw]
    refine ⟨fun he => (by cases he), fun st' s' he => ?_, fun he => (by cases he),
      fun _ he => by rw [View.content.inj he]⟩
    obtain ⟨rfl, rfl⟩ := Prod.mk.inj (Option.some.inj he)
    exact ⟨rfl, hload⟩

/-- Only an answered open changes what is known, and it is right about the object. -/
theorem Agrees.look {o object : Option AuditState} {v : Ghost} {view : View}
    (h : Agrees o object v) (habsent : view = .absent → object = none)
    (hcontent : ∀ st, view = .content st → object = some st) :
    Agrees o object { v with view := view } :=
  ⟨h.unsaved, h.saved, habsent, hcontent⟩

theorem open_not_found (crypto : Crypto) (parameters : Fin 4 → Memref) (ch : Choice)
    (object : Option AuditState)
    (h : (answer crypto parameters ch object .openPersistentObject).1 =
      TeeResult.errorItemNotFound) :
    object = none := by
  cases object with
  | none => rfl
  | some st =>
    exfalso
    cases hf : ch.openFailure with
    | none => simp [answer, hf] at h
    | some f => exact f.known (by simpa [answer, hf] using h)

theorem handle_agrees {crypto : Crypto} {parameters : Fin 4 → Memref} {o : Option AuditState}
    (c : Call) (w : World) (v : Ghost) (h : Agrees o w.object v) (hmay : may crypto v c) :
    ∃ v', learns crypto parameters v c (handle crypto parameters c w).1 v' ∧
      Agrees o (handle crypto parameters c w).2.object v' := by
  cases c with
  | openPersistentObject =>
    refine ⟨_, rfl, ?_⟩
    split_ifs with hnot
    · have hobject := open_not_found crypto parameters (w.choices 0) w.object hnot
      exact h.look (fun _ => hobject) (fun _ => nofun)
    · exact h
  | readObjectData =>
    refine ⟨_, rfl, ?_⟩
    split_ifs with hread
    · refine h.look nofun fun st hst => ?_
      cases hobject : w.object with
      | none => simp [handle, answer, hobject] at hread
      | some st' =>
        have hdata : st' = st := by simpa [handle, answer, hobject] using hst
        simp [hdata]
    · exact h
  | createPersistentObject s =>
    refine ⟨_, rfl, ?_⟩
    by_cases hs : (w.choices 0).result = .success
    · simpa [handle, answer, hs] using h.write hmay
    · simpa [handle, answer, hs] using h
  | macComputeFinal key message => exact ⟨v, ⟨rfl, fun _ _ => rfl⟩, h⟩
  | readHash i offset => exact ⟨v, ⟨rfl, rfl⟩, h⟩
  | readSequence i offset => exact ⟨v, ⟨rfl, rfl⟩, h⟩
  | generateRandom => exact ⟨v, rfl, h⟩
  | allocateTransientObject => exact ⟨v, rfl, h⟩
  | populateTransientObject => exact ⟨v, rfl, h⟩
  | allocateOperation => exact ⟨v, rfl, h⟩
  | setOperationKey => exact ⟨v, rfl, h⟩

/-- What a command that began on the object `o` returned, and the object it left. -/
inductive CommandStep (crypto : Crypto) (inv : Invocation) (o : Option AuditState) :
    Outcome → Option AuditState → Prop
  | failed {out o'} : Failed out → (o' = o ∨ Created o o') → CommandStep crypto inv o out o'
  | registered {st model} : inv.command = cmdRegisterModel → Loaded o st →
      model = Digest.read (inv.parameters 0).buffer 0 →
      (st.sequence = 0 ∨ model = st.modelHash) →
      CommandStep crypto inv o ⟨.success, .none⟩ (some (register st model))
  | appended {st alert} : inv.command = cmdAppendAlert → o = some st → st.modelRegistered ≠ 0 →
      alert = Digest.read (inv.parameters 0).buffer 0 →
      CommandStep crypto inv o ⟨.success, .receipt (issue crypto st alert)⟩
        (some (advance st (issue crypto st alert)))
  | headRead {st} : inv.command = cmdGetHead → Loaded o st →
      CommandStep crypto inv o ⟨.success, .head ⟨st.sequence, st.modelHash, st.head⟩⟩ (some st)
  | verified {st r} : inv.command = cmdVerify → Loaded o st →
      r = Receipt.ofBytes (inv.parameters 0).buffer →
      crypto.hmac st.key.bytes
        (hmacMessage r.sequence r.previousHead r.alertHash r.modelHash) = r.head →
      CommandStep crypto inv o ⟨.success, .none⟩ (some st)

theorem Agrees.loaded {o object : Option AuditState} {v : Ghost} {st : AuditState}
    (h : Agrees o object v) (hsaved : v.saved = none) (hview : v.view = .content st) :
    Loaded o st := by
  have hobject := h.content st hview
  rcases h.unsaved hsaved with he | he
  · exact Or.inl (he.symm.trans hobject)
  · exact Or.inr (hobject ▸ he)

theorem invoke_step (crypto : Crypto) (inv : Invocation) (w : World) :
    CommandStep crypto inv w.object (invoke crypto inv w).1 (invoke crypto inv w).2.object := by
  obtain ⟨v, hfin, hagree⟩ := (entryPoint_finishes crypto inv (v := Ghost.start) rfl).run
    (handle crypto inv.parameters) (fun w' v => Agrees w.object w'.object v)
    (fun c w' v h hmay => handle_agrees c w' v h hmay) (agrees_start w.object)
  change Finished crypto inv (invoke crypto inv w).1 v at hfin
  change Agrees w.object (invoke crypto inv w).2.object v at hagree
  generalize (invoke crypto inv w).1 = out at hfin
  generalize (invoke crypto inv w).2.object = object at hagree
  cases hfin with
  | failed hfail hsaved => exact .failed hfail (hagree.unsaved hsaved)
  | registered hcmd hmodel hok hsaved =>
    obtain ⟨rfl, hload⟩ := hagree.saved _ _ hsaved
    exact .registered hcmd hload hmodel hok
  | appended hcmd halert hreg hsaved =>
    obtain ⟨rfl, hload⟩ := hagree.saved _ _ hsaved
    -- a state that was only just created has no registered model
    rcases hload with ho | ⟨-, key, hkey⟩
    · exact .appended hcmd ho hreg halert
    · exact absurd (by rw [Option.some.inj hkey]; rfl) hreg
  | headRead hcmd hsaved hview =>
    obtain rfl := hagree.content _ hview
    exact .headRead hcmd (hagree.loaded hsaved hview)
  | verified hcmd hsaved hview hr hmac =>
    obtain rfl := hagree.content _ hview
    exact .verified hcmd (hagree.loaded hsaved hview) hr hmac

/-- What is stored, if anything is, was written by `saveState`. -/
def WellFormedObject (o : Option AuditState) : Prop := ∀ st, o = some st → WellFormed st

theorem WellFormedObject.created {o o' : Option AuditState} (h : Created o o') :
    WellFormedObject o' := by
  obtain ⟨-, key, rfl⟩ := h
  rintro st ⟨⟩
  exact initialState_wellFormed key

theorem WellFormedObject.loaded {o : Option AuditState} {st : AuditState} (h : WellFormedObject o)
    (hl : Loaded o st) : WellFormed st := by
  rcases hl with rfl | hc
  · exact h st rfl
  · exact WellFormedObject.created hc st rfl

theorem CommandStep.wellFormed {crypto : Crypto} {inv : Invocation} {o o' : Option AuditState}
    {out : Outcome} (hstep : CommandStep crypto inv o out o') (h : WellFormedObject o) :
    WellFormedObject o' := by
  cases hstep with
  | failed _ ho =>
    rcases ho with rfl | hc
    · exact h
    · exact .created hc
  | registered _ hl =>
    have hst := h.loaded hl
    rintro _ ⟨⟩
    exact hst
  | appended _ ho =>
    have hst := h _ ho
    rintro _ ⟨⟩
    exact hst
  | headRead _ hl =>
    rintro _ ⟨⟩
    exact h.loaded hl
  | verified _ hl =>
    rintro _ ⟨⟩
    exact h.loaded hl

/-- A single session: the commands it made with their outcomes, and the world after them. -/
structure Session where
  history : List (Invocation × Outcome)
  world : World

def Session.step (crypto : Crypto) (s : Session) (inv : Invocation) : Session :=
  ⟨s.history ++ [(inv, (invoke crypto inv s.world).1)], (invoke crypto inv s.world).2⟩

def Session.start (choices : ℕ → Choice) : Session := ⟨[], ⟨none, choices⟩⟩

def run (crypto : Crypto) (choices : ℕ → Choice) (invs : List Invocation) : Session :=
  invs.foldl (Session.step crypto) (.start choices)

theorem run_append_singleton (crypto : Crypto) (choices : ℕ → Choice) (invs : List Invocation)
    (inv : Invocation) :
    run crypto choices (invs ++ [inv]) = (run crypto choices invs).step crypto inv := by
  simp [run]

/-- What a command preserves holds after every run. -/
theorem run_induction {crypto : Crypto}
    {motive : List (Invocation × Outcome) → Option AuditState → Prop} (hstart : motive [] none)
    (hstep : ∀ history o inv out o', CommandStep crypto inv o out o' → motive history o →
      motive (history ++ [(inv, out)]) o')
    (choices : ℕ → Choice) (invs : List Invocation) :
    motive (run crypto choices invs).history (run crypto choices invs).world.object := by
  induction invs using List.reverseRecOn with
  | nil => exact hstart
  | append_singleton invs inv ih =>
    rw [run_append_singleton]
    exact hstep _ _ _ _ _ (invoke_step crypto inv _) ih

end Cote3Mon.AuditTa
