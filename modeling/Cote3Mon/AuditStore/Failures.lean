import Cote3Mon.AuditStore.Verify

namespace Cote3Mon.AuditStore
open ByteText Python MacChain

/-- The stores that a process can hold: a fresh one, one after a call, whatever failed in it, and one
that is opened again from the file of another. -/
inductive Reachable (rt : Runtime) (crypto : Crypto) : AuditStore → Prop
  | fresh {files urandom s} : open? files urandom none = .ok s → Reachable rt crypto s
  | called {s} (c : Call) (files : Files) : Reachable rt crypto s →
      Reachable rt crypto (call rt crypto files c s).2
  | reopened {s files urandom s'} : Reachable rt crypto s → open? files urandom s.file = .ok s' →
      Reachable rt crypto s'

structure Sound (s : AuditStore) : Prop where
  state : ∃ model p, s.state.Holds model p
  file : ∀ st, s.file = some st → ∃ model p, st.Holds model p

variable {rt : Runtime} {crypto : Crypto} {files : Files} {s : AuditStore}

theorem holds_fresh (key : Digest) : ∃ model p, (freshState key).Holds model p :=
  ⟨none, .zero, rfl, rfl⟩

theorem Saved.sound {α : Type} {state : State} {value : α} {out : Except Exc α × AuditStore}
    (h : Saved s state value out) (hs : Sound s) (hstate : ∃ model p, state.Holds model p) :
    Sound out.2 := by
  cases h with
  | unsaved e => exact ⟨hstate, hs.file⟩
  | saved => exact ⟨hstate, fun st hst => Option.some.inj hst ▸ hstate⟩

theorem Sound.call (h : Sound s) (files : Files) (c : Call) :
    Sound (call rt crypto files c s).2 := by
  obtain ⟨model, p, hholds⟩ := h.state
  have hstep := call_step rt crypto files hholds c
  generalize AuditStore.call rt crypto files c s = out at hstep
  cases hstep with
  | raised c e => exact h
  | registered d hd hsaved => exact hsaved.sound h ⟨some d, p, rfl, hholds.head⟩
  | appended m c hm hc hlt hsaved =>
    exact hsaved.sound h ⟨some m, _, hholds.modelHash.trans (by rw [hm]), rfl⟩

theorem open?_ok {urandom : Digest} {file : Option State} (h : open? files urandom file = .ok s) :
    s = ⟨file.getD (freshState urandom), some (file.getD (freshState urandom))⟩ := by
  cases file with
  | some state => exact (Except.ok.inj h).symm
  | none =>
    unfold open? persist at h
    cases hfault : files.persistFault with
    | some e =>
      rw [hfault] at h
      cases h
    | none =>
      rw [hfault] at h
      exact (Except.ok.inj h).symm

theorem sound_of_state {state : State} (h : ∃ model p, state.Holds model p) :
    Sound ⟨state, some state⟩ := ⟨h, fun _ hst => Option.some.inj hst ▸ h⟩

theorem Reachable.sound (h : Reachable rt crypto s) : Sound s := by
  induction h with
  | fresh hopen =>
    rw [open?_ok hopen]
    exact sound_of_state (holds_fresh _)
  | called c files _ ih => exact ih.call files c
  | @reopened s files urandom s' _ hopen ih =>
    rw [open?_ok hopen]
    cases hfile : s.file with
    | none => exact sound_of_state (holds_fresh _)
    | some st => exact sound_of_state (ih.file st hfile)

def Refused (rt : Runtime) (crypto : Crypto) (files : Files) (s : AuditStore) : Call → Prop
  | .registerModel model => ∀ payload, model.payload files = .ok payload →
      s.state.sequence ≠ 0 ∧ s.state.modelHash ≠ some (crypto.sha256 payload).hex
  | .append alert => s.state.registered? = none ∨ (∀ c, canonicalJson rt alert ≠ .ok c) ∨
      2 ^ 64 ≤ s.state.sequence + 1

/-- The call registers the model that is registered already. -/
def Repeats (crypto : Crypto) (files : Files) (s : AuditStore) : Call → Prop
  | .registerModel model => ∃ payload, model.payload files = .ok payload ∧
      s.state.modelHash = some (crypto.sha256 payload).hex
  | .append _ => False

/-- Where `_persist` would fail, the call is refused before, or has nothing new to save. -/
def Unharmed (rt : Runtime) (crypto : Crypto) (files : Files) (s : AuditStore) (c : Call) : Prop :=
  files.persistFault = none ∨ Refused rt crypto files s c ∨ Repeats crypto files s c

def ChangesNothing (rt : Runtime) (crypto : Crypto) (files : Files) (s : AuditStore) (c : Call) :
    Prop :=
  ∀ e, (call rt crypto files c s).1 = .error e → (call rt crypto files c s).2 = s

def finish {α : Type} (files : Files) (s : AuditStore) (state : State) (value : α) :
    Except Exc α × AuditStore :=
  match files.persistFault with
  | some e => (.error e, { s with state := state })
  | none => (.ok value, ⟨state, some state⟩)

theorem persist_finish {α : Type} (state : State) (value : α) :
    (do setState state; persist files; return value : Method α) s = finish files s state value := by
  simp only [Exec.bind_apply, setState, Exec.next_ok, persist, finish]
  cases files.persistFault with
  | none => rfl
  | some e => rfl

theorem finish_map {α β : Type} {x : Method α} {state : State} {value : α} (f : α → β)
    (h : x s = finish files s state value) :
    (do return f (← x) : Method β) s = finish files s state (f value) := by
  rw [Exec.bind_apply, h, finish, finish]
  cases files.persistFault with
  | none => rfl
  | some e => rfl

theorem returned_error {α β : Type} {x : Method α} {e : Exc} (f : α → β) (h : x s = (.error e, s)) :
    (do return f (← x) : Method β) s = (.error e, s) := by
  rw [Exec.bind_apply, h, Exec.next_error]

variable (crypto files s) in
theorem registerModel_eq (model : Model) : registerModel crypto files model s =
    match model.payload files with
    | .error e => (.error e, s)
    | .ok payload =>
      if s.state.sequence ≠ 0 ∧ s.state.modelHash ≠ some (crypto.sha256 payload).hex then
        (.error (.refused "model cannot change after alerts have been appended"), s)
      else finish files s { s.state with modelHash := some (crypto.sha256 payload).hex }
        (crypto.sha256 payload).hex := by
  unfold registerModel
  rw [Exec.bind_apply, Exec.lift_apply]
  cases model.payload files with
  | error e => rfl
  | ok payload =>
    simp only [Exec.next_ok, Exec.bind_apply, Exec.get_apply]
    split_ifs with h
    · rfl
    · exact persist_finish _ _

variable (rt crypto files) in
theorem append_eq {model : Option Digest} {p : Digest} (h : s.state.Holds model p) (alert : Json) :
    append rt crypto files alert s =
      match model, canonicalJson rt alert with
      | none, _ => (.error (.refused "register a model before appending alerts"), s)
      | some _, .error e => (.error e, s)
      | some m, .ok c =>
        if s.state.sequence + 1 < 2 ^ 64 then
          finish files s (s.state.advance (issue crypto s.state.key m s.state.sequence p c))
            (issue crypto s.state.key m s.state.sequence p c)
        else (.error .structError, s) := by
  unfold append
  rw [Exec.bind_apply, Exec.get_apply, Exec.next_ok]
  cases model with
  | none =>
    have hnone : s.state.registered? = none := by simp [State.registered?, h.modelHash]
    rw [hnone]
    rfl
  | some m =>
    obtain ⟨x, t, hm⟩ := hex_ne_nil m
    have hsome : s.state.registered? = some m.hex := by
      simp [State.registered?, h.modelHash, hm]
    rw [hsome]
    simp only [Exec.bind_apply, Exec.lift_apply, h.head, Digest.hex, fromHex_hexEncode,
      Exec.next_ok]
    cases canonicalJson rt alert with
    | error e => rfl
    | ok c =>
      simp only [Exec.next_ok]
      split_ifs with hlt
      · rw [packQ_of_lt hlt, Exec.bind_apply, Exec.lift_apply, Exec.next_ok,
          Exec.bind_apply, Exec.lift_apply, Exec.next_ok]
        exact persist_finish _ _
      · rw [packQ_of_le (not_lt.mp hlt), Exec.bind_apply, Exec.lift_apply, Exec.next_ok,
          Exec.bind_apply, Exec.lift_apply, Exec.next_error]

theorem registered?_of_holds {model : Option Digest} {p : Digest} (h : s.state.Holds model p) :
    s.state.registered? = none ↔ model = none := by
  cases model with
  | none => simp [State.registered?, h.modelHash]
  | some m =>
    obtain ⟨x, t, hm⟩ := hex_ne_nil m
    simp [State.registered?, h.modelHash, hm]

/-- A refused call raises and has done nothing. -/
theorem call_refused (hs : ∃ model p, s.state.Holds model p) {c : Call}
    (h : Refused rt crypto files s c) : ∃ e, call rt crypto files c s = (.error e, s) := by
  cases c with
  | registerModel model =>
    have heq := registerModel_eq crypto files s model
    cases hpayload : model.payload files with
    | error e =>
      rw [hpayload] at heq
      exact ⟨e, returned_error _ heq⟩
    | ok payload =>
      rw [hpayload] at heq
      exact ⟨_, returned_error _ (heq.trans (if_pos (h payload hpayload)))⟩
  | append alert =>
    obtain ⟨model, p, hholds⟩ := hs
    have heq := append_eq rt crypto files hholds alert
    cases model with
    | none => exact ⟨_, returned_error _ heq⟩
    | some m =>
      cases hc : canonicalJson rt alert with
      | error e =>
        rw [hc] at heq
        exact ⟨e, returned_error _ heq⟩
      | ok c =>
        rw [hc] at heq
        have hfull : ¬ s.state.sequence + 1 < 2 ^ 64 := by
          rcases h with hnone | hbad | hfull
          · cases (registered?_of_holds hholds).mp hnone
          · exact absurd hc (hbad c)
          · omega
        exact ⟨_, returned_error _ (heq.trans (if_neg hfull))⟩

/-- A call that is not refused assigns what it means to save. -/
theorem call_accepted (hs : ∃ model p, s.state.Holds model p) {c : Call}
    (h : ¬ Refused rt crypto files s c) : ∃ state value,
      call rt crypto files c s = finish files s state value ∧
        (state = s.state ↔ Repeats crypto files s c) := by
  cases c with
  | registerModel model =>
    have heq := registerModel_eq crypto files s model
    simp only [Refused, not_forall] at h
    obtain ⟨payload, hpayload, hpass⟩ := h
    rw [hpayload] at heq
    refine ⟨_, _, finish_map Returned.digest (heq.trans (if_neg hpass)), ?_⟩
    constructor
    · intro hsame
      exact ⟨payload, hpayload, (congrArg State.modelHash hsame).symm⟩
    · rintro ⟨payload', hpayload', hmodel⟩
      obtain rfl := Except.ok.inj (hpayload.symm.trans hpayload')
      rw [← hmodel]
  | append alert =>
    obtain ⟨model, p, hholds⟩ := hs
    have heq := append_eq rt crypto files hholds alert
    simp only [Refused, not_or, not_forall, not_not, not_le, registered?_of_holds hholds] at h
    obtain ⟨hmodel, ⟨c, hc⟩, hlt⟩ := h
    obtain ⟨m, rfl⟩ := Option.ne_none_iff_exists'.mp hmodel
    rw [hc] at heq
    refine ⟨_, _, finish_map Returned.receipt (heq.trans (if_pos hlt)), ?_⟩
    refine iff_of_false (fun hsame => ?_) id
    have hsequence : s.state.sequence + 1 = s.state.sequence := congrArg State.sequence hsame
    omega

/-- A call that raises changes nothing, unless `_persist` fails with something new to save. -/
theorem changesNothing_iff (hs : ∃ model p, s.state.Holds model p) (c : Call) :
    ChangesNothing rt crypto files s c ↔ Unharmed rt crypto files s c := by
  unfold ChangesNothing Unharmed
  by_cases hrefused : Refused rt crypto files s c
  · obtain ⟨e, he⟩ := call_refused hs hrefused
    rw [he]
    exact iff_of_true (fun _ _ => rfl) (Or.inr (Or.inl hrefused))
  · obtain ⟨state, value, hcall, hrepeats⟩ := call_accepted hs hrefused
    rw [hcall, ← hrepeats, finish, or_iff_right hrefused]
    cases hfault : files.persistFault with
    | none => exact iff_of_true nofun (Or.inl rfl)
    | some e =>
      rw [or_iff_right nofun]
      constructor
      · intro h
        exact congrArg AuditStore.state (h e rfl)
      · rintro rfl _ _
        rfl

theorem Reachable.run (h : Reachable rt crypto s) (calls : List (Call × Files)) :
    Reachable rt crypto (run rt crypto s calls).store := by
  induction calls using List.reverseRecOn with
  | nil => exact h
  | append_singleton calls c ih =>
    rw [run_append_singleton]
    exact ih.called c.1 c.2

def AllUnharmed (rt : Runtime) (crypto : Crypto) (s : AuditStore) (calls : List (Call × Files)) :
    Prop :=
  ∀ before c after, calls = before ++ c :: after →
    Unharmed rt crypto c.2 (run rt crypto s before).store c.1

theorem AllUnharmed.append_singleton {calls : List (Call × Files)} {c : Call × Files}
    (h : AllUnharmed rt crypto s (calls ++ [c])) : AllUnharmed rt crypto s calls ∧
      Unharmed rt crypto c.2 (run rt crypto s calls).store c.1 := by
  refine ⟨fun before d after hcalls => h before d (after ++ [c]) ?_, h calls c [] rfl⟩
  rw [hcalls, List.append_assoc, List.cons_append]

/-- The store stays at the end of the chain of what it has returned. -/
theorem run_tracks_unharmed (key : Digest) (file : Option State) (calls : List (Call × Files))
    (h : AllUnharmed rt crypto ⟨freshState key, file⟩ calls) :
    ∃ model p, Tracks rt crypto key (run rt crypto ⟨freshState key, file⟩ calls).store
      (run rt crypto ⟨freshState key, file⟩ calls).issued model p := by
  induction calls using List.reverseRecOn with
  | nil => exact ⟨none, .zero, tracks_fresh rt crypto key file⟩
  | append_singleton calls c ih =>
    obtain ⟨hbefore, hunharmed⟩ := h.append_singleton
    obtain ⟨model, p, htracks⟩ := ih hbefore
    have hnothing := (changesNothing_iff ⟨model, p, htracks.holds⟩ c.1).mpr hunharmed
    have hstep := call_step rt crypto c.2 htracks.holds c.1
    rw [run_append_singleton, issued_step]
    generalize run rt crypto ⟨freshState key, file⟩ calls = r at *
    have hstore : (r.step rt crypto c).store = (call rt crypto c.2 c.1 r.store).2 := rfl
    rw [hstore]
    rw [ChangesNothing] at hnothing
    generalize call rt crypto c.2 c.1 r.store = out at *
    rcases out with ⟨e | v, store⟩
    · refine ⟨model, p, ?_⟩
      rw [hnothing e rfl]
      simpa [issue?] using htracks
    · exact htracks.step hstep

/-- **Calls that fail.**  A call on a reachable store that raises changes neither the memory nor the
file, unless `_persist` fails with something new to save; and where no call of a run is of that kind,
`verify_chain` accepts what the run returned, with all its prefixes. -/
theorem failing_call_changes_nothing_iff (rt : Runtime) (crypto : Crypto) :
    (∀ s, Reachable rt crypto s → ∀ (c : Call) (files : Files),
      ChangesNothing rt crypto files s c ↔ Unharmed rt crypto files s c) ∧
    ∀ (files : Files) (urandom : Digest) (s : AuditStore) (calls : List (Call × Files)),
      open? files urandom none = .ok s → AllUnharmed rt crypto s calls →
      let r := run rt crypto s calls
      verifyChain rt crypto r.store (r.issued.map record) true = .ok true ∧
        ∀ k, verifyChain rt crypto r.store ((r.issued.map record).take k) false = .ok true := by
  refine ⟨fun s hs c files => changesNothing_iff hs.sound.state c,
    fun files urandom s calls hopen hall => ?_⟩
  obtain ⟨file, rfl⟩ := open?_fresh hopen
  obtain ⟨model, p, h⟩ := run_tracks_unharmed urandom file calls hall
  exact h.accepts

def failingFiles : Files := { quietFiles with persistFault := some .osError }

def freshStore : AuditStore := ⟨freshState .zero, some (freshState .zero)⟩

theorem freshStore_reachable : Reachable plainRuntime .standard freshStore :=
  @Reachable.fresh _ _ quietFiles .zero freshStore rfl

def registerEmpty : Call × Files := (.registerModel (.bytes (asciiBytes "{}")), quietFiles)

def appendQuietly (n : ℤ) : Call × Files := (.append (numberedAlert n), quietFiles)

def registerOther : Call × Files := (.registerModel (.bytes (asciiBytes "[]")), failingFiles)

/-- Another model is refused between two appends, so its failing file system does no harm. -/
theorem failing_call_changes_nothing_iff_refused :
    let s := (run plainRuntime .standard freshStore [registerEmpty, appendQuietly 1]).store
    let r := run plainRuntime .standard freshStore
      [registerEmpty, appendQuietly 1, registerOther, appendQuietly 2]
    ChangesNothing plainRuntime .standard failingFiles s registerOther.1 ∧ r.issued.length = 2 ∧
      verifyChain plainRuntime .standard r.store (r.issued.map record) true = .ok true := by
  obtain ⟨hcall, hrun⟩ := failing_call_changes_nothing_iff plainRuntime .standard
  have hunharmed : Unharmed plainRuntime .standard failingFiles
      (run plainRuntime .standard freshStore [registerEmpty, appendQuietly 1]).store
      registerOther.1 := by
    refine Or.inr (Or.inl fun payload hpayload => ?_)
    rw [← Except.ok.inj hpayload]
    decide +kernel
  refine ⟨(hcall _ (freshStore_reachable.run _) _ _).mpr hunharmed, by decide +kernel,
    (hrun quietFiles .zero freshStore _ rfl fun before c after hcalls => ?_).1⟩
  have hsplit := congrArg List.head? (congrArg (List.drop before.length) hcalls)
  rw [List.drop_left, List.head?_cons, List.head?_drop] at hsplit
  have hbefore := congrArg (List.take before.length) hcalls
  rw [List.take_left] at hbefore
  have hlength := congrArg List.length hcalls
  rw [List.length_append, List.length_cons] at hlength
  rw [← hbefore]
  rcases before with _ | ⟨_, _ | ⟨_, _ | ⟨_, _ | ⟨_, before⟩⟩⟩⟩
  · rw [← Option.some.inj hsplit]
    exact Or.inl rfl
  · rw [← Option.some.inj hsplit]
    exact Or.inl rfl
  · rw [← Option.some.inj hsplit]
    exact hunharmed
  · rw [← Option.some.inj hsplit]
    exact Or.inl rfl
  · simp only [List.length_cons, List.length_nil] at hlength
    omega

deriving instance DecidableEq for Returned

/-- A model, an append whose file cannot be replaced, and one more append. -/
def failedAppend : List (Call × Files) :=
  [registerEmpty, (.append (numberedAlert 1), failingFiles), (.append (numberedAlert 2), quietFiles)]

theorem failed_append_breaks_chain :
    let s := (run plainRuntime .standard freshStore [registerEmpty]).store
    let r := run plainRuntime .standard freshStore failedAppend
    Reachable plainRuntime .standard s ∧
      ¬ ChangesNothing plainRuntime .standard failingFiles s (.append (numberedAlert 1)) ∧
      verifyChain plainRuntime .standard r.store (r.issued.map record) false = .ok false := by
  refine ⟨.called _ _ freshStore_reachable, fun h => ?_, by decide +kernel⟩
  have hraised : (call plainRuntime .standard failingFiles (.append (numberedAlert 1))
      (run plainRuntime .standard freshStore [registerEmpty]).store).1 = .error .osError := by
    decide +kernel
  have hsequence : (call plainRuntime .standard failingFiles (.append (numberedAlert 1))
      (run plainRuntime .standard freshStore [registerEmpty]).store).2.state.sequence = 1 := by
    decide +kernel
  rw [h _ hraised] at hsequence
  exact absurd hsequence (by decide +kernel)

end Cote3Mon.AuditStore
