import Cote3Mon.Monitor.Batch
import Cote3Mon.Monitor.Verdicts

namespace Cote3Mon.Monitor
open ByteText Python AuditTa Optee

variable {σ α : Type}

/-- The laws of a backend that stands for a state of the TA before it is used (`Loads`) and
once it has registered a model (`Holds`). -/
structure Anchors (rt : Runtime) (crypto : Crypto) (backend : AuditBackend σ)
    (Loads Holds : σ → AuditState → Prop) : Prop where
  registered : ∀ {modelPath s st d s'}, Loads s st → backend.registerModel modelPath s =
    (.ok d, s') →
    ∃ st model, Loads s st ∧ Holds s' (register st model)
  appended : ∀ {alert s st v s'}, Holds s st → backend.append alert s = (.ok v, s') →
    ∃ c, canonicalJson rt alert = .ok c ∧
      v = .obj (receiptDict (AuditTa.issue crypto st (crypto.sha256 c))) ∧
      Holds s' (advance st (AuditTa.issue crypto st (crypto.sha256 c)))
  register_keeps : ∀ modelPath, (backend.registerModel modelPath).Keeps fun s => ∃ st, Loads s st
  append_keeps : ∀ alert, (backend.append alert).Keeps fun s => ∃ st, Loads s st

variable {rt : Runtime} {crypto : Crypto} {m : Machine} {b : LocalBackend} {st : AuditState}

def OpteeLoads (m : Machine) (st : AuditState) : Prop := Loaded m.tee.object st ∧ WellFormed st

def OpteeHolds (m : Machine) (st : AuditState) : Prop := m.tee.object = some st ∧ WellFormed st

theorem exists_opteeLoads : (∃ st, OpteeLoads m st) ↔ WellFormedObject m.tee.object := by
  constructor
  · rintro ⟨st, hl, hst⟩ st' ho
    rcases hl with ho' | ⟨hnone, -⟩
    · rwa [Option.some.inj (ho.symm.trans ho')]
    · cases ho.symm.trans hnone
  · intro h
    cases ho : m.tee.object with
    | none =>
      refine ⟨initialState .zero, ?_, initialState_wellFormed .zero⟩
      rw [ho]
      exact Or.inr ⟨rfl, .zero, rfl⟩
    | some st => exact ⟨st, Or.inl ho, h st ho⟩

theorem process_keeps (inv : Invocation) (print : Output → Text) :
    (process crypto inv print).Keeps fun m => WellFormedObject m.tee.object := by
  intro m h
  rcases process_step crypto inv print m with ⟨-, -, hsame⟩ | ⟨out, hstep, -⟩
  · rw [hsame]
    exact h
  · exact hstep.wellFormed h

theorem process_ok {inv : Invocation} {print : Output → Text} {t : Text} {m' : Machine}
    (h : process crypto inv print m = (.ok t, m')) :
    ∃ out, CommandStep crypto inv m.tee.object out m'.tee.object ∧ out.result = .success ∧
      t = strip (print out.output) := by
  rcases process_step crypto inv print m with ⟨e, he, -⟩ | ⟨out, hstep, hout⟩
  · rw [h] at he
    cases he
  · rw [h] at hstep hout
    by_cases hresult : out.result = .success
    · rw [if_pos hresult] at hout
      exact ⟨out, hstep, hresult, Except.ok.inj hout⟩
    · rw [if_neg hresult] at hout
      cases hout

theorem optee_registerModel (readBytes : Except Exc Bytes) :
    Optee.registerModel crypto readBytes = (do
      let payload ← Exec.lift readBytes
      let _ ← process crypto (registerInvocation (crypto.sha256 payload)) fun _ => []
      return (crypto.sha256 payload).hex) := by
  simp only [Optee.registerModel, runClient_register]

theorem optee_append (alert : Json) :
    Optee.append rt crypto alert = (do
      let c ← Exec.lift (canonicalJson rt alert)
      let output ← process crypto (appendInvocation (crypto.sha256 c)) printOutput
      Exec.lift (loads rt output)) := by
  simp only [Optee.append, runClient_append]

theorem optee_anchors (rt : Runtime) (crypto : Crypto) :
    Anchors rt crypto (opteeBackend rt crypto) OpteeLoads OpteeHolds where
  registered := by
    intro modelPath m st d m' hload h
    have hobject := exists_opteeLoads.mp ⟨st, hload⟩
    simp only [opteeBackend, optee_registerModel] at h
    obtain ⟨payload, -, h⟩ := Exec.lift_bind_ok h
    obtain ⟨t, n, hprocess, h⟩ := Exec.bind_ok h
    obtain ⟨out, hstep, hresult, -⟩ := process_ok hprocess
    obtain ⟨st', hl, ho'⟩ := step_register hstep hresult
    have hst := hobject.loaded hl
    obtain rfl : n = m' := (Prod.mk.inj h).2
    exact ⟨st', _, ⟨hl, hst⟩, ho', hst⟩
  appended := by
    intro alert m st v m' hhold h
    obtain ⟨ho, hst⟩ := hhold
    simp only [opteeBackend, optee_append] at h
    obtain ⟨c, hc, h⟩ := Exec.lift_bind_ok h
    obtain ⟨t, n, hprocess, h⟩ := Exec.bind_ok h
    obtain ⟨out, hstep, hresult, rfl⟩ := process_ok hprocess
    obtain ⟨st', hstored, ho', houtput⟩ := step_append hstep hresult
    obtain rfl : st' = st := Option.some.inj (hstored.symm.trans ho)
    rw [houtput, printOutput, loads_printReceipt] at h
    obtain ⟨hv, rfl⟩ := Exec.lift_ok h
    exact ⟨c, hc, (Except.ok.inj hv).symm, ho', hst⟩
  register_keeps := by
    intro modelPath
    simp only [exists_opteeLoads, opteeBackend, optee_registerModel]
    exact (Exec.keeps_lift _).bind fun _ => (process_keeps _ _).bind fun _ => Exec.keeps_pure _
  append_keeps := by
    intro alert
    simp only [exists_opteeLoads, opteeBackend, optee_append]
    exact (Exec.keeps_lift _).bind fun _ => (process_keeps _ _).bind fun _ => Exec.keeps_lift _

def LocalStands (b : LocalBackend) (st : AuditState) : Prop := StandsFor b.store.state st

theorem StandsFor.holds {state : AuditStore.State} (h : StandsFor state st) :
    state.Holds (if st.modelRegistered = 0 then none else some st.modelHash) st.head where
  modelHash := by
    by_cases hreg : st.modelRegistered = 0
    · rw [if_pos hreg, (h.unregistered hreg).1]
      rfl
    · rw [if_neg hreg, h.registered hreg]
      rfl
  head := h.head

variable (rt crypto) in
theorem local_registered (modelPath : ModelPath) (h : LocalStands b st) :
    (∃ e, (localBackend rt crypto).registerModel modelPath b =
        (.error e, ⟨b.store, fun n => b.persistFaults (n + 1)⟩)) ∨
      ∃ model, LocalStands ((localBackend rt crypto).registerModel modelPath b).2
        (register st model) := by
  rcases AuditStore.registerModel_spec crypto (LocalBackend.files modelPath.readBytes
      (b.persistFaults 0)) b.store (.path modelPath.path) with ⟨e, he⟩ | ⟨payload, -, hsaved⟩
  · refine Or.inl ⟨e, ?_⟩
    simp only [localBackend, LocalBackend.onStore, he]
  · refine Or.inr ⟨crypto.sha256 payload, ?_⟩
    have hregister := StandsFor.register h (crypto.sha256 payload)
    simp only [LocalStands, localBackend, LocalBackend.onStore]
    generalize AuditStore.registerModel crypto (LocalBackend.files modelPath.readBytes
      (b.persistFaults 0)) (.path modelPath.path) b.store = out at hsaved ⊢
    cases hsaved with
    | unsaved e => exact hregister
    | saved => exact hregister

variable (rt crypto) in
theorem local_appended (alert : Json) (h : LocalStands b st) :
    (∃ e, (localBackend rt crypto).append alert b =
        (.error e, ⟨b.store, fun n => b.persistFaults (n + 1)⟩)) ∨
      ∃ c, canonicalJson rt alert = .ok c ∧
        LocalStands ((localBackend rt crypto).append alert b).2
          (advance st (AuditTa.issue crypto st (crypto.sha256 c))) ∧
        ∀ v, ((localBackend rt crypto).append alert b).1 = .ok v →
          v = .obj (receiptDict (AuditTa.issue crypto st (crypto.sha256 c))) := by
  simp only [localBackend, LocalBackend.onStore, Exec.bind_apply]
  rcases AuditStore.append_spec rt crypto (LocalBackend.files (.ok []) (b.persistFaults 0)) h.holds
      alert with ⟨e, he⟩ | ⟨model, c, hmodel, hc, hlt, hsaved⟩
  · refine Or.inl ⟨e, ?_⟩
    rw [he]
    rfl
  · refine Or.inr ⟨c, hc, ?_⟩
    by_cases hreg : st.modelRegistered = 0
    · rw [if_pos hreg] at hmodel
      cases hmodel
    · rw [if_neg hreg] at hmodel
      obtain rfl := Option.some.inj hmodel
      rw [h.sequence] at hlt
      have hadvance : StandsFor _ (advance st (AuditTa.issue crypto st (crypto.sha256 c))) :=
        StandsFor.advance h hreg c hlt
      rw [h.key, h.sequence] at hsaved
      rw [receiptDict_issue crypto c hlt]
      generalize AuditStore.append rt crypto (LocalBackend.files (.ok []) (b.persistFaults 0)) alert
        b.store = out at hsaved ⊢
      cases hsaved with
      | unsaved e => exact ⟨hadvance, fun v hv => by cases hv⟩
      | saved => exact ⟨hadvance, fun v hv => (Except.ok.inj hv).symm⟩

theorem local_anchors (rt : Runtime) (crypto : Crypto) :
    Anchors rt crypto (localBackend rt crypto) LocalStands LocalStands where
  registered := by
    intro modelPath b st d b' hload h
    rcases local_registered rt crypto modelPath hload with
      ⟨e, he⟩ | ⟨model, hstands⟩
    · cases h.symm.trans he
    · rw [h] at hstands
      exact ⟨st, model, hload, hstands⟩
  appended := by
    intro alert b st v b' hhold h
    rcases local_appended rt crypto alert hhold with
      ⟨e, he⟩ | ⟨c, hc, hstands, hv⟩
    · cases h.symm.trans he
    · rw [h] at hstands hv
      exact ⟨c, hc, hv v rfl, hstands⟩
  register_keeps := by
    rintro modelPath b ⟨st, hload⟩
    rcases local_registered rt crypto modelPath hload with
      ⟨e, he⟩ | ⟨model, hstands⟩
    · rw [he]
      exact ⟨st, hload⟩
    · exact ⟨_, hstands⟩
  append_keeps := by
    rintro alert b ⟨st, hload⟩
    rcases local_appended rt crypto alert hload with
      ⟨e, he⟩ | ⟨c, -, hstands, -⟩
    · rw [he]
      exact ⟨st, hload⟩
    · exact ⟨_, hstands⟩

end Cote3Mon.Monitor
