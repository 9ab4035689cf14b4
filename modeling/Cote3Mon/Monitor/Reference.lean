import Cote3Mon.AuditStore.Chain
import Cote3Mon.Monitor.Backend
import Cote3Mon.Optee.Evidence

namespace Cote3Mon.Monitor
open ByteText Python AuditTa Optee LocalBackend

/-- The caller makes a call, or drops the store and opens it again on its state file. -/
inductive Event where
  | call (c : Call)
  | reopen (urandom : Digest)

def Event.call? : Event → Option Call
  | .call c => some c
  | .reopen _ => none

def Call.isAppend : Call → Bool
  | .append _ => true
  | .registerModel _ => false

variable (rt : Runtime) (crypto : Crypto)

/-- What the calls return or raise, and the backend after them.  The run itself raises where
the store cannot be opened. -/
def localRun : List Event → LocalBackend → Except Exc (List (Except Exc Returned) × LocalBackend)
  | [], b => .ok ([], b)
  | .call c :: events, b => do
    let out := (localBackend rt crypto).call c b
    let rest ← localRun events out.2
    return (out.1 :: rest.1, rest.2)
  | .reopen urandom :: events, b => do
    localRun events (← LocalBackend.open? urandom b.store.file b.persistFaults)

def opteeRun (events : List Event) (m : Machine) : List (Except Exc Returned) × Machine :=
  (opteeBackend rt crypto).run (events.filterMap Event.call?) m

/-- Both raise, or both return the same value. -/
inductive SameOutcome : Except Exc Returned → Except Exc Returned → Prop
  | raised (e e' : Exc) : SameOutcome (.error e) (.error e')
  | returned (v : Returned) : SameOutcome (.ok v) (.ok v)

/-- A state of the store with the texts and the counter of a state of the TA. -/
structure StandsFor (state : AuditStore.State) (st : AuditState) : Prop where
  wellFormed : WellFormed st
  key : state.key = st.key
  sequence : state.sequence = st.sequence.toNat
  head : state.head = st.head.hex
  unregistered : st.modelRegistered = 0 → state.modelHash = none ∧ st.sequence = 0
  registered : st.modelRegistered ≠ 0 → state.modelHash = some st.modelHash.hex

/-- Nothing fails on either side, and what the state file holds stands for what the next
command of the TA loads. -/
structure Mirrors (b : LocalBackend) (m : Machine) : Prop where
  saved : b.store.file = some b.store.state
  faults : ∀ n, b.persistFaults n = none
  machine : m.Succeeds
  stands : StandsFor b.store.state m.tee.next

variable {rt crypto} {b : LocalBackend} {m : Machine} {s : AuditStore} {st : AuditState}
  {state : AuditStore.State}

theorem standsFor_fresh (key : Digest) : StandsFor (AuditStore.freshState key)
    (initialState key) where
  wellFormed := initialState_wellFormed key
  key := rfl
  sequence := rfl
  head := rfl
  unregistered _ := ⟨rfl, rfl⟩
  registered h := absurd rfl h

theorem StandsFor.register (h : StandsFor state st) (d : Digest) :
    StandsFor { state with modelHash := some d.hex } (register st d) where
  wellFormed := h.wellFormed
  key := h.key
  sequence := h.sequence
  head := h.head
  unregistered hreg := absurd hreg (show (1 : UInt32) ≠ 0 by decide)
  registered _ := rfl

abbrev nextReceipt (crypto : Crypto) (st : AuditState) (c : Bytes) : AuditStore.Receipt :=
  AuditStore.issue crypto st.key st.modelHash st.sequence.toNat st.head c

theorem sequence_succ (hlt : st.sequence.toNat + 1 < 2 ^ 64) :
    (st.sequence + 1).toNat = st.sequence.toNat + 1 := by
  rw [UInt64.toNat_add, show (1 : UInt64).toNat = 1 from rfl, Nat.mod_eq_of_lt hlt]

/-- The TA issues the receipt of the store. -/
theorem receiptDict_issue (crypto : Crypto) (c : Bytes) (hlt : st.sequence.toNat + 1 < 2 ^ 64) :
    receiptDict (AuditTa.issue crypto st (crypto.sha256 c)) = (nextReceipt crypto st c).toDict := by
  have hmessage : hmacMessage (st.sequence + 1) st.head (crypto.sha256 c) st.modelHash =
      chainMessage (st.sequence.toNat + 1) st.head ⟨crypto.sha256 c, st.modelHash⟩ := by
    rw [hmacMessage_eq, sequence_succ hlt]
    rfl
  simp only [receiptDict, AuditTa.issue, hmessage, sequence_succ hlt, AuditStore.Receipt.toDict,
    AuditStore.issue, AuditStore.tag]

theorem StandsFor.advance (h : StandsFor state st) (hreg : st.modelRegistered ≠ 0) (c : Bytes)
    (hlt : st.sequence.toNat + 1 < 2 ^ 64) :
    StandsFor (state.advance (nextReceipt crypto st c))
      (advance st (AuditTa.issue crypto st (crypto.sha256 c))) where
  wellFormed := h.wellFormed
  key := h.key
  sequence := (sequence_succ hlt).symm
  head := by
    simp only [AuditStore.State.advance, AuditStore.issue, AuditStore.tag, AuditTa.advance,
      AuditTa.issue, hmacMessage_eq, sequence_succ hlt]
    rfl
  unregistered hzero := absurd hzero hreg
  registered _ := h.registered hreg

theorem store_registerModel (payload : Bytes) (path : Text) :
    AuditStore.registerModel crypto (files (.ok payload) none) (.path path) s =
      if s.state.sequence ≠ 0 ∧ s.state.modelHash ≠ some (crypto.sha256 payload).hex then
        (.error (.refused "model cannot change after alerts have been appended"), s)
      else (.ok (crypto.sha256 payload).hex,
        ⟨{ s.state with modelHash := some (crypto.sha256 payload).hex },
          some { s.state with modelHash := some (crypto.sha256 payload).hex }⟩) := by
  have hpayload : (AuditStore.Model.path path).payload (files (.ok payload) none) =
    .ok payload := rfl
  rw [AuditStore.registerModel, hpayload, Exec.bind_apply, Exec.lift_apply, Exec.next_ok,
    Exec.bind_apply, Exec.get_apply, Exec.next_ok]
  split_ifs with h
  · rfl
  · rfl

theorem store_append_unregistered (fs : AuditStore.Files) (alert : Json)
    (h : s.state.modelHash = none) :
    AuditStore.append rt crypto fs alert s =
      (.error (.refused "register a model before appending alerts"), s) := by
  rw [AuditStore.append, Exec.bind_apply, Exec.get_apply, Exec.next_ok,
    AuditStore.State.registered?, h]
  rfl

theorem store_append {alert : Json} {c : Bytes} (hc : canonicalJson rt alert = .ok c)
    (h : StandsFor s.state st) (hreg : st.modelRegistered ≠ 0)
    (hlt : st.sequence.toNat + 1 < 2 ^ 64) (readBytes : Except Exc Bytes) :
    AuditStore.append rt crypto (files readBytes none) alert s =
      (.ok (nextReceipt crypto st c), ⟨s.state.advance (nextReceipt crypto st c),
        some (s.state.advance (nextReceipt crypto st c))⟩) := by
  obtain ⟨x, t, hm⟩ := AuditStore.hex_ne_nil st.modelHash
  have hsome : s.state.registered? = some st.modelHash.hex := by
    simp [AuditStore.State.registered?, h.registered hreg, hm]
  rw [AuditStore.append, Exec.bind_apply, Exec.get_apply, Exec.next_ok, hsome]
  simp only [Exec.bind_apply, Exec.lift_apply, h.head, h.sequence, Digest.hex, fromHex_hexEncode,
    Exec.next_ok, hc]
  rw [AuditStore.packQ_of_lt hlt, Exec.next_ok, nextReceipt, ← h.key]
  simp only [Exec.bind_apply, AuditStore.setState, Exec.next_ok, AuditStore.persist, files]
  rfl

/-- An alert without a canonical form. -/
theorem store_append_unwritable {alert : Json} {e : Exc} (hc : canonicalJson rt alert = .error e)
    (h : StandsFor s.state st) (fs : AuditStore.Files) :
    ∃ e', AuditStore.append rt crypto fs alert s = (.error e', s) := by
  by_cases hreg : st.modelRegistered = 0
  · exact ⟨_, store_append_unregistered fs alert (h.unregistered hreg).1⟩
  · obtain ⟨x, t, hm⟩ := AuditStore.hex_ne_nil st.modelHash
    have hsome : s.state.registered? = some st.modelHash.hex := by
      simp [AuditStore.State.registered?, h.registered hreg, hm]
    refine ⟨e, ?_⟩
    rw [AuditStore.append, Exec.bind_apply, Exec.get_apply, Exec.next_ok, hsome]
    simp only [Exec.bind_apply, Exec.lift_apply, h.head, Digest.hex, fromHex_hexEncode,
      Exec.next_ok, hc, Exec.next_error]

theorem machine_next (ho : m.tee.object = some st) : m.tee.next = st := by
  rw [World.next, ho]
  rfl

theorem ta_registerModel (crypto : Crypto) (hm : m.Succeeds) (hst : WellFormed m.tee.next)
    (payload : Bytes)
    (hmay : m.tee.next.sequence = 0 ∨ m.tee.next.modelHash = crypto.sha256 payload) :
    ∃ m', Optee.registerModel crypto (.ok payload) m = (.ok (crypto.sha256 payload).hex, m') ∧
      m'.Succeeds ∧ m'.tee.next = register m.tee.next (crypto.sha256 payload) := by
  obtain ⟨m', hregister, hm', ho'⟩ :=
    registerModel_succeeds payload hm (yields_next crypto _ hm.tee hst) hmay
  exact ⟨m', hregister, hm', machine_next ho'⟩

theorem ta_registerModel_conflict (hm : m.Succeeds) (hst : WellFormed m.tee.next) (payload : Bytes)
    (hseq : m.tee.next.sequence ≠ 0) (hmodel : m.tee.next.modelHash ≠ crypto.sha256 payload) :
    ∃ m', Optee.registerModel crypto (.ok payload) m = (.error .calledProcessError, m') ∧
      m'.Succeeds ∧ m'.tee.next = m.tee.next := by
  obtain ⟨m', hprocess, hm', ho'⟩ := process_fails (fun _ => []) hm (by simp)
    (invoke_register_conflict _ (yields_next crypto _ hm.tee hst) hseq hmodel)
  refine ⟨m', ?_, hm', machine_next ho'⟩
  rw [Optee.registerModel, Exec.bind_apply, Exec.lift_apply, Exec.next_ok, runClient_register,
    Exec.bind_apply, hprocess, Exec.next_error]

theorem ta_append (crypto : Crypto) {alert : Json} {c : Bytes} (hc : canonicalJson rt alert = .ok c)
    (hm : m.Succeeds) (hst : WellFormed m.tee.next) (hreg : m.tee.next.modelRegistered ≠ 0) :
    ∃ m', Optee.append rt crypto alert m =
        (.ok (.obj (receiptDict (AuditTa.issue crypto m.tee.next (crypto.sha256 c)))), m') ∧
      m'.Succeeds ∧
      m'.tee.next = advance m.tee.next (AuditTa.issue crypto m.tee.next (crypto.sha256 c)) := by
  have ho : m.tee.object = some m.tee.next := by
    unfold World.next at hreg ⊢
    cases ho : m.tee.object with
    | none =>
      rw [ho] at hreg
      exact absurd rfl hreg
    | some st => rfl
  obtain ⟨m', happend, hm', ho'⟩ := append_succeeds crypto hm ho hst hreg hc
  exact ⟨m', happend, hm', machine_next ho'⟩

theorem ta_append_unregistered {alert : Json} {c : Bytes} (hc : canonicalJson rt alert = .ok c)
    (hm : m.Succeeds) (hst : WellFormed m.tee.next) (hreg : m.tee.next.modelRegistered = 0) :
    ∃ m', Optee.append rt crypto alert m = (.error .calledProcessError, m') ∧
      m'.Succeeds ∧ m'.tee.next = m.tee.next := by
  obtain ⟨m', hprocess, hm', ho'⟩ := process_fails printOutput hm (by simp)
    (invoke_append_unregistered (crypto.sha256 c) (yields_next crypto _ hm.tee hst) hreg)
  refine ⟨m', ?_, hm', machine_next ho'⟩
  rw [Optee.append, hc, Exec.bind_apply, Exec.lift_apply, Exec.next_ok, runClient_append,
    Exec.bind_apply, hprocess, Exec.next_error]

/-- The store allows a model exactly where the TA does. -/
theorem StandsFor.may_register (h : StandsFor state st) (d : Digest) :
    ¬ (state.sequence ≠ 0 ∧ state.modelHash ≠ some d.hex) ↔
      st.sequence = 0 ∨ st.modelHash = d := by
  have hzero : state.sequence = 0 ↔ st.sequence = 0 := by
    rw [h.sequence]
    exact ⟨fun hz => UInt64.toNat_inj.mp hz, fun hz => by rw [hz]; rfl⟩
  rw [not_and_or, not_not, not_not, hzero]
  by_cases hreg : st.modelRegistered = 0
  · have hseq := (h.unregistered hreg).2
    exact ⟨fun _ => Or.inl hseq, fun _ => Or.inl hseq⟩
  · have hmodel : state.modelHash = some d.hex ↔ st.modelHash = d := by
      rw [h.registered hreg, Option.some_inj]
      exact Digest.hex_injective.eq_iff
    rw [hmodel]

/-- The outcomes of a call on both sides, and what is left on both. -/
structure Simulates (x : Except Exc Returned × LocalBackend) (y : Except Exc Returned × Machine) :
    Prop where
  outcome : SameOutcome x.1 y.1
  mirrors : Mirrors x.2 y.2

theorem call_registerModel (rt : Runtime) (crypto : Crypto) (h : Mirrors b m)
    (modelPath : ModelPath) :
    Simulates ((localBackend rt crypto).call (.registerModel modelPath) b)
      ((opteeBackend rt crypto).call (.registerModel modelPath) m) ∧
    ((opteeBackend rt crypto).call (.registerModel modelPath) m).2.tee.next.sequence =
      m.tee.next.sequence := by
  obtain ⟨path, readBytes⟩ := modelPath
  simp only [AuditBackend.call, localBackend, opteeBackend, Exec.bind_apply, onStore, h.faults 0]
  cases readBytes with
  | error e =>
    -- neither side gets further than reading the file
    exact ⟨⟨.raised e e, h.saved, fun n => h.faults (n + 1), h.machine, h.stands⟩, rfl⟩
  | ok payload =>
    have hiff := h.stands.may_register (crypto.sha256 payload)
    rw [store_registerModel]
    by_cases hmay : m.tee.next.sequence = 0 ∨ m.tee.next.modelHash = crypto.sha256 payload
    · obtain ⟨m', hta, hm', hnext⟩ := ta_registerModel crypto h.machine h.stands.wellFormed
        payload hmay
      rw [if_neg (hiff.mpr hmay), hta]
      simp only [Exec.next_ok, Exec.pure_apply]
      exact ⟨⟨.returned _, rfl, fun n => h.faults (n + 1), hm', hnext ▸ h.stands.register _⟩,
        by rw [hnext]; rfl⟩
    · obtain ⟨hseq, hmodel⟩ := not_or.mp hmay
      obtain ⟨m', hta, hm', hnext⟩ :=
        ta_registerModel_conflict h.machine h.stands.wellFormed payload hseq hmodel
      rw [if_pos (not_not.mp (mt hiff.mp hmay)), hta]
      simp only [Exec.next_error]
      exact ⟨⟨.raised _ _, h.saved, fun n => h.faults (n + 1), hm', hnext ▸ h.stands⟩,
        by rw [hnext]⟩

theorem call_append (rt : Runtime) (crypto : Crypto) (h : Mirrors b m) (alert : Json)
    (hlt : m.tee.next.sequence.toNat + 1 < 2 ^ 64) :
    Simulates ((localBackend rt crypto).call (.append alert) b)
      ((opteeBackend rt crypto).call (.append alert) m) ∧
    ((opteeBackend rt crypto).call (.append alert) m).2.tee.next.sequence.toNat ≤
      m.tee.next.sequence.toNat + 1 := by
  simp only [AuditBackend.call, localBackend, opteeBackend, Exec.bind_apply, onStore, h.faults 0]
  cases hc : canonicalJson rt alert with
  | error e =>
    obtain ⟨e', hstore⟩ := store_append_unwritable hc h.stands (files (.ok []) none)
    have hta : Optee.append rt crypto alert m = (.error e, m) := by
      rw [Optee.append, hc, Exec.bind_apply, Exec.lift_apply, Exec.next_error]
    rw [hta, hstore]
    exact ⟨⟨.raised _ _, h.saved, fun n => h.faults (n + 1), h.machine, h.stands⟩, Nat.le_succ _⟩
  | ok c =>
    by_cases hreg : m.tee.next.modelRegistered = 0
    · obtain ⟨m', hta, hm', hnext⟩ :=
        ta_append_unregistered hc h.machine h.stands.wellFormed hreg
      rw [store_append_unregistered _ alert (h.stands.unregistered hreg).1, hta]
      simp only [Exec.next_error]
      exact ⟨⟨.raised _ _, h.saved, fun n => h.faults (n + 1), hm', hnext ▸ h.stands⟩,
        by rw [hnext]; exact Nat.le_succ _⟩
    · obtain ⟨m', hta, hm', hnext⟩ := ta_append crypto hc h.machine h.stands.wellFormed hreg
      rw [store_append hc h.stands hreg hlt, hta, receiptDict_issue crypto c hlt]
      simp only [Exec.next_ok, Exec.pure_apply]
      exact ⟨⟨.returned _, rfl, fun n => h.faults (n + 1), hm', hnext ▸ h.stands.advance hreg c hlt⟩,
        by rw [hnext]; exact (sequence_succ hlt).le⟩

/-- Opened on its state file the store is what it was. -/
theorem Mirrors.reopen (h : Mirrors b m) (urandom : Digest) :
    ∃ b', LocalBackend.open? urandom b.store.file b.persistFaults = .ok b' ∧ Mirrors b' m := by
  refine ⟨⟨⟨b.store.state, b.store.file⟩, fun n => b.persistFaults (n + 1)⟩, ?_,
    ⟨h.saved, fun n => h.faults (n + 1), h.machine, h.stands⟩⟩
  rw [LocalBackend.open?, h.saved]
  rfl

def appends (events : List Event) : ℕ := (events.filterMap Event.call?).countP Call.isAppend

theorem run_sameOutcome (rt : Runtime) (crypto : Crypto) {events : List Event} (h : Mirrors b m)
    (hcount : m.tee.next.sequence.toNat + appends events < 2 ^ 64) :
    ∃ returned b', localRun rt crypto events b = .ok (returned, b') ∧
      List.Forall₂ SameOutcome returned (opteeRun rt crypto events m).1 ∧
      Mirrors b' (opteeRun rt crypto events m).2 := by
  induction events generalizing b m with
  | nil => exact ⟨[], b, rfl, .nil, h⟩
  | cons event events ih =>
    cases event with
    | reopen urandom =>
      obtain ⟨b', hopen, h'⟩ := h.reopen urandom
      obtain ⟨returned, b'', hrun, hsame, hlast⟩ := ih h' hcount
      refine ⟨returned, b'', ?_, hsame, hlast⟩
      rw [localRun, hopen]
      exact hrun
    | call c =>
      have hstep : Simulates ((localBackend rt crypto).call c b)
        ((opteeBackend rt crypto).call c m) ∧
          ((opteeBackend rt crypto).call c m).2.tee.next.sequence.toNat + appends events <
              2 ^ 64 := by
        cases c with
        | registerModel modelPath =>
          obtain ⟨hsim, hseq⟩ := call_registerModel rt crypto h modelPath
          rw [hseq]
          exact ⟨hsim, hcount⟩
        | append alert =>
          have hcons : appends (.call (.append alert) :: events) = appends events + 1 := by
            rw [appends, List.filterMap_cons]
            exact List.countP_cons_of_pos rfl
          rw [hcons] at hcount
          obtain ⟨hsim, hseq⟩ := call_append rt crypto h alert (by omega)
          exact ⟨hsim, by omega⟩
      obtain ⟨hsim, hcount'⟩ := hstep
      obtain ⟨returned, b', hrun, hsame, hlast⟩ := ih hsim.mirrors hcount'
      refine ⟨_, b', ?_, .cons hsim.outcome hsame, hlast⟩
      rw [localRun, hrun]
      rfl

/-- The key of the TA, or the random bytes from which its first command will make it. -/
def HoldsKey (m : Machine) (key : Digest) : Prop := m.tee.next = initialState key

/-- Both sides are opened on the same key. -/
theorem mirrors_fresh {key : Digest} {persistFaults : ℕ → Option Exc}
    (hfaults : ∀ n, persistFaults n = none) (hm : m.Succeeds) (hkey : HoldsKey m key) :
    ∃ b, LocalBackend.open? key none persistFaults = .ok b ∧ Mirrors b m := by
  refine ⟨⟨⟨AuditStore.freshState key, some (AuditStore.freshState key)⟩,
    fun n => persistFaults (n + 1)⟩, ?_, ⟨rfl, fun n => hfaults (n + 1), hm, ?_⟩⟩
  · rw [LocalBackend.open?, AuditStore.open?, AuditStore.persist, files, hfaults 0]
    rfl
  · rw [show m.tee.next = initialState key from hkey]
    exact standsFor_fresh key

theorem HoldsKey.count {key : Digest} {events : List Event} (h : HoldsKey m key)
    (hfew : appends events < 2 ^ 64) : m.tee.next.sequence.toNat + appends events < 2 ^ 64 := by
  rw [show m.tee.next = initialState key from h]
  exact (Nat.zero_add _).trans_lt hfew

/-- **The audit store is a reference for the TA.**  From the same key, each call raises on
both sides or returns the same value on both. -/
theorem local_is_reference (rt : Runtime) (crypto : Crypto) (key : Digest) (events : List Event)
    (persistFaults : ℕ → Option Exc) (machine : Machine)
    (hfaults : ∀ n, persistFaults n = none) (hmachine : machine.Succeeds)
    (hkey : HoldsKey machine key) (hfew : appends events < 2 ^ 64) :
    ∃ b returned b', LocalBackend.open? key none persistFaults = .ok b ∧
      localRun rt crypto events b = .ok (returned, b') ∧
      List.Forall₂ SameOutcome returned (opteeRun rt crypto events machine).1 := by
  obtain ⟨b, hopen, hmirrors⟩ := mirrors_fresh hfaults hmachine hkey
  obtain ⟨returned, b', hrun, hsame, -⟩ := run_sameOutcome rt crypto hmirrors (hkey.count hfew)
  exact ⟨b, returned, b', hopen, hrun, hsame⟩

/-- A registration, an append and a refused registration, with the store opened again between. -/
def threeCalls : List Event :=
  [.call (.registerModel ⟨text "model.json", .ok (asciiBytes "\x7b\x7d")⟩), .reopen .zero,
    .call (.append (.obj [])), .call (.registerModel ⟨text "model.json", .ok []⟩)]

theorem local_is_reference_three_calls : ∃ b returned b',
    LocalBackend.open? faultless.random none (fun _ => none) = .ok b ∧
      localRun plainRuntime .standard threeCalls b = .ok (returned, b') ∧
      List.Forall₂ SameOutcome returned (opteeRun plainRuntime .standard threeCalls
          quietMachine).1 :=
  local_is_reference plainRuntime .standard faultless.random threeCalls (fun _ => none) quietMachine
    (fun _ => rfl) quietMachine_succeeds rfl (by decide)

end Cote3Mon.Monitor
