import Cote3Mon.Optee.Verify

namespace Cote3Mon.Optee
open ByteText Python AuditTa MacChain

variable {rt : Runtime} {crypto : Crypto} {m : Machine}

/-- The next `load_state` of a command. -/
theorem yields_stored (crypto : Crypto) (parameters : Fin 4 → Memref)
    {receipts : List AuditTa.Receipt} (hm : m.Succeeds) (h : Stored crypto m.tee.object receipts) :
    ∃ st, Loaded m.tee.object st ∧ Yields crypto parameters loadState m.tee st (some st) := by
  cases ho : m.tee.object with
  | none =>
    exact ⟨_, Or.inr ⟨rfl, _, rfl⟩, yields_loadState_none crypto parameters hm.tee ho⟩
  | some st =>
    rw [ho] at h
    exact ⟨st, Or.inl rfl, yields_loadState hm.tee ho h.wellFormed⟩

theorem registerModel_succeeds {st : AuditState} (payload : Bytes) (hm : m.Succeeds)
    (hload : Yields crypto (registerInvocation (crypto.sha256 payload)).parameters loadState m.tee st
      (some st)) (hmay : st.sequence = 0 ∨ st.modelHash = crypto.sha256 payload) :
    ∃ m', registerModel crypto (.ok payload) m = (.ok (crypto.sha256 payload).hex, m') ∧
      m'.Succeeds ∧ m'.tee.object = some (register st (crypto.sha256 payload)) := by
  obtain ⟨m', hprocess, hm', ho'⟩ :=
    process_succeeds (fun _ => []) hm rfl (invoke_register _ hload hmay)
  refine ⟨m', ?_, hm', ho'⟩
  rw [registerModel, Exec.bind_apply, Exec.lift_apply, Exec.next_ok, runClient_register,
    Exec.bind_of_ok hprocess]
  rfl

theorem append_succeeds (crypto : Crypto) {st : AuditState} {alert : Json} {c : Bytes}
    (hm : m.Succeeds)
    (ho : m.tee.object = some st) (hst : WellFormed st) (hreg : st.modelRegistered ≠ 0)
    (hc : canonicalJson rt alert = .ok c) :
    ∃ m', append rt crypto alert m =
        (.ok (.obj (receiptDict (AuditTa.issue crypto st (crypto.sha256 c)))), m') ∧ m'.Succeeds ∧
      m'.tee.object = some (advance st (AuditTa.issue crypto st (crypto.sha256 c))) := by
  obtain ⟨m', hprocess, hm', ho'⟩ := process_succeeds printOutput hm rfl
    (invoke_append (crypto.sha256 c) (yields_loadState hm.tee ho hst) hreg)
  refine ⟨m', ?_, hm', ho'⟩
  rw [append, hc, Exec.bind_apply, Exec.lift_apply, Exec.next_ok, runClient_append,
    Exec.bind_of_ok hprocess, printOutput, loads_printReceipt]
  rfl

theorem getHead_succeeds (rt : Runtime) {receipts : List AuditTa.Receipt} (hm : m.Succeeds)
    (h : Stored crypto m.tee.object receipts) :
    ∃ st m', Loaded m.tee.object st ∧
      getHead rt crypto m = (.ok (.obj (headDict ⟨st.sequence, st.modelHash, st.head⟩)), m') := by
  obtain ⟨st, hl, hload⟩ := yields_stored crypto headInvocation.parameters hm h
  obtain ⟨m', hprocess, -, -⟩ := process_succeeds printOutput hm rfl (invoke_head hload)
  refine ⟨st, m', hl, ?_⟩
  rw [getHead, runClient_head, Exec.bind_of_ok hprocess, printOutput, loads_printHead]
  rfl

theorem checkHead_issued (rt : Runtime) (crypto : Crypto) {receipts : List AuditTa.Receipt}
    {model : Digest}
    (hm : m.Succeeds) (h : Stored crypto m.tee.object receipts)
    (hcount : receipts.length < 2 ^ 64)
    (hmodel : ∀ st, Loaded m.tee.object st → receipts = [] ∨ st.modelHash = model) :
    ∃ m', checkHead rt crypto (progressAt model receipts.length (lastHead .zero receipts)) m =
      (.ok true, m') := by
  obtain ⟨st, m', hl, hget⟩ := getHead_succeeds rt hm h
  have hchain := h.loaded hl
  have hnat : st.sequence.toNat = receipts.length := by
    rw [hchain.sequence]
    exact UInt64.toNat_ofNat_of_lt' hcount
  have hsequence : Json.item (.obj (headDict ⟨st.sequence, st.modelHash, st.head⟩)) "sequence" =
      .ok (.int receipts.length) := by rw [← hnat]; rfl
  have hhead : strItem rt (.obj (headDict ⟨st.sequence, st.modelHash, st.head⟩)) "head" =
      .ok (lastHead .zero receipts).hex := by rw [← hchain.head]; rfl
  have hmodelHash : strItem rt (.obj (headDict ⟨st.sequence, st.modelHash, st.head⟩)) "model_hash" =
      .ok st.modelHash.hex := rfl
  have hsame : ¬ (receipts.length : ℤ) ≠
      (progressAt model receipts.length (lastHead .zero receipts)).sequence := not_not.mpr rfl
  have hlast : ¬ (lastHead .zero receipts).hex ≠
      (progressAt model receipts.length (lastHead .zero receipts)).previous := not_not.mpr rfl
  refine ⟨m', ?_⟩
  rw [checkHead, Exec.bind_of_ok hget]
  simp only [hsequence, ok_bind, Runtime.int, hhead, hmodelHash, Exec.bind_apply,
    Exec.lift_apply, Exec.next_ok]
  rw [if_neg hsame, Exec.bind_apply, Exec.lift_apply, Exec.next_ok, if_neg hlast]
  split_ifs with hzero
  · rfl
  · rcases hmodel st hl with rfl | hmodel
    · exact absurd rfl hzero
    · have hseen : receipts.length ≠ 0 := hzero
      rw [Exec.bind_apply, Exec.lift_apply, Exec.next_ok, Exec.pure_apply, hmodel, progressAt,
        if_neg hseen, decide_eq_true rfl]

/-- The issued records verify. -/
theorem verifyChain_issued (rt : Runtime) {entries : List (Json × Json)}
    {receipts : List AuditTa.Receipt} (hm : m.Succeeds)
    (h : Anchored rt crypto m.tee.object entries receipts) (hcount : receipts.length < 2 ^ 64) :
    (verifyChain rt crypto (entries.map record) true m).1 = .ok true := by
  -- the machine after the loop, and the model that the loop has seen
  have hloop : ∃ model m', verifyRecords rt crypto (progressAt model 0 .zero)
    (entries.map record) m =
      (.ok (some (progressAt model receipts.length (lastHead .zero receipts))), m') ∧ m'.Succeeds ∧
        m'.tee.object = m.tee.object ∧
        ∀ st, Loaded m.tee.object st → receipts = [] ∨ st.modelHash = model := by
    cases ho : m.tee.object with
    | none =>
      rw [ho] at h
      obtain ⟨hnil, hprinted⟩ := h
      obtain rfl : receipts = [] := hnil
      cases hprinted
      exact ⟨.zero, m, rfl, hm, ho, fun _ _ => Or.inl rfl⟩
    | some st =>
      rw [ho] at h
      obtain ⟨hchain, hprinted⟩ := h
      obtain ⟨m', hrun, hm', ho'⟩ := verifyRecords_issued hm ho hchain.wellFormed hprinted
        hchain.issued (by omega)
      rw [Nat.zero_add] at hrun
      exact ⟨st.modelHash, m', hrun, hm', ho', fun st' hl => Or.inr (by rw [Loaded.eq hl])⟩
  obtain ⟨model, m', hrun, hm', ho', hmodel⟩ := hloop
  obtain ⟨m'', hhead⟩ := checkHead_issued rt crypto hm' (ho' ▸ h.1) hcount (ho' ▸ hmodel)
  have hstart : progressAt model 0 .zero = ⟨Digest.zero.hex, 0, none⟩ := rfl
  rw [hstart] at hrun
  rw [verifyChain, Exec.bind_of_ok hrun]
  simp only [if_true, Exec.orElse_of_ok isClientError false hhead]

/-- Whatever verifies reads as the issued records, up to an explicit collision. -/
theorem verifyChain_sound {entries : List (Json × Json)} {receipts : List AuditTa.Receipt}
    {records : List Json} (h : Anchored rt crypto m.tee.object entries receipts)
    (hcount : receipts.length < 2 ^ 64)
    (haccepted : (verifyChain rt crypto records true m).1 = .ok true) :
    records.length = storedSequence m.tee.object ∧
      (List.Forall₂ (ShowSame (shows rt)) records (entries.map record) ∨
        (∃ st, m.tee.object = some st ∧ Collision (crypto.hmac st.key.bytes)
          (messagesOf (shows rt) records) (messagesOf (shows rt) (entries.map record))) ∨
        Collision crypto.sha256 (canonicalOf (shows rt) records)
          (canonicalOf (shows rt) (entries.map record))) := by
  obtain ⟨st, hl, hlength, hauthentic⟩ := verifyChain_true haccepted
  have hchain := h.1.loaded hl
  have hnat : st.sequence.toNat = receipts.length := by
    rw [hchain.sequence]
    exact UInt64.toNat_ofNat_of_lt' hcount
  have hissued := authentic_record h.2 hchain.issued (by omega)
  rw [← hchain.head] at hissued
  rcases hl with ho | ⟨ho, -⟩
  · refine ⟨by rw [ho, hlength]; rfl, ?_⟩
    have hlen : records.length = (entries.map record).length := by
      rw [List.length_map, h.length, hlength, hnat]
    rcases hauthentic.same_or_collision hissued hlen with hsame | hmac | hsha
    · exact Or.inl hsame
    · exact Or.inr (Or.inl ⟨st, ho, hmac⟩)
    · exact Or.inr (Or.inr hsha)
  · -- no receipt has been issued yet
    obtain ⟨hstored, hprinted⟩ := h
    rw [ho] at hstored
    obtain rfl : receipts = [] := hstored
    cases hprinted
    have hnil : records = [] := List.length_eq_zero_iff.mp (hlength.trans hnat)
    rw [ho, hnil]
    exact ⟨rfl, Or.inl .nil⟩

/-- **Tamper evidence through the TA.**  After any calls on empty storage the issued list
verifies when nothing fails.  A list that verifies has as many records as the TA counts and
shows exactly what was issued, up to an explicit collision. -/
theorem optee_chain_tamper_evident (rt : Runtime) (crypto : Crypto) (machine : Machine)
    (calls : List Call) (hempty : machine.tee.object = none)
    (hcount : (run rt crypto machine calls).issued.length < 2 ^ 64) :
    let r := run rt crypto machine calls
    let issued := r.issued.map record
    (∀ d, decodeHash (ascii (printHash d)) = some d) ∧
    (∀ n : UInt64, decodeSequence (ascii (decimal n.toNat)) = some n) ∧
    (∀ m : Machine, m.Succeeds → m.tee.object = r.machine.tee.object →
      (verifyChain rt crypto issued true m).1 = .ok true) ∧
    ∀ (m : Machine) (records : List Json), m.tee.object = r.machine.tee.object →
      (verifyChain rt crypto records true m).1 = .ok true →
      records.length = storedSequence r.machine.tee.object ∧
        (List.Forall₂ (ShowSame (shows rt)) records issued ∨
          (∃ st, r.machine.tee.object = some st ∧ Collision (crypto.hmac st.key.bytes)
            (messagesOf (shows rt) records) (messagesOf (shows rt) issued)) ∨
          Collision crypto.sha256 (canonicalOf (shows rt) records)
            (canonicalOf (shows rt) issued)) := by
  obtain ⟨receipts, h⟩ := run_anchored hempty calls hcount
  rw [h.length] at hcount
  refine ⟨decodeHash_hex, fun n => ?_, fun m hm ho => ?_, fun m records ho haccepted => ?_⟩
  · rw [decodeSequence_decimal, if_pos n.toNat_lt, UInt64.ofNat_toNat]
  · exact verifyChain_issued rt hm (ho ▸ h) hcount
  · have hsound := verifyChain_sound (ho ▸ h) hcount haccepted
    rw [ho] at hsound
    exact hsound

def quietMachine : Machine := ⟨⟨none, fun _ => faultless⟩, fun _ => ⟨false, none⟩⟩

theorem quietMachine_succeeds : quietMachine.Succeeds :=
  ⟨fun _ => faultless_succeeds, fun _ => ⟨rfl, rfl⟩⟩

def registered : Call := .registerModel (.ok (asciiBytes "\x7b\x7d"))

def appended : Call := .append (.obj [])

/-- `n` appends after the registration of a model. -/
theorem run_appends (n : ℕ) :
    let r := run plainRuntime .standard quietMachine (registered :: List.replicate n appended)
    r.machine.Succeeds ∧ r.issued.length = n ∧
      ∃ st, r.machine.tee.object = some st ∧ WellFormed st ∧ st.modelRegistered ≠ 0 := by
  induction n with
  | zero =>
    have hload := yields_loadState_none .standard
      (registerInvocation (Crypto.standard.sha256 (asciiBytes "\x7b\x7d"))).parameters
      quietMachine_succeeds.tee rfl
    obtain ⟨m', hregister, hm', ho'⟩ :=
      registerModel_succeeds _ quietMachine_succeeds hload (Or.inl rfl)
    have hcall : call plainRuntime .standard registered quietMachine = (.ok none, m') := by
      rw [registered, call, Exec.bind_of_ok hregister]
      rfl
    have hrun : run plainRuntime .standard quietMachine [registered] =
        ⟨[(registered, .ok none)], m'⟩ := by
      rw [run, List.foldl_cons, List.foldl_nil, Run.step, hcall]
      rfl
    rw [List.replicate_zero, hrun]
    exact ⟨hm', rfl, _, ho', initialState_wellFormed (quietMachine.tee.choices 1).random,
      show (1 : UInt32) ≠ 0 by decide⟩
  | succ n ih =>
    obtain ⟨hm, hlength, st, ho, hst, hreg⟩ := ih
    rw [List.replicate_succ', ← List.cons_append, run_append_singleton]
    generalize run plainRuntime .standard quietMachine (registered :: List.replicate n appended) = r
      at hm hlength ho
    have hc : canonicalJson plainRuntime (.obj []) = .ok (asciiBytes "\x7b\x7d") := by decide
    obtain ⟨m', happend, hm', ho'⟩ := append_succeeds .standard hm ho hst hreg hc
    have hcall : call plainRuntime .standard appended r.machine = (.ok (some (.obj (receiptDict
        (AuditTa.issue .standard st (Crypto.standard.sha256 (asciiBytes "\x7b\x7d")))))), m') := by
      rw [appended, call, Exec.bind_of_ok happend]
      rfl
    have hstep : (r.step plainRuntime .standard appended).machine = m' := by rw [Run.step, hcall]
    have hissued : (r.step plainRuntime .standard appended).issued.length = n + 1 := by
      rw [issued_step, hcall, List.length_append, hlength]
      rfl
    refine ⟨hstep ▸ hm', hissued, advance st _, hstep ▸ ho', hst, hreg⟩

theorem optee_chain_tamper_evident_two_appends :
    let r := run plainRuntime .standard quietMachine [registered, appended, appended]
    r.issued.length = 2 ∧
      (verifyChain plainRuntime .standard (r.issued.map record) true r.machine).1 = .ok true := by
  have hruns := run_appends 2
  rw [show List.replicate 2 appended = [appended, appended] from rfl] at hruns
  obtain ⟨hm, hlength, -⟩ := hruns
  exact ⟨hlength, (optee_chain_tamper_evident plainRuntime .standard quietMachine
    [registered, appended, appended] rfl (by rw [hlength]; norm_num)).2.2.1 _ hm rfl⟩

/-- After `2 ^ 64` appends the counter of the TA is zero again and the issued list is refused. -/
theorem wrapped_chain_refused :
    let r := run plainRuntime .standard quietMachine
      (registered :: List.replicate (2 ^ 64) appended)
    r.machine.Succeeds ∧ r.issued.length = 2 ^ 64 ∧
      (verifyChain plainRuntime .standard (r.issued.map record) true r.machine).1 ≠ .ok true := by
  obtain ⟨hm, hlength, -⟩ := run_appends (2 ^ 64)
  refine ⟨hm, hlength, fun haccepted => ?_⟩
  obtain ⟨st, -, hcount, -⟩ := verifyChain_true haccepted
  have hlt := st.sequence.toNat_lt
  rw [List.length_map, hlength] at hcount
  omega

end Cote3Mon.Optee
