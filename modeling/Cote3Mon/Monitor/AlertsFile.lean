import Cote3Mon.Features.Windows
import Cote3Mon.Monitor.Anchors

namespace Cote3Mon.Monitor
open ByteText Python AuditTa Optee

variable {σ : Type} {rt : Runtime} {crypto : Crypto} {st st' : AuditState}
  {entries : List (Json × Json)}

/-- The alerts and receipts of appends that take a TA from `st` on. -/
inductive Appended (rt : Runtime) (crypto : Crypto) :
    AuditState → List (Json × Json) → AuditState → Prop
  | nil (st : AuditState) : Appended rt crypto st [] st
  | cons {st alert c entries st'} : canonicalJson rt alert = .ok c →
      Appended rt crypto (advance st (AuditTa.issue crypto st (crypto.sha256 c))) entries st' →
      Appended rt crypto st
        ((alert, .obj (receiptDict (AuditTa.issue crypto st (crypto.sha256 c)))) :: entries) st'

def line (entry : Json × Json) : Json := recordOf entry.1 entry.2

def readBack (entry : Json × Json) : Json := reload (line entry)

def sortedReceipt (r : AuditTa.Receipt) : Dict :=
  [(text "alert_hash", .str r.alertHash.hex), (text "head", .str r.head.hex),
    (text "model_hash", .str r.modelHash.hex), (text "previous_head", .str r.previousHead.hex),
    (text "sequence", .int r.sequence.toNat)]

theorem readBack_receipt (alert : Json) (r : AuditTa.Receipt) :
    readBack (alert, .obj (receiptDict r)) = recordOf (reload alert) (.obj (sortedReceipt r)) := rfl

theorem links_readBack {alert : Json} {c : Bytes} (hc : canonicalJson rt alert = .ok c)
    (hlt : st.sequence.toNat + 1 < 2 ^ 64) :
    Links rt crypto st.key st.modelHash st.sequence.toNat st.head.hex
      (readBack (alert, .obj (receiptDict (AuditTa.issue crypto st (crypto.sha256 c)))))
      (AuditTa.issue crypto st (crypto.sha256 c)).head.hex := by
  have hseq : (AuditTa.issue crypto st (crypto.sha256 c)).sequence.toNat = st.sequence.toNat + 1 :=
    sequence_succ hlt
  have hmac : hmacMessage (st.sequence + 1) st.head (crypto.sha256 c) st.modelHash =
      auditMessage (st.sequence.toNat + 1) st.head.bytes
          (crypto.sha256 c).bytes st.modelHash.bytes := by
    rw [hmacMessage_eq, sequence_succ hlt]
  rw [readBack_receipt]
  refine ⟨rfl, rfl, ⟨.int _, rfl, ?_⟩, rfl, rfl, rfl, hlt, c, st.head.bytes,
    canonicalJson_reload hc, rfl, fromHex_hexEncode _, ?_⟩
  · rw [Runtime.int, hseq]
  · exact (fromHex_hexEncode _).trans
      (congrArg (fun message => Except.ok (crypto.hmac st.key.bytes message).bytes) hmac)

/-- What the first line of an accepted file tells about the chain before it. -/
theorem start_of_links {alert : Json} {c : Bytes} {key model : Digest} {head : Text}
    (h : Links rt crypto key model 0 Digest.zero.hex
      (readBack (alert, .obj (receiptDict (AuditTa.issue crypto st (crypto.sha256 c))))) head) :
    st.sequence = 0 ∧ st.head = .zero := by
  rw [readBack_receipt] at h
  obtain ⟨item, hitem, hint⟩ := h.sequence
  obtain rfl : Json.int _ = item := Except.ok.inj hitem
  constructor
  · have hone : (st.sequence + 1).toNat = 1 := by exact_mod_cast Except.ok.inj hint
    have hsucc : st.sequence + 1 = 0 + 1 := UInt64.toNat_inj.mp (hone.trans (by decide))
    exact add_right_cancel hsucc
  · exact Digest.hex_injective (Except.ok.inj h.previousHead)

theorem Chained.fits {key model : Digest} {n : ℕ} {previous last : Text} {records : List Json}
    (h : Chained rt crypto key model n previous records last) (hne : records ≠ []) :
    n + records.length < 2 ^ 64 := by
  induction h with
  | nil => exact absurd rfl hne
  | @cons n _ _ _ records _ hlinks _ ih =>
    rw [List.length_cons]
    by_cases hrest : records = []
    · rw [hrest]
      exact hlinks.fits
    · have := ih hrest
      omega

theorem Appended.kept (h : Appended rt crypto st entries st') :
    st'.key = st.key ∧ st'.modelHash = st.modelHash ∧ st'.modelRegistered = st.modelRegistered := by
  induction h with
  | nil => exact ⟨rfl, rfl, rfl⟩
  | cons _ _ ih => exact ih

theorem Appended.chained (h : Appended rt crypto st entries st')
    (hlt : st.sequence.toNat + entries.length < 2 ^ 64) :
    Chained rt crypto st.key st.modelHash st.sequence.toNat st.head.hex (entries.map readBack)
        st'.head.hex ∧ st'.sequence.toNat = st.sequence.toNat + entries.length := by
  induction h with
  | nil => exact ⟨.nil _ _, rfl⟩
  | @cons st alert c entries st' hc _ ih =>
    rw [List.length_cons] at hlt
    have hseq : (advance st (AuditTa.issue crypto st (crypto.sha256 c))).sequence.toNat =
        st.sequence.toNat + 1 := sequence_succ (by omega)
    rw [hseq] at ih
    obtain ⟨hchain, hlength⟩ := ih (by omega)
    refine ⟨.cons (links_readBack hc (by omega)) hchain, ?_⟩
    rw [hlength, List.length_cons]
    omega

/-- The file is a chain up to the current head exactly where the chain began with it. -/
theorem Appended.chainOf_iff (h : Appended rt crypto st entries st') :
    ChainOf rt crypto st' (entries.map readBack) true ↔
      (st.sequence = 0 ∧ st.head = .zero) ∧ entries.length < 2 ^ 64 := by
  constructor
  · rintro ⟨model, last, hchain, hend⟩
    cases h with
    | nil =>
      cases hchain
      obtain ⟨hlength, hlast, -⟩ := hend rfl
      exact ⟨⟨UInt64.toNat_inj.mp hlength.symm, Digest.hex_injective hlast.symm⟩,
        show 0 < 2 ^ 64 by decide⟩
    | cons hc hrest =>
      have hfits := hchain.fits (by simp)
      rw [Nat.zero_add, List.length_map] at hfits
      rw [List.map_cons] at hchain
      cases hchain with
      | cons hlinks _ => exact ⟨start_of_links hlinks, hfits⟩
  · rintro ⟨⟨hseq, hhead⟩, hlt⟩
    have hzero : st.sequence.toNat = 0 := by
      rw [hseq]
      rfl
    obtain ⟨hchain, hlength⟩ := h.chained (by omega)
    obtain ⟨hkey, hmodel, -⟩ := h.kept
    rw [hzero, hhead, ← hkey, ← hmodel] at hchain
    refine ⟨st'.modelHash, st'.head.hex, hchain, fun _ => ⟨?_, rfl, Or.inr rfl⟩⟩
    rw [List.length_map, hlength, hzero, Nat.zero_add]

theorem Appended.storeSpelling {state : AuditStore.State} (h : Appended rt crypto st entries st')
    (hmodel : state.modelHash = some st'.modelHash.hex) :
    ∀ record ∈ entries.map readBack, StoreSpelling state record := by
  induction h with
  | nil => simp
  | @cons st alert c entries st' hc hrest ih =>
    rw [List.map_cons, List.forall_mem_cons]
    refine ⟨⟨rfl, rfl, rfl, ?_⟩, ih hmodel⟩
    rw [hmodel, hrest.kept.2.1]
    exact decide_eq_true rfl

theorem Appended.opteeSpelling (h : Appended rt crypto st entries st') :
    ∀ record ∈ entries.map readBack, OpteeSpelling rt record := by
  induction h with
  | nil => simp
  | @cons st alert c entries st' hc hrest ih =>
    rw [List.map_cons, List.forall_mem_cons]
    exact ⟨⟨⟨_, rfl⟩, _, rfl, isHash_hex _⟩, ih⟩

variable {lib : Features.Library} {backend : AuditBackend σ} {Loads Holds : σ → AuditState → Prop}
  {s s' : Monitored σ}

theorem scoreRow_ok {detector : Detector} {modelHash : Text} {row : Features.Row} {alerted : Bool}
    (hlaws : Anchors rt crypto backend Loads Holds) (hhold : Holds s.audit st)
    (h : scoreRow rt backend detector modelHash row s = (.ok alerted, s')) :
    alerted = detector.alerts row ∧ ∃ entries st', Appended rt crypto st entries st' ∧
      Holds s'.audit st' ∧ s'.alerts = s.alerts ++ entries.map line ∧
      entries.length = alerted.toNat := by
  obtain ⟨score, hscore, h⟩ := Exec.lift_bind_ok h
  rw [Detector.alerts, hscore]
  by_cases hle : floatLe score detector.threshold
  · rw [if_pos hle] at h
    obtain ⟨halerted, rfl⟩ := Prod.mk.inj h
    obtain rfl : false = alerted := Except.ok.inj halerted
    exact ⟨by simp [hle], [], st, .nil st, hhold, by simp, rfl⟩
  · rw [if_neg hle] at h
    obtain ⟨alert, -, h⟩ := Exec.lift_bind_ok h
    obtain ⟨receipt, t, happend, h⟩ := Exec.bind_ok h
    obtain ⟨_, u, hwrite, h⟩ := Exec.bind_ok h
    obtain ⟨_, -, hline⟩ := Exec.lift_bind_ok hwrite
    obtain ⟨halerted, rfl⟩ := Prod.mk.inj h
    obtain rfl : true = alerted := Except.ok.inj halerted
    obtain ⟨hreceipt, rfl⟩ := Prod.mk.inj happend
    obtain ⟨c, hc, rfl, hhold'⟩ := hlaws.appended hhold (Prod.ext hreceipt rfl)
    obtain rfl := (Prod.mk.inj hline).2
    exact ⟨by simp [hle], [(alert, _)], _, .cons hc (.nil _), hhold', rfl, rfl⟩

theorem Appended.trans {st'' : AuditState} {entries' : List (Json × Json)}
    (h : Appended rt crypto st entries st') (h' : Appended rt crypto st' entries' st'') :
    Appended rt crypto st (entries ++ entries') st'' := by
  induction h with
  | nil => exact h'
  | cons hc _ ih => exact .cons hc (ih h')

theorem scoreRows_ok {detector : Detector} {modelHash : Text} {rows : List Features.Row}
    {alertCount total : ℕ} (hlaws : Anchors rt crypto backend Loads Holds)
    (hhold : Holds s.audit st)
    (h : scoreRows rt backend detector modelHash rows alertCount s = (.ok total, s')) :
    ∃ entries st', Appended rt crypto st entries st' ∧ Holds s'.audit st' ∧
      s'.alerts = s.alerts ++ entries.map line ∧
      entries.length = rows.countP detector.alerts := by
  induction rows generalizing s st alertCount with
  | nil =>
    obtain ⟨-, rfl⟩ := Prod.mk.inj h
    exact ⟨[], st, .nil st, hhold, by simp, rfl⟩
  | cons row rows ih =>
    obtain ⟨alerted, t, hrow, h⟩ := Exec.bind_ok h
    obtain ⟨rfl, first, st1, hfirst, hhold1, hlines, hcount⟩ := scoreRow_ok hlaws hhold hrow
    obtain ⟨rest, st2, hrest, hhold2, hlines', hcount'⟩ := ih hhold1 h
    refine ⟨first ++ rest, st2, hfirst.trans hrest, hhold2, ?_, ?_⟩
    · rw [hlines', hlines, List.map_append, List.append_assoc]
    · rw [List.length_append, hcount, hcount', List.countP_cons, Nat.add_comm]
      cases detector.alerts row <;> rfl

/-- What a call that returns leaves, on a chain that a registration has kept. -/
theorem monitorBatch_ok {c : BatchCall} {summary : Summary}
    (hlaws : Anchors rt crypto backend Loads Holds) (hload : ∃ st, Loads s.audit st)
    (h : monitorBatch rt lib backend c s = (.ok summary, s')) :
    ∃ st model entries st', Loads s.audit st ∧ Appended rt crypto (register st model) entries st' ∧
      Holds s'.audit st' ∧ s'.alerts = entries.map line ∧ entries.length = c.alertCount lib := by
  obtain ⟨st0, hload⟩ := hload
  obtain ⟨detector, hdetector, h⟩ := Exec.lift_bind_ok h
  obtain ⟨modelHash, t, hregister, h⟩ := Exec.bind_ok h
  obtain ⟨rows, hrows, h⟩ := Exec.lift_bind_ok h
  obtain ⟨_, u, hopen, h⟩ := Exec.bind_ok h
  obtain rfl := (Prod.mk.inj hopen).2
  obtain ⟨hdigest, rfl⟩ := Prod.mk.inj hregister
  obtain ⟨st, model, hst, hhold⟩ := hlaws.registered hload (Prod.ext hdigest rfl)
  obtain ⟨total, v, hscore, h⟩ := Exec.bind_ok h
  obtain rfl : v = s' := (Prod.mk.inj h).2
  obtain ⟨entries, st', happended, hhold', hlines, hcount⟩ := scoreRows_ok hlaws hhold hscore
  refine ⟨st, model, entries, st', hst, happended, hhold', hlines, ?_⟩
  rw [hcount, BatchCall.alertCount, hdetector, hrows]

theorem keeps_onAudit {α : Type} {method : Method σ α} {I : σ → Prop} (h : method.Keeps I) :
    (onAudit method).Keeps fun s => I s.audit := fun s hs => h s.audit hs

theorem keeps_writeRecord (rt : Runtime) (record : Json) {I : σ → Prop} :
    (writeRecord rt record).Keeps fun s : Monitored σ => I s.audit :=
  (Exec.keeps_lift _).bind fun _ _ h => h

theorem scoreRow_keeps (hlaws : Anchors rt crypto backend Loads Holds) (detector : Detector)
    (modelHash : Text) (row : Features.Row) :
    (scoreRow rt backend detector modelHash row).Keeps fun s => ∃ st, Loads s.audit st := by
  refine (Exec.keeps_lift _).bind fun score => ?_
  split_ifs
  · exact Exec.keeps_pure _
  · refine (Exec.keeps_lift _).bind fun alert => ?_
    refine (keeps_onAudit (hlaws.append_keeps alert)).bind fun receipt => ?_
    exact (keeps_writeRecord rt _ (I := fun a => ∃ st, Loads a st)).bind fun _ => Exec.keeps_pure _

theorem scoreRows_keeps (hlaws : Anchors rt crypto backend Loads Holds) (detector : Detector)
    (modelHash : Text) (rows : List Features.Row) (alertCount : ℕ) :
    (scoreRows rt backend detector modelHash rows alertCount).Keeps
      fun s => ∃ st, Loads s.audit st := by
  induction rows generalizing alertCount with
  | nil => exact Exec.keeps_pure _
  | cons row rows ih => exact (scoreRow_keeps hlaws detector modelHash row).bind fun _ => ih _

theorem monitorBatch_keeps (hlaws : Anchors rt crypto backend Loads Holds) (c : BatchCall) :
    (monitorBatch rt lib backend c).Keeps fun s => ∃ st, Loads s.audit st := by
  refine (Exec.keeps_lift _).bind fun detector => ?_
  refine (keeps_onAudit (hlaws.register_keeps c.modelPath)).bind fun modelHash => ?_
  refine (Exec.keeps_lift _).bind fun rows => Exec.Keeps.bind (fun s h => h) fun _ => ?_
  exact (scoreRows_keeps hlaws detector modelHash rows 0).bind fun _ => Exec.keeps_pure _

theorem batchRun_keeps (hlaws : Anchors rt crypto backend Loads Holds) (calls : List BatchCall)
    (hload : ∃ st, Loads s.audit st) : ∃ st, Loads (batchRun rt lib backend calls s).audit st := by
  induction calls generalizing s with
  | nil => exact hload
  | cons c calls ih => exact ih (monitorBatch_keeps hlaws c s hload)

def LocalBackend.Unused (b : LocalBackend) : Prop :=
  b.store.state.sequence = 0 ∧ b.store.state.head = Digest.zero.hex

def OpteeUnused (m : Machine) : Prop :=
  ∀ st, m.tee.object = some st → st.sequence = 0 ∧ st.head = .zero

theorem unused_iff {b : LocalBackend} (h : LocalStands b st) :
    b.Unused ↔ st.sequence = 0 ∧ st.head = .zero := by
  rw [LocalBackend.Unused, h.sequence, h.head]
  refine and_congr ⟨fun hz => UInt64.toNat_inj.mp hz, fun hz => ?_⟩ Digest.hex_injective.eq_iff
  rw [hz]
  rfl

theorem opteeUnused_iff {m : Machine} (h : OpteeLoads m st) :
    OpteeUnused m ↔ st.sequence = 0 ∧ st.head = .zero := by
  rcases h.1 with ho | ⟨hnone, key, hkey⟩
  · refine ⟨fun hunused => hunused st ho, fun hst st' ho' => ?_⟩
    rwa [← Option.some.inj (ho.symm.trans ho')]
  · rw [Option.some.inj hkey]
    exact ⟨fun _ => ⟨rfl, rfl⟩, fun _ st' ho' => by cases hnone.symm.trans ho'⟩

theorem local_file_iff {s s' : Monitored LocalBackend} {c : BatchCall} {summary : Summary}
    (hload : ∃ st, LocalStands s.audit st)
    (h : monitorBatch rt lib (localBackend rt crypto) c s = (.ok summary, s')) :
    AuditStore.verifyChain rt crypto s'.audit.store (s'.alerts.map reload) true = .ok true ↔
      s.audit.Unused ∧ c.alertCount lib < 2 ^ 64 := by
  obtain ⟨st, model, entries, st', hst, happended, hhold, hlines, hcount⟩ :=
    monitorBatch_ok (local_anchors rt crypto) hload h
  have hreg : st'.modelRegistered ≠ 0 := by
    rw [happended.kept.2.2]
    exact show (1 : UInt32) ≠ 0 by decide
  have hspelled := happended.storeSpelling (hhold.registered hreg)
  rw [hlines, List.map_map, store_accepts_iff hhold, unused_iff hst, ← hcount]
  exact (and_iff_left hspelled).trans happended.chainOf_iff

theorem optee_file_iff {s s' : Monitored Machine} {c : BatchCall} {summary : Summary} {m : Machine}
    (hload : ∃ st, OpteeLoads s.audit st)
    (h : monitorBatch rt lib (opteeBackend rt crypto) c s = (.ok summary, s')) (hm : m.Succeeds)
    (hobject : m.tee.object = s'.audit.tee.object) :
    (Optee.verifyChain rt crypto (s'.alerts.map reload) true m).1 = .ok true ↔
      OpteeUnused s.audit ∧ c.alertCount lib < 2 ^ 64 := by
  obtain ⟨st, model, entries, st', hst, happended, ⟨ho, hwf⟩, hlines, hcount⟩ :=
    monitorBatch_ok (optee_anchors rt crypto) hload h
  have hnext : m.tee.next = st' := machine_next (hobject.trans ho)
  rw [hlines, List.map_map, optee_accepts_iff hm (hnext ▸ hwf), hnext, opteeUnused_iff hst, ← hcount]
  exact (and_iff_left happended.opteeSpelling).trans happended.chainOf_iff

theorem localStands_fresh {urandom : Digest} {persistFaults : ℕ → Option Exc} {b : LocalBackend}
    (h : LocalBackend.open? urandom none persistFaults = .ok b) : ∃ st, LocalStands b st := by
  obtain ⟨store, hopen, hb⟩ := bind_eq_ok.mp h
  obtain rfl := Except.ok.inj hb
  obtain ⟨file, rfl⟩ := AuditStore.open?_fresh hopen
  exact ⟨initialState urandom, standsFor_fresh urandom⟩

theorem opteeLoads_fresh {m : Machine} {key : Digest} (h : HoldsKey m key) :
    ∃ st, OpteeLoads m st := by
  refine exists_opteeLoads.mpr fun st ho => ?_
  rw [← machine_next ho, show m.tee.next = initialState key from h]
  exact initialState_wellFormed key

/-- **When the alerts file verifies.**  After any calls on a fresh audit state, the file that a
returning call leaves is accepted exactly where no alert had been appended before the call. -/
theorem alerts_verify_iff (rt : Runtime) (crypto : Crypto) (lib : Features.Library)
    (calls : List BatchCall) (c : BatchCall) (alerts : List Json) :
    (∀ urandom persistFaults b summary s',
      LocalBackend.open? urandom none persistFaults = .ok b →
      monitorBatch rt lib (localBackend rt crypto) c
        (batchRun rt lib (localBackend rt crypto) calls ⟨b, alerts⟩) = (.ok summary, s') →
      (AuditStore.verifyChain rt crypto s'.audit.store (s'.alerts.map reload) true = .ok true ↔
        (batchRun rt lib (localBackend rt crypto) calls ⟨b, alerts⟩).audit.Unused ∧
          c.alertCount lib < 2 ^ 64)) ∧
    ∀ machine key summary s' m, HoldsKey machine key →
      monitorBatch rt lib (opteeBackend rt crypto) c
        (batchRun rt lib (opteeBackend rt crypto) calls ⟨machine, alerts⟩) = (.ok summary, s') →
      m.Succeeds → m.tee.object = s'.audit.tee.object →
      ((Optee.verifyChain rt crypto (s'.alerts.map reload) true m).1 = .ok true ↔
        OpteeUnused (batchRun rt lib (opteeBackend rt crypto) calls ⟨machine, alerts⟩).audit ∧
          c.alertCount lib < 2 ^ 64) := by
  constructor
  · intro urandom persistFaults b summary s' hopen h
    exact local_file_iff (batchRun_keeps (local_anchors rt crypto) calls (localStands_fresh hopen)) h
  · intro machine key summary s' m hkey h hm hobject
    exact optee_file_iff (batchRun_keeps (optee_anchors rt crypto) calls (opteeLoads_fresh hkey)) h
      hm hobject

/-- An interpreter for the floats `0.0` and `1.0`. -/
def unitFloats : Runtime :=
  { plainRuntime with floatRepr := fun _ q => if q = 0 then text "0.0" else text "1.0" }

def alertAll : Detector := ⟨.finite false 0, [], fun _ => .ok (.finite false 1)⟩

def alertingCall : BatchCall :=
  ⟨.ok alertAll, ⟨text "model.json", .ok []⟩, .ok [Features.bareRequest 7], 5, 0⟩

def freshLocal : LocalBackend :=
  ⟨⟨AuditStore.freshState faultless.random, some (AuditStore.freshState faultless.random)⟩,
    fun _ => none⟩

def localCall : Method (Monitored LocalBackend) Summary :=
  monitorBatch unitFloats Features.plainLibrary (localBackend unitFloats .standard) alertingCall

def opteeCall : Method (Monitored Machine) Summary :=
  monitorBatch unitFloats Features.plainLibrary (opteeBackend unitFloats .standard) alertingCall

/-- The machine from where nothing fails any more. -/
def quieted (m : Machine) : Machine := ⟨⟨m.tee.object, fun _ => faultless⟩, quietMachine.processes⟩

theorem quieted_succeeds (m : Machine) : (quieted m).Succeeds :=
  ⟨fun _ => faultless_succeeds, quietMachine_succeeds.processes⟩

theorem quieted_object (m : Machine) : (quieted m).tee.object = m.tee.object := rfl

theorem returned_of_isOk {α β : Type} {x : Except Exc α × β} (h : x.1.isOk = true) :
    ∃ a, x = (.ok a, x.2) := by
  obtain ⟨r, t⟩ := x
  cases r with
  | error e => cases h
  | ok a => exact ⟨a, rfl⟩

theorem alerts_verify_iff_one_call :
    (∃ summary, localCall ⟨freshLocal, []⟩ = (.ok summary, (localCall ⟨freshLocal, []⟩).2) ∧
      (AuditStore.verifyChain unitFloats .standard (localCall ⟨freshLocal, []⟩).2.audit.store
          ((localCall ⟨freshLocal, []⟩).2.alerts.map reload) true = .ok true ↔
        freshLocal.Unused ∧ alertingCall.alertCount Features.plainLibrary < 2 ^ 64)) ∧
    ∃ summary, opteeCall ⟨quietMachine, []⟩ = (.ok summary, (opteeCall ⟨quietMachine, []⟩).2) ∧
      ((Optee.verifyChain unitFloats .standard ((opteeCall ⟨quietMachine, []⟩).2.alerts.map reload)
          true (quieted (opteeCall ⟨quietMachine, []⟩).2.audit)).1 = .ok true ↔
        OpteeUnused quietMachine ∧ alertingCall.alertCount Features.plainLibrary < 2 ^ 64) := by
  obtain ⟨summary, h⟩ := returned_of_isOk (x := localCall ⟨freshLocal, []⟩) (by decide +kernel)
  obtain ⟨summary', h'⟩ := returned_of_isOk (x := opteeCall ⟨quietMachine, []⟩) (by decide +kernel)
  obtain ⟨hlocal, hoptee⟩ :=
    alerts_verify_iff unitFloats .standard Features.plainLibrary [] alertingCall []
  have hkey : HoldsKey quietMachine faultless.random := rfl
  exact ⟨⟨summary, h, hlocal faultless.random (fun _ => none) freshLocal summary _ rfl h⟩,
    summary', h', hoptee quietMachine faultless.random summary' _ (quieted _) hkey h'
      (quieted_succeeds _) (quieted_object _)⟩

/-- The second of two calls that each alert a row leaves a file that is refused. -/
theorem second_file_refused :
    LocalBackend.open? faultless.random none (fun _ => none) = .ok freshLocal ∧
    (localCall ⟨freshLocal, []⟩).1.isOk = true ∧
    (localCall (localCall ⟨freshLocal, []⟩).2).1.isOk = true ∧
    AuditStore.verifyChain unitFloats .standard
      (localCall (localCall ⟨freshLocal, []⟩).2).2.audit.store
      ((localCall (localCall ⟨freshLocal, []⟩).2).2.alerts.map reload) true = .ok false :=
  ⟨rfl, by decide +kernel⟩

end Cote3Mon.Monitor
