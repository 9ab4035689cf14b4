import Cote3Mon.Monitor.AlertsFile
import Cote3Mon.Monitor.Online
import Cote3Mon.Optee.Sequence

namespace Cote3Mon.Monitor
open ByteText Python AuditTa Optee

variable {σ ε : Type} {rt : Runtime} {crypto : Crypto} {backend : AuditBackend σ}

/-- The backend with a list of the alerts whose append returned, and the receipts. -/
def logged (backend : AuditBackend σ) : AuditBackend (σ × List (Json × Json)) where
  registerModel modelPath := fun s =>
    let out := backend.registerModel modelPath s.1
    (out.1, (out.2, s.2))
  append alert := fun s =>
    let out := backend.append alert s.1
    match out.1 with
    | .ok receipt => (.ok receipt, (out.2, s.2 ++ [(alert, receipt)]))
    | .error e => (.error e, (out.2, s.2))

def unlogged (audit : σ) (alerts : List Json) : Monitored (σ × List (Json × Json)) :=
  ⟨(audit, []), alerts⟩

/-- The alerts file has, in order, a record for every append that returned. -/
def Kept (s : Monitored (σ × List (Json × Json))) : Prop := (s.audit.2.map line).Sublist s.alerts

def Writable (rt : Runtime) (backend : AuditBackend σ) : Prop :=
  ∀ {alert s v s'}, backend.append alert s = (.ok v, s') → ∃ t, dumps rt (recordOf alert v) = .ok t

theorem dumps_obj {d : Dict} (h : ∀ m ∈ d, ∃ t, dumps rt m.2 = .ok t) :
    ∃ t, dumps rt (.obj d) = .ok t := by
  rw [dumps, dumpsMembers_eq_ok.mpr ⟨h, rfl⟩]
  exact ⟨_, rfl⟩

theorem dumps_recordOf {alert : Json} {c : Bytes} {d : Dict} (hc : canonicalJson rt alert = .ok c)
    (hd : ∀ m ∈ d, ∃ t, dumps rt m.2 = .ok t) : ∃ t, dumps rt (recordOf alert (.obj d)) = .ok t := by
  obtain ⟨t, ht, -⟩ := bind_eq_ok.mp hc
  apply dumps_obj
  simp only [List.forall_mem_cons, List.not_mem_nil, false_imp_iff, implies_true, and_true]
  exact ⟨⟨t, ht⟩, dumps_obj hd⟩

theorem dumps_uint64 (rt : Runtime) (x : UInt64) : ∃ t, dumps rt (.int x.toNat) = .ok t :=
  intText_of_lt rt x.toNat_lt

theorem optee_writable (rt : Runtime) (crypto : Crypto) : Writable rt (opteeBackend rt crypto) := by
  intro alert m v m' h
  simp only [opteeBackend, optee_append] at h
  obtain ⟨c, hc, h⟩ := Exec.lift_bind_ok h
  obtain ⟨output, n, hprocess, h⟩ := Exec.bind_ok h
  obtain ⟨out, -, -, rfl⟩ := process_ok hprocess
  obtain ⟨hloads, -⟩ := Exec.lift_ok h
  cases hout : out.output with
  | none =>
    rw [hout] at hloads
    cases hloads
  | size required =>
    rw [hout] at hloads
    cases hloads
  | receipt r =>
    rw [hout, printOutput, loads_printReceipt] at hloads
    rw [← Except.ok.inj hloads]
    apply dumps_recordOf hc
    simp only [receiptDict, List.forall_mem_cons, List.not_mem_nil, false_imp_iff, implies_true,
      and_true]
    exact ⟨dumps_uint64 rt r.sequence, ⟨_, rfl⟩, ⟨_, rfl⟩, ⟨_, rfl⟩, ⟨_, rfl⟩⟩
  | head head =>
    rw [hout, printOutput, loads_printHead] at hloads
    rw [← Except.ok.inj hloads]
    apply dumps_recordOf hc
    simp only [headDict, List.forall_mem_cons, List.not_mem_nil, false_imp_iff, implies_true,
      and_true]
    exact ⟨dumps_uint64 rt head.sequence, ⟨_, rfl⟩, ⟨_, rfl⟩⟩

/-- A receipt of the store has a number of 64 bits, whatever the state is. -/
theorem store_append_ok {files : AuditStore.Files} {alert : Json} {s s' : AuditStore}
    {r : AuditStore.Receipt} (h : AuditStore.append rt crypto files alert s = (.ok r, s')) :
    (∃ c, canonicalJson rt alert = .ok c) ∧ r.sequence < 2 ^ 64 := by
  unfold AuditStore.append at h
  rw [Exec.bind_apply, Exec.get_apply, Exec.next_ok] at h
  cases hmodel : s.state.registered? with
  | none =>
    rw [hmodel] at h
    cases h
  | some model =>
    rw [hmodel] at h
    obtain ⟨previous, -, h⟩ := Exec.lift_bind_ok h
    obtain ⟨c, hc, h⟩ := Exec.lift_bind_ok h
    obtain ⟨modelHash, -, h⟩ := Exec.lift_bind_ok h
    obtain ⟨packed, hpacked, h⟩ := Exec.lift_bind_ok h
    obtain ⟨_, _, -, h⟩ := Exec.bind_ok h
    obtain ⟨_, _, -, h⟩ := Exec.bind_ok h
    obtain rfl := Except.ok.inj (Prod.mk.inj h).1
    unfold AuditStore.packQ at hpacked
    split_ifs at hpacked with hrange
    refine ⟨⟨c, hc⟩, ?_⟩
    exact_mod_cast hrange.2

theorem local_writable (rt : Runtime) (crypto : Crypto) : Writable rt (localBackend rt crypto) := by
  intro alert b v b' h
  obtain ⟨hresult, -⟩ := Prod.mk.inj h
  obtain ⟨r, s', happend, hv⟩ := Exec.bind_ok (Prod.ext hresult rfl)
  obtain ⟨⟨c, hc⟩, hlt⟩ := store_append_ok happend
  rw [← Except.ok.inj (Prod.mk.inj hv).1]
  apply dumps_recordOf hc
  simp only [AuditStore.Receipt.toDict, List.forall_mem_cons, List.not_mem_nil, false_imp_iff,
    implies_true, and_true]
  exact ⟨intText_of_lt rt hlt, ⟨_, rfl⟩, ⟨_, rfl⟩, ⟨_, rfl⟩, ⟨_, rfl⟩⟩

/-- The file is the list of the appends. -/
def Matches (s : Monitored (σ × List (Json × Json))) : Prop := s.alerts = s.audit.2.map line

theorem Matches.kept {s : Monitored (σ × List (Json × Json))} (h : Matches s) : Kept s := by
  rw [Kept, ← h]

/-- An append and the writing of its record. -/
theorem matches_append (hwritable : Writable rt backend) (alert : Json) :
    Exec.Keeps Matches (do
      let receipt ← onAudit ((logged backend).append alert)
      writeRecord rt (recordOf alert receipt)
      return true : Method (Monitored (σ × List (Json × Json))) Bool) := by
  intro s hs
  rcases happend : backend.append alert s.audit.1 with ⟨e | receipt, t⟩
  · have hfail : onAudit ((logged backend).append alert) s =
        (.error e, ⟨(t, s.audit.2), s.alerts⟩) := by
      simp only [onAudit, logged, happend]
    rw [Exec.bind_apply, hfail]
    exact hs
  · have hdone : onAudit ((logged backend).append alert) s =
        (.ok receipt, ⟨(t, s.audit.2 ++ [(alert, receipt)]), s.alerts⟩) := by
      simp only [onAudit, logged, happend]
    obtain ⟨text, htext⟩ := hwritable happend
    rw [Exec.bind_of_ok hdone, Exec.bind_apply, writeRecord, Exec.bind_apply, Exec.lift_apply, htext]
    change s.alerts ++ [recordOf alert receipt] = (s.audit.2 ++ [(alert, receipt)]).map line
    rw [List.map_append, ← show s.alerts = s.audit.2.map line from hs]
    rfl

theorem matches_scoreRow (hwritable : Writable rt backend) (detector : Detector) (modelHash : Text)
    (row : Features.Row) :
    Exec.Keeps Matches (scoreRow rt (logged backend) detector modelHash row) := by
  refine (Exec.keeps_lift _).bind fun score => ?_
  split_ifs
  · exact Exec.keeps_pure _
  · exact (Exec.keeps_lift _).bind fun alert => matches_append hwritable alert

theorem matches_scoreRows (hwritable : Writable rt backend) (detector : Detector) (modelHash : Text)
    (rows : List Features.Row) (alertCount : ℕ) :
    Exec.Keeps Matches (scoreRows rt (logged backend) detector modelHash rows alertCount) := by
  induction rows generalizing alertCount with
  | nil => exact Exec.keeps_pure _
  | cons row rows ih => exact (matches_scoreRow hwritable detector modelHash row).bind fun _ => ih _

/-- Whatever the batch monitor returns or raises, its file has the records of its appends. -/
theorem monitorBatch_kept (hwritable : Writable rt backend) (lib : Features.Library) (c : BatchCall)
    (audit : σ) (alerts : List Json) :
    Kept (monitorBatch rt lib (logged backend) c (unlogged audit alerts)).2 := by
  have hnothing : ∀ t : σ, Kept (unlogged t alerts) := fun t => List.nil_sublist _
  rw [monitorBatch, Exec.bind_apply, Exec.lift_apply]
  cases c.loadDetector with
  | error e => exact hnothing audit
  | ok detector =>
    rw [Exec.next_ok, Exec.bind_apply]
    have hregister : onAudit ((logged backend).registerModel c.modelPath) (unlogged audit alerts) =
        ((backend.registerModel c.modelPath audit).1,
          unlogged (backend.registerModel c.modelPath audit).2 alerts) := rfl
    rw [hregister]
    cases (backend.registerModel c.modelPath audit).1 with
    | error e => exact hnothing _
    | ok modelHash =>
      rw [Exec.next_ok, Exec.bind_apply, Exec.lift_apply]
      cases c.rows lib with
      | error e => exact hnothing _
      | ok rows =>
        rw [Exec.next_ok, Exec.bind_apply, openAlerts, Exec.next_ok]
        -- the file has been opened, and nothing has been appended
        have hopened : Matches (unlogged (backend.registerModel c.modelPath audit).2 []) := rfl
        have hkeeps := (matches_scoreRows hwritable detector modelHash rows 0).bind
          fun alertCount => Exec.keeps_pure (⟨rows.length, alertCount, modelHash⟩ : Summary)
        exact (hkeeps _ hopened).kept

namespace Online

/-- The file is as it was, and the records are those of the appends, each of which can be written. -/
structure Holds (rt : Runtime) (alerts : List Json) (s : Online ε (σ × List (Json × Json))) :
    Prop where
  alerts : s.monitored.alerts = alerts
  records : s.records = s.monitored.audit.2.map line
  writable : ∀ entry ∈ s.monitored.audit.2, ∃ t, dumps rt (line entry) = .ok t

variable {reader : Reader ε} {c : OnlineCall ε} {alerts : List Json}

theorem holds_ingestEvent (reader : Reader ε) (c : OnlineCall ε) (e : ε) :
    Exec.Keeps (Holds rt alerts) (ingestEvent (σ := σ × List (Json × Json)) reader c e) := by
  intro s hs
  obtain ⟨first, buckets, hframe⟩ := ingestEvent_frame reader c e s
  rw [hframe]
  exact ⟨hs.alerts, hs.records, hs.writable⟩

theorem holds_ingest (reader : Reader ε) (c : OnlineCall ε) (lines : List (Line ε)) :
    Exec.Keeps (Holds rt alerts) (ingest (σ := σ × List (Json × Json)) reader c lines) := by
  induction lines with
  | nil => exact Exec.keeps_pure _
  | cons line lines ih =>
    refine (Exec.keeps_lift _).bind fun event => ?_
    cases event with
    | none => exact ih
    | some e =>
      exact (holds_ingestEvent reader c e).bind fun _ => ih.bind fun _ => Exec.keeps_pure _

/-- An append and the keeping of its record. -/
theorem holds_anchor (hwritable : Writable rt backend) (alert : Json) :
    Exec.Keeps (Holds rt alerts) (do
      let receipt ← anchor (some (logged backend)) alert
      addRecord (recordOf alert receipt) : Method (Online ε (σ × List (Json × Json))) Unit) := by
  intro s hs
  rcases happend : backend.append alert s.monitored.audit.1 with ⟨e | receipt, t⟩
  · have hfail : anchor (some (logged backend)) alert s =
        (.error e, { s with monitored := ⟨(t, s.monitored.audit.2), s.monitored.alerts⟩ }) := by
      simp only [anchor, onMonitored, onAudit, logged, happend]
    rw [Exec.bind_apply, hfail]
    exact ⟨hs.alerts, hs.records, hs.writable⟩
  · have hdone : anchor (some (logged backend)) alert s = (.ok receipt, { s with
        monitored := ⟨(t, s.monitored.audit.2 ++ [(alert, receipt)]), s.monitored.alerts⟩ }) := by
      simp only [anchor, onMonitored, onAudit, logged, happend]
    rw [Exec.bind_of_ok hdone]
    refine ⟨hs.alerts, ?_, List.forall_mem_append.mpr ⟨hs.writable, ?_⟩⟩
    · change s.records ++ [recordOf alert receipt] =
        (s.monitored.audit.2 ++ [(alert, receipt)]).map line
      rw [hs.records, List.map_append]
      rfl
    · exact List.forall_mem_singleton.mpr (hwritable happend)

theorem holds_scoreRow (hwritable : Writable rt backend) (model : Detector) (modelHash : Json)
    (row : Features.Row) :
    Exec.Keeps (Holds (ε := ε) rt alerts) (scoreRow
        (some (logged backend)) model modelHash row) := by
  refine (Exec.keeps_lift _).bind fun score => ?_
  have hscored : Exec.Keeps (Holds (ε := ε) (σ := σ) rt alerts) (addScored row) :=
    fun s hs => ⟨hs.alerts, hs.records, hs.writable⟩
  refine hscored.bind fun _ => ?_
  split_ifs
  · exact Exec.keeps_pure _
  · exact (Exec.keeps_lift _).bind fun alert => holds_anchor hwritable alert

theorem holds_scoreWindows (reader : Reader ε) (hwritable : Writable rt backend) (model : Detector)
    (modelHash : Json) (starts : List ℤ) :
    Exec.Keeps (Holds rt alerts)
      (scoreWindows reader (some (logged backend)) model modelHash starts) := by
  induction starts with
  | nil => exact Exec.keeps_pure _
  | cons start starts ih =>
    refine Exec.Keeps.bind ?_ fun _ => ih
    intro s hs
    rw [scoreWindow, Exec.bind_apply, Exec.get_apply, Exec.next_ok]
    have hprocessed : Exec.Keeps (Holds (ε := ε) (σ := σ) rt alerts) (addProcessed start) :=
      fun s hs => ⟨hs.alerts, hs.records, hs.writable⟩
    refine (Exec.keeps_lift _).bind (fun rows => hprocessed.bind fun _ => ?_) s hs
    cases rows with
    | nil => exact Exec.keeps_pure _
    | cons row rest => exact holds_scoreRow hwritable model modelHash row

theorem holds_scoreReady (reader : Reader ε) (hwritable : Writable rt backend) (c : OnlineCall ε)
    (model : Detector) (modelHash : Json) (force : Bool) (now : ℤ) :
    Exec.Keeps (Holds rt alerts)
      (scoreReady reader (some (logged backend)) c model modelHash force now) := by
  intro s hs
  rw [scoreReady, Exec.bind_apply, Exec.get_apply, Exec.next_ok]
  exact holds_scoreWindows reader hwritable model modelHash _ s hs

theorem holds_poll (reader : Reader ε) (hwritable : Writable rt backend) (c : OnlineCall ε)
    (model : Detector) (modelHash : Json) (polls : List (Poll ε)) (quiet : ℕ) :
    Exec.Keeps (Holds rt alerts)
      (poll reader (some (logged backend)) c model modelHash polls quiet) := by
  induction polls generalizing quiet with
  | nil => exact Exec.keeps_pure _
  | cons p polls ih =>
    refine (holds_ingest reader c p.requests).bind fun requests =>
      (holds_ingest reader c p.resources).bind fun resources =>
      (holds_scoreReady reader hwritable c model modelHash false p.now).bind fun _ => ?_
    split_ifs
    · exact Exec.keeps_pure _
    · exact ih _
    · exact ih quiet

/-- Records that can be written are written. -/
theorem writeRecords_ok {records : List Json} {s : Monitored σ}
    (h : ∀ record ∈ records, ∃ t, dumps rt record = .ok t) :
    writeRecords rt records s = (.ok (), { s with alerts := s.alerts ++ records }) := by
  induction records generalizing s with
  | nil =>
    rw [List.append_nil]
    rfl
  | cons record records ih =>
    obtain ⟨⟨t, ht⟩, hrest⟩ := List.forall_mem_cons.mp h
    have hwrite : writeRecord rt record s = (.ok (), { s with alerts := s.alerts ++ [record] }) := by
      rw [writeRecord, Exec.bind_apply, Exec.lift_apply, ht]
      rfl
    rw [writeRecords, Exec.bind_of_ok hwrite, ih hrest, List.append_assoc]
    rfl

theorem holds_registerModel (rt : Runtime) (backend : AuditBackend σ) (alerts : List Json)
    (c : OnlineCall ε) : Exec.Keeps (Holds rt alerts) (registerModel (some (logged backend)) c) := by
  have hregister : Exec.Keeps (Holds (ε := ε) rt alerts)
      (onMonitored (onAudit ((logged backend).registerModel c.modelPath))) :=
    fun s hs => ⟨hs.alerts, hs.records, hs.writable⟩
  exact hregister.bind fun _ => Exec.keeps_pure _

/-- What the online monitor leaves: the records of all appends where it returns, and the file as it
was where it raises or still runs. -/
theorem main_file (reader : Reader ε) (hwritable : Writable rt backend) (c : OnlineCall ε)
    (audit : σ)
    (alerts : List Json) {r : Except Exc Bool} {s' : Online ε (σ × List (Json × Json))}
    (h : main reader (some (logged backend)) rt c (start (unlogged audit alerts)) = (r, s')) :
    r = .ok true ∧ s'.monitored.alerts = s'.monitored.audit.2.map line ∨
      r ≠ .ok true ∧ s'.monitored.alerts = alerts := by
  have hs : Holds (ε := ε) rt alerts (start (unlogged audit alerts)) :=
    ⟨rfl, rfl, by simp [start, unlogged]⟩
  generalize start (unlogged audit alerts) = s at h hs
  rw [main, Exec.bind_apply, Exec.lift_apply] at h
  cases hload : c.loadModel with
  | error e =>
    rw [hload] at h
    obtain ⟨rfl, rfl⟩ := Prod.mk.inj h
    exact Or.inr ⟨nofun, hs.alerts⟩
  | ok model =>
    rw [hload, Exec.next_ok, Exec.bind_apply] at h
    have ht := holds_registerModel rt backend alerts c s hs
    rcases hregister : registerModel (some (logged backend)) c s with ⟨e | modelHash, t⟩
    · rw [hregister] at h ht
      obtain ⟨rfl, rfl⟩ := Prod.mk.inj h
      exact Or.inr ⟨nofun, ht.alerts⟩
    · rw [hregister] at h ht
      rw [Exec.next_ok, Exec.bind_apply] at h
      have hu := holds_poll reader hwritable c model modelHash c.polls 0 t ht
      rcases hpoll : poll reader (some (logged backend)) c model modelHash c.polls 0 t with
        ⟨e | ended, u⟩
      · rw [hpoll] at h hu
        obtain ⟨rfl, rfl⟩ := Prod.mk.inj h
        exact Or.inr ⟨nofun, hu.alerts⟩
      · rw [hpoll] at h hu
        cases ended with
        | false =>
          obtain ⟨rfl, rfl⟩ := Prod.mk.inj h
          exact Or.inr ⟨nofun, hu.alerts⟩
        | true =>
          rw [Exec.next_ok, if_pos rfl, Exec.bind_apply] at h
          have hv := holds_scoreReady reader hwritable c model modelHash true c.lastNow u hu
          rcases hscore : scoreReady reader (some (logged backend)) c model modelHash true
            c.lastNow u
            with ⟨e | _, v⟩
          · rw [hscore] at h hv
            obtain ⟨rfl, rfl⟩ := Prod.mk.inj h
            exact Or.inr ⟨nofun, hv.alerts⟩
          · -- nothing that follows can fail
            rw [hscore] at h hv
            have hwritten : onMonitored (do openAlerts; writeRecords rt v.records) v = (.ok (),
                { v with monitored := { v.monitored with alerts := v.records } }) := by
              have hrecords : ∀ record ∈ v.records, ∃ t, dumps rt record = .ok t := by
                rw [hv.records]
                exact List.forall_mem_map.mpr hv.writable
              rw [onMonitored, Exec.bind_apply, openAlerts, Exec.next_ok, writeRecords_ok hrecords]
              rfl
            rw [Exec.next_ok, Exec.bind_apply, Exec.get_apply, Exec.next_ok,
              Exec.bind_of_ok hwritten] at h
            obtain ⟨rfl, rfl⟩ := Prod.mk.inj h
            exact Or.inl ⟨rfl, hv.records⟩

end Online

/-- **Anchored alerts.**  Whatever the batch monitor returns or raises, with either backend its file
has a record for every append that returned.  The online monitor that raises leaves these records
exactly if no append had returned; where it returns they are all there. -/
theorem anchored_alerts_kept_iff (rt : Runtime) (crypto : Crypto) (lib : Features.Library)
    (reader : Reader ε) :
    (∀ c b alerts, Kept (monitorBatch rt lib (logged (localBackend rt crypto)) c
      (unlogged b alerts)).2) ∧
    (∀ c m alerts, Kept (monitorBatch rt lib (logged (opteeBackend rt crypto)) c
      (unlogged m alerts)).2) ∧
    ∀ (c : OnlineCall ε) (m : Machine),
      let out := Online.main reader (some (logged (opteeBackend rt crypto))) rt c
        (Online.start (unlogged m []))
      (out.1 = .ok true → Kept out.2.monitored) ∧
        ∀ e, out.1 = .error e → (Kept out.2.monitored ↔ out.2.monitored.audit.2 = []) := by
  refine ⟨fun c b alerts => monitorBatch_kept (local_writable rt crypto) lib c b alerts,
    fun c m alerts => monitorBatch_kept (optee_writable rt crypto) lib c m alerts, fun c m => ?_⟩
  rcases Online.main_file reader (optee_writable rt crypto) c m [] (Prod.mk.eta).symm with
    ⟨hok, hfile⟩ | ⟨hnot, hfile⟩
  · refine ⟨fun _ => ?_, fun e he => ?_⟩
    · rw [Kept, hfile]
    · rw [hok] at he
      cases he
  · refine ⟨fun hok => absurd hok hnot, fun e _ => ?_⟩
    rw [Kept, hfile, List.sublist_nil, List.map_eq_nil_iff]

def alarm : Detector := ⟨.finite false 0, [], fun _ => .ok (.finite false 1)⟩

/-- A request in a window that is complete, and a line that is not JSON in the next poll. -/
def brokenLine : OnlineCall Features.Event where
  loadModel := .ok alarm
  modelPath := ⟨[], .ok []⟩
  windowSeconds := 5
  warmupSeconds := 0
  polls := [⟨[.ok (some (Features.bareRequest 3))], [], 10000000000, false⟩,
    ⟨[.error .valueError], [], 10000000000, false⟩]
  lastNow := 10000000000

theorem broken_line_loses_alert :
    let out := Online.main (featureReader Features.plainLibrary 5)
      (some (logged (opteeBackend plainRuntime .standard))) plainRuntime brokenLine
      (Online.start (unlogged quietMachine []))
    out.1 = .error .valueError ∧ out.2.monitored.audit.2.length = 1 ∧
      out.2.monitored.alerts.length = 0 ∧ ¬ Kept out.2.monitored := by
  intro out
  have herror : out.1 = .error .valueError := by decide +kernel
  have hone : out.2.monitored.audit.2.length = 1 := by decide +kernel
  have hnone : out.2.monitored.alerts.length = 0 := by decide +kernel
  refine ⟨herror, hone, hnone, fun hkept => ?_⟩
  have hlength := hkept.length_le
  rw [List.length_map, hone, hnone] at hlength
  omega

end Cote3Mon.Monitor
