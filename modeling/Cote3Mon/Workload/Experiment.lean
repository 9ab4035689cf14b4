import Cote3Mon.Collection.Jsonl
import Cote3Mon.Features.Csv
import Cote3Mon.Workload.Python
import Cote3Mon.Workload.Rows

namespace Cote3Mon.Workload.Python
open ByteText Protocol Cote3Mon.Python Protocol.Python Gateway.Python

-- `run_mock_experiment` of `cote3mon/experiment.py`: every scenario has its runs, with a gateway of
-- their own each, and all of them write to one telemetry file.

/-- `scenario in ATTACK_SCENARIOS`. -/
def Scenario.isAttack : Scenario → Bool
  | .steady | .bursty | .largeValue => false
  | .flood | .malformed | .errorStorm | .replay => true

/-- What the machine does in a run. -/
structure Conditions where
  /-- The keyed hash of this gateway. -/
  blake2b : Bytes → Bytes
  /-- `digest_size=8`. -/
  digest_length : ∀ bs, (blake2b bs).length = 8
  start : ℚ
  moves : List Move

/-- `f"{scenario}-{repeat:02d}"`. -/
def runId (s : Scenario) (n : ℕ) : Text :=
  text s.name ++ 45 :: ((if n < 10 then [48] else []) ++ decimal n)

def config (c : Conditions) (s : Scenario) (n : ℕ) : Config :=
  ⟨c.blake2b, runId s n, text s.name, Scenario.isAttack s⟩

/-- `run_workload` while the gateway runs; `none` as long as it goes on. -/
def runScenario (c : Conditions) (duration : PyFloat) (s : Scenario) (n : ℕ) :
    Option (Except Exc (List Event)) :=
  match runWorkload (config c s n) s.name duration c.start c.moves .initial with
  | .error e => some (.error e)
  | .ok sys =>
    match sys.phase with
    | .returned => some (.ok sys.gateway.events)
    | .raised e => some (.error e)
    -- the client still waits, or has not read the clock again
    | _ => none

/-- The runs in turn, and what all the gateways have emitted. -/
def runAll (setup : Scenario → ℕ → Conditions) (duration : PyFloat) :
    List (Scenario × ℕ) → Option (Except Exc (List Event))
  | [] => some (.ok [])
  | p :: rest =>
    match runScenario (setup p.1 p.2) duration p.1 p.2 with
    | some (.ok events) => (runAll setup duration rest).map fun r => r.map (events ++ ·)
    -- what a run raises ends both loops
    | other => other

def plan (repeats : ℕ) : List (Scenario × ℕ) :=
  Scenario.all.flatMap fun s => (List.range repeats).map fun n => (s, n)

/-- `(time.perf_counter_ns() - start) / 1000.0`. -/
def latencyUs (latencyNs : ℕ) : ℚ :=
  Rounding.roundDouble (Rounding.roundDouble latencyNs / 1000)

def eventJson (e : Event) : Json :=
  .obj [(text "event_type", .str (text "request")), (text "ts_unix_ns", .int e.tsUnixNs),
    (text "run_id", .str e.runId), (text "container_id", .str (text "mock-container")),
    (text "scenario", .str e.scenario), (text "is_attack", .bool e.isAttack),
    (text "request_id", .int e.requestId), (text "operation", .str (text e.operation)),
    (text "input_bytes", .int e.inputBytes), (text "result", .str (text e.result)),
    (text "error_origin", .str (text e.errorOrigin)),
    (text "latency_us",
      .float (.finite (latencyUs e.latencyNs < 0) (Rat.nnabs (latencyUs e.latencyNs)))),
    (text "key_fingerprint", .str e.keyFingerprint),
    (text "request_fingerprint", .str e.requestFingerprint)]

/-- What `_emit` has appended for the events. -/
def telemetry (rt : Runtime) (events : List Event) : Except Exc Text := do
  return (← events.mapM fun e => encode rt Style.line 0 (eventJson e)).flatMap (· ++ [10])

/-- `read_jsonl([telemetry])`: without an event no gateway has created the file. -/
def readTelemetry (rt : Runtime) : List Event → Except Exc (List Json)
  | [] => .error .osError
  | events => do Gateway.readJsonl rt (← telemetry rt events)

/-- What `aggregate_events` takes from a line of the gateway. -/
def readEvent (e : Event) : Features.Event where
  eventType := some (text "request")
  runId := some e.runId
  tsUnixNs := e.tsUnixNs
  scenario := some e.scenario
  isAttack := some e.isAttack
  operation := some (text e.operation)
  result := some (text e.result)
  latencyUs := some (latencyUs e.latencyNs)
  inputBytes := some e.inputBytes
  cpuPercent := none
  rssKb := none
  keyFingerprint := some e.keyFingerprint
  requestFingerprint := some e.requestFingerprint

theorem reload_eventJson (e : Event) : reload (eventJson e) =
    .obj [(text "container_id", .str (text "mock-container")),
      (text "error_origin", .str (text e.errorOrigin)), (text "event_type", .str (text "request")),
      (text "input_bytes", .int e.inputBytes), (text "is_attack", .bool e.isAttack),
      (text "key_fingerprint", .str e.keyFingerprint),
      (text "latency_us", .float (.finite (latencyUs e.latencyNs < 0)
        (Rat.nnabs (latencyUs e.latencyNs)))), (text "operation", .str (text e.operation)),
      (text "request_fingerprint", .str e.requestFingerprint), (text "request_id", .int e.requestId),
      (text "result", .str (text e.result)), (text "run_id", .str e.runId),
      (text "scenario", .str e.scenario), (text "ts_unix_ns", .int e.tsUnixNs)] := by
  unfold eventJson
  -- the keys are sorted whatever the float is
  generalize PyFloat.finite (latencyUs e.latencyNs < 0) (Rat.nnabs (latencyUs e.latencyNs)) = f
  rfl

theorem eventOf_eventJson (e : Event) :
    Gateway.eventOf (reload (eventJson e)) = some (readEvent e) := by
  have hvalue := Collection.value_of_signed (latencyUs e.latencyNs)
  rw [reload_eventJson]
  generalize PyFloat.finite (latencyUs e.latencyNs < 0) (Rat.nnabs (latencyUs e.latencyNs)) =
    f at hvalue
  have hrest : ∀ v, f.value? = some v → Gateway.eventOf (.obj [
      (text "container_id", .str (text "mock-container")),
      (text "error_origin", .str (text e.errorOrigin)), (text "event_type", .str (text "request")),
      (text "input_bytes", .int e.inputBytes), (text "is_attack", .bool e.isAttack),
      (text "key_fingerprint", .str e.keyFingerprint), (text "latency_us", .float f),
      (text "operation", .str (text e.operation)),
      (text "request_fingerprint", .str e.requestFingerprint), (text "request_id", .int e.requestId),
      (text "result", .str (text e.result)), (text "run_id", .str e.runId),
      (text "scenario", .str e.scenario), (text "ts_unix_ns", .int e.tsUnixNs)]) =
        some { readEvent e with latencyUs := some v } := by
    intro v hv
    cases f with
    | finite negative magnitude =>
      rw [← Option.some.inj hv]
      rfl
    | infinity negative => cases hv
    | nan => cases hv
  exact hrest _ hvalue

theorem eventOf_lines (events : List Event) :
    (events.map fun e => reload (eventJson e)).map Gateway.eventOf =
        (events.map readEvent).map some := by
  simp only [List.map_map, Function.comp_def, eventOf_eventJson]

variable {rt : Runtime} {c : Conditions} {s : Scenario} {n i : ℕ} {e : Event}

def OfRun (setup : Scenario → ℕ → Conditions) (p : Scenario × ℕ) (e : Event) : Prop :=
  ∃ i, IsEvent (config (setup p.1 p.2) p.1 p.2) p.1 i e

theorem runScenario_ofRun {setup : Scenario → ℕ → Conditions} {duration : PyFloat} {p : Scenario × ℕ}
    {events : List Event}
    (h : runScenario (setup p.1 p.2) duration p.1 p.2 = some (.ok events)) :
    ∀ e ∈ events, OfRun setup p e := by
  unfold runScenario at h
  split at h
  · cases h
  · rename_i sys hrun
    obtain ⟨s, hs, hfine⟩ := fine_runWorkload hrun
    have hname : s = p.1 := by
      have hself : ∀ s : Scenario, Scenario.ofName? s.name = some s := by
        intro s
        cases s <;> decide
      exact Option.some.inj (hs.symm.trans (hself p.1))
    split at h
    · rename_i hreturned
      obtain rfl := Except.ok.inj (Option.some.inj h)
      have hgoing := hfine.resolve_right (not_exists.mpr fun e he => by
        rw [hreturned] at he
        cases he.1)
      intro e he
      obtain ⟨i, hi⟩ := List.getElem?_of_mem he
      exact ⟨i, hname ▸ hgoing.events i e hi⟩
    · cases h
    · cases h

theorem runAll_ofRun {setup : Scenario → ℕ → Conditions} {duration : PyFloat}
    {pairs : List (Scenario × ℕ)} {events : List Event}
    (h : runAll setup duration pairs = some (.ok events)) :
    ∀ e ∈ events, ∃ p ∈ pairs, OfRun setup p e := by
  induction pairs generalizing events with
  | nil =>
    obtain rfl := Except.ok.inj (Option.some.inj h)
    exact fun e he => absurd he List.not_mem_nil
  | cons p rest ih =>
    rw [runAll] at h
    split at h
    · rename_i first hfirst
      obtain ⟨r, hr, hevents⟩ := Option.map_eq_some_iff.mp h
      cases r with
      | error e => cases hevents
      | ok more =>
        obtain rfl := Except.ok.inj hevents
        intro e he
        rcases List.mem_append.mp he with he | he
        · exact ⟨p, List.mem_cons_self, runScenario_ofRun hfirst e he⟩
        · obtain ⟨q, hq, hof⟩ := ih hr e he
          exact ⟨q, List.mem_cons_of_mem _ hq, hof⟩
    · rename_i hother
      exact absurd h (hother events)

theorem runId_lt (s : Scenario) (n : ℕ) : ∀ c ∈ runId s n, c < 0xd800 := by
  have hname : ∀ c ∈ text s.name, c < 0xd800 := by
    cases s <;> decide
  intro c hc
  rcases List.mem_append.mp hc with hc | hc
  · exact hname c hc
  · rcases List.mem_cons.mp hc with rfl | hc
    · decide
    · rcases List.mem_append.mp hc with hc | hc
      · split_ifs at hc
        · rw [List.mem_singleton.mp hc]
          decide
        · exact absurd hc List.not_mem_nil
      · exact (decimal_digits n c hc).2.trans_lt (by decide)

theorem runId_injective {s' : Scenario} {n' : ℕ} (h : runId s n = runId s' n') :
    s = s' ∧ n = n' := by
  -- no name has a hyphen, so it ends at the first one
  have hhead : ∀ (s : Scenario) (t : Text), (text s.name ++ 45 :: t).takeWhile (· ≠ 45) =
      text s.name := by
    intro s t
    have hname : ∀ c ∈ text s.name, decide (c ≠ 45) = true := by
      cases s <;> decide
    rw [List.takeWhile_append_of_pos hname, List.takeWhile_cons_of_neg (by decide), List.append_nil]
  have hname : text s.name = text s'.name := by
    rw [← hhead s, ← hhead s']
    exact congrArg (List.takeWhile (· ≠ 45)) h
  -- the padding does not change the number
  have hdigits : ∀ n, decimalValue ((if n < 10 then [48] else []) ++ decimal n) = n := by
    intro n
    split_ifs
    · exact decimalValue_decimal n
    · exact decimalValue_decimal n
  constructor
  · cases s <;> cases s' <;> first | rfl | exact absurd hname (by decide)
  · unfold runId at h
    rw [hname] at h
    have hrest := congrArg decimalValue (List.cons.inj (List.append_cancel_left h)).2
    rwa [hdigits, hdigits] at hrest

theorem intText_lt {k : ℕ} (h : k < 2 ^ 64) : rt.intText k = .ok (decimal k) := by
  have hshort := tooLong_uint64 rt (UInt64.ofNat k)
  rw [UInt64.toNat_ofNat_of_lt' h] at hshort
  simp [Runtime.intText, hshort]

theorem exists_encode_obj {style : Style} {level : ℕ} {members : List (Text × Json)}
    (h : ∀ m ∈ members, ∃ t, encode rt style (level + 1) m.2 = .ok t) :
    ∃ t, encode rt style level (.obj members) = .ok t := by
  have hmembers : ∃ printed, encodeMembers rt style (level + 1) members = .ok printed := by
    induction members with
    | nil => exact ⟨[], rfl⟩
    | cons m members ih =>
      obtain ⟨⟨t, ht⟩, hrest⟩ := List.forall_mem_cons.mp h
      obtain ⟨printed, hprinted⟩ := ih hrest
      exact ⟨(m.1, t) :: printed, by rw [encodeMembers, ht, ok_bind, hprinted]; rfl⟩
  obtain ⟨printed, hprinted⟩ := hmembers
  exact ⟨_, by rw [encode, hprinted]; rfl⟩

/-- The numbers of an event fit into 64 bits, and its texts can be read. -/
structure Ordinary (e : Event) : Prop where
  tsUnixNs : e.tsUnixNs < 2 ^ 64
  latencyNs : e.latencyNs < 2 ^ 64
  requestId : ∃ id < 2 ^ 64, e.requestId = (id : ℕ)
  inputBytes : e.inputBytes < 2 ^ 64
  texts : ∀ t ∈ [e.runId, e.scenario, text e.operation, text e.result, text e.errorOrigin,
    e.keyFingerprint, e.requestFingerprint], IsReadable t

theorem isReadable_hexEncode (bs : Bytes) : IsReadable (hexEncode bs) := by
  apply isReadable_of_lt
  intro c hc
  have hhex := hexEncode_isHex bs c hc
  unfold IsHex at hhex
  omega

theorem ordinary_event (h : IsEvent (config c s n) s i e) : Ordinary e := by
  obtain ⟨message, x, conn, -, -, hts, hlatency, rfl⟩ := h
  have hrun : IsReadable (runId s n) := isReadable_of_lt (runId_lt s n)
  have hscenario : IsReadable (text s.name) := isReadable_of_lt (by cases s <;> decide)
  have hstatus : ∀ status, IsReadable (text (Gateway.statusName status)) := fun status =>
    isReadable_of_lt (by cases status <;> decide)
  have horigin : ∀ status : Status,
      IsReadable (text (if status ≠ .ok then "gateway" else "none")) := fun status =>
    isReadable_of_lt (by cases status <;> decide)
  cases x with
  | none =>
    refine ⟨hts, hlatency, ⟨0, by decide, rfl⟩, show 0 < 2 ^ 64 by decide, ?_⟩
    simp only [List.forall_mem_cons]
    have hreject : IsReadable (text "REJECT") := isReadable_of_lt (by decide)
    exact ⟨hrun, hscenario, hreject, hstatus .protocolError,
      horigin .protocolError, isReadable_of_lt (fun c hc => absurd hc List.not_mem_nil),
      isReadable_of_lt (fun c hc => absurd hc List.not_mem_nil), fun t ht =>
        absurd ht List.not_mem_nil⟩
  | some x =>
    have hoperation : ∀ operation, IsReadable (text (Gateway.operationName operation)) :=
      fun operation => isReadable_of_lt (by cases operation <;> decide)
    have hbytes : x.request.key.length + x.request.value.length < 2 ^ 64 := by
      have hkey := x.request.key_le
      have hvalue := x.request.value_le
      have hmax : maxKeyBytes + maxValueBytes < 2 ^ 64 := by decide
      omega
    refine ⟨hts, hlatency, ⟨x.request.requestId.toNat, x.request.requestId.toNat_lt, rfl⟩,
      hbytes, ?_⟩
    simp only [List.forall_mem_cons]
    exact ⟨hrun, hscenario, hoperation _, hstatus _, horigin _, isReadable_hexEncode _,
      isReadable_hexEncode _, fun t ht => absurd ht List.not_mem_nil⟩

theorem regular_eventJson (h : Ordinary e) (hfloat :
    Collection.ReadsBack rt (latencyUs e.latencyNs)) :
    Regular rt Style.line (eventJson e) := by
  have htexts := h.texts
  simp only [List.forall_mem_cons] at htexts
  obtain ⟨hrun, hscenario, hoperation, hresult, horigin, hkey, hrequest, -⟩ := htexts
  refine .obj (fun m hm _ => isReadable_of_lt ?_) ?_ (by
    simp only [List.map_cons, List.map_nil]
    decide)
  · have hnames : ∀ name ∈ ["event_type", "ts_unix_ns", "run_id", "container_id", "scenario",
        "is_attack", "request_id", "operation", "input_bytes", "result", "error_origin",
          "latency_us",
        "key_fingerprint", "request_fingerprint"].map text, ∀ c ∈ name, c < 0xd800 := by decide
    exact hnames m.1 (List.mem_map_of_mem (f := Prod.fst) hm)
  · simp only [List.forall_mem_cons]
    exact ⟨.str fun _ => isReadable_of_lt (by decide), .int _, .str fun _ => hrun,
      .str fun _ => isReadable_of_lt (by decide), .str fun _ => hscenario, .bool _, .int _,
      .str fun _ => hoperation, .int _, .str fun _ => hresult, .str fun _ => horigin,
      .finite hfloat.1 hfloat.2, .str fun _ => hkey, .str fun _ => hrequest,
      fun m hm => absurd hm List.not_mem_nil⟩

theorem exists_line (rt : Runtime) (h : Ordinary e) :
    ∃ line, encode rt Style.line 0 (eventJson e) = .ok line := by
  obtain ⟨id, hid, hrequest⟩ := h.requestId
  apply exists_encode_obj
  simp only [List.forall_mem_cons]
  exact ⟨⟨_, rfl⟩, ⟨_, intText_lt h.tsUnixNs⟩, ⟨_, rfl⟩, ⟨_, rfl⟩, ⟨_, rfl⟩, ⟨_, rfl⟩,
    ⟨_, by rw [hrequest]; exact intText_lt hid⟩, ⟨_, rfl⟩, ⟨_, intText_lt h.inputBytes⟩, ⟨_, rfl⟩,
    ⟨_, rfl⟩, ⟨_, rfl⟩, ⟨_, rfl⟩, ⟨_, rfl⟩, fun m hm => absurd hm List.not_mem_nil⟩

/-- Every event is one line of the file, and read back. -/
theorem readTelemetry_ok {events : List Event} (hne : events ≠ []) (h : ∀ e ∈ events, Ordinary e)
    (hlatencies : ∀ e ∈ events, Collection.ReadsBack rt (latencyUs e.latencyNs)) :
    readTelemetry rt events = .ok (events.map fun e => reload (eventJson e)) := by
  obtain ⟨lines, hlines⟩ := exists_mapM fun e he => exists_line rt (h e he)
  have hregular : ∀ v ∈ events.map eventJson, Regular rt Style.line v := by
    rw [List.forall_mem_map]
    exact fun e he => regular_eventJson (h e he) (hlatencies e he)
  have hread := Collection.readJsonl_encode hregular
    (List.forall₂_map_left_iff.mpr (mapM_eq_ok.mp hlines))
  rw [List.map_map] at hread
  have hfile : telemetry rt events = .ok (lines.flatMap (· ++ [10])) := by
    rw [telemetry, hlines]
    rfl
  cases events with
  | nil => exact absurd rfl hne
  | cons e events =>
    change (do Gateway.readJsonl rt (← telemetry rt (e :: events))) = _
    rw [hfile]
    exact hread

variable {K : Type} {setup : Scenario → ℕ → Conditions} {p q : Scenario × ℕ}

def keyDigest (cfg : Config) (key : Bytes) : Text := fingerprint cfg [key]

def requestDigest (cfg : Config) (operation : Operation) (key value : Bytes) : Text :=
  fingerprint cfg [beBytes 2 operation.code, key, value]

theorem says_emit (cfg : Config) (conn : Connection) (x : Option Gateway.Exchange) :
    Says (keyDigest cfg) (requestDigest cfg) x (readEvent (emit cfg conn (handled cfg x))) := by
  cases x with
  | none => exact ⟨rfl, rfl, rfl, rfl, rfl⟩
  | some x => exact ⟨rfl, rfl, rfl, rfl, rfl⟩

theorem fingerprint_ne_nil (c : Conditions) (s : Scenario) (n : ℕ) (parts : List Bytes) :
    fingerprint (config c s n) parts ≠ [] := by
  intro h
  have hlength := congrArg List.length h
  rw [fingerprint, hexEncode_length] at hlength
  have hdigest := c.digest_length (parts.flatMap fun part => beBytes 4 part.length ++ part)
  change 2 * (c.blake2b _).length = 0 at hlength
  omega

theorem OfRun.labelled (h : OfRun setup p e) :
    Labelled (keyDigest (config (setup p.1 p.2) p.1 p.2))
      (requestDigest (config (setup p.1 p.2) p.1 p.2))
      p.1 (readEvent e) := by
  obtain ⟨i, message, x, conn, ⟨hsends, -⟩, hexpects, -, -, rfl⟩ := h
  exact ⟨message, x, hsends, hexpects, says_emit _ conn x⟩

/-- The members that are the same in all events of a run. -/
theorem OfRun.members (h : OfRun setup p e) :
    e.runId = runId p.1 p.2 ∧ e.scenario = text p.1.name ∧ e.isAttack = Scenario.isAttack p.1 := by
  obtain ⟨i, message, x, conn, -, -, -, -, rfl⟩ := h
  exact ⟨rfl, rfl, rfl⟩

theorem mem_plan {repeats : ℕ} (h : p ∈ plan repeats) : p.2 < repeats := by
  obtain ⟨s, -, hp⟩ := List.mem_flatMap.mp h
  obtain ⟨n, hn, rfl⟩ := List.mem_map.mp hp
  exact List.mem_range.mp hn

/-- Every line of the gateway is a request. -/
theorem requestsOf_readEvent (events : List Event) :
    Features.requestsOf (events.map readEvent) = events.map readEvent := by
  apply List.filter_eq_self.mpr
  rw [List.forall_mem_map]
  intro e _
  exact decide_eq_true rfl

section Runs
variable [Field K] {lib : Features.Library K} {row : Features.Row K}
    {windowSeconds warmupSeconds : ℤ}
  {pairs : List (Scenario × ℕ)} {events : List Event}

theorem ordinary_ofRun (hof : ∀ e ∈ events, ∃ p ∈ pairs, OfRun setup p e) :
    ∀ e ∈ events, Ordinary e := by
  intro e he
  obtain ⟨p, -, i, hi⟩ := hof e he
  exact ordinary_event hi

/-- A row belongs to one of the runs. -/
theorem row_ofRun (hof : ∀ e ∈ events, ∃ p ∈ pairs, OfRun setup p e)
    (hrow : row ∈ Features.rowsOf lib (events.map readEvent) windowSeconds warmupSeconds) :
    ∃ p ∈ pairs, row.runId = runId p.1 p.2 ∧ row.scenario = text p.1.name ∧
      row.isAttack = if Scenario.isAttack p.1 then 1 else 0 := by
  obtain ⟨first, hfirst, hscenario, hattack⟩ := Features.row_first hrow
  obtain ⟨hmem, -, hkey⟩ := Features.mem_bucketAt.mp (List.mem_of_mem_filter hfirst)
  obtain ⟨e, he, rfl⟩ := List.mem_map.mp hmem
  obtain ⟨p, hp, hrun⟩ := hof e he
  obtain ⟨hrunId, hname, hlabel⟩ := hrun.members
  have hsame : (readEvent e).run = row.runId :=
    congrArg (fun k : Features.Key => (ofLex k).1) hkey
  refine ⟨p, hp, ?_, ?_, ?_⟩
  · rw [← hrunId, ← hsame]
    rfl
  · rw [hscenario, ← hname]
    rfl
  · rw [hattack, ← hlabel]
    rfl

/-- The identifier of a run tells its events from those of the others. -/
theorem labelled_ofRun (hof : ∀ e ∈ events, ∃ p ∈ pairs, OfRun setup p e) {line : Features.Event}
    (hline : line ∈ events.map readEvent) (hrun : line.run = runId p.1 p.2) :
    Labelled (keyDigest (config (setup p.1 p.2) p.1 p.2))
      (requestDigest (config (setup p.1 p.2) p.1 p.2))
      p.1 line := by
  obtain ⟨e, he, rfl⟩ := List.mem_map.mp hline
  obtain ⟨q, -, hq⟩ := hof e he
  -- the line is of some run with this identifier, and no other run has it
  have hids : runId q.1 q.2 = runId p.1 p.2 := by
    rw [← hrun, ← hq.members.1]
    rfl
  obtain ⟨hs, hn⟩ := runId_injective hids
  rw [← show q = p from Prod.ext hs hn]
  exact hq.labelled

end Runs

/-- **The mock experiment.**  When all runs return, however their clients and gateways were
scheduled, the telemetry file is read back, every message that was served is counted in one row, that
of its run and window, and every row names one run, has the label of its scenario, and bears its
marks. -/
theorem mock_experiment_rows [Field K] (lib : Features.Library K) (rt : Runtime)
    (setup : Scenario → ℕ → Conditions) (duration : PyFloat) (repeats : ℕ) {windowSeconds : ℤ}
    (hwindow : 0 < windowSeconds) {events : List Event} (hne : events ≠ [])
    (hrun : runAll setup duration (plan repeats) = some (.ok events))
    (hlatencies : ∀ e ∈ events, Collection.ReadsBack rt (latencyUs e.latencyNs)) :
    ∃ lines found rows, readTelemetry rt events = .ok lines ∧
      lines.map Gateway.eventOf = found.map some ∧
      Features.aggregateEvents lib found windowSeconds 0 = .ok rows ∧
      (rows.map fun row : Features.Row K => row.requestRate * windowSeconds).sum = events.length ∧
      (∀ e ∈ events, ∃! row, row ∈ rows ∧ Features.InWindow (Features.nanoseconds windowSeconds)
        row.runId row.windowStartNs (readEvent e)) ∧
      ∀ row ∈ rows,
        (row.requestRate * windowSeconds = events.countP fun e =>
          Features.InWindow (Features.nanoseconds windowSeconds) row.runId row.windowStartNs
            (readEvent e)) ∧
        ∃ (s : Scenario) (n : ℕ), n < repeats ∧ row.runId = runId s n ∧
          row.scenario = text s.name ∧ row.isAttack = (if Scenario.isAttack s then 1 else 0) ∧
          s.Marks (row.requestRate * windowSeconds) row := by
  have hof := runAll_ofRun hrun
  have hordinary := ordinary_ofRun hof
  refine ⟨_, events.map readEvent, _, readTelemetry_ok hne hordinary hlatencies,
    eventOf_lines events,
    Features.aggregateEvents_ok lib _ hwindow le_rfl, ?_, fun e he => ?_, fun row hrow => ⟨?_, ?_⟩⟩
  · rw [Features.sum_requests hwindow, requestsOf_readEvent, List.length_map]
  · exact Features.request_row lib hwindow (List.mem_map_of_mem he) (decide_eq_true rfl)
  · rw [(Features.requests_window hwindow hrow).2, requestsOf_readEvent, List.countP_map]
    rfl
  · obtain ⟨p, hp, hid, hscenario, hattack⟩ := row_ofRun hof hrow
    refine ⟨p.1, p.2, mem_plan hp, hid, hscenario, hattack, ?_⟩
    exact marks_rowsOf (fun key => fingerprint_ne_nil (setup p.1 p.2) p.1 p.2 [key])
      (fun operation key value => fingerprint_ne_nil (setup p.1 p.2) p.1 p.2 _)
      (fun line hline hrun => labelled_ofRun hof hline (hrun.trans hid)) hwindow hrow

/-- A machine on which three of the scenarios get to send messages. -/
def easySetup (s : Scenario) (_ : ℕ) : Conditions :=
  { blake2b := fun _ => List.replicate 8 0
    digest_length := fun _ => List.length_replicate
    start := Rat.ofInt 0
    moves := easyMoves (match s with
      | .steady => 4
      | .errorStorm => 2
      | .malformed => 1
      | _ => 0) }

theorem easy_run : ∃ events, runAll easySetup (.finite false 1) (plan 1) = some (.ok events) ∧
    events.length = 7 ∧
      ∀ e ∈ events, Collection.ReadsBack Collection.wholeRuntime (latencyUs e.latencyNs) := by
  -- the kernel runs the plan and compares the latencies only
  have hlatencies : ((runAll easySetup (.finite false 1) (plan 1)).bind Except.toOption).map
      (List.map Event.latencyNs) = some (List.replicate 7 1000000) := by
    decide +kernel
  obtain ⟨events, hrun, hall⟩ := Option.map_eq_some_iff.mp hlatencies
  obtain ⟨result, hresult, hevents⟩ := Option.bind_eq_some_iff.mp hrun
  have hlength := congrArg List.length hall
  rw [List.length_map, List.length_replicate] at hlength
  refine ⟨events, ?_, hlength, fun e he => ?_⟩
  · rw [hresult]
    cases result with
    | error e => cases hevents
    | ok found => rw [← Option.some.inj hevents]
  · have hlatency : e.latencyNs = 1000000 :=
      List.eq_of_mem_replicate (hall ▸ List.mem_map_of_mem (f := Event.latencyNs) he)
    have hwhole : Collection.IsWhole (latencyUs 1000000) := by decide +kernel
    rw [hlatency]
    exact Collection.readsBack_whole hwhole

theorem mock_experiment_rows_easy : ∃ events lines found rows,
    runAll easySetup (.finite false 1) (plan 1) = some (.ok events) ∧
      readTelemetry Collection.wholeRuntime events = .ok lines ∧
      lines.map Gateway.eventOf = found.map some ∧
      Features.aggregateEvents Features.plainLibrary found 1 0 = .ok rows ∧
      (rows.map fun row : Features.Row ℚ => row.requestRate * (1 : ℤ)).sum = 7 ∧
      ∀ e ∈ events, ∃! row, row ∈ rows ∧
        Features.InWindow (Features.nanoseconds 1) row.runId row.windowStartNs (readEvent e) := by
  obtain ⟨events, hrun, hlength, hreads⟩ := easy_run
  obtain ⟨lines, found, rows, hread, hfound, hrows, hsum, hone, -⟩ := mock_experiment_rows
    Features.plainLibrary Collection.wholeRuntime easySetup (.finite false 1) 1 Int.one_pos
    (List.ne_nil_of_length_eq_add_one hlength) hrun hreads
  rw [hlength] at hsum
  exact ⟨events, lines, found, rows, hrun, hread, hfound, hrows, hsum.trans Nat.cast_ofNat, hone⟩

def PrintsBack (rt : Runtime) (float : Features.FloatOfText) (q : ℚ) : Prop :=
  (∀ c ∈ rt.floatRepr (q < 0) q.nnabs, Features.IsScalar c) ∧
    float (rt.floatRepr (q < 0) q.nnabs) = .ok (.finite (q < 0) q.nnabs)

/-- `write_csv` of the rows. -/
def writeFeatures (rt : Runtime) (rows : List Features.Row) : Except Exc Unit × Text :=
  Features.writeCsv rt (rows.map Monitor.rowDict) Features.baseFeatureNames

section File
variable {lib : Features.Library ℚ} {row : Features.Row} {windowSeconds : ℤ}
    {pairs : List (Scenario × ℕ)}
  {events : List Event} {float : Features.FloatOfText}

theorem windowStart_row (hwindow : 0 < windowSeconds) (h : ∀ e ∈ events, Ordinary e)
    (hrow : row ∈ Features.rowsOf lib (events.map readEvent) windowSeconds 0) :
    ∃ start < 2 ^ 64, row.windowStartNs = (start : ℕ) := by
  obtain ⟨first, hfirst, -⟩ := Features.row_first hrow
  obtain ⟨hmem, -, hkey⟩ := Features.mem_bucketAt.mp (List.mem_of_mem_filter hfirst)
  obtain ⟨e, he, rfl⟩ := List.mem_map.mp hmem
  have hstart : Features.windowStart (Features.nanoseconds windowSeconds) e.tsUnixNs =
      row.windowStartNs :=
    congrArg (fun k : Features.Key => (ofLex k).2) hkey
  have hwidth := Features.nanoseconds_pos hwindow
  have hts := (h e he).tsUnixNs
  have hlow := Int.emod_nonneg (e.tsUnixNs : ℤ) hwidth.ne'
  -- the start is a nonnegative multiple of the width
  have hsplit := Int.emod_add_mul_ediv (e.tsUnixNs : ℤ) (Features.nanoseconds windowSeconds)
  have hmultiple : 0 ≤ Features.nanoseconds windowSeconds *
      ((e.tsUnixNs : ℤ) / Features.nanoseconds windowSeconds) :=
    mul_nonneg hwidth.le (Int.ediv_nonneg (Int.natCast_nonneg _) hwidth.le)
  unfold Features.windowStart at hstart
  exact ⟨row.windowStartNs.toNat, by omega, by omega⟩

theorem storable_row (hwindow : 0 < windowSeconds) (h : ∀ e ∈ events, Ordinary e)
    (hof : ∀ e ∈ events, ∃ p ∈ pairs, OfRun setup p e)
    (hrow : row ∈ Features.rowsOf lib (events.map readEvent) windowSeconds 0)
    (hfloats : ∀ name ∈ Features.baseFeatureNames, ∀ q,
      (Monitor.rowDict row).lookup name = some (Monitor.floatOf q) → PrintsBack rt float q) :
    Features.Storable rt float Features.baseFeatureNames (Monitor.rowDict row) := by
  obtain ⟨p, -, hid, hscenario, hattack⟩ := row_ofRun hof hrow
  obtain ⟨start, hstart, hwhole⟩ := windowStart_row hwindow h hrow
  have hname : ∀ c ∈ text p.1.name, c < 0xd800 := by
    cases p.1 <;> decide
  refine Features.storable_rowDict (fun c hc => .inl ?_) (fun c hc => .inl ?_) ?_ ?_ hfloats
    (List.subset_append_of_subset_left _ (List.subset_append_left _ _))
  · exact runId_lt p.1 p.2 c (hid ▸ hc)
  · exact hname c (hscenario ▸ hc)
  · rw [hattack]
    split_ifs
    · exact ⟨_, intText_lt (k := 1) (by decide)⟩
    · exact ⟨_, intText_lt (k := 0) (by decide)⟩
  · rw [hwhole]
    exact ⟨_, intText_lt hstart⟩

end File

theorem isColumn_base : ∀ name ∈ Features.baseFeatureNames, Features.IsColumn name := by
  have hnames : ∀ name ∈ Features.baseFeatureNames,
      name.length ≤ 30 ∧ ∀ c ∈ name, Features.IsScalar c := by
    decide
  exact fun name hname => ⟨(hnames name hname).1.trans (by decide), (hnames name hname).2⟩

/-- The file that `run_mock_experiment` returns is written, and read back as the rows of all runs. -/
theorem mock_experiment_file (lib : Features.Library ℚ) (rt : Runtime) (float : Features.FloatOfText)
    (setup : Scenario → ℕ → Conditions) (duration : PyFloat) (repeats : ℕ) {windowSeconds : ℤ}
    (hwindow : 0 < windowSeconds) {events : List Event} (hne : events ≠ [])
    (hrun : runAll setup duration (plan repeats) = some (.ok events))
    (hlatencies : ∀ e ∈ events, Collection.ReadsBack rt (latencyUs e.latencyNs))
    (hfloats : ∀ row ∈ Features.rowsOf lib (events.map readEvent) windowSeconds 0,
      ∀ name ∈ Features.baseFeatureNames, ∀ q,
        (Monitor.rowDict row).lookup name = some (Monitor.floatOf q) → PrintsBack rt float q) :
    ∃ lines found rows file, readTelemetry rt events = .ok lines ∧
      lines.map Gateway.eventOf = found.map some ∧
      Features.aggregateEvents lib found windowSeconds 0 = .ok rows ∧
      writeFeatures rt rows = (.ok (), file) ∧
      ((∀ row ∈ rows, Features.Fits rt Features.baseFeatureNames (Monitor.rowDict row)) →
        ∀ chosen ⊆ Features.baseFeatureNames, Features.readFeatureCsv rt float chosen file =
          .ok (rows.map fun row => Features.featureRow chosen (Monitor.rowDict row))) := by
  have hof := runAll_ofRun hrun
  have hordinary := ordinary_ofRun hof
  have hrows : ∀ row ∈ (Features.rowsOf lib (events.map readEvent) windowSeconds 0).map
    Monitor.rowDict,
      Features.Storable rt float Features.baseFeatureNames row := by
    rw [List.forall_mem_map]
    exact fun row hrow => storable_row hwindow hordinary hof hrow (hfloats row hrow)
  refine ⟨_, events.map readEvent, _, _, readTelemetry_ok hne hordinary hlatencies,
    eventOf_lines events, Features.aggregateEvents_ok lib _ hwindow le_rfl,
    Features.writeCsv_eq isColumn_base hrows, fun hfits chosen hchosen => ?_⟩
  rw [Features.readFeatureCsv_fileRows isColumn_base hrows hchosen (List.forall_mem_map.mpr hfits),
    List.map_map]
  rfl

/-- `float` of a text of digits, a point and a zero. -/
def readWhole : Features.FloatOfText := fun t =>
    .ok (.finite false (decimalValue (t.takeWhile isDigit)))

def printsWhole (row : Features.Row) (name : Text) : Bool :=
  match (Monitor.rowDict row).lookup name with
  | some (.float (.finite negative magnitude)) =>
    !negative && decide ((⌊magnitude⌋₊ : ℚ≥0) = magnitude)
  | _ => true

theorem printsBack_whole {row : Features.Row} {name : Text} (h : printsWhole row name = true) {q : ℚ}
    (hlookup : (Monitor.rowDict row).lookup name = some (Monitor.floatOf q)) :
    PrintsBack Collection.wholeRuntime readWhole q := by
  rw [printsWhole, hlookup, Monitor.floatOf] at h
  dsimp only at h
  rw [Bool.and_eq_true, Bool.not_eq_true', decide_eq_true_iff] at h
  obtain ⟨hnegative, hwhole⟩ := h
  constructor
  · intro c hc
    rcases List.mem_append.mp hc with hc | hc
    · exact .inl ((decimal_digits _ c hc).2.trans_lt (by decide))
    · have hpoint : ∀ c ∈ text ".0", c < 0xd800 := by decide
      exact .inl (hpoint c hc)
  · change Except.ok (PyFloat.finite false (decimalValue ((decimal ⌊q.nnabs⌋₊ ++ text ".0").takeWhile
      isDigit))) = _
    rw [Collection.decimalValue_whole, hwhole, hnegative]

theorem mock_experiment_file_easy : ∃ events lines found rows file,
    runAll easySetup (.finite false 1) (plan 1) = some (.ok events) ∧
      readTelemetry Collection.wholeRuntime events = .ok lines ∧
      lines.map Gateway.eventOf = found.map some ∧
      Features.aggregateEvents Features.plainLibrary found 1 0 = .ok rows ∧
      writeFeatures Collection.wholeRuntime rows = (.ok (), file) ∧
      Features.readFeatureCsv Collection.wholeRuntime readWhole Features.baseFeatureNames file =
        .ok (rows.map fun row => Features.featureRow Features.baseFeatureNames
            (Monitor.rowDict row)) := by
  obtain ⟨events, hrun, hlength, hreads⟩ := easy_run
  have hne := List.ne_nil_of_length_eq_add_one hlength
  have hkernel : ((runAll easySetup (.finite false 1) (plan 1)).bind Except.toOption).map
      (fun events =>
      (Features.rowsOf Features.plainLibrary (events.map readEvent) 1 0).all fun row =>
        Features.baseFeatureNames.all (printsWhole row) &&
          decide (Features.Fits Collection.wholeRuntime Features.baseFeatureNames
            (Monitor.rowDict row))) =
      some true := by
    decide +kernel
  rw [hrun] at hkernel
  have hwhole : ∀ row ∈ Features.rowsOf Features.plainLibrary (events.map readEvent) 1 0,
      Features.baseFeatureNames.all (printsWhole row) ∧
        Features.Fits Collection.wholeRuntime Features.baseFeatureNames (Monitor.rowDict row) := by
    intro row hrow
    have hboth := List.all_eq_true.mp (Option.some.inj hkernel) row hrow
    rwa [Bool.and_eq_true, decide_eq_true_iff] at hboth
  obtain ⟨lines, found, rows, file, hread, hfound, hrows, hwrite, hback⟩ := mock_experiment_file
    Features.plainLibrary Collection.wholeRuntime readWhole easySetup (.finite false 1) 1 Int.one_pos
    hne hrun hreads fun row hrow name hname q =>
      printsBack_whole (List.all_eq_true.mp (hwhole row hrow).1 name hname)
  -- the rows are those of the events
  have hlines := hread.symm.trans (readTelemetry_ok hne (ordinary_ofRun (runAll_ofRun hrun)) hreads)
  rw [Except.ok.inj hlines, eventOf_lines] at hfound
  have hsame := (List.map_injective_iff.mpr (Option.some_injective _) hfound).symm
  have hrows' := hrows
  rw [hsame, Features.aggregateEvents_ok _ _ Int.one_pos le_rfl] at hrows'
  rw [← Except.ok.inj hrows'] at hback hrows hwrite
  exact ⟨events, lines, found, _, file, hrun,
    hread, by rw [Except.ok.inj hlines, eventOf_lines, hsame],
    hrows, hwrite, hback (fun row hrow => (hwhole row hrow).2) _ (List.Subset.refl _)⟩

end Cote3Mon.Workload.Python
