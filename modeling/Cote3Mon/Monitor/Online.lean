import Cote3Mon.Monitor.Batch

namespace Cote3Mon.Monitor
open ByteText Python

-- `scripts/guest-online-monitor.py`. What the writers, the clock and the done file do is given poll
-- by poll; writing to the alerts file never fails.

/-- What the monitor reads of an event, and `aggregate_events` on a bucket. -/
structure Reader (ε : Type) where
  isRequest : ε → Bool
  tsUnixNs : ε → ℤ
  aggregate : List ε → Except Exc (List Features.Row)

/-- What is read of a line: an event, nothing of a blank line, or an exception. -/
abbrev Line (ε : Type) := Except Exc (Option ε)

/-- The lines that each `ingest` finds, the clock of `score_ready`, and whether there is a done
file then. -/
structure Poll (ε : Type) where
  requests : List (Line ε)
  resources : List (Line ε)
  now : ℤ
  done : Bool

/-- What a call is given; `lastNow` is the clock of the last pass. -/
structure OnlineCall (ε : Type) where
  loadModel : Except Exc Detector
  modelPath : ModelPath
  windowSeconds : ℤ
  warmupSeconds : ℤ
  polls : List (Poll ε)
  lastNow : ℤ

/-- The variables of `main`, with the audit backend and the alerts file.  The monitor keeps one
latency for each of the rows in `scored`. -/
structure Online (ε σ : Type) where
  monitored : Monitored σ
  firstRequestNs : Option ℤ
  buckets : List (ℤ × List ε)
  processed : List ℤ
  scored : List Features.Row
  records : List Json

variable {ε σ α : Type} (reader : Reader ε) (audit : Option (AuditBackend σ))

namespace Online

def start (s : Monitored σ) : Online ε σ := ⟨s, none, [], [], [], []⟩

def onMonitored (method : Method (Monitored σ) α) : Method (Online ε σ) α := fun s =>
  let out := method s.monitored
  (out.1, { s with monitored := out.2 })

def warmupNs (c : OnlineCall ε) : ℤ := Features.nanoseconds c.warmupSeconds

def windowNs (c : OnlineCall ε) : ℤ := Features.nanoseconds c.windowSeconds

/-- `first_request_ns` once the event has been seen. -/
def firstAfter (s : Online ε σ) (e : ε) : Option ℤ :=
  if reader.isRequest e ∧ s.firstRequestNs = none then some (reader.tsUnixNs e) else s.firstRequestNs

/-- `timestamp - timestamp % window_ns`. -/
def bucketStart (c : OnlineCall ε) (timestamp : ℤ) : Except Exc ℤ :=
  if windowNs c = 0 then .error .zeroDivisionError
  else .ok (timestamp - Int.fmod timestamp (windowNs c))

/-- The body of the loop for an event: how many events have been added. -/
def ingestEvent (c : OnlineCall ε) (e : ε) : Method (Online ε σ) ℕ := fun s =>
  match s.firstAfter reader e with
  | none => (.ok 0, s)
  | some first =>
    let s := { s with firstRequestNs := some first }
    if reader.tsUnixNs e < first + warmupNs c then (.ok 0, s)
    else
      match bucketStart c (reader.tsUnixNs e) with
      | .error exc => (.error exc, s)
      | .ok start => (.ok 1, { s with buckets := Grouping.place start e s.buckets })

def ingest (c : OnlineCall ε) : List (Line ε) → Method (Online ε σ) ℕ
  | [] => return 0
  | line :: lines => do
    match ← Exec.lift line with
    | none => ingest c lines
    | some e => do
      let added ← ingestEvent reader c e
      let rest ← ingest c lines
      return added + rest

/-- The starts in `buckets` that are ready, in order. -/
def ready (c : OnlineCall ε) (force : Bool) (now : ℤ) (s : Online ε σ) : List ℤ :=
  ((Grouping.keys s.buckets).filter fun start =>
    start ∉ s.processed ∧ (force ∨ start + windowNs c + 250000000 ≤ now)).insertionSort (· ≤ ·)

def bucket (s : Online ε σ) (start : ℤ) : List ε := (s.buckets.lookup start).getD []

/-- `receipt = None`, and `audit.append(alert)` if there is a backend. -/
def anchor (alert : Json) : Method (Online ε σ) Json :=
  match audit with
  | none => return .null
  | some backend => onMonitored (onAudit (backend.append alert))

def addRecord (record : Json) : Method (Online ε σ) Unit := fun s =>
  (.ok (), { s with records := s.records ++ [record] })

def addProcessed (start : ℤ) : Method (Online ε σ) Unit := fun s =>
  (.ok (), { s with processed := s.processed ++ [start] })

def addScored (row : Features.Row) : Method (Online ε σ) Unit := fun s =>
  (.ok (), { s with scored := s.scored ++ [row] })

def scoreRow (model : Detector) (modelHash : Json) (row : Features.Row) :
    Method (Online ε σ) Unit := do
  let score ← Exec.lift (model.score row)
  addScored row
  if floatLe score model.threshold then return ()
  else
    let alert ← Exec.lift (alertOf model modelHash row score)
    let receipt ← anchor audit alert
    addRecord (recordOf alert receipt)

/-- The body of the loop of `score_ready`. -/
def scoreWindow (model : Detector) (modelHash : Json) (start : ℤ) : Method (Online ε σ) Unit := do
  let s ← get
  let rows ← Exec.lift (reader.aggregate (s.bucket start))
  addProcessed start
  match rows with
  | [] => return ()
  | row :: _ => scoreRow audit model modelHash row

def scoreWindows (model : Detector) (modelHash : Json) : List ℤ → Method (Online ε σ) Unit
  | [] => return ()
  | start :: starts => do
    scoreWindow reader audit model modelHash start
    scoreWindows model modelHash starts

def scoreReady (c : OnlineCall ε) (model : Detector) (modelHash : Json) (force : Bool) (now : ℤ) :
    Method (Online ε σ) Unit := do
  let s ← get
  scoreWindows reader audit model modelHash (s.ready c force now)

/-- `quiet_after_done` after a poll that added so many events. -/
def quietAfter (quiet added : ℕ) : ℕ := if added = 0 then quiet + 1 else 0

/-- `while True`, from the value of `quiet_after_done` on: whether it has ended. -/
def poll (c : OnlineCall ε) (model : Detector) (modelHash : Json) :
    List (Poll ε) → ℕ → Method (Online ε σ) Bool
  | [], _ => return false
  | p :: polls, quiet => do
    let requests ← ingest reader c p.requests
    let resources ← ingest reader c p.resources
    scoreReady reader audit c model modelHash false p.now
    if p.done then
      if 3 ≤ quietAfter quiet (requests + resources) then return true
      else poll c model modelHash polls (quietAfter quiet (requests + resources))
    else poll c model modelHash polls quiet

def writeRecords (rt : Runtime) : List Json → Method (Monitored σ) Unit
  | [] => return ()
  | record :: records => do
    writeRecord rt record
    writeRecords rt records

/-- `model_hash`; without a backend it is `None`. -/
def registerModel (c : OnlineCall ε) : Method (Online ε σ) Json :=
  match audit with
  | none => return .null
  | some backend => do return .str (← onMonitored (onAudit (backend.registerModel c.modelPath)))

/-- `main`, up to the result file: whether the loop has ended. -/
def main (rt : Runtime) (c : OnlineCall ε) : Method (Online ε σ) Bool := do
  let model ← Exec.lift c.loadModel
  let modelHash ← registerModel audit c
  let ended ← poll reader audit c model modelHash c.polls 0
  if ended then
    scoreReady reader audit c model modelHash true c.lastNow
    let s ← get
    onMonitored do
      openAlerts
      writeRecords rt s.records
    return true
  else return false

/-- An event changes the first request and the buckets only. -/
theorem ingestEvent_frame (reader : Reader ε) (c : OnlineCall ε) (e : ε) (s : Online ε σ) :
    ∃ first buckets, (ingestEvent reader c e s).2 =
      { s with firstRequestNs := first, buckets := buckets } := by
  unfold ingestEvent
  split
  · exact ⟨s.firstRequestNs, s.buckets, rfl⟩
  · dsimp only
    split
    · exact ⟨_, s.buckets, rfl⟩
    · split
      · exact ⟨_, s.buckets, rfl⟩
      · exact ⟨_, _, rfl⟩

end Online

/-- `aggregate_events(bucket, window_seconds=...)` on the events of `features.py`. -/
def featureReader (lib : Features.Library) (windowSeconds : ℤ) : Reader Features.Event where
  isRequest := Features.Event.isRequest
  tsUnixNs := Features.Event.tsUnixNs
  aggregate bucket := Features.aggregateEvents lib bucket windowSeconds 0

end Cote3Mon.Monitor
