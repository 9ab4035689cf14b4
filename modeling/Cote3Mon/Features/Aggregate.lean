import Cote3Mon.Lib.Grouping
import Cote3Mon.Lib.Rounding
import Cote3Mon.Lib.Statistics
import Cote3Mon.Python.Values

namespace Cote3Mon.Features
open ByteText Python Rounding

-- `cote3mon/features.py`. An event is the part of a telemetry line that `aggregate_events` reads; a
-- member that a line may lack is optional. Numbers are exact rationals, up to the standard
-- deviation, which is in a field `K`.

structure Event where
  eventType : Option Text
  runId : Option Text
  tsUnixNs : ℤ
  scenario : Option Text
  isAttack : Option Bool
  operation : Option Text
  result : Option Text
  latencyUs : Option ℚ
  inputBytes : Option ℚ
  cpuPercent : Option ℚ
  rssKb : Option ℚ
  keyFingerprint : Option Text
  requestFingerprint : Option Text
  deriving DecidableEq

structure Row (K : Type := ℚ) where
  runId : Text
  scenario : Text
  isAttack : ℕ
  windowStartNs : ℤ
  requestRate : ℚ
  putRatio : ℚ
  getRatio : ℚ
  deleteRatio : ℚ
  rejectRatio : ℚ
  errorRatio : ℚ
  latencyMeanUs : ℚ
  latencyP95Us : ℚ
  inputMeanBytes : ℚ
  inputMaxBytes : ℚ
  cpuPercentMean : ℚ
  rssKbMean : ℚ
  keyReuseRatio : ℚ
  requestReuseRatio : ℚ
  operationTransitionRatio : ℚ
  idleMeanUs : ℚ
  idleP95Us : ℚ
  idleCv : K
  deriving DecidableEq

/-- What is only passed through the standard library. -/
structure Library (K : Type := ℚ) where
  /-- `str.upper` of a character outside ASCII. -/
  upperChar : ℕ → Text
  /-- `statistics.pstdev`. -/
  pstdev : List ℚ → K

/-- `statistics.fmean` of a list that is not empty. -/
abbrev fmean (values : List ℚ) : ℚ := Statistics.mean values

/-- `fmean(values) if values else 0.0`. -/
def meanOrZero (values : List ℚ) : ℚ := if values = [] then 0 else fmean values

def percentile {K : Type} [Field K] [LinearOrder K] [FloorSemiring K] (values : List K)
    (probability : K) : K :=
  let ordered := values.insertionSort (· ≤ ·)
  match ordered with
  | [] => 0
  | [value] => value
  | _ =>
    let position := ((ordered.length : K) - 1) * probability
    let lower := ⌊position⌋₊
    let upper := ⌈position⌉₊
    if lower = upper then ordered.getD lower 0
    else
      let weight := position - lower
      ordered.getD lower 0 * (1 - weight) + ordered.getD upper 0 * weight

/-- `max` of a list that is not empty. -/
def maximum (values : List ℚ) : ℚ := values.max?.getD 0

/-- `1.0 - len(set(values)) / len(values) if values else 0.0`. -/
def reuseRatio (values : List Text) : ℚ :=
  if values = [] then 0 else 1 - (values.dedup.length : ℚ) / values.length

namespace Event

variable (e : Event)

def isRequest : Bool := e.eventType.getD (text "request") = text "request"

def isResource : Bool := e.eventType = some (text "resource")

/-- `str(event.get("run_id", "unknown"))`. -/
def run : Text := e.runId.getD (text "unknown")

end Event

variable {K : Type} (lib : Library K)

def Library.upper (t : Text) : Text :=
  t.flatMap fun c =>
    if 97 ≤ c ∧ c ≤ 122 then [c - 32] else if c < 128 then [c] else lib.upperChar c

def Library.operationOf (e : Event) : Text := lib.upper (e.operation.getD (text "UNKNOWN"))

def Library.statusOf (e : Event) : Text := lib.upper (e.result.getD (text "BACKEND_ERROR"))

def truthy (member : Event → Option Text) (events : List Event) : List Text :=
  (events.filterMap member).filter (· ≠ [])

def idleBetween (previous current : Event) : ℚ :=
  let currentStartNs := current.tsUnixNs - roundHalfEven (current.latencyUs.getD 0 * 1000)
  max 0 (((currentStartNs - previous.tsUnixNs : ℤ) : ℚ) / 1000)

/-- `first_request`: the earliest request of every run. -/
def firstRequest (events : List Event) : Text → Option ℤ :=
  events.foldl (fun first e =>
    if e.isRequest then
      Function.update first e.run (some (min ((first e.run).getD e.tsUnixNs) e.tsUnixNs))
    else first) fun _ => none

/-- The event is not skipped as part of the warm-up of its run. -/
def afterWarmup (first : Text → Option ℤ) (warmupNs : ℤ) (e : Event) : Bool :=
  match first e.run with
  | some start => start + warmupNs ≤ e.tsUnixNs
  | none => true

def windowStart (windowNs timestamp : ℤ) : ℤ := timestamp - timestamp % windowNs

/-- The key of a bucket; keys compare as tuples. -/
abbrev Key := Text ×ₗ ℤ

def keyOf (windowNs : ℤ) (e : Event) : Key := toLex (e.run, windowStart windowNs e.tsUnixNs)

def rowOf [Field K] (windowSeconds : ℤ) (bucket : Key × List Event) : Option (Row K) :=
  let requests := (bucket.2.filter Event.isRequest).insertionSort fun a b => a.tsUnixNs ≤ b.tsUnixNs
  let resources := bucket.2.filter Event.isResource
  let count : ℚ := requests.length
  let operations := requests.map lib.operationOf
  let statuses := requests.map lib.statusOf
  let latencies := requests.map fun e => e.latencyUs.getD 0
  let sizes := requests.map fun e => e.inputBytes.getD 0
  let idleValues := List.zipWith idleBetween requests requests.tail
  let idleMean := meanOrZero idleValues
  match requests with
  | [] => none
  | first :: _ => some
    { runId := (ofLex bucket.1).1
      scenario := first.scenario.getD (text "unknown")
      isAttack := if first.isAttack.getD false then 1 else 0
      windowStartNs := (ofLex bucket.1).2
      requestRate := count / windowSeconds
      putRatio := operations.count (text "PUT") / count
      getRatio := operations.count (text "GET") / count
      deleteRatio := operations.count (text "DELETE") / count
      rejectRatio := operations.count (text "REJECT") / count
      errorRatio := (statuses.countP (· ≠ text "OK") : ℕ) / count
      latencyMeanUs := fmean latencies
      latencyP95Us := percentile latencies (95 / 100)
      inputMeanBytes := fmean sizes
      inputMaxBytes := maximum sizes
      cpuPercentMean := meanOrZero (resources.map fun e => e.cpuPercent.getD 0)
      rssKbMean := meanOrZero (resources.map fun e => e.rssKb.getD 0)
      keyReuseRatio := reuseRatio (truthy Event.keyFingerprint requests)
      requestReuseRatio := reuseRatio (truthy Event.requestFingerprint requests)
      operationTransitionRatio :=
        if 1 < requests.length then
          ((List.zipWith (fun left right => if left ≠ right then 1 else 0) operations
            operations.tail).sum : ℚ) / (count - 1)
        else 0
      idleMeanUs := idleMean
      idleP95Us := percentile idleValues (95 / 100)
      idleCv := if 1 < idleValues.length ∧ 0 < idleMean then lib.pstdev idleValues / (idleMean : K)
        else 0 }

def nanoseconds (seconds : ℤ) : ℤ := seconds * 1000000000

def aggregateEvents [Field K] (events : List Event) (windowSeconds warmupSeconds : ℤ) :
    Except Exc (List (Row K)) :=
  if windowSeconds ≤ 0 then .error (.refused "window_seconds must be positive")
  else if warmupSeconds < 0 then .error (.refused "warmup_seconds cannot be negative")
  else
    let kept := events.filter (afterWarmup (firstRequest events) (nanoseconds warmupSeconds))
    let buckets := Grouping.group (keyOf (nanoseconds windowSeconds)) kept
    .ok ((Grouping.sortByKey buckets).filterMap (rowOf lib windowSeconds))

end Cote3Mon.Features
