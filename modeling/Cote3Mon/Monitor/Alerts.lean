import Cote3Mon.Features.Aggregate
import Cote3Mon.Monitor.Backend
import Cote3Mon.Python.Reload

namespace Cote3Mon.Monitor
open ByteText Python

def floatOf (q : ℚ) : Json := .float (.finite (q < 0) q.nnabs)

def rowDict (row : Features.Row) : Dict :=
  [(text "run_id", .str row.runId), (text "scenario", .str row.scenario),
    (text "is_attack", .int row.isAttack), (text "window_start_ns", .int row.windowStartNs),
    (text "request_rate", floatOf row.requestRate), (text "put_ratio", floatOf row.putRatio),
    (text "get_ratio", floatOf row.getRatio), (text "delete_ratio", floatOf row.deleteRatio),
    (text "reject_ratio", floatOf row.rejectRatio), (text "error_ratio", floatOf row.errorRatio),
    (text "latency_mean_us", floatOf row.latencyMeanUs),
    (text "latency_p95_us", floatOf row.latencyP95Us),
    (text "input_mean_bytes", floatOf row.inputMeanBytes),
    (text "input_max_bytes", floatOf row.inputMaxBytes),
    (text "cpu_percent_mean", floatOf row.cpuPercentMean),
    (text "rss_kb_mean", floatOf row.rssKbMean),
    (text "key_reuse_ratio", floatOf row.keyReuseRatio),
    (text "request_reuse_ratio", floatOf row.requestReuseRatio),
    (text "operation_transition_ratio", floatOf row.operationTransitionRatio),
    (text "idle_mean_us", floatOf row.idleMeanUs), (text "idle_p95_us", floatOf row.idleP95Us),
    (text "idle_cv", floatOf row.idleCv)]

/-- `row[name]`. -/
def rowItem (row : Features.Row) (name : Text) : Except Exc Json :=
  match (rowDict row).lookup name with
  | some v => .ok v
  | none => .error .keyError

/-- The protocol `Detector`. -/
structure Detector where
  threshold : PyFloat
  features : List Text
  score : Features.Row → Except Exc PyFloat

/-- `a <= b`; a comparison with a NaN is false. -/
def floatLe : PyFloat → PyFloat → Bool
  | .nan, _ => false
  | _, .nan => false
  | .infinity true, _ => true
  | _, .infinity false => true
  | .infinity false, _ => false
  | _, .infinity true => false
  | a, b => a.value?.getD 0 ≤ b.value?.getD 0

/-- `{name: row[name] for name in detector.features}`. -/
def featureDict (row : Features.Row) (names : List Text) : Except Exc Dict :=
  names.eraseDups.mapM fun name => do return (name, ← rowItem row name)

/-- The alert of a row; `modelHash` is a text or `None`. -/
def alertOf (detector : Detector) (modelHash : Json) (row : Features.Row) (score : PyFloat) :
    Except Exc Json := do
  let features ← featureDict row detector.features
  return .obj [(text "schema", .str (text "cote3-mon-alert-v1")), (text "run_id", .str row.runId),
    (text "scenario", .str row.scenario), (text "window_start_ns", .int row.windowStartNs),
    (text "score", .float score), (text "threshold", .float detector.threshold),
    (text "model_hash", modelHash), (text "features", .obj features)]

/-- `{"alert": alert, "receipt": receipt}`. -/
def recordOf (alert receipt : Json) : Json :=
  .obj [(text "alert", alert), (text "receipt", receipt)]

end Cote3Mon.Monitor
