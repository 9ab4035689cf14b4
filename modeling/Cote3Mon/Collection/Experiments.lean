import Cote3Mon.Collection.Sampler
import Cote3Mon.Python.Dumps
import Cote3Mon.Python.Exceptions

namespace Cote3Mon.Collection
open ByteText Python Words

-- `sample_to_jsonl` of `cote3mon/resource.py`, and `execute_run` and `reusable_passed_run` of
-- `scripts/run-qemu-experiments.py`. What the other processes, the file system and the clock do is
-- an argument. A result file is the value that `json.loads` reads from it.

/-- `now < start + duration + extra`. -/
def beforeDeadline (start : ℚ) (duration : PyFloat) (extra now : ℚ) : Bool :=
  match duration with
  | .finite negative magnitude =>
    now < start + (if negative then -(magnitude : ℚ) else magnitude) + extra
  | .infinity negative => !negative
  | .nan => false

/-- `duration <= 0`. -/
def notPositive : PyFloat → Bool
  | .finite negative magnitude => negative || magnitude = 0
  | .infinity negative => negative
  | .nan => false

structure Turn where
  /-- `time.monotonic()`. -/
  now : ℚ
  reading : Reading
  /-- `time.time_ns()`. -/
  tsUnixNs : ℤ

structure SamplerRun where
  clockTicks : ℕ+
  /-- Creating the directory and opening the file. -/
  opened : Except Exc Unit
  start : ℚ
  /-- The turns before the deadline. -/
  turns : List Turn

variable (rt : Runtime)

def resourceEvent (runId scenario : Text) (isAttack : Bool) (turn : Turn) (cpu : ℚ) (rss : ℤ) :
    Json :=
  .obj [(text "event_type", .str (text "resource")), (text "ts_unix_ns", .int turn.tsUnixNs),
    (text "run_id", .str runId), (text "scenario", .str scenario),
    (text "is_attack", .bool isAttack),
    (text "cpu_percent", .float (.finite (cpu < 0) (Rat.nnabs cpu))), (text "rss_kb", .int rss)]

/-- The loop of `sample_to_jsonl` and what the file holds after it. -/
def samplingLoop (event : Turn → ℚ → ℤ → Json) (before : ℚ → Bool) :
    ProcessSampler → Text → ℕ → List Turn → Except Exc ℕ × Text
  | _, log, count, [] => (.ok count, log)
  | s, log, count, turn :: turns =>
    if before turn.now then
      match sample rt turn.reading s with
      | (.ok (cpu, rss), s') =>
        match encode rt Style.line 0 (event turn cpu rss) with
        | .ok line => samplingLoop event before s' (log ++ line ++ [10]) (count + 1) turns
        | .error e => (.error e, log)
      -- the container process may exit
      | (.error .osError, _) => (.ok count, log)
      | (.error e, _) => (.error e, log)
    else (.ok count, log)

/-- `sample_to_jsonl` to a file that does not exist before. -/
def sampleToJsonl (run : SamplerRun) (runId scenario : Text) (isAttack : Bool)
    (durationSeconds : PyFloat) (intervalSeconds : ℚ) : Except Exc ℕ × Text :=
  if notPositive durationSeconds then (.error (.refused "duration_seconds must be positive"), [])
  else if intervalSeconds ≤ 0 then (.error (.refused "interval_seconds must be positive"), [])
  else
    match run.opened with
    | .error e => (.error e, [])
    | .ok _ =>
      samplingLoop rt (resourceEvent runId scenario isAttack)
        (beforeDeadline run.start durationSeconds 0) (.init run.clockTicks) [] 0 run.turns

inductive Failure where
  | runtimeError (message : Text)
  | timeoutError (message : Text)
  | raised (e : Exc)
  deriving DecidableEq

def raised {α : Type} (r : Except Exc α) : Except Failure α := r.mapError .raised

/-- `if c: raise e`. -/
def raiseIf (c : Bool) (e : Failure) : Except Failure Unit := if c then .error e else .ok ()

/-- A file as `read_text` gives it; `none` where there is no file. -/
abbrev LogFile := Option (Except Exc Text)

inductive ResultFile where
  | missing
  /-- `OSError` or `JSONDecodeError`. -/
  | unreadable
  /-- Not UTF-8. -/
  | undecodable
  | value (v : Json)

structure Evidence where
  result : ResultFile
  requests : LogFile
  resources : LogFile

def countJsonl : LogFile → Except Exc ℕ
  | none => .ok 0
  | some content => do return (words isLineBreak (← content)).length

structure Run where
  scenario : Text
  attack : Bool
  repeatIndex : ℤ
  duration : PyFloat
  seed : ℤ
  stage : Text

/-- What is only passed through the standard library. -/
structure Library where
  /-- `float(v)`; a float is itself. -/
  toFloat : Json → Except Exc PyFloat
  toFloat_float : ∀ f, toFloat (.float f) = .ok f
  /-- `repr` of an exception. -/
  reprExc : Exc → Text

/-- `f"{n:02d}"`. -/
def twoDigits (n : ℤ) : Except Exc Text := do
  let digits ← rt.intText n
  return if digits.length < 2 then 48 :: digits else digits

def Run.runId (p : Run) : Except Exc Text := do
  return p.scenario ++ text "-" ++ (← twoDigits rt p.repeatIndex)

def Run.containerId (p : Run) : Except Exc Text := do
  return text "c3m-" ++ p.scenario.map (fun c => if c = 95 then 45 else c) ++ text "-" ++
    (← twoDigits rt p.repeatIndex)

structure Outcome where
  /-- What is done before the gateway is started: the old files are removed, the configuration of the
  bundle is written. -/
  prepared : Except Exc Unit
  socketStart : ℚ
  /-- The turns of `wait_for_socket`: the clock, whether the socket exists, whether the gateway has
  exited. -/
  socketTurns : List (ℚ × Bool × Bool)
  /-- `runc run`. -/
  containerRun : Except Exc Unit
  /-- `runc state` after the start. -/
  containerState : Except Exc (Option Dict)
  sampler : SamplerRun
  waitStart : ℚ
  /-- The turns of the loop that waits for the container. -/
  stateTurns : List (ℚ × Except Exc (Option Dict))
  /-- The sampler thread ends within five seconds. -/
  joined : Bool
  /-- The request log when its lines are counted. -/
  requestLog : LogFile
  elapsed : PyFloat
  /-- The request log when the result is written, and from then on. -/
  finalRequestLog : LogFile
  /-- `finally`. -/
  cleaned : Except Exc Unit

/-- The truth value of `v`. -/
def truthValue : Json → Bool
  | .null => false
  | .bool b => b
  | .int n => n ≠ 0
  | .float f => f.value? ≠ some 0
  | .str t => t ≠ []
  | .arr items => !items.isEmpty
  | .obj members => !members.isEmpty

/-- After the last turn the clock has passed the deadline. -/
def waitForSocket (start : ℚ) : List (ℚ × Bool × Bool) → Except Failure Unit
  | [] => .error (.timeoutError (text "gateway socket did not appear: /run/cote3-mon/gateway.sock"))
  | (now, pathExists, exited) :: turns =>
    if now < start + 10 then
      if pathExists then .ok ()
      else if exited then .error (.runtimeError (text "gateway exited before creating its socket"))
      else waitForSocket start turns
    else .error (.timeoutError (text "gateway socket did not appear: /run/cote3-mon/gateway.sock"))

/-- `if not state or state.get("status") == "stopped"`. -/
def stopped : Option Dict → Bool
  | none => true
  | some state => state.isEmpty || (state.get "status").eqText (text "stopped")

/-- The loop that waits for the container; after the last turn the clock has passed the deadline. -/
def awaitStop (before : ℚ → Bool) (containerId : Text) :
    List (ℚ × Except Exc (Option Dict)) → Except Failure Unit
  | [] => .error (.timeoutError (text "container did not stop: " ++ containerId))
  | (now, state) :: turns => do
    if before now then
      if stopped (← raised state) then .ok () else awaitStop before containerId turns
    else .error (.timeoutError (text "container did not stop: " ++ containerId))

def resultOf (p : Run) (runId : Text) (elapsed : PyFloat) (requestCount resourceCount : ℕ) : Json :=
  .obj [(text "schema", .str (text "cote3-mon-" ++ p.stage ++ text "-run-v1")),
    (text "status", .str (text "PASS")), (text "run_id", .str runId),
    (text "scenario", .str p.scenario), (text "is_attack", .bool p.attack),
    (text "seed", .int p.seed),
    (text "duration_seconds", .float p.duration), (text "elapsed_seconds", .float elapsed),
    (text "request_events", .int requestCount), (text "resource_events", .int resourceCount)]

variable (lib : Library)

/-- The part of `execute_run` under `try`. -/
def recordRun (p : Run) (o : Outcome) (runId containerId : Text) : Except Failure Evidence := do
  waitForSocket o.socketStart o.socketTurns
  raised o.containerRun
  let state ← raised o.containerState
  let pid := (state.getD []).get "pid"
  raiseIf (!truthValue pid) (.runtimeError (text "runc did not report the container init PID"))
  let _ ← raised (rt.int pid)
  let (sampled, resourceLog) := sampleToJsonl rt o.sampler runId p.scenario p.attack p.duration 1
  awaitStop (beforeDeadline o.waitStart p.duration 15) containerId o.stateTurns
  raiseIf (!o.joined) (.timeoutError (text "resource sampler did not stop: " ++ runId))
  match sampled with
  | .error e => .error (.runtimeError (text "resource sampler failed: " ++ lib.reprExc e))
  | .ok _ =>
    let requestCount ← raised (countJsonl o.requestLog)
    let resourceCount ← raised (countJsonl (some (.ok resourceLog)))
    raiseIf (requestCount = 0) (.runtimeError (text "run produced no request telemetry: " ++ runId))
    let result := resultOf p runId o.elapsed requestCount resourceCount
    let _ ← raised (dumps rt result)
    return ⟨.value result, o.finalRequestLog, some (.ok resourceLog)⟩

def executeRun (p : Run) (o : Outcome) : Except Failure Evidence := do
  let runId ← raised (p.runId rt)
  let containerId ← raised (p.containerId rt)
  raised o.prepared
  let recorded := recordRun rt lib p o runId containerId
  raised o.cleaned
  recorded

/-- `d.get(name, -1)`. -/
def getOrMinusOne (d : Dict) (name : String) : Json := (d.lookup (text name)).getD (.int (-1))

/-- `a == b`. -/
def floatEq : PyFloat → PyFloat → Bool
  | .infinity negative, .infinity negative' => negative = negative'
  | .finite negative magnitude, .finite negative' magnitude' =>
    (PyFloat.finite negative magnitude).value? = (PyFloat.finite negative' magnitude').value?
  | _, _ => false

/-- `count > 0 and int(result.get(name, -1)) == count`. -/
def countMatches (result : Dict) (name : String) (count : ℕ) : Except Exc Bool :=
  if 0 < count then do return (← rt.int (getOrMinusOne result name)) = count else .ok false

def checks (p : Run) (runId : Text) (result : Dict) (requestCount resourceCount : ℕ) :
    Except Exc (List (String × Bool)) := do
  let seed ← rt.int (getOrMinusOne result "seed")
  let duration ← lib.toFloat (getOrMinusOne result "duration_seconds")
  let requestEvents ← countMatches rt result "request_events" requestCount
  let resourceEvents ← countMatches rt result "resource_events" resourceCount
  return [("status", (result.get "status").eqText (text "PASS")),
    ("run_id", (result.get "run_id").eqText runId),
    ("scenario", (result.get "scenario").eqText p.scenario),
    ("is_attack", match result.get "is_attack" with
      | .bool b => b = p.attack
      | _ => false),
    ("seed", seed = p.seed), ("duration", floatEq duration p.duration),
    ("request_events", requestEvents), ("resource_events", resourceEvents)]

def reusablePassedRun (p : Run) (files : Evidence) : Except Failure Bool := do
  let runId ← raised (p.runId rt)
  match files.result with
  | .missing => return false
  | .unreadable =>
    .error (.runtimeError (text "existing result is unreadable; refusing to overwrite " ++ runId))
  | .undecodable => .error (.raised .valueError)
  | .value v =>
    let requestCount ← raised (countJsonl files.requests)
    let resourceCount ← raised (countJsonl files.resources)
    let checks ← raised (do checks rt lib p runId (← v.dict) requestCount resourceCount)
    let failures := (checks.filter fun check => !check.2).map fun check => text check.1
    raiseIf (failures ≠ []) (.runtimeError (text "existing PASS evidence for " ++ runId ++
      text " failed resume validation (" ++ (failures.intersperse (text ", ")).flatten ++
      text "); refusing to overwrite it"))
    return true

end Cote3Mon.Collection
