import Cote3Mon.Gateway.MockBackend
import Cote3Mon.Protocol.C

namespace Cote3Mon.Gateway
open ByteText Stream Protocol Protocol.C

-- `gateway/gateway.c` with the mock backend: one connection is received, answered, measured and
-- logged, and then the next one is accepted.

/-- What `main` hands to `serve`, and the machine it runs on.  The identifiers are C strings. -/
structure Config where
  order : ByteOrder
  sigpipe : Disposition
  fingerprintSecret : UInt64
  runId : Bytes
  containerId : Bytes
  scenario : Bytes
  isAttack : Bool
  telemetry : Bool

def unknownIdentifier : Bytes := [0x75, 0x6e, 0x6b, 0x6e, 0x6f, 0x77, 0x6e]

def isSafe (value : UInt8) : Bool :=
  (0x61 ≤ value && value ≤ 0x7a) || (0x41 ≤ value && value ≤ 0x5a) ||
    (0x30 ≤ value && value ≤ 0x39) || value = 0x2d || value = 0x5f || value = 0x2e

/-- The source is what the pointer points to, up to its NUL; `none` is the null pointer. -/
def safeIdentifier (targetSize : ℕ) (source : Option Bytes) : Bytes :=
  let source := (source.getD []).takeWhile (· ≠ 0)
  let source := if source = [] then unknownIdentifier else source
  (source.take (targetSize - 1)).map fun value => if isSafe value then value else 0x5f

/-- The variables that `main` reads. -/
structure Environment where
  runId : Option Bytes
  containerId : Option Bytes
  scenario : Option Bytes
  isAttack : Bool

/-- `main` handles `SIGINT` and `SIGTERM` and leaves `SIGPIPE` at its default. -/
def mainConfig (order : ByteOrder) (fingerprintSecret : UInt64) (telemetry : Bool)
    (env : Environment) : Config where
  order := order
  sigpipe := .terminate
  fingerprintSecret := fingerprintSecret
  runId := safeIdentifier 65 env.runId
  containerId := safeIdentifier 65 env.containerId
  scenario := safeIdentifier 65 env.scenario
  isAttack := env.isAttack
  telemetry := telemetry

/-- `struct request_metrics`; a latency is kept in nanoseconds. -/
structure RequestMetrics where
  latencies : List UInt64
  capacity : ℕ
  errors : UInt64
  firstStartNs : UInt64
  lastEndNs : UInt64
  allocationFailed : Bool

structure Event where
  containerId : Bytes
  errorOrigin : String
  inputBytes : UInt32
  isAttack : Bool
  keyFingerprint : Text
  latencyNs : UInt64
  operation : String
  requestId : UInt64
  result : String
  runId : Bytes
  scenario : Bytes
  requestFingerprint : Text
  tsUnixNs : UInt64

variable (cfg : Config)

/-- `reallocated` is the answer of `realloc`, should it be called. -/
def recordMetric (reallocated : Bool) (startNs endNs : UInt64) (status : UInt16)
    (metrics : RequestMetrics) : RequestMetrics :=
  let metrics := if metrics.latencies = [] then { metrics with firstStartNs := startNs } else metrics
  let metrics := { metrics with lastEndNs := endNs }
  let metrics := if status ≠ c3mStatusOk then { metrics with errors := metrics.errors + 1 }
    else metrics
  let full := metrics.latencies.length = metrics.capacity
  if full ∧ !reallocated then { metrics with allocationFailed := true }
  else
    { metrics with
      capacity := if full then
        (if metrics.capacity ≠ 0 then metrics.capacity * 2 else 1024) else metrics.capacity
      latencies := metrics.latencies ++ [endNs - startNs] }

def fingerprintUpdate (hash : UInt64) (data : Bytes) : UInt64 :=
  data.foldl (fun hash byte => (hash ^^^ byte.toUInt64) * 1099511628211) hash

def keyedFingerprint (request : Request) (includeValue : Bool) : UInt64 :=
  let key := request.key.take request.keyLen.toNat
  let value := request.value.take request.valueLen.toNat
  let hash := 1469598103934665603 ^^^ cfg.fingerprintSecret
  let hash := fingerprintUpdate hash (cfg.order.store 4 request.keyLen.toNat)
  let hash := fingerprintUpdate hash key
  let hash := if includeValue then
    fingerprintUpdate (fingerprintUpdate (fingerprintUpdate hash
      (cfg.order.store 2 request.operation.toNat)) (cfg.order.store 4 request.valueLen.toNat)) value
    else hash
  (hash ^^^ (cfg.fingerprintSecret >>> 17)) * 1099511628211

/-- `%016llx`. -/
def hex16 (value : UInt64) : Text := hexEncode (beBytes 8 value.toNat)

def c3mOperationName (operation : UInt16) : String :=
  if operation = c3mOpPut then "PUT"
  else if operation = c3mOpGet then "GET"
  else if operation = c3mOpDelete then "DELETE"
  else "REJECT"

def c3mStatusName (status : UInt16) : String :=
  if status = c3mStatusOk then "OK"
  else if status = c3mStatusInvalid then "INVALID"
  else if status = c3mStatusNotFound then "NOT_FOUND"
  else if status = c3mStatusBackendError then "BACKEND_ERROR"
  else if status = c3mStatusTooLarge then "TOO_LARGE"
  else "PROTOCOL_ERROR"

/-- `parsed` is the request, where there was one. -/
def logEvent (parsed : Option Request) (status : UInt16) (latencyNs tsUnixNs : UInt64) : Event where
  containerId := cfg.containerId
  errorOrigin := if status = c3mStatusOk then "none"
    else if parsed.isSome then "backend" else "gateway"
  inputBytes := match parsed with
    | some request => request.keyLen + request.valueLen
    | none => 0
  isAttack := cfg.isAttack
  keyFingerprint := match parsed with
    | some request => hex16 (keyedFingerprint cfg request false)
    | none => []
  latencyNs := latencyNs
  operation := match parsed with
    | some request => c3mOperationName request.operation
    | none => "REJECT"
  requestId := match parsed with
    | some request => request.requestId
    | none => 0
  result := c3mStatusName status
  runId := cfg.runId
  scenario := cfg.scenario
  requestFingerprint := match parsed with
    | some request => hex16 (keyedFingerprint cfg request true)
    | none => []
  tsUnixNs := tsUnixNs

def BackendResult.status : BackendResult → UInt16
  | .ok => c3mStatusOk
  | .notFound => c3mStatusNotFound
  | .failure => c3mStatusBackendError

/-- The status of the response and its value, which only a GET sets. -/
def dispatch (request : Request) (backend : MockBackend) : UInt16 × Bytes × MockBackend :=
  let key := request.key.take request.keyLen.toNat
  let value := request.value.take request.valueLen.toNat
  if request.operation = c3mOpPut then
    let (result, backend) := mockPut key value backend
    (result.status, [], backend)
  else if request.operation = c3mOpGet then
    let (result, output) := mockGet c3mMaxValueBytes.toNat key backend
    (result.status, output, backend)
  else if request.operation = c3mOpDelete then
    let (result, backend) := mockDelete key backend
    (result.status, [], backend)
  else (c3mStatusInvalid, [], backend)

structure Connection where
  input : Input
  answers : List Acceptance
  /-- How much of a response the client takes before it has gone. -/
  room : Option ℕ
  mallocs : List Bool
  reallocated : Bool
  startNs : UInt64
  endNs : UInt64
  tsUnixNs : UInt64

def Connection.output (c : Connection) : Output := ⟨c.answers, c.room, []⟩

/-- What the process keeps between connections. -/
structure State where
  objects : List Object
  metrics : RequestMetrics
  events : List Event

def State.initial : State := ⟨[], ⟨[], 0, 0, 0, 0, false⟩, []⟩

def finish (c : Connection) (parsed : Option Request) (status : UInt16) (g : State) : State where
  objects := g.objects
  metrics := recordMetric c.reallocated c.startNs c.endNs status g.metrics
  events := g.events ++
    if cfg.telemetry then [logEvent cfg parsed status (c.endNs - c.startNs) c.tsUnixNs] else []

inductive Place where
  | accepting
  | returned
  | killed
  deriving DecidableEq

structure Run where
  place : Place
  state : State
  outputs : List Output

/-- The body of the loop in `serve` after `accept`. -/
def serveConnection (c : Connection) (g : State) : Place × State × Output :=
  match recvRequest cfg.order c.input with
  | (.error _, _) => (.accepting, finish cfg c none c3mStatusProtocolError g, c.output)
  | (.ok request, _) =>
    let (status, value, backend) := dispatch request ⟨g.objects, c.mallocs⟩
    let g := { g with objects := backend.objects }
    match sendResponse cfg.order cfg.sigpipe
        ⟨request.requestId, status, UInt32.ofNat value.length, value⟩ c.output with
    | (.killed, output) => (.killed, g, output)
    | (_, output) => (.accepting, finish cfg c (some request) status g, output)

/-- What `accept` returns next, or that `stopping` is seen set before it is called. -/
inductive Arrival where
  | connection (c : Connection)
  | interrupted
  | failed
  | stopping

def serve : List Arrival → State → Run
  | [], g => ⟨.accepting, g, []⟩
  | .connection c :: rest, g =>
    match serveConnection cfg c g with
    | (.accepting, g, output) =>
      let run := serve rest g
      { run with outputs := output :: run.outputs }
    | (place, g, output) => ⟨place, g, [output]⟩
  | .interrupted :: rest, g => serve rest g
  | .failed :: _, g => ⟨.returned, g, []⟩
  | .stopping :: _, g => ⟨.returned, g, []⟩

end Cote3Mon.Gateway
