import Cote3Mon.Gateway.Exchange
import Cote3Mon.Protocol.C
import Cote3Mon.Protocol.Python

namespace Cote3Mon.Gateway.Python
open ByteText Stream Protocol Cote3Mon.Python Cote3Mon.Protocol.Python

-- `cote3mon/mock_gateway.py`: the gateway that stands in for the C gateway where OP-TEE and QEMU
-- are not available.

/-- `self.storage`. -/
abbrev Storage := AList fun _ : Bytes => Bytes

structure Config where
  /-- `blake2b` with the key of the object and a digest of eight bytes. -/
  blake2b : Bytes → Bytes
  runId : Text
  scenario : Text
  isAttack : Bool

/-- A line of telemetry.  `event_type` is always `request` and `container_id` `mock-container`. -/
structure Event where
  tsUnixNs : ℕ
  runId : Text
  scenario : Text
  isAttack : Bool
  requestId : ℤ
  operation : String
  inputBytes : ℕ
  result : String
  errorOrigin : String
  latencyNs : ℕ
  keyFingerprint : Text
  requestFingerprint : Text

structure MockGateway where
  storage : Storage
  events : List Event

def MockGateway.initial : MockGateway := ⟨∅, []⟩

variable (cfg : Config)

def fingerprint (parts : List Bytes) : Text :=
  hexEncode (cfg.blake2b (parts.flatMap fun part => beBytes 4 part.length ++ part))

structure Connection where
  input : Input
  answers : List Acceptance
  room : Option ℕ
  latencyNs : ℕ
  tsUnixNs : ℕ

def Connection.output (c : Connection) : Output := ⟨c.answers, c.room, []⟩

/-- `connection.sendall`: the interpreter ignores `SIGPIPE` and repeats interrupted calls. -/
def sendall (bs : Bytes) (output : Output) : Except Exc Unit × Output :=
  match C.writeFull .ignore bs output with
  | (.done, output) => (.ok (), output)
  | (_, output) => (.error .osError, output)

structure Handled where
  request : Option Request
  operation : String
  inputBytes : ℕ
  status : Status
  keyFingerprint : Text
  requestFingerprint : Text

def Handled.initial : Handled := ⟨none, "REJECT", 0, .protocolError, [], []⟩

def perform (request : Request) (storage : Storage) : Status × Bytes × Storage :=
  match request.operation with
  | .put => (.ok, [], storage.insert request.key request.value)
  | .get =>
    match storage.lookup request.key with
    | some value => (.ok, value, storage)
    | none => (.notFound, [], storage)
  | .delete =>
    if request.key ∈ storage then (.ok, [], storage.erase request.key)
    else (.notFound, [], storage)

/-- The `try` block of `_handle`: what it raises, and what it has assigned by then. -/
def attempt (c : Connection) (storage : Storage) : Except Exc Unit × Handled × Storage × Output :=
  match recvRequest c.input with
  | (.error e, _) => (.error e, .initial, storage, c.output)
  | (.ok request, _) =>
    let (status, value, storage) := perform request storage
    let handled : Handled :=
      { request := some request
        operation := operationName request.operation
        inputBytes := request.key.length + request.value.length
        status := status
        keyFingerprint := fingerprint cfg [request.key]
        requestFingerprint :=
          fingerprint cfg [beBytes 2 request.operation.code, request.key, request.value] }
    match Response.encode ⟨request.requestId, status, value⟩ with
    | .error e => (.error e, handled, storage, c.output)
    | .ok bs =>
      let (result, output) := sendall bs c.output
      (result, handled, storage, output)

/-- `except (EOFError, ValueError, OSError)`. -/
def isCaught : Exc → Bool
  | .eofError | .valueError | .refused _ | .osError => true
  | _ => false

def emit (c : Connection) (handled : Handled) : Event where
  tsUnixNs := c.tsUnixNs
  runId := cfg.runId
  scenario := cfg.scenario
  isAttack := cfg.isAttack
  requestId := match handled.request with
    | some request => request.requestId
    | none => 0
  operation := handled.operation
  inputBytes := handled.inputBytes
  result := statusName handled.status
  errorOrigin := if handled.status ≠ .ok then "gateway" else "none"
  latencyNs := c.latencyNs
  keyFingerprint := handled.keyFingerprint
  requestFingerprint := handled.requestFingerprint

/-- `_handle`; an exception that is not caught ends the thread. -/
def handle (c : Connection) (g : MockGateway) : Except Exc Unit × MockGateway × Output :=
  match attempt cfg c g.storage with
  | (.ok (), handled, storage, output) =>
    (.ok (), ⟨storage, g.events ++ [emit cfg c handled]⟩, output)
  | (.error e, handled, storage, output) =>
    if isCaught e then
      (.ok (), ⟨storage, g.events ++ [emit cfg c { handled with status := .protocolError }]⟩, output)
    else (.error e, ⟨storage, g.events⟩, output)

/-- `_serve`, for the connections it accepts before it is stopped. -/
def serve : List Connection → MockGateway → Except Exc Unit × MockGateway × List Output
  | [], g => (.ok (), g, [])
  | c :: rest, g =>
    match handle cfg c g with
    | (.error e, g, output) => (.error e, g, [output])
    | (.ok (), g, output) =>
      let (result, g, outputs) := serve rest g
      (result, g, output :: outputs)

end Cote3Mon.Gateway.Python
