import Cote3Mon.Records

namespace Cote3Mon
open ByteText Python

-- `cote3mon/audit_store.py`, method by method. A method that raises keeps what it has assigned so
-- far, so a method is a state transformer with an exception on top.

namespace AuditStore

/-- `self.state`; `key` is the value that the base64 text of the dict stands for. -/
structure State where
  key : Digest
  modelHash : Option Text
  sequence : ℕ
  head : Text
  deriving DecidableEq

def domain : Bytes := asciiBytes "C3MAUDIT1"

def zeroHash : Digest := .zero

/-- The dict that `append` returns. -/
structure Receipt where
  sequence : ℕ
  previousHead : Text
  alertHash : Text
  modelHash : Text
  head : Text
  deriving DecidableEq

def Receipt.toDict (r : Receipt) : Dict :=
  [(text "sequence", .int r.sequence), (text "previous_head", .str r.previousHead),
    (text "alert_hash", .str r.alertHash), (text "model_hash", .str r.modelHash),
    (text "head", .str r.head)]

/-- `model: bytes | str | Path`. -/
inductive Model where
  | bytes (payload : Bytes)
  | str (t : Text)
  | path (p : Text)

/-- What the file system does during one call: what is found under a path, and whether one
of the steps of `_persist` before the rename takes effect raises. -/
structure Files where
  pathExists : Text → Except Exc Bool
  readBytes : Text → Except Exc Bytes
  persistFault : Option Exc

end AuditStore

/-- An `AuditStore` object and the content of its state file. -/
structure AuditStore where
  state : AuditStore.State
  file : Option AuditStore.State
  deriving DecidableEq

namespace AuditStore

abbrev Method := Python.Method AuditStore

def setState (state : State) : Method Unit := fun s => (.ok (), { s with state := state })

variable (rt : Runtime) (crypto : Crypto) (files : Files)

/-- Writes a temporary file and renames it over the state file. -/
def persist : Method Unit := fun s =>
  match files.persistFault with
  | some e => (.error e, s)
  | none => (.ok (), { s with file := some s.state })

def freshState (key : Digest) : State := ⟨key, none, 0, zeroHash.hex⟩

/-- The constructor; `urandom` is `os.urandom(32)`. -/
def open? (urandom : Digest) (file : Option State) : Except Exc AuditStore :=
  match file with
  | some state => .ok ⟨state, file⟩
  | none =>
    match persist files ⟨freshState urandom, none⟩ with
    | (.ok (), s) => .ok s
    | (.error e, _) => .error e

def Model.payload : Model → Except Exc Bytes
  | .path p => files.readBytes p
  | .str t => do if ← files.pathExists t then files.readBytes t else encodeUtf8 t
  | .bytes payload => .ok payload

def registerModel (model : Model) : Method Text := do
  let payload ← Exec.lift (model.payload files)
  let digest := (crypto.sha256 payload).hex
  let s ← get
  if s.state.sequence ≠ 0 ∧ s.state.modelHash ≠ some digest then
    throw (.refused "model cannot change after alerts have been appended")
  setState { s.state with modelHash := some digest }
  persist files
  return digest

/-- `struct.pack("!Q", sequence)`. -/
def packQ (sequence : ℤ) : Except Exc Bytes :=
  if 0 ≤ sequence ∧ sequence < 2 ^ 64 then .ok (beBytes 8 sequence.toNat) else .error .structError

/-- `not self.state["model_hash"]` holds of `None` and of the empty text. -/
def State.registered? (state : State) : Option Text :=
  match state.modelHash with
  | some (c :: t) => some (c :: t)
  | _ => none

def append (alert : Json) : Method Receipt := do
  let s ← get
  match s.state.registered? with
  | none => throw (.refused "register a model before appending alerts")
  | some model => do
    let sequence := s.state.sequence + 1
    let previous ← Exec.lift (fromHex s.state.head)
    let alertHash := crypto.sha256 (← Exec.lift (canonicalJson rt alert))
    let modelHash ← Exec.lift (fromHex model)
    let message := domain ++ (← Exec.lift (packQ sequence)) ++ previous ++ alertHash.bytes ++
      modelHash
    let head := crypto.hmac s.state.key.bytes message
    setState { s.state with sequence := sequence, head := head.hex }
    persist files
    return ⟨sequence, hexEncode previous, alertHash.hex, hexEncode modelHash, head.hex⟩

/-- The values of the `try` block of `verify_receipt`. -/
structure Fields where
  sequence : ℤ
  previous : Bytes
  alertHash : Digest
  modelHash : Bytes
  claimed : Bytes

def readFields (alert : Json) (receipt : Dict) : Except Exc Fields := do
  let sequence ← rt.int (← receipt.item "sequence")
  let previous ← hexField rt receipt "previous_head"
  let alertHash := crypto.sha256 (← canonicalJson rt alert)
  let modelHash ← hexField rt receipt "model_hash"
  let claimed ← hexField rt receipt "head"
  return ⟨sequence, previous, alertHash, modelHash, claimed⟩

/-- The message that `verify_receipt` recomputes. -/
def Fields.message (f : Fields) : Except Exc Bytes := do
  return domain ++ (← packQ f.sequence) ++ f.previous ++ f.alertHash.bytes ++ f.modelHash

def verifyReceipt (self : AuditStore) (alert : Json) (receipt : Dict) : Except Exc Bool :=
  match readFields rt crypto alert receipt with
  | .error e => if e.isDataError then .ok false else .error e
  | .ok f =>
    if (receipt.get "alert_hash").eqText f.alertHash.hex then do
      return (crypto.hmac self.state.key.bytes (← f.message)).bytes = f.claimed
    else .ok false

/-- The loop of `verify_chain` from the loop variables `previous` and `sequence` on; `none`
is `return False`.  `last_head` is `previous` all along. -/
def verifyRecords (self : AuditStore) (previous : Text) (sequence : ℕ) :
    List Json → Except Exc (Option (Text × ℕ))
  | [] => .ok (some (previous, sequence))
  | value :: records => do
    let record ← value.dict
    let receipt ← (getOrEmpty record "receipt").dict
    if ¬ (receipt.get "sequence").eqInt (sequence + 1) ∨
        ¬ (receipt.get "previous_head").eqText previous then
      return none
    else if ¬ (receipt.get "model_hash").eqTextOrNone self.state.modelHash then
      return none
    else if ← verifyReceipt rt crypto self (getOrEmpty record "alert") receipt then
      let head ← rt.str (← receipt.item "head")
      verifyRecords self head (sequence + 1) records
    else return none

def verifyChain (self : AuditStore) (records : List Json) (requireCurrentHead : Bool) :
    Except Exc Bool := do
  match ← verifyRecords rt crypto self zeroHash.hex 0 records with
  | none => return false
  | some (lastHead, sequence) =>
    if requireCurrentHead then
      return sequence = self.state.sequence ∧ lastHead = self.state.head
    else return true

inductive Call where
  | registerModel (model : Model)
  | append (alert : Json)

inductive Returned where
  | digest (d : Text)
  | receipt (r : Receipt)

def call : Call → Method Returned
  | .registerModel model => do return .digest (← registerModel crypto files model)
  | .append alert => do return .receipt (← append rt crypto files alert)

structure Run where
  history : List (Call × Except Exc Returned)
  store : AuditStore

def Run.step (r : Run) (c : Call × Files) : Run :=
  let out := call rt crypto c.2 c.1 r.store
  ⟨r.history ++ [(c.1, out.1)], out.2⟩

def run (store : AuditStore) (calls : List (Call × Files)) : Run :=
  calls.foldl (Run.step rt crypto) ⟨[], store⟩

/-- The alert of a call and the receipt it returned. -/
def issue? : Call × Except Exc Returned → Option (Json × Receipt)
  | (.append alert, .ok (.receipt r)) => some (alert, r)
  | _ => none

def Run.issued (r : Run) : List (Json × Receipt) := r.history.filterMap issue?

def record (entry : Json × Receipt) : Json :=
  .obj [(text "alert", entry.1), (text "receipt", .obj entry.2.toDict)]

end AuditStore

end Cote3Mon
