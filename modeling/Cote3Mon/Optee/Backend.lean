import Cote3Mon.Optee.Client
import Cote3Mon.Python.Loads
import Cote3Mon.Records

namespace Cote3Mon.Optee
open ByteText Python AuditTa

-- `OpteeAuditBackend` of `cote3mon/monitor.py`. Every method runs audit clients, one process after
-- another, against the TA.

/-- What happens to one process: whether it can be started, and which client API call fails. -/
structure Process where
  spawnFault : Bool
  fault : Option TeecFault

/-- The TA with its storage, and what will happen to the processes to come. -/
structure Machine where
  tee : World
  processes : ℕ → Process

abbrev Backend := Method Machine

variable (rt : Runtime) (crypto : Crypto)

/-- `os.fsencode` of a character of an argument; no argument holds a zero byte. -/
def fsencodeChar (c : ℕ) : Except Exc Bytes :=
  if c = 0 then .error .valueError
  else if 0xdc80 ≤ c ∧ c ≤ 0xdcff then .ok [UInt8.ofNat (c - 0xdc00)]
  else utf8Char c

def fsencode : Text → Except Exc Bytes
  | [] => .ok []
  | c :: rest => do return (← fsencodeChar c) ++ (← fsencode rest)

def encodeArguments : List Text → Except Exc (List Bytes)
  | [] => .ok []
  | t :: rest => do return (← fsencode t) :: (← encodeArguments rest)

/-- White space of `str.strip`. -/
def isStripSpace (c : ℕ) : Bool :=
  9 ≤ c && c ≤ 13 || 28 ≤ c && c ≤ 32 || c = 0x85 || c = 0xa0 || c = 0x1680 ||
    0x2000 ≤ c && c ≤ 0x200a || c = 0x2028 || c = 0x2029 || c = 0x202f || c = 0x205f || c = 0x3000

def strip (t : Text) : Text :=
  ((t.dropWhile isStripSpace).reverse.dropWhile isStripSpace).reverse

/-- `_run`. -/
def runClient (arguments : List Text) : Backend Text := fun m =>
  match encodeArguments arguments with
  | .error e => (.error e, m)
  | .ok argv =>
    let process := m.processes 0
    let processes := fun n => m.processes (n + 1)
    if process.spawnFault then (.error .osError, ⟨m.tee, processes⟩)
    else
      let out := main crypto process.fault (asciiBytes "audit-client" :: argv) m.tee
      (if out.1.code = 0 then .ok (strip out.1.stdout) else .error .calledProcessError,
        ⟨out.2, processes⟩)

/-- `readBytes` is `model_path.read_bytes()`. -/
def registerModel (readBytes : Except Exc Bytes) : Backend Text := do
  let digest := (crypto.sha256 (← Exec.lift readBytes)).hex
  let _ ← runClient crypto [text "register", digest]
  return digest

def append (alert : Json) : Backend Json := do
  let digest := (crypto.sha256 (← Exec.lift (canonicalJson rt alert))).hex
  let output ← runClient crypto [text "append", digest]
  Exec.lift (loads rt output)

def getHead : Backend Json := do
  let output ← runClient crypto [text "head"]
  Exec.lift (loads rt output)

/-- `str(v[name])`. -/
def strItem (v : Json) (name : String) : Except Exc Text := do rt.str (← v.item name)

/-- The arguments of the `verify` command. -/
def verifyArguments (receipt : Json) : Except Exc (List Text) := do
  return [text "verify", ← rt.intText (← rt.int (← receipt.item "sequence")),
    ← strItem rt receipt "previous_head", ← strItem rt receipt "alert_hash",
    ← strItem rt receipt "model_hash", ← strItem rt receipt "head"]

/-- Caught by the `except` clauses around a client: a data error or a failed client. -/
def isClientError (e : Exc) : Bool := e.isDataError || e = .calledProcessError

def verifyReceipt (receipt : Json) : Backend Bool :=
  (do
    let arguments ← Exec.lift (verifyArguments rt receipt)
    let output ← runClient crypto arguments
    return output = text "VALID" : Backend Bool).orElse isClientError false

/-- `character in "0123456789abcdef"` for every character, and a length of 64. -/
def isHash (t : Text) : Bool := t.length = 64 && t.all fun c => decide (IsHex c)

/-- The loop variables of `verify_chain`. -/
structure Progress where
  previous : Text
  sequence : ℕ
  modelHash : Option Text

/-- The body of the loop of `verify_chain`; `none` is `return False`. -/
def checkRecord (progress : Progress) (record : Json) : Backend (Option Progress) := do
  let receipt ← Exec.lift (record.item "receipt")
  let sequence := progress.sequence + 1
  let alertHash :=
    (crypto.sha256 (← Exec.lift do canonicalJson rt (← record.item "alert"))).hex
  let previousHead ← Exec.lift (strItem rt receipt "previous_head")
  let alertField ← Exec.lift (strItem rt receipt "alert_hash")
  let modelHash ← Exec.lift (strItem rt receipt "model_hash")
  let head ← Exec.lift (strItem rt receipt "head")
  if ¬ [previousHead, alertField, modelHash, head].all isHash then return none
  else
    let claimed ← Exec.lift do rt.int (← receipt.item "sequence")
    if claimed ≠ sequence then return none
    else if previousHead ≠ progress.previous ∨ alertField ≠ alertHash then return none
    else if progress.modelHash.getD modelHash ≠ modelHash then return none
    else if ← verifyReceipt rt crypto receipt then
      return some ⟨head, sequence, some modelHash⟩
    else return none

def verifyRecords (progress : Progress) : List Json → Backend (Option Progress)
  | [] => return some progress
  | record :: records => do
    match ← (checkRecord rt crypto progress record).orElse Exc.isDataError none with
    | none => return none
    | some next => verifyRecords next records

def checkHead (progress : Progress) : Backend Bool := do
  let current ← getHead rt crypto
  let sequence ← Exec.lift do rt.int (← current.item "sequence")
  if sequence ≠ progress.sequence then return false
  else
    let head ← Exec.lift (strItem rt current "head")
    if head ≠ progress.previous then return false
    else if progress.sequence = 0 then return true
    else
      let modelHash ← Exec.lift (strItem rt current "model_hash")
      return some modelHash = progress.modelHash

def verifyChain (records : List Json) (requireCurrentHead : Bool) : Backend Bool := do
  match ← verifyRecords rt crypto ⟨Digest.zero.hex, 0, none⟩ records with
  | none => return false
  | some progress =>
    if requireCurrentHead then (checkHead rt crypto progress).orElse isClientError false
    else return true

inductive Call where
  | registerModel (readBytes : Except Exc Bytes)
  | append (alert : Json)

def call : Call → Backend (Option Json)
  | .registerModel readBytes => do
    let _ ← registerModel crypto readBytes
    return none
  | .append alert => do return some (← append rt crypto alert)

structure Run where
  history : List (Call × Except Exc (Option Json))
  machine : Machine

def Run.step (r : Run) (c : Call) : Run :=
  let out := call rt crypto c r.machine
  ⟨r.history ++ [(c, out.1)], out.2⟩

def run (machine : Machine) (calls : List Call) : Run :=
  calls.foldl (Run.step rt crypto) ⟨[], machine⟩

def issue? : Call × Except Exc (Option Json) → Option (Json × Json)
  | (.append alert, .ok (some receipt)) => some (alert, receipt)
  | _ => none

def Run.issued (r : Run) : List (Json × Json) := r.history.filterMap issue?

def record (entry : Json × Json) : Json :=
  .obj [(text "alert", entry.1), (text "receipt", entry.2)]

end Cote3Mon.Optee
