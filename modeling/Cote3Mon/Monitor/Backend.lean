import Cote3Mon.AuditStore.Store
import Cote3Mon.Optee.Backend

namespace Cote3Mon.Monitor
open ByteText Python

-- The protocol `AuditBackend` of `cote3mon/monitor.py`, and the two classes that follow it.

/-- `model_path`, with what `read_bytes` finds there. -/
structure ModelPath where
  path : Text
  readBytes : Except Exc Bytes

/-- The protocol `AuditBackend`, with the state that its methods change. -/
structure AuditBackend (σ : Type) where
  registerModel : ModelPath → Method σ Text
  append : Json → Method σ Json

/-- `LocalAuditBackend`: its store, and what becomes of `_persist` in the calls to come. -/
structure LocalBackend where
  store : AuditStore
  persistFaults : ℕ → Option Exc

namespace LocalBackend

/-- The file system during one call; `fault` is the exception of `_persist`. -/
def files (readBytes : Except Exc Bytes) (fault : Option Exc) : AuditStore.Files :=
  ⟨fun _ => .ok true, fun _ => readBytes, fault⟩

def open? (urandom : Digest) (file : Option AuditStore.State) (persistFaults : ℕ → Option Exc) :
    Except Exc LocalBackend := do
  let store ← AuditStore.open? (files (.ok []) (persistFaults 0)) urandom file
  return ⟨store, fun n => persistFaults (n + 1)⟩

def onStore {α : Type} (method : Option Exc → AuditStore.Method α) : Method LocalBackend α :=
  fun b =>
    let out := method (b.persistFaults 0) b.store
    (out.1, ⟨out.2, fun n => b.persistFaults (n + 1)⟩)

end LocalBackend

variable (rt : Runtime) (crypto : Crypto)

def localBackend : AuditBackend LocalBackend where
  registerModel modelPath := LocalBackend.onStore fun fault =>
    AuditStore.registerModel crypto (LocalBackend.files modelPath.readBytes fault)
      (.path modelPath.path)
  append alert := LocalBackend.onStore fun fault => do
    return .obj (← AuditStore.append rt crypto (LocalBackend.files (.ok []) fault) alert).toDict

def opteeBackend : AuditBackend Optee.Machine where
  registerModel modelPath := Optee.registerModel crypto modelPath.readBytes
  append alert := Optee.append rt crypto alert

inductive Call where
  | registerModel (modelPath : ModelPath)
  | append (alert : Json)

inductive Returned where
  | digest (d : Text)
  | receipt (v : Json)

variable {σ : Type}

def AuditBackend.call (backend : AuditBackend σ) : Call → Method σ Returned
  | .registerModel modelPath => do return .digest (← backend.registerModel modelPath)
  | .append alert => do return .receipt (← backend.append alert)

/-- What the calls return or raise, one after another, and the state after them. -/
def AuditBackend.run (backend : AuditBackend σ) : List Call → σ → List (Except Exc Returned) × σ
  | [], s => ([], s)
  | c :: calls, s =>
    let out := backend.call c s
    let rest := backend.run calls out.2
    (out.1 :: rest.1, rest.2)

end Cote3Mon.Monitor
