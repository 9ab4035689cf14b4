import Cote3Mon.Monitor.Alerts

namespace Cote3Mon.Monitor
open ByteText Python

-- `monitor_batch` of `cote3mon/monitor.py`. Writing to the alerts file never fails; all else that a
-- call uses may raise.

/-- The state of the audit backend and the records in the alerts file, of which there are none
where there is no file. -/
structure Monitored (σ : Type) where
  audit : σ
  alerts : List Json

variable {σ α : Type}

def onAudit (method : Method σ α) : Method (Monitored σ) α := fun s =>
  let out := method s.audit
  (out.1, { s with audit := out.2 })

/-- `alerts_path.open("w")`. -/
def openAlerts : Method (Monitored σ) Unit := fun s => (.ok (), { s with alerts := [] })

def appendLine (record : Json) : Method (Monitored σ) Unit := fun s =>
  (.ok (), { s with alerts := s.alerts ++ [record] })

/-- `handle.write(json.dumps(record, separators=(",", ":"), sort_keys=True) + "\n")`.  With
`ensure_ascii` the text is another one, but it raises for the same values. -/
def writeRecord (rt : Runtime) (record : Json) : Method (Monitored σ) Unit := do
  let _ ← Exec.lift (dumps rt record)
  appendLine record

/-- What a call is given, and what it finds in the files that it reads. -/
structure BatchCall where
  loadDetector : Except Exc Detector
  modelPath : ModelPath
  telemetry : Except Exc (List Features.Event)
  windowSeconds : ℤ
  warmupSeconds : ℤ

structure Summary where
  windows : ℕ
  alerts : ℕ
  modelHash : Text

variable (rt : Runtime) (lib : Features.Library) (backend : AuditBackend σ)

def scoreRow (detector : Detector) (modelHash : Text) (row : Features.Row) :
    Method (Monitored σ) Bool := do
  let score ← Exec.lift (detector.score row)
  if floatLe score detector.threshold then return false
  else
    let alert ← Exec.lift (alertOf detector (.str modelHash) row score)
    let receipt ← onAudit (backend.append alert)
    writeRecord rt (recordOf alert receipt)
    return true

def scoreRows (detector : Detector) (modelHash : Text) :
    List Features.Row → ℕ → Method (Monitored σ) ℕ
  | [], alertCount => return alertCount
  | row :: rows, alertCount => do
    let alerted ← scoreRow rt backend detector modelHash row
    scoreRows detector modelHash rows (alertCount + alerted.toNat)

def BatchCall.rows (c : BatchCall) : Except Exc (List Features.Row) := do
  Features.aggregateEvents lib (← c.telemetry) c.windowSeconds c.warmupSeconds

def monitorBatch (c : BatchCall) : Method (Monitored σ) Summary := do
  let detector ← Exec.lift c.loadDetector
  let modelHash ← onAudit (backend.registerModel c.modelPath)
  let rows ← Exec.lift (c.rows lib)
  openAlerts
  let alertCount ← scoreRows rt backend detector modelHash rows 0
  return ⟨rows.length, alertCount, modelHash⟩

def batchRun (calls : List BatchCall) (s : Monitored σ) : Monitored σ :=
  calls.foldl (fun s c => (monitorBatch rt lib backend c s).2) s

def Detector.alerts (detector : Detector) (row : Features.Row) : Bool :=
  match detector.score row with
  | .ok score => !floatLe score detector.threshold
  | .error _ => false

def BatchCall.alertCount (c : BatchCall) : ℕ :=
  match c.loadDetector, c.rows lib with
  | .ok detector, .ok rows => rows.countP detector.alerts
  | _, _ => 0

end Cote3Mon.Monitor
