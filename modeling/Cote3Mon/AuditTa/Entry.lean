import Cote3Mon.Crypto
import Cote3Mon.Lib.Calls

namespace Cote3Mon.AuditTa
open ByteText

-- `optee/audit_ta/ta/entry.c`, function by function. Every TEE call is a `Call` of the program, and
-- so is every read the TA makes of a client memory reference: whoever runs the program decides
-- which calls fail and what a shared buffer holds at each read.

/-- `TEE_Result`.  The codes that `entry.c` names, and any other code an API returns. -/
inductive TeeResult where
  | success
  | errorItemNotFound
  | errorCorruptObject
  | errorGeneric
  | errorBadParameters
  | errorAccessConflict
  | errorShortBuffer
  | errorBadState
  | errorMacInvalid
  | errorNotSupported
  | other (code : UInt32)
  deriving DecidableEq, Repr

def stateMagic : UInt32 := 0x43334131
def stateVersion : UInt32 := 1

/-- `domain` without its terminating zero. -/
def domain : Bytes := asciiBytes "C3MAUDIT1"

/-- `struct audit_state`, the content of the persistent object. -/
structure AuditState where
  magic : UInt32
  version : UInt32
  sequence : UInt64
  modelRegistered : UInt32
  key : Digest
  modelHash : Digest
  head : Digest
  deriving DecidableEq

/-- `struct cote3_audit_receipt`. -/
structure Receipt where
  sequence : UInt64
  previousHead : Digest
  alertHash : Digest
  modelHash : Digest
  head : Digest
  deriving DecidableEq

/-- `struct cote3_audit_head`. -/
structure AuditHead where
  sequence : UInt64
  modelHash : Digest
  head : Digest
  deriving DecidableEq

/-- `sizeof(struct audit_state)`, tail padding included. -/
def stateSize : ℕ := 120
/-- `sizeof(struct cote3_audit_receipt)`. -/
def receiptSize : ℕ := 136
/-- `sizeof(struct cote3_audit_head)`. -/
def headSize : ℕ := 72

/-- The bytes of a receipt struct in memory on the little-endian target; the
fields leave no padding. -/
def Receipt.toBytes (r : Receipt) : Bytes :=
  leBytes 8 r.sequence.toNat ++
    (r.previousHead.bytes ++ (r.alertHash.bytes ++ (r.modelHash.bytes ++ r.head.bytes)))

/-- A `TEE_Param` used as a memory reference. -/
structure Memref where
  buffer : Bytes
  size : ℕ

def paramTypeNone : UInt32 := 0
def paramTypeMemrefInput : UInt32 := 5
def paramTypeMemrefOutput : UInt32 := 6

/-- `TEE_PARAM_TYPES`. -/
def paramTypes (t0 t1 t2 t3 : UInt32) : UInt32 := t0 ||| t1 <<< 4 ||| t2 <<< 8 ||| t3 <<< 12

/-- The arguments of one `TA_InvokeCommandEntryPoint`. -/
structure Invocation where
  command : UInt32
  parameterTypes : UInt32
  parameters : Fin 4 → Memref

def cmdRegisterModel : UInt32 := 0
def cmdAppendAlert : UInt32 := 1
def cmdGetHead : UInt32 := 2
def cmdVerify : UInt32 := 3

inductive Output where
  | none
  | size (required : ℕ)
  | receipt (r : Receipt)
  | head (h : AuditHead)

structure Outcome where
  result : TeeResult
  output : Output

inductive Call where
  | openPersistentObject
  | readObjectData
  | createPersistentObject (data : AuditState)
  | generateRandom
  | allocateTransientObject
  | populateTransientObject
  | allocateOperation
  | setOperationKey
  | macComputeFinal (key : Digest) (message : Bytes)
  | readHash (parameter : Fin 4) (offset : ℕ)
  | readSequence (parameter : Fin 4) (offset : ℕ)

structure ReadReply where
  result : TeeResult
  count : ℕ
  data : AuditState

structure MacReply where
  result : TeeResult
  output : Digest
  outputSize : ℕ

@[reducible] def Reply : Call → Type
  | .openPersistentObject => TeeResult
  | .readObjectData => ReadReply
  | .createPersistentObject _ => TeeResult
  | .generateRandom => Digest
  | .allocateTransientObject => TeeResult
  | .populateTransientObject => TeeResult
  | .allocateOperation => TeeResult
  | .setOperationKey => TeeResult
  | .macComputeFinal _ _ => MacReply
  | .readHash _ _ => Digest
  | .readSequence _ _ => UInt64

/-- A TA function: its calls, and its early returns with an error as exceptions. -/
abbrev Ta := ExceptT Outcome (CallProg Call Reply)

def api (c : Call) : Ta (Reply c) := ExceptT.lift (CallProg.perform c)

/-! The TEE functions that `entry.c` calls. -/

def openPersistentObject : Ta TeeResult := api .openPersistentObject
def readObjectData : Ta ReadReply := api .readObjectData
def createPersistentObject (data : AuditState) : Ta TeeResult := api (.createPersistentObject data)
def generateRandom : Ta Digest := api .generateRandom
def allocateTransientObject : Ta TeeResult := api .allocateTransientObject
def populateTransientObject : Ta TeeResult := api .populateTransientObject
def allocateOperation : Ta TeeResult := api .allocateOperation
def setOperationKey : Ta TeeResult := api .setOperationKey
def macComputeFinal (key : Digest) (message : Bytes) : Ta MacReply :=
  api (.macComputeFinal key message)

def readHash (parameter : Fin 4) (offset : ℕ) : Ta Digest := api (.readHash parameter offset)

/-- Reads a `uint64_t` of a client buffer. -/
def readSequence (parameter : Fin 4) (offset : ℕ) : Ta UInt64 :=
  api (.readSequence parameter offset)

def fail {α : Type} (result : TeeResult) : Ta α := throw ⟨result, .none⟩

/-- `if (result != TEE_SUCCESS) return result;` -/
def check (result : TeeResult) : Ta Unit :=
  if result = .success then pure () else fail result

def saveState (state : AuditState) : Ta Unit := do
  let result ← createPersistentObject state
  check result

/-- The state that `load_state` creates when there is no object yet. -/
def initialState (key : Digest) : AuditState where
  magic := stateMagic
  version := stateVersion
  sequence := 0
  modelRegistered := 0
  key := key
  modelHash := .zero
  head := .zero

def createState : Ta AuditState := do
  let key ← generateRandom
  saveState (initialState key)
  return initialState key

def readState : Ta AuditState := do
  let read ← readObjectData
  check read.result
  if read.count ≠ stateSize ∨ read.data.magic ≠ stateMagic ∨ read.data.version ≠ stateVersion then
    fail .errorCorruptObject
  else
    return read.data

def loadState : Ta AuditState := do
  let result ← openPersistentObject
  if result = .errorItemNotFound then
    createState
  else do
    check result
    readState

def encodeU64Be (value : UInt64) : Bytes :=
  (List.range 8).map fun i => (value >>> UInt64.ofNat ((7 - i) * 8)).toUInt8

/-- The buffer `message` of `compute_hmac`. -/
def hmacMessage (sequence : UInt64) (previous alert model : Digest) : Bytes :=
  domain ++ encodeU64Be sequence ++ previous.bytes ++ alert.bytes ++ model.bytes

def computeHmac (state : AuditState) (sequence : UInt64) (previous alert model : Digest) :
    Ta Digest := do
  check (← allocateTransientObject)
  check (← populateTransientObject)
  check (← allocateOperation)
  check (← setOperationKey)
  let mac ← macComputeFinal state.key (hmacMessage sequence previous alert model)
  check mac.result
  if mac.outputSize ≠ 32 then
    fail .errorGeneric
  else
    return mac.output

/-- The model check of `register_model`: its own read of the caller's buffer, made only
once alerts have been appended. -/
def checkModel (state : AuditState) : Ta Unit :=
  if state.sequence ≠ 0 then do
    let offered ← readHash 0 0
    if state.modelHash ≠ offered then fail .errorAccessConflict else pure ()
  else
    pure ()

def registerModel (inv : Invocation) : Ta Outcome :=
  if inv.parameterTypes ≠ paramTypes paramTypeMemrefInput paramTypeNone paramTypeNone paramTypeNone
      ∨ (inv.parameters 0).size ≠ 32 then
    fail .errorBadParameters
  else do
    let state ← loadState
    checkModel state
    let model ← readHash 0 0
    saveState { state with modelHash := model, modelRegistered := 1 }
    return ⟨.success, .none⟩

def appendAlert (inv : Invocation) : Ta Outcome :=
  if inv.parameterTypes ≠
        paramTypes paramTypeMemrefInput paramTypeMemrefOutput paramTypeNone paramTypeNone
      ∨ (inv.parameters 0).size ≠ 32 then
    fail .errorBadParameters
  else if (inv.parameters 1).size < receiptSize then
    throw ⟨.errorShortBuffer, .size receiptSize⟩
  else do
    let state ← loadState
    if state.modelRegistered = 0 then
      fail .errorBadState
    else do
      let sequence := state.sequence + 1
      let alert ← readHash 0 0
      let head ← computeHmac state sequence state.head alert state.modelHash
      saveState { state with sequence := sequence, head := head }
      return ⟨.success, .receipt ⟨sequence, state.head, alert, state.modelHash, head⟩⟩

def getHead (inv : Invocation) : Ta Outcome :=
  if inv.parameterTypes ≠
      paramTypes paramTypeMemrefOutput paramTypeNone paramTypeNone paramTypeNone then
    fail .errorBadParameters
  else if (inv.parameters 0).size < headSize then
    throw ⟨.errorShortBuffer, .size headSize⟩
  else do
    let state ← loadState
    return ⟨.success, .head ⟨state.sequence, state.modelHash, state.head⟩⟩

/-- The receipt is used in place, in the caller's buffer: `compute_hmac` reads its fields
one by one and `head` is read after the MAC is made. -/
def verifyReceipt (inv : Invocation) : Ta Outcome :=
  if inv.parameterTypes ≠ paramTypes paramTypeMemrefInput paramTypeNone paramTypeNone paramTypeNone
      ∨ (inv.parameters 0).size ≠ receiptSize then
    fail .errorBadParameters
  else do
    let state ← loadState
    let sequence ← readSequence 0 0
    let previous ← readHash 0 8
    let alert ← readHash 0 40
    let model ← readHash 0 72
    let expected ← computeHmac state sequence previous alert model
    let claimed ← readHash 0 104
    if expected = claimed then return ⟨.success, .none⟩ else fail .errorMacInvalid

def invokeCommand (inv : Invocation) : Ta Outcome :=
  if inv.command = cmdRegisterModel then registerModel inv
  else if inv.command = cmdAppendAlert then appendAlert inv
  else if inv.command = cmdGetHead then getHead inv
  else if inv.command = cmdVerify then verifyReceipt inv
  else fail .errorNotSupported

/-- `TA_InvokeCommandEntryPoint`: an early return is a return like any other. -/
def entryPoint (inv : Invocation) : CallProg Call Reply Outcome := do
  let r ← (invokeCommand inv).run
  match r with
  | .ok out => return out
  | .error out => return out

end Cote3Mon.AuditTa
