import Cote3Mon.AuditTa.Faultless

namespace Cote3Mon.Optee
open ByteText AuditTa

-- `optee/audit_ta/host/audit_client.c`: one process that decodes its arguments, sends one command
-- to the TA and prints what comes back.

def isSpace (c : UInt8) : Bool := c = 32 || 9 ≤ c && c ≤ 13

def isDigit (c : UInt8) : Bool := 48 ≤ c && c ≤ 57

/-- The loop of `decode_hash`. -/
def hexPairs : Bytes → Option Bytes
  | high :: low :: rest => do
    let h ← hexValue high.toNat
    let l ← hexValue low.toNat
    return UInt8.ofNat (16 * h + l) :: (← hexPairs rest)
  | _ => some []

def decodeHash (text : Bytes) : Option Digest :=
  if text.length ≠ 64 then none
  else do
    let bytes ← hexPairs text
    if h : bytes.length = 32 then some ⟨bytes, h⟩ else none

/-- What `print_hash` prints. -/
def printHash (value : Digest) : Text := value.bytes.flatMap hexByte

def optionalSign : Bytes → Bool × Bytes
  | 45 :: rest => (true, rest)
  | 43 :: rest => (false, rest)
  | rest => (false, rest)

structure Strtoull where
  value : ℕ
  rest : Bytes
  errno : Bool

/-- `strtoull(text, &end, 10)`: without a digit nothing is consumed, a number that is too
large sets `errno`, and a minus sign negates modulo `2 ^ 64`. -/
def strtoull (text : Bytes) : Strtoull :=
  let (negative, body) := optionalSign (text.dropWhile isSpace)
  match body.takeWhile isDigit with
  | [] => ⟨0, text, false⟩
  | digits =>
    let value := decimalValue (digits.map UInt8.toNat)
    let rest := body.dropWhile isDigit
    if 2 ^ 64 ≤ value then ⟨2 ^ 64 - 1, rest, true⟩
    else ⟨if negative then (2 ^ 64 - value) % 2 ^ 64 else value, rest, false⟩

def decodeSequence (text : Bytes) : Option UInt64 :=
  let parsed := strtoull text
  if parsed.errno ∨ text = [] ∨ parsed.rest ≠ [] then none else some (UInt64.ofNat parsed.value)

def printReceipt (r : Receipt) : Text :=
  text "\x7b\"sequence\":" ++ (decimal r.sequence.toNat ++ (text ",\"previous_head\":\"" ++
    (printHash r.previousHead ++ (text "\",\"alert_hash\":\"" ++ (printHash r.alertHash ++
      (text "\",\"model_hash\":\"" ++ (printHash r.modelHash ++ (text "\",\"head\":\"" ++
        (printHash r.head ++ text "\"\x7d\n")))))))))

def printHead (h : AuditHead) : Text :=
  text "\x7b\"sequence\":" ++ (decimal h.sequence.toNat ++ (text ",\"model_hash\":\"" ++
    (printHash h.modelHash ++ (text "\",\"head\":\"" ++ (printHash h.head ++ text "\"\x7d\n")))))

/-- The client API call that fails, if one does. -/
inductive TeecFault where
  | initializeContext
  | openSession
  | invokeCommand
  deriving DecidableEq

/-- How the process ends, and its standard output. -/
structure Exit where
  code : ℕ
  stdout : Text

/-- What a command prints when it succeeds.  With `TEE_SUCCESS` the TA has always filled the
output of an append or a head command. -/
def printOutput : Output → Text
  | .receipt r => printReceipt r
  | .head h => printHead h
  | _ => []

/-- `TEEC_InvokeCommand` and what follows it; it fails before the TA is entered or returns
what the TA returns. -/
def sendCommand (crypto : Crypto) (fault : Option TeecFault) (inv : Invocation)
    (print : Output → Text) (w : World) : Exit × World :=
  if fault = some .invokeCommand then (⟨1, []⟩, w)
  else
    let out := invoke crypto inv w
    (if out.1.result = .success then ⟨0, print out.1.output⟩ else ⟨1, []⟩, out.2)

def decodeReceipt (sequence previousHead alertHash modelHash head : Bytes) : Option Receipt := do
  return ⟨← decodeSequence sequence, ← decodeHash previousHead, ← decodeHash alertHash,
    ← decodeHash modelHash, ← decodeHash head⟩

/-- The branches of `main` after the session has been opened. -/
def runCommand (crypto : Crypto) (fault : Option TeecFault) (argv : List Bytes) (w : World) :
    Exit × World :=
  match argv with
  | [_, command, hash] =>
    if command = asciiBytes "register" then
      match decodeHash hash with
      | none => (⟨2, []⟩, w)
      | some digest => sendCommand crypto fault (registerInvocation digest) (fun _ => []) w
    else if command = asciiBytes "append" then
      match decodeHash hash with
      | none => (⟨2, []⟩, w)
      | some digest => sendCommand crypto fault (appendInvocation digest) printOutput w
    else (⟨2, []⟩, w)
  | [_, command] =>
    if command = asciiBytes "head" then sendCommand crypto fault headInvocation printOutput w
    else (⟨2, []⟩, w)
  | [_, command, sequence, previousHead, alertHash, modelHash, head] =>
    if command = asciiBytes "verify" then
      match decodeReceipt sequence previousHead alertHash modelHash head with
      | none => (⟨2, []⟩, w)
      | some r => sendCommand crypto fault (verifyInvocation r) (fun _ => text "VALID\n") w
    else (⟨2, []⟩, w)
  | _ => (⟨2, []⟩, w)

def main (crypto : Crypto) (fault : Option TeecFault) (argv : List Bytes) (w : World) :
    Exit × World :=
  if argv.length < 2 then (⟨2, []⟩, w)
  else if fault = some .initializeContext ∨ fault = some .openSession then (⟨1, []⟩, w)
  else runCommand crypto fault argv w

end Cote3Mon.Optee
