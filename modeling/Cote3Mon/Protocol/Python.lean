import Cote3Mon.Lib.Stream
import Cote3Mon.Protocol.Wire
import Cote3Mon.Python.Values

namespace Cote3Mon.Protocol.Python
open ByteText Stream Cote3Mon.Python

-- `cote3mon/protocol.py`.

@[ext] structure Request where
  requestId : ℤ
  operation : Operation
  key : Bytes
  value : Bytes
  deriving DecidableEq

@[ext] structure Response where
  requestId : ℤ
  status : Status
  value : Bytes
  deriving DecidableEq

/-- `struct.pack` in network order: a number that does not fit is refused. -/
def structPack (fields : List (ℕ × ℤ)) : Except Exc Bytes :=
  if ∀ field ∈ fields, 0 ≤ field.2 ∧ field.2 < 256 ^ field.1 then
    .ok (pack (fields.map fun field => (field.1, field.2.toNat)))
  else .error .structError

def validateRequest (operation : Operation) (key value : Bytes) : Except Exc Unit :=
  if key = [] ∨ maxKeyBytes < key.length then
    .error (.refused "key length must be between 1 and 64 bytes")
  else if maxValueBytes < value.length then .error (.refused "value exceeds 4096 bytes")
  else if operation ∈ [.get, .delete] ∧ value ≠ [] then
    .error (.refused "GET and DELETE do not accept a value")
  else .ok ()

def Request.encode (request : Request) : Except Exc Bytes := do
  validateRequest request.operation request.key request.value
  let header ← structPack [(4, magic), (2, version), (2, request.operation.code),
    (8, request.requestId), (4, request.key.length), (4, request.value.length)]
  return header ++ request.key ++ request.value

def Response.encode (response : Response) : Except Exc Bytes :=
  if maxValueBytes < response.value.length then
    .error (.refused "response value exceeds protocol limit")
  else do
    let header ← structPack [(4, magic), (2, version), (2, response.status.code),
      (8, response.requestId), (4, response.value.length)]
    return header ++ response.value

/-- `stream.recv`: an interrupted call is made again by the interpreter. -/
def recv (size : ℕ) : Method Input Bytes
  | .interrupted rest => recv size rest
  | input =>
    match input.read size with
    | (.data bs, input') => (.ok bs, input')
    | (_, input') => (.error .osError, input')

theorem recv_ok {size : ℕ} {input input' : Input} {bs : Bytes}
    (h : recv size input = (.ok bs, input')) : ∃ input0 : Input, input.bytes = input0.bytes ∧
      input0.read size = (.data bs, input') := by
  induction input with
  | interrupted rest ih => exact ih h
  | eof =>
    obtain ⟨hbs, hrest⟩ := Prod.mk.inj h
    exact ⟨.eof, rfl, by rw [← Except.ok.inj hbs, ← hrest]; rfl⟩
  | failed => cases h
  | fragment first more rest =>
    obtain ⟨hbs, hrest⟩ := Prod.mk.inj h
    exact ⟨_, rfl, by rw [← Except.ok.inj hbs, ← hrest]; rfl⟩

theorem recv_error {size : ℕ} {input input' : Input} {e : Exc}
    (h : recv size input = (.error e, input')) : input.bytes = [] := by
  induction input with
  | interrupted rest ih => exact ih h
  | eof => rfl
  | failed => rfl
  | fragment first more rest => cases h

def recvExact (size : ℕ) : Method Input Bytes := fun input =>
  if size = 0 then (.ok [], input)
  else
    match _h : recv size input with
    | (.ok [], input') => (.error .eofError, input')
    | (.ok (b :: bs), input') =>
      let out := recvExact (size - (b :: bs).length) input'
      (out.1.map (b :: bs ++ ·), out.2)
    | (.error e, input') => (.error e, input')
termination_by size
decreasing_by
  rw [List.length_cons]
  omega

/-- `raise ValueError(message)`. -/
def refuse {α : Type} (message : String) : Method Input α := throw (.refused message)

def recvRequest : Method Input Request := do
  let raw ← recvExact 24
  let fields := unpack requestWidths raw
  let keyLen := fields.getD 4 0
  let valueLen := fields.getD 5 0
  if fields.getD 0 0 ≠ magic ∨ fields.getD 1 0 ≠ version then
    refuse "unsupported protocol magic or version"
  else
    match Operation.ofCode? (fields.getD 2 0) with
    | none => refuse "unknown operation"
    | some operation =>
      if keyLen = 0 ∨ maxKeyBytes < keyLen ∨ maxValueBytes < valueLen then
        refuse "declared payload length is outside protocol bounds"
      else
        let payload ← recvExact (keyLen + valueLen)
        let request : Request :=
          ⟨(fields.getD 3 0 : ℕ), operation, payload.take keyLen, payload.drop keyLen⟩
        Exec.lift (validateRequest request.operation request.key request.value)
        return request

def recvResponse : Method Input Response := do
  let raw ← recvExact 20
  let fields := unpack responseWidths raw
  let valueLen := fields.getD 4 0
  if fields.getD 0 0 ≠ magic ∨ fields.getD 1 0 ≠ version then
    refuse "unsupported response magic or version"
  else if maxValueBytes < valueLen then refuse "declared response exceeds protocol bounds"
  else
    match Status.ofCode? (fields.getD 2 0) with
    | none => refuse "unknown response status"
    | some status =>
      -- an empty value is not received, which is the same as receiving no bytes
      let value ← recvExact valueLen
      return ⟨(fields.getD 3 0 : ℕ), status, value⟩

theorem recvExact_enough (size : ℕ) (input : Input) (hlen : size ≤ input.bytes.length) :
    ∃ input', recvExact size input = (.ok (input.bytes.take size), input') ∧
      input'.bytes = input.bytes.drop size := by
  fun_induction recvExact size input with
  | case1 input => exact ⟨input, rfl, rfl⟩
  | case2 size input hpos input' hrecv =>
    obtain ⟨input0, hsame, hread⟩ := recv_ok hrecv
    rw [hsame, Input.read_nil hread (by omega)] at hlen
    exact absurd (Nat.le_zero.mp hlen) hpos
  | case3 size input hpos b bs input' hrecv out ih =>
    obtain ⟨input0, hsame, hread⟩ := recv_ok hrecv
    obtain ⟨hbytes, hle, -⟩ := Input.read_data hread
    rw [← hsame] at hbytes
    have hrest : size - (b :: bs).length ≤ input'.bytes.length := by
      rw [hbytes, List.length_append] at hlen
      omega
    obtain ⟨input'', hout, hdrop⟩ := ih hrest
    refine ⟨input'', ?_, ?_⟩
    · rw [show out = _ from hout, hbytes, List.take_append, List.take_of_length_le hle]
      rfl
    · rw [hdrop, hbytes, List.drop_append, List.drop_eq_nil_of_le hle, List.nil_append]
  | case4 size input hpos e input' hrecv =>
    rw [recv_error hrecv] at hlen
    exact absurd (Nat.le_zero.mp hlen) hpos

theorem recvExact_short (size : ℕ) (input : Input) (hlen : input.bytes.length < size) :
    ∃ e input', recvExact size input = (.error e, input') := by
  fun_induction recvExact size input with
  | case1 input => exact absurd hlen (Nat.not_lt_zero _)
  | case2 size input hpos input' hrecv => exact ⟨_, input', rfl⟩
  | case3 size input hpos b bs input' hrecv out ih =>
    obtain ⟨input0, hsame, hread⟩ := recv_ok hrecv
    have hbytes := (Input.read_data hread).1
    rw [← hsame] at hbytes
    have hrest : input'.bytes.length < size - (b :: bs).length := by
      rw [hbytes, List.length_append] at hlen
      omega
    obtain ⟨e, input'', hout⟩ := ih hrest
    exact ⟨e, input'', by rw [show out = _ from hout]; rfl⟩
  | case4 size input hpos e input' hrecv => exact ⟨e, input', rfl⟩

theorem recvExact_exact : ReadsExactly recvExact := ⟨recvExact_enough, recvExact_short⟩

end Cote3Mon.Protocol.Python
