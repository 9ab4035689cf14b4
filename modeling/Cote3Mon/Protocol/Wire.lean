import Cote3Mon.Lib.Layout

namespace Cote3Mon.Protocol
open ByteText

-- The messages between a client and the gateway and their bytes, apart from the two codecs. A frame
-- carries what a well-formed message satisfies.

inductive Operation where
  | put
  | get
  | delete
  deriving DecidableEq, Repr

inductive Status where
  | ok
  | invalid
  | notFound
  | backendError
  | tooLarge
  | protocolError
  deriving DecidableEq, Repr

def Operation.code : Operation → ℕ
  | put => 1
  | get => 2
  | delete => 3

def Operation.ofCode? : ℕ → Option Operation
  | 1 => some put
  | 2 => some get
  | 3 => some delete
  | _ => none

def Status.code : Status → ℕ
  | ok => 0
  | invalid => 1
  | notFound => 2
  | backendError => 3
  | tooLarge => 4
  | protocolError => 5

def Status.ofCode? : ℕ → Option Status
  | 0 => some ok
  | 1 => some invalid
  | 2 => some notFound
  | 3 => some backendError
  | 4 => some tooLarge
  | 5 => some protocolError
  | _ => none

@[simp] theorem Operation.ofCode?_code (op : Operation) : ofCode? op.code = some op := by
  cases op <;> rfl

@[simp] theorem Status.ofCode?_code (status : Status) : ofCode? status.code = some status := by
  cases status <;> rfl

theorem Operation.code_of_ofCode? {n : ℕ} {op : Operation} (h : ofCode? n = some op) :
    op.code = n := by
  unfold ofCode? at h
  split at h <;> cases h <;> rfl

theorem Status.code_of_ofCode? {n : ℕ} {status : Status} (h : ofCode? n = some status) :
    status.code = n := by
  unfold ofCode? at h
  split at h <;> cases h <;> rfl

theorem Operation.exists_code {n : ℕ} (h : 1 ≤ n ∧ n ≤ 3) : ∃ op : Operation, op.code = n := by
  obtain ⟨hlow, hhigh⟩ := h
  interval_cases n
  · exact ⟨put, rfl⟩
  · exact ⟨get, rfl⟩
  · exact ⟨delete, rfl⟩

theorem Operation.code_range (op : Operation) : 1 ≤ op.code ∧ op.code ≤ 3 := by
  cases op <;> decide

theorem Status.exists_code {n : ℕ} (h : n ≤ 5) : ∃ status : Status, status.code = n := by
  interval_cases n
  · exact ⟨ok, rfl⟩
  · exact ⟨invalid, rfl⟩
  · exact ⟨notFound, rfl⟩
  · exact ⟨backendError, rfl⟩
  · exact ⟨tooLarge, rfl⟩
  · exact ⟨protocolError, rfl⟩

theorem Status.code_range (status : Status) : status.code ≤ 5 := by
  cases status <;> decide

def magic : ℕ := 0x43334d31
def version : ℕ := 1
def maxKeyBytes : ℕ := 64
def maxValueBytes : ℕ := 4096

@[ext] structure RequestFrame where
  requestId : UInt64
  operation : Operation
  key : Bytes
  value : Bytes
  key_pos : 0 < key.length
  key_le : key.length ≤ maxKeyBytes
  value_le : value.length ≤ maxValueBytes
  value_put : operation ≠ .put → value = []

/-- The widths of the header: magic, version, operation, request id and the two lengths. -/
def requestWidths : List ℕ := [4, 2, 2, 8, 4, 4]

namespace RequestFrame

def header (f : RequestFrame) : List (ℕ × ℕ) :=
  [(4, magic), (2, version), (2, f.operation.code), (8, f.requestId.toNat), (4, f.key.length),
    (4, f.value.length)]

def encode (f : RequestFrame) : Bytes := pack f.header ++ f.key ++ f.value

theorem header_length (f : RequestFrame) : (pack f.header).length = 24 := pack_length f.header

theorem header_lt (f : RequestFrame) : ∀ field ∈ f.header, field.2 < 256 ^ field.1 := by
  have hid : f.requestId.toNat < 256 ^ 8 := f.requestId.toNat_lt
  have hcode : f.operation.code < 256 ^ 2 := by cases f.operation <;> decide
  have hkey := f.key_le
  have hvalue := f.value_le
  unfold maxKeyBytes at hkey
  unfold maxValueBytes at hvalue
  simp only [header, List.mem_cons, List.not_mem_nil, or_false, forall_eq_or_imp, forall_eq]
  exact ⟨by decide, by decide, hcode, hid, by omega, by omega⟩

theorem unpack_header (f : RequestFrame) (rest : Bytes) :
    unpack requestWidths (pack f.header ++ rest) =
      [magic, version, f.operation.code, f.requestId.toNat, f.key.length, f.value.length] :=
  unpack_pack f.header rest f.header_lt

/-- A header whose numbers fit the payload makes a frame. -/
theorem exists_encode {header key value : Bytes} {operation : Operation} {id : ℕ}
    (hlen : header.length = 24)
    (hfields : unpack requestWidths header =
      [magic, version, operation.code, id, key.length, value.length])
    (hpos : 0 < key.length) (hkey : key.length ≤ maxKeyBytes) (hvalue : value.length ≤ maxValueBytes)
    (hput : operation ≠ .put → value = []) :
    ∃ f : RequestFrame, header ++ key ++ value = f.encode ∧ f.requestId.toNat = id ∧
      f.operation = operation ∧ f.key = key ∧ f.value = value := by
  have hid : id < 2 ^ 64 := by
    have hlt := unpack_lt requestWidths header (8, id) (by
      rw [hfields]
      simp [requestWidths])
    exact hlt.trans_le (by norm_num)
  have hnat : (UInt64.ofNat id).toNat = id := UInt64.toNat_ofNat_of_lt' hid
  refine ⟨⟨UInt64.ofNat id, operation, key, value, hpos, hkey, hvalue, hput⟩, ?_, hnat, rfl,
    rfl, rfl⟩
  have hpack := pack_unpack requestWidths header hlen
  rw [hfields] at hpack
  rw [encode, RequestFrame.header, hnat, ← hpack]
  rfl

/-- The frames are self-delimiting. -/
theorem encode_append_inj {f g : RequestFrame} {rest rest' : Bytes}
    (h : f.encode ++ rest = g.encode ++ rest') : f = g ∧ rest = rest' := by
  simp only [encode, List.append_assoc] at h
  obtain ⟨hheader, hpayload⟩ := List.append_inj h (f.header_length.trans g.header_length.symm)
  have hfields := f.unpack_header []
  rw [hheader, g.unpack_header []] at hfields
  simp only [List.cons.injEq, true_and, and_true] at hfields
  obtain ⟨hcode, hid, hkeyLength, hvalueLength⟩ := hfields
  obtain ⟨hkey, hvalue⟩ := List.append_inj hpayload hkeyLength.symm
  obtain ⟨hvalue, hrest⟩ := List.append_inj hvalue hvalueLength.symm
  have hop : f.operation = g.operation := by
    have hsome := congrArg Operation.ofCode? hcode
    rw [Operation.ofCode?_code, Operation.ofCode?_code] at hsome
    exact (Option.some.inj hsome).symm
  exact ⟨RequestFrame.ext (UInt64.toNat_inj.mp hid.symm) hop hkey hvalue, hrest⟩

end RequestFrame

@[ext] structure ResponseFrame where
  requestId : UInt64
  status : Status
  value : Bytes
  value_le : value.length ≤ maxValueBytes

def responseWidths : List ℕ := [4, 2, 2, 8, 4]

namespace ResponseFrame

def header (f : ResponseFrame) : List (ℕ × ℕ) :=
  [(4, magic), (2, version), (2, f.status.code), (8, f.requestId.toNat), (4, f.value.length)]

def encode (f : ResponseFrame) : Bytes := pack f.header ++ f.value

theorem header_length (f : ResponseFrame) : (pack f.header).length = 20 := pack_length f.header

theorem encode_length (f : ResponseFrame) : f.encode.length = 20 + f.value.length := by
  rw [encode, List.length_append, f.header_length]

theorem header_lt (f : ResponseFrame) : ∀ field ∈ f.header, field.2 < 256 ^ field.1 := by
  have hid : f.requestId.toNat < 256 ^ 8 := f.requestId.toNat_lt
  have hcode : f.status.code < 256 ^ 2 := by cases f.status <;> decide
  have hvalue := f.value_le
  unfold maxValueBytes at hvalue
  simp only [header, List.mem_cons, List.not_mem_nil, or_false, forall_eq_or_imp, forall_eq]
  exact ⟨by decide, by decide, hcode, hid, by omega⟩

theorem unpack_header (f : ResponseFrame) (rest : Bytes) :
    unpack responseWidths (pack f.header ++ rest) =
      [magic, version, f.status.code, f.requestId.toNat, f.value.length] :=
  unpack_pack f.header rest f.header_lt

theorem exists_encode {header value : Bytes} {status : Status} {id : ℕ}
    (hlen : header.length = 20)
    (hfields : unpack responseWidths header = [magic, version, status.code, id, value.length])
    (hvalue : value.length ≤ maxValueBytes) :
    ∃ f : ResponseFrame, header ++ value = f.encode ∧ f.requestId.toNat = id ∧
      f.status = status ∧ f.value = value := by
  have hid : id < 2 ^ 64 := by
    have hlt := unpack_lt responseWidths header (8, id) (by
      rw [hfields]
      simp [responseWidths])
    exact hlt.trans_le (by norm_num)
  have hnat : (UInt64.ofNat id).toNat = id := UInt64.toNat_ofNat_of_lt' hid
  refine ⟨⟨UInt64.ofNat id, status, value, hvalue⟩, ?_, hnat, rfl, rfl⟩
  have hpack := pack_unpack responseWidths header hlen
  rw [hfields] at hpack
  rw [encode, ResponseFrame.header, hnat, ← hpack]
  rfl

theorem encode_append_inj {f g : ResponseFrame} {rest rest' : Bytes}
    (h : f.encode ++ rest = g.encode ++ rest') : f = g ∧ rest = rest' := by
  simp only [encode, List.append_assoc] at h
  obtain ⟨hheader, hpayload⟩ := List.append_inj h (f.header_length.trans g.header_length.symm)
  have hfields := f.unpack_header []
  rw [hheader, g.unpack_header []] at hfields
  simp only [List.cons.injEq, true_and, and_true] at hfields
  obtain ⟨hcode, hid, hvalueLength⟩ := hfields
  obtain ⟨hvalue, hrest⟩ := List.append_inj hpayload hvalueLength.symm
  have hstatus : f.status = g.status := by
    have hsome := congrArg Status.ofCode? hcode
    rw [Status.ofCode?_code, Status.ofCode?_code] at hsome
    exact (Option.some.inj hsome).symm
  exact ⟨ResponseFrame.ext (UInt64.toNat_inj.mp hid.symm) hstatus hvalue, hrest⟩

end ResponseFrame

end Cote3Mon.Protocol
