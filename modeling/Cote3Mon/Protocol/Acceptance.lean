import Cote3Mon.Protocol.CFrames

namespace Cote3Mon.Protocol.C
open ByteText Stream

/-- `struct c3m_request` with both of its buffers whole. -/
structure RequestStruct extends Request where
  key_length : key.length = c3mMaxKeyBytes.toNat
  value_length : value.length = c3mMaxValueBytes.toNat

/-- `struct c3m_response` with its whole buffer. -/
structure ResponseStruct extends Response where
  value_length : value.length = c3mMaxValueBytes.toNat

/-- The request with the parts of its buffers that its lengths name. -/
def Request.inUse (r : Request) : Request :=
  { r with key := r.key.take r.keyLen.toNat, value := r.value.take r.valueLen.toNat }

def Response.inUse (r : Response) : Response := { r with value := r.value.take r.valueLen.toNat }

/-- What a sender writes when it returns 0, the receiver reads back, to its last byte. -/
def Received {α : Type} (send : Output → Outcome × Output) (recv : Recv α) (a : α) : Prop :=
  ∀ out out', send out = (.done, out') → ∃ bs, out'.written = out.written ++ bs ∧
    ∀ (input : Input) rest, input.bytes = bs ++ rest →
      ∃ input', recv input = (.ok a, input') ∧ input'.bytes = rest

/-- The lengths that `c3m_send_request` refuses. -/
def Request.LengthsRefused (r : Request) : Prop :=
  r.keyLen = 0 ∨ c3mMaxKeyBytes < r.keyLen ∨ c3mMaxValueBytes < r.valueLen

/-- The operation is known and only a PUT has a value. -/
def Request.OperationValid (r : Request) : Prop :=
  c3mOpPut ≤ r.operation ∧ r.operation ≤ c3mOpDelete ∧
    (r.operation = c3mOpPut ∨ r.valueLen = 0)

instance (r : Request) : Decidable r.LengthsRefused :=
  inferInstanceAs (Decidable (_ ∨ _))

instance (r : Request) : Decidable r.OperationValid :=
  inferInstanceAs (Decidable (_ ∧ _))

variable {order : ByteOrder} {sigpipe : Disposition} {α : Type} {bs : Bytes} {recv : Recv α} {a : α}
  {send : Output → Outcome × Output}

def openOutput : Output := ⟨[], none, []⟩

def Delivery (bs : Bytes) : Input := Input.push bs .eof

theorem received_of_writes (h : Writes sigpipe bs send)
    (hrecv : ∀ (input : Input) rest, input.bytes = bs ++ rest →
      ∃ input', recv input = (.ok a, input') ∧ input'.bytes = rest) : Received send recv a := by
  intro out out' hsend
  have hroom : out.HasRoom bs.length := by
    by_contra hroom
    have hgone := h.gone out hroom
    rw [hsend] at hgone
    cases sigpipe with
    | terminate => cases hgone
    | ignore => cases hgone
  obtain ⟨-, hwritten, -⟩ := h.enough out hroom
  rw [hsend] at hwritten
  exact ⟨bs, hwritten, hrecv⟩

/-- A sender that writes is received somewhere. -/
theorem Received.exists_input (h : Received send recv a) (hsend : Writes sigpipe bs send) :
    ∃ input input', recv input = (.ok a, input') := by
  have hroom : openOutput.HasRoom bs.length := nofun
  have hdone := (hsend.enough openOutput hroom).1
  obtain ⟨written, -, hrecv⟩ := h openOutput _ (Prod.ext hdone rfl)
  obtain ⟨input', hok, -⟩ := hrecv (Delivery written) [] (by
    rw [Delivery, Input.bytes_push]
    rfl)
  exact ⟨_, input', hok⟩

variable {r : Request}

theorem sendRequest_inUse (order : ByteOrder) (sigpipe : Disposition) (r : Request) :
    sendRequest order sigpipe r.inUse = sendRequest order sigpipe r := by
  funext out
  simp only [sendRequest, Request.inUse, List.take_take, min_self]

theorem sendRequest_refused (h : r.LengthsRefused) (out : Output) :
    sendRequest order sigpipe r out = (.failed, out) := if_pos h

/-- The sender writes its parts whatever the operation is. -/
theorem sendRequest_writes_any (order : ByteOrder) (sigpipe : Disposition)
    (h : ¬ r.LengthsRefused) : ∃ bs, Writes sigpipe bs (sendRequest order sigpipe r) := by
  let header := putU32 order c3mMagic ++ putU16 order c3mVersion ++ putU16 order r.operation ++
    putU64 order r.requestId ++ putU32 order r.keyLen ++ putU32 order r.valueLen
  let parts := [header, r.key.take r.keyLen.toNat] ++
    if r.valueLen ≠ 0 then [r.value.take r.valueLen.toNat] else []
  have hsend : sendRequest order sigpipe r = writeParts sigpipe parts := by
    funext out
    exact if_neg h
  exact ⟨parts.flatten, hsend ▸ writeParts_writes sigpipe parts⟩

/-- A valid request is the struct of a frame. -/
theorem exists_requestFrame (r : RequestStruct) (h : ¬ r.LengthsRefused) (hop : r.OperationValid) :
    ∃ f : RequestFrame, .ofFrame f = r.inUse := by
  obtain ⟨hlow, hhigh, hvalid⟩ := hop
  rw [Request.LengthsRefused, not_or, not_or, UInt32.lt_iff_toNat_lt, UInt32.lt_iff_toNat_lt, not_lt,
    not_lt] at h
  obtain ⟨hpos, hkey, hvalue⟩ := h
  have hpos : 0 < r.keyLen.toNat :=
    Nat.pos_of_ne_zero fun hzero => hpos (UInt32.toNat_inj.mp hzero)
  have hkeyLen : (r.key.take r.keyLen.toNat).length = r.keyLen.toNat := by
    rw [List.length_take, r.key_length]
    exact Nat.min_eq_left hkey
  have hvalueLen : (r.value.take r.valueLen.toNat).length = r.valueLen.toNat := by
    rw [List.length_take, r.value_length]
    exact Nat.min_eq_left hvalue
  obtain ⟨op, hcode⟩ := Operation.exists_code (n := r.operation.toNat)
    ⟨UInt16.le_iff_toNat_le.mp hlow, UInt16.le_iff_toNat_le.mp hhigh⟩
  have hempty : op ≠ .put → r.value.take r.valueLen.toNat = [] := by
    intro hne
    have hnotPut : r.operation ≠ c3mOpPut := by
      intro hput
      rw [hput] at hcode
      cases op with
      | put => exact hne rfl
      | get => cases hcode
      | delete => cases hcode
    rw [hvalid.resolve_left hnotPut]
    rfl
  refine ⟨⟨r.requestId, op, r.key.take r.keyLen.toNat, r.value.take r.valueLen.toNat,
    hpos.trans_eq hkeyLen.symm, hkeyLen.trans_le hkey, hvalueLen.trans_le hvalue, hempty⟩, ?_⟩
  refine Request.ext rfl (UInt16.toNat_inj.mp ?_) (UInt32.toNat_inj.mp ?_) (UInt32.toNat_inj.mp ?_)
    rfl rfl
  · exact (operation_ofFrame _).trans hcode
  · exact (keyLen_ofFrame _).trans hkeyLen
  · exact (valueLen_ofFrame _).trans hvalueLen

/-- A received request has a valid operation. -/
theorem operationValid_ofFrame (f : RequestFrame) : (Request.ofFrame f).OperationValid := by
  have hcode := operation_ofFrame f
  obtain ⟨hlow, hhigh⟩ := f.operation.code_range
  refine ⟨UInt16.le_iff_toNat_le.mpr (hcode ▸ hlow), UInt16.le_iff_toNat_le.mpr (hcode ▸ hhigh), ?_⟩
  by_cases hop : f.operation = .put
  · refine Or.inl (UInt16.toNat_inj.mp ?_)
    rw [hcode, hop]
    rfl
  · refine Or.inr (UInt32.toNat_inj.mp ?_)
    rw [valueLen_ofFrame, f.value_put hop]
    rfl

/-- The receiver accepts what the sender accepted exactly when the operation is valid. -/
theorem request_received_iff (order : ByteOrder) (sigpipe : Disposition) (r : RequestStruct) :
    Received (sendRequest order sigpipe r.toRequest) (recvRequest order) r.inUse ↔
      r.LengthsRefused ∨ r.OperationValid := by
  by_cases hlengths : r.LengthsRefused
  · refine iff_of_true (fun out out' hsend => ?_) (Or.inl hlengths)
    rw [sendRequest_refused hlengths] at hsend
    cases hsend
  · rw [or_iff_right hlengths]
    constructor
    · intro h
      obtain ⟨bs, hwrites⟩ := sendRequest_writes_any order sigpipe hlengths
      obtain ⟨input, input', hok⟩ := h.exists_input hwrites
      obtain ⟨f, hf, -⟩ := recvRequest_ok hok
      have hvalid := operationValid_ofFrame f
      rw [← hf] at hvalid
      exact hvalid
    · intro hop
      obtain ⟨f, hf⟩ := exists_requestFrame r hlengths hop
      rw [← sendRequest_inUse, ← hf]
      exact received_of_writes (sendRequest_writes order sigpipe f) fun input rest hbytes =>
        recvRequest_encode order hbytes

variable {s : Response}

theorem sendResponse_inUse (order : ByteOrder) (sigpipe : Disposition) (s : Response) :
    sendResponse order sigpipe s.inUse = sendResponse order sigpipe s := by
  funext out
  simp only [sendResponse, Response.inUse, List.take_take, min_self]

theorem sendResponse_refused (h : c3mMaxValueBytes < s.valueLen) (out : Output) :
    sendResponse order sigpipe s out = (.failed, out) := if_pos h

theorem sendResponse_writes_any (order : ByteOrder) (sigpipe : Disposition)
    (h : ¬ c3mMaxValueBytes < s.valueLen) :
    ∃ bs, Writes sigpipe bs (sendResponse order sigpipe s) := by
  let header := putU32 order c3mMagic ++ putU16 order c3mVersion ++ putU16 order s.status ++
    putU64 order s.requestId ++ putU32 order s.valueLen
  let parts := [header] ++ if s.valueLen ≠ 0 then [s.value.take s.valueLen.toNat] else []
  have hsend : sendResponse order sigpipe s = writeParts sigpipe parts := by
    funext out
    exact if_neg h
  exact ⟨parts.flatten, hsend ▸ writeParts_writes sigpipe parts⟩

theorem exists_responseFrame (s : ResponseStruct) (h : ¬ c3mMaxValueBytes < s.valueLen)
    (hstatus : s.status ≤ c3mStatusProtocolError) : ∃ f : ResponseFrame, .ofFrame f = s.inUse := by
  rw [UInt32.lt_iff_toNat_lt, not_lt] at h
  have hvalueLen : (s.value.take s.valueLen.toNat).length = s.valueLen.toNat := by
    rw [List.length_take, s.value_length]
    exact Nat.min_eq_left h
  obtain ⟨status, hcode⟩ := Status.exists_code (UInt16.le_iff_toNat_le.mp hstatus)
  refine ⟨⟨s.requestId, status, s.value.take s.valueLen.toNat, hvalueLen.trans_le h⟩, ?_⟩
  refine Response.ext rfl (UInt16.toNat_inj.mp ?_) (UInt32.toNat_inj.mp ?_) rfl
  · exact (status_ofFrame _).trans hcode
  · exact (responseValueLen_ofFrame _).trans hvalueLen

theorem response_received_iff (order : ByteOrder) (sigpipe : Disposition) (s : ResponseStruct) :
    Received (sendResponse order sigpipe s.toResponse) (recvResponse order) s.inUse ↔
      c3mMaxValueBytes < s.valueLen ∨ s.status ≤ c3mStatusProtocolError := by
  by_cases hlength : c3mMaxValueBytes < s.valueLen
  · refine iff_of_true (fun out out' hsend => ?_) (Or.inl hlength)
    rw [sendResponse_refused hlength] at hsend
    cases hsend
  · rw [or_iff_right hlength]
    constructor
    · intro h
      obtain ⟨bs, hwrites⟩ := sendResponse_writes_any order sigpipe hlength
      obtain ⟨input, input', hok⟩ := h.exists_input hwrites
      obtain ⟨f, hf, -⟩ := recvResponse_ok hok
      have hrange : (Response.ofFrame f).status ≤ c3mStatusProtocolError :=
        UInt16.le_iff_toNat_le.mpr ((status_ofFrame f).trans_le f.status.code_range)
      rw [← hf] at hrange
      exact hrange
    · intro hstatus
      obtain ⟨f, hf⟩ := exists_responseFrame s hlength hstatus
      rw [← sendResponse_inUse, ← hf]
      exact received_of_writes (sendResponse_writes order sigpipe f) fun input rest hbytes =>
        recvResponse_encode order hbytes

/-- **What the C sender accepts.**  The receiver accepts every request that the sender accepts, in
whatever fragments it is written and read, exactly when its operation is known and only a PUT has
a value; and every response exactly when its status is known. -/
theorem sent_messages_received_iff (order : ByteOrder) (sigpipe : Disposition) :
    (∀ r : RequestStruct,
      Received (sendRequest order sigpipe r.toRequest) (recvRequest order) r.inUse ↔
        r.LengthsRefused ∨ r.OperationValid) ∧
    ∀ s : ResponseStruct,
      Received (sendResponse order sigpipe s.toResponse) (recvResponse order) s.inUse ↔
        c3mMaxValueBytes < s.valueLen ∨ s.status ≤ c3mStatusProtocolError :=
  ⟨request_received_iff order sigpipe, response_received_iff order sigpipe⟩

/-- A GET of the key `k` with the value `v`. -/
def getWithValue : RequestStruct where
  requestId := 7
  operation := c3mOpGet
  keyLen := 1
  valueLen := 1
  key := 0x6b :: List.replicate 63 0
  value := 0x76 :: List.replicate 4095 0
  key_length := by rw [List.length_cons, List.length_replicate]; rfl
  value_length := by rw [List.length_cons, List.length_replicate]; rfl

def unknownStatus : ResponseStruct where
  requestId := 7
  status := 6
  valueLen := 0
  value := List.replicate 4096 0
  value_length := List.length_replicate

theorem get_with_value_not_received :
    ¬ Received (sendRequest .little .terminate getWithValue.toRequest) (recvRequest .little)
        getWithValue.inUse ∧
      ¬ Received (sendResponse .little .terminate unknownStatus.toResponse) (recvResponse .little)
        unknownStatus.inUse := by
  rw [request_received_iff, response_received_iff]
  decide

end Cote3Mon.Protocol.C
