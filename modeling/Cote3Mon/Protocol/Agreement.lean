import Cote3Mon.Protocol.CFrames
import Cote3Mon.Protocol.PythonFrames

namespace Cote3Mon.Protocol
open ByteText Stream Cote3Mon.Python

structure SameRequest (r : C.Request) (q : Python.Request) : Prop where
  requestId : q.requestId = r.requestId.toNat
  operation : q.operation.code = r.operation.toNat
  keyLen : r.keyLen.toNat = q.key.length
  valueLen : r.valueLen.toNat = q.value.length
  key : q.key = r.key
  value : q.value = r.value

structure SameResponse (r : C.Response) (q : Python.Response) : Prop where
  requestId : q.requestId = r.requestId.toNat
  status : q.status.code = r.status.toNat
  valueLen : r.valueLen.toNat = q.value.length
  value : q.value = r.value

theorem sameRequest_ofFrame (f : RequestFrame) : SameRequest (.ofFrame f) (.ofFrame f) :=
  ⟨rfl, (C.operation_ofFrame f).symm, C.keyLen_ofFrame f, C.valueLen_ofFrame f, rfl, rfl⟩

theorem sameResponse_ofFrame (f : ResponseFrame) : SameResponse (.ofFrame f) (.ofFrame f) :=
  ⟨rfl, (C.status_ofFrame f).symm, C.responseValueLen_ofFrame f, rfl⟩

theorem SameRequest.eq_ofFrame {r : C.Request} {f : RequestFrame}
    (h : SameRequest r (.ofFrame f)) : r = .ofFrame f := by
  refine C.Request.ext (UInt64.toNat_inj.mp ?_) (UInt16.toNat_inj.mp ?_) (UInt32.toNat_inj.mp ?_)
    (UInt32.toNat_inj.mp ?_) h.key.symm h.value.symm
  · have hid : (f.requestId.toNat : ℤ) = r.requestId.toNat := h.requestId
    exact_mod_cast hid.symm
  · exact h.operation.symm.trans (C.operation_ofFrame f).symm
  · exact h.keyLen.trans (C.keyLen_ofFrame f).symm
  · exact h.valueLen.trans (C.valueLen_ofFrame f).symm

theorem SameResponse.eq_ofFrame {r : C.Response} {f : ResponseFrame}
    (h : SameResponse r (.ofFrame f)) : r = .ofFrame f := by
  refine C.Response.ext (UInt64.toNat_inj.mp ?_) (UInt16.toNat_inj.mp ?_) (UInt32.toNat_inj.mp ?_)
    h.value.symm
  · have hid : (f.requestId.toNat : ℤ) = r.requestId.toNat := h.requestId
    exact_mod_cast hid.symm
  · exact h.status.symm.trans (C.status_ofFrame f).symm
  · exact h.valueLen.trans (C.responseValueLen_ofFrame f).symm

variable {order : C.ByteOrder}

/-- Whatever the two deliveries of a stream are, both sides receive a request or neither does. -/
theorem recvRequest_agree {input input' : Input} (h : input.bytes = input'.bytes) :
    (∃ r rest q rest', C.recvRequest order input = (.ok r, rest) ∧
      Python.recvRequest input' = (.ok q, rest') ∧ SameRequest r q ∧ rest.bytes = rest'.bytes) ∨
    (∃ e e', (C.recvRequest order input).1 = .error e ∧ (Python.recvRequest input').1 =
        .error e') := by
  rcases hc : C.recvRequest order input with ⟨_ | r, rest⟩
  · rcases hp : Python.recvRequest input' with ⟨_ | q, rest'⟩
    · exact Or.inr ⟨_, _, rfl, rfl⟩
    · obtain ⟨f, rfl, hbytes⟩ := Python.recvRequest_ok hp
      obtain ⟨rest0, hrecv, -⟩ := C.recvRequest_encode order (h.trans hbytes)
      cases (Prod.mk.inj (hc.symm.trans hrecv)).1
  · obtain ⟨f, rfl, hbytes⟩ := C.recvRequest_ok hc
    obtain ⟨rest', hrecv, hrest⟩ := Python.recvRequest_encode (h.symm.trans hbytes)
    exact Or.inl ⟨_, _, _, _, rfl, hrecv, sameRequest_ofFrame f, hrest.symm⟩

theorem recvResponse_agree {input input' : Input} (h : input.bytes = input'.bytes) :
    (∃ r rest q rest', C.recvResponse order input = (.ok r, rest) ∧
      Python.recvResponse input' = (.ok q, rest') ∧ SameResponse r q ∧ rest.bytes = rest'.bytes) ∨
    (∃ e e', (C.recvResponse order input).1 = .error e ∧
      (Python.recvResponse input').1 = .error e') := by
  rcases hc : C.recvResponse order input with ⟨_ | r, rest⟩
  · rcases hp : Python.recvResponse input' with ⟨_ | q, rest'⟩
    · exact Or.inr ⟨_, _, rfl, rfl⟩
    · obtain ⟨f, rfl, hbytes⟩ := Python.recvResponse_ok hp
      obtain ⟨rest0, hrecv, -⟩ := C.recvResponse_encode order (h.trans hbytes)
      cases (Prod.mk.inj (hc.symm.trans hrecv)).1
  · obtain ⟨f, rfl, hbytes⟩ := C.recvResponse_ok hc
    obtain ⟨rest', hrecv, hrest⟩ := Python.recvResponse_encode (h.symm.trans hbytes)
    exact Or.inl ⟨_, _, _, _, rfl, hrecv, sameResponse_ofFrame f, hrest.symm⟩

/-- A peer that goes on reading: every write is done in the end. -/
def Sends (send : Output → Outcome × Output) (bs : Bytes) : Prop :=
  ∀ out : Output, out.room = none → (send out).1 = .done ∧ (send out).2.written = out.written ++ bs

theorem sends_of_writes {sigpipe : Disposition} {send : Output → Outcome × Output} {bs : Bytes}
    (h : Writes sigpipe bs send) : Sends send bs := by
  intro out hroom
  obtain ⟨hdone, hwritten, -⟩ := h.enough out fun k hk => by
    rw [hroom] at hk
    cases hk
  exact ⟨hdone, hwritten⟩

/-- **One wire format.**  On every stream, however it is delivered to either side, both sides
accept or neither does, with the same message and the same rest.  Both write the same bytes for
a message, and a received message is written as the bytes it was received from. -/
theorem codecs_agree (order : C.ByteOrder) (sigpipe : Disposition) :
    (∀ input input' : Input, input.bytes = input'.bytes →
      (∃ r rest q rest', C.recvRequest order input = (.ok r, rest) ∧
        Python.recvRequest input' = (.ok q, rest') ∧ SameRequest r q ∧ rest.bytes = rest'.bytes) ∨
      ∃ e e', (C.recvRequest order input).1 = .error e ∧
        (Python.recvRequest input').1 = .error e') ∧
    (∀ input input' : Input, input.bytes = input'.bytes →
      (∃ r rest q rest', C.recvResponse order input = (.ok r, rest) ∧
        Python.recvResponse input' = (.ok q, rest') ∧ SameResponse r q ∧
          rest.bytes = rest'.bytes) ∨
      ∃ e e', (C.recvResponse order input).1 = .error e ∧
        (Python.recvResponse input').1 = .error e') ∧
    (∀ r q, SameRequest r q → Python.validateRequest q.operation q.key q.value = .ok () →
      0 ≤ q.requestId ∧ q.requestId < 2 ^ 64 →
      ∃ bs, q.encode = .ok bs ∧ Sends (C.sendRequest order sigpipe r) bs) ∧
    (∀ r q, SameResponse r q → q.value.length ≤ maxValueBytes →
      0 ≤ q.requestId ∧ q.requestId < 2 ^ 64 →
      ∃ bs, q.encode = .ok bs ∧ Sends (C.sendResponse order sigpipe r) bs) ∧
    (∀ input r rest, C.recvRequest order input = (.ok r, rest) → ∃ bs,
      Sends (C.sendRequest order sigpipe r) bs ∧ input.bytes = bs ++ rest.bytes) ∧
    (∀ input q rest, Python.recvRequest input = (.ok q, rest) → ∃ bs,
      q.encode = .ok bs ∧ input.bytes = bs ++ rest.bytes) ∧
    (∀ input r rest, C.recvResponse order input = (.ok r, rest) → ∃ bs,
      Sends (C.sendResponse order sigpipe r) bs ∧ input.bytes = bs ++ rest.bytes) ∧
    (∀ input q rest, Python.recvResponse input = (.ok q, rest) → ∃ bs,
      q.encode = .ok bs ∧ input.bytes = bs ++ rest.bytes) := by
  refine ⟨fun _ _ => recvRequest_agree, fun _ _ => recvResponse_agree,
    fun r q hsame hvalid hid => ?_,
    fun r q hsame hvalue hid => ?_, fun input r rest hrecv => ?_, fun input q rest hrecv => ?_,
    fun input r rest hrecv => ?_, fun input q rest hrecv => ?_⟩
  · obtain ⟨f, rfl⟩ := Python.Request.exists_ofFrame hvalid hid
    rw [hsame.eq_ofFrame]
    exact ⟨f.encode, Python.Request.encode_ofFrame f,
      sends_of_writes (C.sendRequest_writes order sigpipe f)⟩
  · obtain ⟨f, rfl⟩ := Python.Response.exists_ofFrame hvalue hid
    rw [hsame.eq_ofFrame]
    exact ⟨f.encode, Python.Response.encode_ofFrame f,
      sends_of_writes (C.sendResponse_writes order sigpipe f)⟩
  · obtain ⟨f, rfl, hbytes⟩ := C.recvRequest_ok hrecv
    exact ⟨f.encode, sends_of_writes (C.sendRequest_writes order sigpipe f), hbytes⟩
  · obtain ⟨f, rfl, hbytes⟩ := Python.recvRequest_ok hrecv
    exact ⟨f.encode, Python.Request.encode_ofFrame f, hbytes⟩
  · obtain ⟨f, rfl, hbytes⟩ := C.recvResponse_ok hrecv
    exact ⟨f.encode, sends_of_writes (C.sendResponse_writes order sigpipe f), hbytes⟩
  · obtain ⟨f, rfl, hbytes⟩ := Python.recvResponse_ok hrecv
    exact ⟨f.encode, Python.Response.encode_ofFrame f, hbytes⟩

theorem codecs_agree_get : ∃ bs, (⟨7, .get, [0x6b], []⟩ : Python.Request).encode = .ok bs ∧
    Sends (C.sendRequest .little .terminate ⟨7, C.c3mOpGet, 1, 0, [0x6b], []⟩) bs :=
  (codecs_agree .little .terminate).2.2.1 _ _ ⟨rfl, rfl, rfl, rfl, rfl, rfl⟩ rfl (by decide)

end Cote3Mon.Protocol
