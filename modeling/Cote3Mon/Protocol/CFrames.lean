import Cote3Mon.Protocol.C

namespace Cote3Mon.Protocol.C
open ByteText Stream

variable {order : ByteOrder} {input input' : Input} {rest : Bytes}

theorem getU16_toNat {buffer : Bytes} (h : 2 ≤ buffer.length) :
    (getU16 order buffer).toNat = beNat (buffer.take 2) := by
  have hlen : (buffer.take 2).length = 2 := by rw [List.length_take]; omega
  rw [getU16_eq h, UInt16.toNat_ofNat_of_lt' (beNat_lt hlen)]

theorem getU32_toNat {buffer : Bytes} (h : 4 ≤ buffer.length) :
    (getU32 order buffer).toNat = beNat (buffer.take 4) := by
  have hlen : (buffer.take 4).length = 4 := by rw [List.length_take]; omega
  rw [getU32_eq h, UInt32.toNat_ofNat_of_lt' (beNat_lt hlen)]

theorem getU64_toNat {buffer : Bytes} (h : 8 ≤ buffer.length) :
    (getU64 order buffer).toNat = beNat (buffer.take 8) := by
  have hlen : (buffer.take 8).length = 8 := by rw [List.length_take]; omega
  rw [getU64_eq h, UInt64.toNat_ofNat_of_lt' (beNat_lt hlen)]

/-- The fields that `c3m_recv_request` takes from a header. -/
theorem request_fields (order : ByteOrder) {header : Bytes} (h : header.length = 24) :
    unpack requestWidths header =
      [(getU32 order header).toNat, (getU16 order (header.drop 4)).toNat,
        (getU16 order (header.drop 6)).toNat, (getU64 order (header.drop 8)).toNat,
        (getU32 order (header.drop 16)).toNat, (getU32 order (header.drop 20)).toNat] := by
  rw [getU32_toNat (by omega), getU16_toNat (by rw [List.length_drop]; omega),
    getU16_toNat (by rw [List.length_drop]; omega), getU64_toNat (by rw [List.length_drop]; omega),
    getU32_toNat (by rw [List.length_drop]; omega), getU32_toNat (by rw [List.length_drop]; omega)]
  simp only [unpack, requestWidths, List.drop_drop]

theorem response_fields (order : ByteOrder) {header : Bytes} (h : header.length = 20) :
    unpack responseWidths header =
      [(getU32 order header).toNat, (getU16 order (header.drop 4)).toNat,
        (getU16 order (header.drop 6)).toNat, (getU64 order (header.drop 8)).toNat,
        (getU32 order (header.drop 16)).toNat] := by
  rw [getU32_toNat (by omega), getU16_toNat (by rw [List.length_drop]; omega),
    getU16_toNat (by rw [List.length_drop]; omega), getU64_toNat (by rw [List.length_drop]; omega),
    getU32_toNat (by rw [List.length_drop]; omega)]
  simp only [unpack, responseWidths, List.drop_drop]

/-- An empty value is not read, or read as no bytes. -/
theorem readValue_eq (n : UInt32) : readValue n = readFull n.toNat := by
  unfold readValue
  split_ifs with hn
  · rfl
  · rw [not_not.mp hn]
    funext input
    rw [readFull]
    rfl

theorem flatten_value (n : UInt32) (value : Bytes) :
    (if n ≠ 0 then [value.take n.toNat] else []).flatten = value.take n.toNat := by
  split_ifs with hn
  · exact List.append_nil _
  · rw [not_not.mp hn]
    rfl

def Request.ofFrame (f : RequestFrame) : Request :=
  ⟨f.requestId, UInt16.ofNat f.operation.code, UInt32.ofNat f.key.length,
    UInt32.ofNat f.value.length, f.key, f.value⟩

theorem keyLen_ofFrame (f : RequestFrame) : (Request.ofFrame f).keyLen.toNat = f.key.length := by
  have hkey := f.key_le
  unfold maxKeyBytes at hkey
  exact UInt32.toNat_ofNat_of_lt' (by change _ < 2 ^ 32; omega)

theorem valueLen_ofFrame (f : RequestFrame) :
    (Request.ofFrame f).valueLen.toNat = f.value.length := by
  have hvalue := f.value_le
  unfold maxValueBytes at hvalue
  exact UInt32.toNat_ofNat_of_lt' (by change _ < 2 ^ 32; omega)

theorem operation_ofFrame (f : RequestFrame) :
    (Request.ofFrame f).operation.toNat = f.operation.code := by
  have hcode := f.operation.code_range
  exact UInt16.toNat_ofNat_of_lt' (by change _ < 2 ^ 16; omega)

/-- The checks of the declared lengths. -/
theorem lengths_ofFrame (f : RequestFrame) : ¬ ((Request.ofFrame f).keyLen = 0 ∨
    c3mMaxKeyBytes < (Request.ofFrame f).keyLen ∨
      c3mMaxValueBytes < (Request.ofFrame f).valueLen) := by
  have hpos := f.key_pos
  have hkey := f.key_le
  have hvalue := f.value_le
  have hmaxKey : c3mMaxKeyBytes.toNat = maxKeyBytes := rfl
  have hmaxValue : c3mMaxValueBytes.toNat = maxValueBytes := rfl
  rw [← UInt32.toNat_inj, UInt32.lt_iff_toNat_lt, UInt32.lt_iff_toNat_lt, keyLen_ofFrame,
    valueLen_ofFrame, hmaxKey, hmaxValue, show (0 : UInt32).toNat = 0 from rfl]
  omega

theorem recvRequest_encode (order : ByteOrder) {f : RequestFrame}
    (h : input.bytes = f.encode ++ rest) :
    ∃ input', recvRequest order input = (.ok (.ofFrame f), input') ∧ input'.bytes = rest := by
  rw [RequestFrame.encode, List.append_assoc, List.append_assoc] at h
  obtain ⟨input1, hheader, hbytes1⟩ := readFull_exact.append h f.header_length
  obtain ⟨input2, hkey, hbytes2⟩ := readFull_exact.append hbytes1 (keyLen_ofFrame f).symm
  obtain ⟨input3, hvalue, hbytes3⟩ := readFull_exact.append hbytes2 (valueLen_ofFrame f).symm
  refine ⟨input3, ?_, hbytes3⟩
  have hfields := f.unpack_header []
  rw [List.append_nil, request_fields order f.header_length] at hfields
  simp only [List.cons.injEq, and_true] at hfields
  obtain ⟨hmagic, hversion, hop, hid, hkeyLen, hvalueLen⟩ := hfields
  have hmagic : getU32 order (pack f.header) = c3mMagic := UInt32.toNat_inj.mp hmagic
  have hversion : getU16 order ((pack f.header).drop 4) = c3mVersion := UInt16.toNat_inj.mp hversion
  have hop : getU16 order ((pack f.header).drop 6) = (Request.ofFrame f).operation :=
    UInt16.toNat_inj.mp (hop.trans (operation_ofFrame f).symm)
  have hid : getU64 order ((pack f.header).drop 8) = (Request.ofFrame f).requestId :=
    UInt64.toNat_inj.mp hid
  have hkeyLen : getU32 order ((pack f.header).drop 16) = (Request.ofFrame f).keyLen :=
    UInt32.toNat_inj.mp (hkeyLen.trans (keyLen_ofFrame f).symm)
  have hvalueLen : getU32 order ((pack f.header).drop 20) = (Request.ofFrame f).valueLen :=
    UInt32.toNat_inj.mp (hvalueLen.trans (valueLen_ofFrame f).symm)
  have hrange : ¬ ((Request.ofFrame f).operation < c3mOpPut ∨
      c3mOpDelete < (Request.ofFrame f).operation) := by
    rw [UInt16.lt_iff_toNat_lt, UInt16.lt_iff_toNat_lt, operation_ofFrame]
    cases f.operation <;> decide
  have hput : ¬ ((Request.ofFrame f).operation ≠ c3mOpPut ∧ (Request.ofFrame f).valueLen ≠ 0) := by
    rintro ⟨hne, hlen⟩
    have hop : f.operation ≠ .put := fun hput => hne (by rw [Request.ofFrame, hput]; rfl)
    exact hlen (by rw [Request.ofFrame, f.value_put hop]; rfl)
  unfold recvRequest
  rw [Exec.bind_of_ok hheader]
  simp only [hmagic, hversion, hop, hid, hkeyLen, hvalueLen, readValue_eq]
  rw [if_neg (by simp), if_neg hrange, if_neg (lengths_ofFrame f), if_neg hput,
    Exec.bind_of_ok hkey, Exec.bind_of_ok hvalue]
  rfl

theorem recvRequest_ok {r : Request} (h : recvRequest order input = (.ok r, input')) :
    ∃ f : RequestFrame, r = .ofFrame f ∧ input.bytes = f.encode ++ input'.bytes := by
  unfold recvRequest at h
  obtain ⟨header, input1, hheader, h⟩ := Exec.bind_ok h
  obtain ⟨hlen, hbytes⟩ := readFull_exact.ok hheader
  obtain ⟨hmagic, h⟩ := Exec.not_thrown h
  obtain ⟨hrange, h⟩ := Exec.not_thrown h
  obtain ⟨hlengths, h⟩ := Exec.not_thrown h
  obtain ⟨hput, h⟩ := Exec.not_thrown h
  obtain ⟨key, input2, hkey, h⟩ := Exec.bind_ok h
  obtain ⟨hkeyLen, hbytes2⟩ := readFull_exact.ok hkey
  rw [readValue_eq] at h
  obtain ⟨value, input3, hvalue, h⟩ := Exec.bind_ok h
  obtain ⟨hvalueLen, hbytes3⟩ := readFull_exact.ok hvalue
  obtain ⟨hr, hinput⟩ := Prod.mk.inj h
  have hr := Except.ok.inj hr
  have hinput : input3 = input' := hinput
  subst hinput
  push Not at hmagic hrange hlengths hput
  obtain ⟨hmagic, hversion⟩ := hmagic
  obtain ⟨hlow, hhigh⟩ := hrange
  obtain ⟨hpos, hmaxKey, hmaxValue⟩ := hlengths
  rw [UInt16.lt_iff_toNat_lt, not_lt] at hlow hhigh
  rw [UInt32.lt_iff_toNat_lt, not_lt] at hmaxKey hmaxValue
  have hpos : getU32 order (header.drop 16) ≠ 0 := hpos
  obtain ⟨op, hop⟩ := Operation.exists_code ⟨hlow, hhigh⟩
  have hcode : op.code = (getU16 order (header.drop 6)).toNat := hop
  have hfields : unpack requestWidths header = [magic, version, op.code,
      (getU64 order (header.drop 8)).toNat, key.length, value.length] := by
    rw [request_fields order hlen, hmagic, hversion, hcode, hkeyLen, hvalueLen]
    rfl
  have hzero : ∀ n : UInt32, n ≠ 0 → 0 < n.toNat := fun n hn =>
    Nat.pos_of_ne_zero fun h0 => hn (UInt32.toNat_inj.mp h0)
  have hempty : op ≠ .put → value = [] := by
    intro hne
    have hnotPut : getU16 order (header.drop 6) ≠ c3mOpPut := by
      intro heq
      rw [heq] at hcode
      cases op with
      | put => exact hne rfl
      | get => cases hcode
      | delete => cases hcode
    rw [hput hnotPut] at hvalueLen
    exact List.length_eq_zero_iff.mp hvalueLen
  obtain ⟨f, hencode, hid, hfop, hfkey, hfvalue⟩ := RequestFrame.exists_encode hlen hfields
    (hkeyLen ▸ hzero _ hpos) (hkeyLen ▸ hmaxKey) (hvalueLen ▸ hmaxValue) hempty
  refine ⟨f, ?_, ?_⟩
  · rw [← hr]
    refine Request.ext (UInt64.toNat_inj.mp hid.symm) (UInt16.toNat_inj.mp ?_)
      (UInt32.toNat_inj.mp ?_) (UInt32.toNat_inj.mp ?_) hfkey.symm hfvalue.symm
    · rw [operation_ofFrame, hfop, hcode]
    · rw [keyLen_ofFrame, hfkey, hkeyLen]
    · rw [valueLen_ofFrame, hfvalue, hvalueLen]
  · rw [← hencode, hbytes, hbytes2, hbytes3, List.append_assoc, List.append_assoc]

/-- The bytes of a header, field by field. -/
theorem header_put (order : ByteOrder) (f : RequestFrame) :
    putU32 order c3mMagic ++ putU16 order c3mVersion ++
      putU16 order (Request.ofFrame f).operation ++ putU64 order (Request.ofFrame f).requestId ++
      putU32 order (Request.ofFrame f).keyLen ++ putU32 order (Request.ofFrame f).valueLen =
    pack f.header := by
  rw [putU32_eq, putU16_eq, putU16_eq, putU64_eq, putU32_eq, putU32_eq, operation_ofFrame,
    keyLen_ofFrame, valueLen_ofFrame]
  simp only [RequestFrame.header, pack_cons, List.append_assoc]
  rfl

theorem sendRequest_writes (order : ByteOrder) (sigpipe : Disposition) (f : RequestFrame) :
    Writes sigpipe f.encode (sendRequest order sigpipe (.ofFrame f)) := by
  have hparts : ([pack f.header, f.key] ++ if (Request.ofFrame f).valueLen ≠ 0 then
      [f.value.take (Request.ofFrame f).valueLen.toNat] else []).flatten = f.encode := by
    rw [List.flatten_append, flatten_value, valueLen_ofFrame, List.take_length, RequestFrame.encode]
    simp
  have hkey : f.key.take (Request.ofFrame f).keyLen.toNat = f.key := by
    rw [keyLen_ofFrame, List.take_length]
  have hsend : sendRequest order sigpipe (.ofFrame f) = writeParts sigpipe ([pack f.header, f.key] ++
      if (Request.ofFrame f).valueLen ≠ 0 then
        [f.value.take (Request.ofFrame f).valueLen.toNat] else []) := by
    funext out
    rw [sendRequest, if_neg (lengths_ofFrame f), header_put]
    change writeParts sigpipe ([pack f.header, f.key.take (Request.ofFrame f).keyLen.toNat] ++ _)
      out = _
    rw [hkey]
    rfl
  rw [hsend, ← hparts]
  exact writeParts_writes sigpipe _

def Response.ofFrame (f : ResponseFrame) : Response :=
  ⟨f.requestId, UInt16.ofNat f.status.code, UInt32.ofNat f.value.length, f.value⟩

theorem responseValueLen_ofFrame (f : ResponseFrame) :
    (Response.ofFrame f).valueLen.toNat = f.value.length := by
  have hvalue := f.value_le
  unfold maxValueBytes at hvalue
  exact UInt32.toNat_ofNat_of_lt' (by change _ < 2 ^ 32; omega)

theorem status_ofFrame (f : ResponseFrame) :
    (Response.ofFrame f).status.toNat = f.status.code := by
  have hcode := f.status.code_range
  exact UInt16.toNat_ofNat_of_lt' (by change _ < 2 ^ 16; omega)

theorem responseLength_ofFrame (f : ResponseFrame) :
    ¬ c3mMaxValueBytes < (Response.ofFrame f).valueLen := by
  have hvalue := f.value_le
  rw [UInt32.lt_iff_toNat_lt, responseValueLen_ofFrame]
  exact not_lt.mpr hvalue

theorem recvResponse_encode (order : ByteOrder) {f : ResponseFrame}
    (h : input.bytes = f.encode ++ rest) :
    ∃ input', recvResponse order input = (.ok (.ofFrame f), input') ∧ input'.bytes = rest := by
  rw [ResponseFrame.encode, List.append_assoc] at h
  obtain ⟨input1, hheader, hbytes1⟩ := readFull_exact.append h f.header_length
  obtain ⟨input2, hvalue, hbytes2⟩ :=
    readFull_exact.append hbytes1 (responseValueLen_ofFrame f).symm
  refine ⟨input2, ?_, hbytes2⟩
  have hfields := f.unpack_header []
  rw [List.append_nil, response_fields order f.header_length] at hfields
  simp only [List.cons.injEq, and_true] at hfields
  obtain ⟨hmagic, hversion, hstatus, hid, hvalueLen⟩ := hfields
  have hmagic : getU32 order (pack f.header) = c3mMagic := UInt32.toNat_inj.mp hmagic
  have hversion : getU16 order ((pack f.header).drop 4) = c3mVersion := UInt16.toNat_inj.mp hversion
  have hstatus : getU16 order ((pack f.header).drop 6) = (Response.ofFrame f).status :=
    UInt16.toNat_inj.mp (hstatus.trans (status_ofFrame f).symm)
  have hid : getU64 order ((pack f.header).drop 8) = (Response.ofFrame f).requestId :=
    UInt64.toNat_inj.mp hid
  have hvalueLen : getU32 order ((pack f.header).drop 16) = (Response.ofFrame f).valueLen :=
    UInt32.toNat_inj.mp (hvalueLen.trans (responseValueLen_ofFrame f).symm)
  have hrange : ¬ (c3mStatusProtocolError < (Response.ofFrame f).status ∨
      c3mMaxValueBytes < (Response.ofFrame f).valueLen) := by
    refine not_or.mpr ⟨?_, responseLength_ofFrame f⟩
    rw [UInt16.lt_iff_toNat_lt, status_ofFrame]
    exact not_lt.mpr f.status.code_range
  unfold recvResponse
  rw [Exec.bind_of_ok hheader]
  simp only [hmagic, hversion, hstatus, hid, hvalueLen, readValue_eq]
  rw [if_neg (by simp), if_neg hrange, Exec.bind_of_ok hvalue]
  rfl

theorem recvResponse_ok {r : Response} (h : recvResponse order input = (.ok r, input')) :
    ∃ f : ResponseFrame, r = .ofFrame f ∧ input.bytes = f.encode ++ input'.bytes := by
  unfold recvResponse at h
  obtain ⟨header, input1, hheader, h⟩ := Exec.bind_ok h
  obtain ⟨hlen, hbytes⟩ := readFull_exact.ok hheader
  obtain ⟨hmagic, h⟩ := Exec.not_thrown h
  obtain ⟨hrange, h⟩ := Exec.not_thrown h
  rw [readValue_eq] at h
  obtain ⟨value, input2, hvalue, h⟩ := Exec.bind_ok h
  obtain ⟨hvalueLen, hbytes2⟩ := readFull_exact.ok hvalue
  obtain ⟨hr, hinput⟩ := Prod.mk.inj h
  have hr := Except.ok.inj hr
  have hinput : input2 = input' := hinput
  subst hinput
  push Not at hmagic hrange
  obtain ⟨hmagic, hversion⟩ := hmagic
  obtain ⟨hmaxStatus, hmaxValue⟩ := hrange
  rw [UInt16.lt_iff_toNat_lt, not_lt] at hmaxStatus
  rw [UInt32.lt_iff_toNat_lt, not_lt] at hmaxValue
  obtain ⟨status, hstatus⟩ := Status.exists_code hmaxStatus
  have hfields : unpack responseWidths header = [magic, version, status.code,
      (getU64 order (header.drop 8)).toNat, value.length] := by
    rw [response_fields order hlen, hmagic, hversion, hstatus, hvalueLen]
    rfl
  obtain ⟨f, hencode, hid, hfstatus, hfvalue⟩ :=
    ResponseFrame.exists_encode hlen hfields (hvalueLen ▸ hmaxValue)
  refine ⟨f, ?_, ?_⟩
  · rw [← hr]
    refine Response.ext (UInt64.toNat_inj.mp hid.symm) (UInt16.toNat_inj.mp ?_)
      (UInt32.toNat_inj.mp ?_) hfvalue.symm
    · rw [status_ofFrame, hfstatus, hstatus]
    · rw [responseValueLen_ofFrame, hfvalue, hvalueLen]
  · rw [← hencode, hbytes, hbytes2, List.append_assoc]

theorem responseHeader_put (order : ByteOrder) (f : ResponseFrame) :
    putU32 order c3mMagic ++ putU16 order c3mVersion ++
      putU16 order (Response.ofFrame f).status ++ putU64 order (Response.ofFrame f).requestId ++
      putU32 order (Response.ofFrame f).valueLen = pack f.header := by
  rw [putU32_eq, putU16_eq, putU16_eq, putU64_eq, putU32_eq, status_ofFrame,
    responseValueLen_ofFrame]
  simp only [ResponseFrame.header, pack_cons, List.append_assoc]
  rfl

theorem sendResponse_writes (order : ByteOrder) (sigpipe : Disposition) (f : ResponseFrame) :
    Writes sigpipe f.encode (sendResponse order sigpipe (.ofFrame f)) := by
  have hparts : ([pack f.header] ++ if (Response.ofFrame f).valueLen ≠ 0 then
      [f.value.take (Response.ofFrame f).valueLen.toNat] else []).flatten = f.encode := by
    rw [List.flatten_append, flatten_value, responseValueLen_ofFrame, List.take_length,
      ResponseFrame.encode]
    simp
  have hsend : sendResponse order sigpipe (.ofFrame f) = writeParts sigpipe ([pack f.header] ++
      if (Response.ofFrame f).valueLen ≠ 0 then
        [f.value.take (Response.ofFrame f).valueLen.toNat] else []) := by
    funext out
    rw [sendResponse, if_neg (responseLength_ofFrame f), responseHeader_put]
    rfl
  rw [hsend, ← hparts]
  exact writeParts_writes sigpipe _

end Cote3Mon.Protocol.C
