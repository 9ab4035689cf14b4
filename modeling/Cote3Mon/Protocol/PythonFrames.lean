import Cote3Mon.Protocol.Python

namespace Cote3Mon.Protocol.Python
open ByteText Stream Cote3Mon.Python

variable {input input' : Input} {rest : Bytes}

def Request.ofFrame (f : RequestFrame) : Request :=
  ⟨f.requestId.toNat, f.operation, f.key, f.value⟩

theorem validateRequest_ok {operation : Operation} {key value : Bytes} :
    validateRequest operation key value = .ok () ↔
      0 < key.length ∧ key.length ≤ maxKeyBytes ∧ value.length ≤ maxValueBytes ∧
        (operation ≠ .put → value = []) := by
  have hnil : key = [] ↔ ¬ 0 < key.length := by
    rw [List.length_pos_iff, not_not]
  have hput : operation ∈ ([.get, .delete] : List Operation) ↔ operation ≠ .put := by
    cases operation <;> decide
  unfold validateRequest
  simp only [hput]
  split_ifs with hkey hvalue hempty
  · refine iff_of_false nofun fun h => ?_
    rcases hkey with hkey | hkey
    · exact hnil.mp hkey h.1
    · omega
  · refine iff_of_false nofun fun h => ?_
    omega
  · exact iff_of_false nofun fun h => hempty.2 (h.2.2.2 hempty.1)
  · push Not at hkey hempty
    exact iff_of_true rfl ⟨List.length_pos_iff.mpr hkey.1, hkey.2, not_lt.mp hvalue, hempty⟩

theorem structPack_ok {fields : List (ℕ × ℕ)} (h : ∀ field ∈ fields, field.2 < 256 ^ field.1) :
    structPack (fields.map fun field => (field.1, (field.2 : ℤ))) = .ok (pack fields) := by
  have hrange : ∀ field ∈ fields.map fun field => (field.1, (field.2 : ℤ)),
      0 ≤ field.2 ∧ field.2 < 256 ^ field.1 := by
    intro field hfield
    obtain ⟨f, hf, rfl⟩ := List.mem_map.mp hfield
    have hlt : ((f.2 : ℕ) : ℤ) < ((256 ^ f.1 : ℕ) : ℤ) := Int.ofNat_lt.mpr (h f hf)
    exact ⟨Int.natCast_nonneg _, by push_cast at hlt; exact hlt⟩
  have hfields : (fields.map fun field => (field.1, (field.2 : ℤ))).map
      (fun field => (field.1, field.2.toNat)) = fields := by
    rw [List.map_map]
    exact List.map_id fields
  rw [structPack, if_pos hrange, hfields]

theorem Request.encode_ofFrame (f : RequestFrame) :
    (Request.ofFrame f).encode = .ok f.encode := by
  have hvalid : validateRequest f.operation f.key f.value = .ok () :=
    validateRequest_ok.mpr ⟨f.key_pos, f.key_le, f.value_le, f.value_put⟩
  have hpack := structPack_ok f.header_lt
  simp only [RequestFrame.header, List.map_cons, List.map_nil] at hpack
  rw [Request.encode]
  simp only [Request.ofFrame, hvalid, ok_bind, hpack]
  rfl

/-- A valid request with a 64-bit identifier is a frame. -/
theorem Request.exists_ofFrame {q : Request} (h : validateRequest q.operation q.key q.value = .ok ())
    (hid : 0 ≤ q.requestId ∧ q.requestId < 2 ^ 64) : ∃ f, q = .ofFrame f := by
  obtain ⟨hpos, hkey, hvalue, hput⟩ := validateRequest_ok.mp h
  have hnat : (UInt64.ofNat q.requestId.toNat).toNat = q.requestId.toNat :=
    UInt64.toNat_ofNat_of_lt' (by change _ < 2 ^ 64; omega)
  refine ⟨⟨UInt64.ofNat q.requestId.toNat, q.operation, q.key, q.value, hpos, hkey, hvalue,
    hput⟩, ?_⟩
  refine Request.ext ?_ rfl rfl rfl
  change q.requestId = ((UInt64.ofNat q.requestId.toNat).toNat : ℤ)
  rw [hnat]
  omega

theorem recvRequest_encode {f : RequestFrame} (h : input.bytes = f.encode ++ rest) :
    ∃ input', recvRequest input = (.ok (.ofFrame f), input') ∧ input'.bytes = rest := by
  rw [RequestFrame.encode, List.append_assoc, List.append_assoc] at h
  obtain ⟨input1, hheader, hbytes1⟩ := recvExact_exact.append h f.header_length
  rw [← List.append_assoc] at hbytes1
  obtain ⟨input2, hpayload, hbytes2⟩ := recvExact_exact.append hbytes1 (List.length_append ..)
  refine ⟨input2, ?_, hbytes2⟩
  have hfields := f.unpack_header []
  rw [List.append_nil] at hfields
  have hlengths : ¬ (f.key.length = 0 ∨ maxKeyBytes < f.key.length ∨
      maxValueBytes < f.value.length) := by
    have hpos := f.key_pos
    have hkey := f.key_le
    have hvalue := f.value_le
    omega
  have hvalid : validateRequest f.operation f.key f.value = .ok () :=
    validateRequest_ok.mpr ⟨f.key_pos, f.key_le, f.value_le, f.value_put⟩
  unfold recvRequest
  rw [Exec.bind_of_ok hheader]
  simp only [hfields, List.getD_cons_zero, List.getD_cons_succ, Operation.ofCode?_code]
  rw [if_neg (by simp), if_neg hlengths, Exec.bind_of_ok hpayload, List.take_left, List.drop_left,
    hvalid]
  rfl

theorem recvRequest_ok {q : Request} (h : recvRequest input = (.ok q, input')) :
    ∃ f : RequestFrame, q = .ofFrame f ∧ input.bytes = f.encode ++ input'.bytes := by
  unfold recvRequest at h
  obtain ⟨raw, input1, hraw, h⟩ := Exec.bind_ok h
  obtain ⟨hlen, hbytes⟩ := recvExact_exact.ok hraw
  obtain ⟨m, v, c, id, k, n, hfields⟩ : ∃ m v c id k n,
      unpack requestWidths raw = [m, v, c, id, k, n] := ⟨_, _, _, _, _, _, rfl⟩
  simp only [hfields, List.getD_cons_zero, List.getD_cons_succ] at h
  obtain ⟨hmagic, h⟩ := Exec.not_thrown h
  cases hop : Operation.ofCode? c with
  | none =>
    rw [hop] at h
    cases h
  | some op =>
    rw [hop] at h
    obtain ⟨hlengths, h⟩ := Exec.not_thrown h
    obtain ⟨payload, input2, hpayload, h⟩ := Exec.bind_ok h
    obtain ⟨hpayloadLen, hbytes2⟩ := recvExact_exact.ok hpayload
    obtain ⟨⟨⟩, hvalid, h⟩ := Exec.lift_bind_ok h
    obtain ⟨hq, hinput⟩ := Prod.mk.inj h
    have hinput : input2 = input' := hinput
    subst hinput
    push Not at hmagic
    obtain ⟨hpos, hkey, hvalue, hput⟩ := validateRequest_ok.mp hvalid
    have hkeyLen : (payload.take k).length = k := by
      rw [List.length_take, hpayloadLen]
      omega
    have hvalueLen : (payload.drop k).length = n := by
      rw [List.length_drop, hpayloadLen]
      omega
    rw [hmagic.1, hmagic.2, ← Operation.code_of_ofCode? hop, ← hkeyLen, ← hvalueLen] at hfields
    obtain ⟨f, hencode, hid, hfop, hfkey, hfvalue⟩ := RequestFrame.exists_encode hlen hfields hpos
      hkey hvalue hput
    refine ⟨f, ?_, ?_⟩
    · rw [← Except.ok.inj hq]
      exact Request.ext (by rw [← hid]; rfl) hfop.symm hfkey.symm hfvalue.symm
    · rw [← hencode, hbytes, hbytes2, List.append_assoc raw, List.take_append_drop,
        List.append_assoc]

def Response.ofFrame (f : ResponseFrame) : Response := ⟨f.requestId.toNat, f.status, f.value⟩

theorem Response.encode_ofFrame (f : ResponseFrame) :
    (Response.ofFrame f).encode = .ok f.encode := by
  have hvalue : ¬ maxValueBytes < f.value.length := not_lt.mpr f.value_le
  have hpack := structPack_ok f.header_lt
  simp only [ResponseFrame.header, List.map_cons, List.map_nil] at hpack
  rw [Response.encode]
  simp only [Response.ofFrame, if_neg hvalue, hpack, ok_bind]
  rfl

theorem Response.exists_ofFrame {q : Response} (hvalue : q.value.length ≤ maxValueBytes)
    (hid : 0 ≤ q.requestId ∧ q.requestId < 2 ^ 64) : ∃ f, q = .ofFrame f := by
  have hnat : (UInt64.ofNat q.requestId.toNat).toNat = q.requestId.toNat :=
    UInt64.toNat_ofNat_of_lt' (by change _ < 2 ^ 64; omega)
  refine ⟨⟨UInt64.ofNat q.requestId.toNat, q.status, q.value, hvalue⟩, ?_⟩
  refine Response.ext ?_ rfl rfl
  change q.requestId = ((UInt64.ofNat q.requestId.toNat).toNat : ℤ)
  rw [hnat]
  omega

theorem recvResponse_encode {f : ResponseFrame} (h : input.bytes = f.encode ++ rest) :
    ∃ input', recvResponse input = (.ok (.ofFrame f), input') ∧ input'.bytes = rest := by
  rw [ResponseFrame.encode, List.append_assoc] at h
  obtain ⟨input1, hheader, hbytes1⟩ := recvExact_exact.append h f.header_length
  obtain ⟨input2, hvalue, hbytes2⟩ := recvExact_exact.append hbytes1 rfl
  refine ⟨input2, ?_, hbytes2⟩
  have hfields := f.unpack_header []
  rw [List.append_nil] at hfields
  have hlength : ¬ maxValueBytes < f.value.length := not_lt.mpr f.value_le
  unfold recvResponse
  rw [Exec.bind_of_ok hheader]
  simp only [hfields, List.getD_cons_zero, List.getD_cons_succ, Status.ofCode?_code]
  rw [if_neg (by simp), if_neg hlength, Exec.bind_of_ok hvalue]
  rfl

theorem recvResponse_ok {q : Response} (h : recvResponse input = (.ok q, input')) :
    ∃ f : ResponseFrame, q = .ofFrame f ∧ input.bytes = f.encode ++ input'.bytes := by
  unfold recvResponse at h
  obtain ⟨raw, input1, hraw, h⟩ := Exec.bind_ok h
  obtain ⟨hlen, hbytes⟩ := recvExact_exact.ok hraw
  obtain ⟨m, v, c, id, n, hfields⟩ : ∃ m v c id n,
      unpack responseWidths raw = [m, v, c, id, n] := ⟨_, _, _, _, _, rfl⟩
  simp only [hfields, List.getD_cons_zero, List.getD_cons_succ] at h
  obtain ⟨hmagic, h⟩ := Exec.not_thrown h
  obtain ⟨hmax, h⟩ := Exec.not_thrown h
  cases hstatus : Status.ofCode? c with
  | none =>
    rw [hstatus] at h
    cases h
  | some status =>
    rw [hstatus] at h
    obtain ⟨value, input2, hvalue, h⟩ := Exec.bind_ok h
    obtain ⟨hvalueLen, hbytes2⟩ := recvExact_exact.ok hvalue
    obtain ⟨hq, hinput⟩ := Prod.mk.inj h
    have hinput : input2 = input' := hinput
    subst hinput
    push Not at hmagic
    rw [hmagic.1, hmagic.2, ← Status.code_of_ofCode? hstatus, ← hvalueLen] at hfields
    obtain ⟨f, hencode, hid, hfstatus, hfvalue⟩ :=
      ResponseFrame.exists_encode hlen hfields (hvalueLen ▸ not_lt.mp hmax)
    refine ⟨f, ?_, ?_⟩
    · rw [← Except.ok.inj hq]
      exact Response.ext (by rw [← hid]; rfl) hfstatus.symm hfvalue.symm
    · rw [← hencode, hbytes, hbytes2, List.append_assoc]

end Cote3Mon.Protocol.Python
