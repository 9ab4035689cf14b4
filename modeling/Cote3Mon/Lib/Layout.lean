import Cote3Mon.Lib.Bytes

namespace ByteText

def pack (fields : List (ℕ × ℕ)) : Bytes := fields.flatMap fun field => beBytes field.1 field.2

def unpack : List ℕ → Bytes → List ℕ
  | [], _ => []
  | width :: widths, bs => beNat (bs.take width) :: unpack widths (bs.drop width)

theorem pack_cons (width n : ℕ) (fields : List (ℕ × ℕ)) :
    pack ((width, n) :: fields) = beBytes width n ++ pack fields := rfl

theorem pack_length (fields : List (ℕ × ℕ)) :
    (pack fields).length = (fields.map Prod.fst).sum := by
  induction fields with
  | nil => rfl
  | cons field fields ih =>
    rw [pack_cons, List.length_append, beBytes_length, ih, List.map_cons, List.sum_cons]

/-- A header is read back, whatever follows it. -/
theorem unpack_pack (fields : List (ℕ × ℕ)) (rest : Bytes)
    (h : ∀ field ∈ fields, field.2 < 256 ^ field.1) :
    unpack (fields.map Prod.fst) (pack fields ++ rest) = fields.map Prod.snd := by
  induction fields with
  | nil => rfl
  | cons field fields ih =>
    obtain ⟨width, n⟩ := field
    have htake : (beBytes width n ++ (pack fields ++ rest)).take width = beBytes width n :=
      List.take_left' (beBytes_length width n)
    have hdrop : (beBytes width n ++ (pack fields ++ rest)).drop width = pack fields ++ rest :=
      List.drop_left' (beBytes_length width n)
    rw [List.map_cons, unpack, pack_cons, List.append_assoc, htake, hdrop,
      beNat_beBytes (h _ List.mem_cons_self), ih fun f hf => h f (List.mem_cons_of_mem _ hf)]
    rfl

/-- The bytes of a header are determined by its numbers. -/
theorem pack_unpack (widths : List ℕ) (bs : Bytes) (h : bs.length = widths.sum) :
    pack (widths.zip (unpack widths bs)) = bs := by
  induction widths generalizing bs with
  | nil => exact (List.length_eq_zero_iff.mp h).symm
  | cons width widths ih =>
    rw [List.sum_cons] at h
    have htake : (bs.take width).length = width := by
      rw [List.length_take]
      omega
    have hfirst : beBytes width (beNat (bs.take width)) = bs.take width := by
      have hround := beBytes_beNat (bs.take width)
      rwa [htake] at hround
    rw [unpack, List.zip_cons_cons, pack_cons, hfirst, ih _ (by rw [List.length_drop]; omega),
      List.take_append_drop]

theorem unpack_lt (widths : List ℕ) (bs : Bytes) :
    ∀ field ∈ widths.zip (unpack widths bs), field.2 < 256 ^ field.1 := by
  induction widths generalizing bs with
  | nil => simp
  | cons width widths ih =>
    intro field hfield
    rw [unpack, List.zip_cons_cons, List.mem_cons] at hfield
    rcases hfield with rfl | hfield
    · refine (beNat_lt rfl).trans_le (Nat.pow_le_pow_right (by norm_num) ?_)
      rw [List.length_take]
      exact Nat.min_le_left _ _
    · exact ih _ field hfield

end ByteText
