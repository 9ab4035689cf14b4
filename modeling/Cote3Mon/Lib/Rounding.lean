import Mathlib

namespace Rounding

-- Rounding to the nearest integer and to the nearest number of IEEE single precision, of two
-- equally near ones to the even one.

/-- `round`, to the even number where two are as near. -/
def roundHalfEven (q : ℚ) : ℤ :=
  let below := q - ⌊q⌋
  if below < 1 / 2 then ⌊q⌋
  else if 1 / 2 < below then ⌊q⌋ + 1
  else if ⌊q⌋ % 2 = 0 then ⌊q⌋ else ⌊q⌋ + 1

/-- The distance of neighbouring single-precision numbers around `q`: a significand of 24 bits,
and no exponent below that of the smallest normal number. -/
def ulpSingle (q : ℚ) : ℚ := 2 ^ (max (Int.log 2 |q|) (-126) - 23)

def roundSingle (q : ℚ) : ℚ := roundHalfEven (q / ulpSingle q) * ulpSingle q

/-- The same for double precision, with a significand of 53 bits. -/
def ulpDouble (q : ℚ) : ℚ := 2 ^ (max (Int.log 2 |q|) (-1022) - 52)

def roundDouble (q : ℚ) : ℚ := roundHalfEven (q / ulpDouble q) * ulpDouble q

theorem roundHalfEven_near (q : ℚ) : |q - roundHalfEven q| ≤ 1 / 2 := by
  have hlow := Int.floor_le q
  have hhigh := Int.lt_floor_add_one q
  unfold roundHalfEven
  rw [abs_le]
  dsimp only
  split_ifs <;> push_cast <;> constructor <;> linarith

/-- Rounding to multiples of a unit moves a number by at most half of it. -/
theorem roundUnit_near (q : ℚ) {unit : ℚ} (h : 0 < unit) :
    |q - roundHalfEven (q / unit) * unit| ≤ unit / 2 := by
  have hsplit : q - roundHalfEven (q / unit) * unit =
      (q / unit - roundHalfEven (q / unit)) * unit := by
    rw [sub_mul, div_mul_cancel₀ _ h.ne']
  rw [hsplit, abs_mul, abs_of_pos h]
  calc _ ≤ 1 / 2 * unit := mul_le_mul_of_nonneg_right (roundHalfEven_near _) h.le
    _ = unit / 2 := by ring

theorem ulpSingle_pos (q : ℚ) : 0 < ulpSingle q := zpow_pos (by norm_num) _

/-- The rounded number is at most half a unit in the last place away. -/
theorem roundSingle_near (q : ℚ) : |q - roundSingle q| ≤ ulpSingle q / 2 :=
  roundUnit_near q (ulpSingle_pos q)

/-- Rounding does not carry a number across a bound that is further away. -/
theorem roundSingle_le_iff {q t : ℚ} (h : ulpSingle q / 2 < |q - t|) :
    roundSingle q ≤ t ↔ q ≤ t := by
  have hnear := abs_le.mp (roundSingle_near q)
  rcases le_or_gt q t with hle | hlt
  · rw [abs_of_nonpos (by linarith)] at h
    exact iff_of_true (by linarith) hle
  · rw [abs_of_pos (by linarith)] at h
    exact iff_of_false (by linarith) (by linarith)

theorem ulpDouble_pos (q : ℚ) : 0 < ulpDouble q := zpow_pos (by norm_num) _

theorem ulpDouble_le {q : ℚ} (h : 0 ≤ q) : ulpDouble q ≤ q + 1 := by
  rcases h.eq_or_lt with rfl | hpos
  · norm_num [ulpDouble]
  · rw [ulpDouble, abs_of_pos hpos]
    by_cases hlog : 0 ≤ Int.log 2 q
    · calc (2 : ℚ) ^ (max (Int.log 2 q) (-1022) - 52) ≤ (2 : ℚ) ^ Int.log 2 q := by
            apply zpow_le_zpow_right₀ (by norm_num)
            omega
        _ ≤ q := by exact_mod_cast Int.zpow_log_le_self (by norm_num) hpos
        _ ≤ q + 1 := by linarith
    · calc (2 : ℚ) ^ (max (Int.log 2 q) (-1022) - 52) ≤ (2 : ℚ) ^ (0 : ℤ) := by
            apply zpow_le_zpow_right₀ (by norm_num)
            omega
        _ ≤ q + 1 := by
            rw [zpow_zero]
            linarith

/-- The rounded number is not much larger. -/
theorem roundDouble_le {q : ℚ} (h : 0 ≤ q) : roundDouble q ≤ q + (q + 1) / 2 := by
  have hnear := abs_le.mp (roundUnit_near q (ulpDouble_pos q))
  have hunit := ulpDouble_le h
  rw [roundDouble]
  linarith [hnear.1]

theorem roundHalfEven_nonneg {q : ℚ} (h : 0 ≤ q) : 0 ≤ roundHalfEven q := by
  have hfloor : 0 ≤ ⌊q⌋ := Int.floor_nonneg.mpr h
  unfold roundHalfEven
  dsimp only
  split_ifs <;> omega

theorem roundDouble_nonneg {q : ℚ} (h : 0 ≤ q) : 0 ≤ roundDouble q := by
  apply mul_nonneg _ (ulpDouble_pos q).le
  exact_mod_cast roundHalfEven_nonneg (div_nonneg h (ulpDouble_pos q).le)

end Rounding
