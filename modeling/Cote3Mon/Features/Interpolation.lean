import Cote3Mon.Features.Percentile
import Cote3Mon.Forest.Encoding
import Cote3Mon.Lib.Quantiles

namespace Cote3Mon.Features
open Python Statistics Forest

variable {values values' : List ℚ} {probability : ℚ}

/-- `percentile` with its lookups, each of which may raise. -/
def checkedPercentile (values : List ℚ) (probability : ℚ) : Except Exc ℚ :=
  if values = [] then .ok 0
  else
    let ordered := values.insertionSort (· ≤ ·)
    if ordered.length = 1 then item ordered 0
    else do
      let position := ((ordered.length : ℚ) - 1) * probability
      let lower := ⌊position⌋
      let upper := ⌈position⌉
      if lower = upper then item ordered lower
      else
        let weight := position - lower
        return (← item ordered lower) * (1 - weight) + (← item ordered upper) * weight

theorem position_nonneg (hne : values ≠ []) (hlow : 0 ≤ probability) :
    0 ≤ position values probability := by
  apply mul_nonneg _ hlow
  rw [sub_nonneg]
  exact_mod_cast List.length_pos_iff.mpr hne

theorem position_le (hne : values ≠ []) (hhigh : probability ≤ 1) :
    position values probability ≤ (values.length - 1 : ℕ) := by
  have hcount : 1 ≤ values.length := List.length_pos_iff.mpr hne
  rw [Nat.cast_sub hcount, Nat.cast_one]
  apply mul_le_of_le_one_right _ hhigh
  rw [sub_nonneg]
  exact_mod_cast hcount

theorem position_mono {probability' : ℚ} (hne : values ≠ []) (h : probability ≤ probability') :
    position values probability ≤ position values probability' := by
  apply mul_le_mul_of_nonneg_left h
  rw [sub_nonneg]
  exact_mod_cast List.length_pos_iff.mpr hne

/-- Both indices of a percentile are positions of the list. -/
theorem index_lt (hne : values ≠ []) (hlow : 0 ≤ probability) (hhigh : probability ≤ 1) :
    0 ≤ ⌊position values probability⌋ ∧ ⌈position values probability⌉ < values.length := by
  have hcount : 1 ≤ values.length := List.length_pos_iff.mpr hne
  have hceil : ⌈position values probability⌉ ≤ ((values.length - 1 : ℕ) : ℤ) := by
    rw [Int.ceil_le]
    exact_mod_cast position_le hne hhigh
  exact ⟨Int.floor_nonneg.mpr (position_nonneg hne hlow), by omega⟩

theorem ceil_of_ne {x : ℚ} (hx : 0 ≤ x) (hne : x ≠ ⌊x⌋₊) : ⌈x⌉₊ = ⌊x⌋₊ + 1 := by
  have hup := Nat.ceil_le_floor_add_one x
  have hlt : (⌊x⌋₊ : ℚ) < x := lt_of_le_of_ne (Nat.floor_le hx) hne.symm
  have hceil : ⌊x⌋₊ < ⌈x⌉₊ := Nat.lt_ceil.mpr hlt
  omega

theorem percentile_eq_interpolate (hne : values ≠ []) (hlow : 0 ≤ probability) :
    percentile values probability =
      interpolate (ordered values) (position values probability) := by
  have hpos := position_nonneg hne hlow
  rw [percentile_eq hne hpos, lowerIndex]
  exact interpolate_of_upper (ceil_of_ne hpos)

/-- No lookup of `percentile` raises. -/
theorem checkedPercentile_eq (hne : values ≠ []) (hlow : 0 ≤ probability) (hhigh : probability ≤ 1) :
    checkedPercentile values probability = .ok (percentile values probability) := by
  have hpos := position_nonneg hne hlow
  have hlength := ordered_length values
  have hcount : 0 < (ordered values).length := hlength ▸ List.length_pos_iff.mpr hne
  have hsorted : values.insertionSort (· ≤ ·) = ordered values := rfl
  have hposition : ((ordered values).length - 1 : ℚ) * probability =
      position values probability := by
    rw [position, hlength]
  have hfloor : ⌊position values probability⌋ = (⌊position values probability⌋₊ : ℤ) :=
    (Int.natCast_floor_eq_floor hpos).symm
  have hceil : ⌈position values probability⌉ = (⌈position values probability⌉₊ : ℤ) :=
    (Int.natCast_ceil_eq_ceil hpos).symm
  have hupper := (index_lt hne hlow hhigh).2
  have hlower := Nat.floor_le_ceil (position values probability)
  have hlt' : ⌈position values probability⌉₊ < (ordered values).length := by omega
  have hlt : ⌊position values probability⌋₊ < (ordered values).length := by omega
  rw [percentile_eq_interpolate hne hlow, checkedPercentile, if_neg hne, hsorted]
  dsimp only
  by_cases hone : (ordered values).length = 1
  · have hzero : position values probability = 0 := by
      rw [position, ← hlength, hone]
      simp
    have hitem := item_getD hcount 0
    rw [if_pos hone, hzero, interpolate, Nat.floor_zero]
    simpa using hitem
  · rw [if_neg hone, hposition, hfloor, hceil]
    split_ifs with heq
    · have hexact : position values probability = ⌊position values probability⌋₊ := by
        apply le_antisymm _ (Nat.floor_le hpos)
        calc position values probability ≤ ⌈position values probability⌉₊ := Nat.le_ceil _
          _ = ⌊position values probability⌋₊ := by rw [Nat.cast_inj.mp heq]
      rw [item_getD hlt 0, interpolate, ← hexact, sub_self, sub_zero, mul_one, mul_zero, add_zero]
    · rw [item_getD hlt 0, item_getD hlt' 0, ← interpolate_of_upper (ceil_of_ne hpos)]
      rfl

theorem percentile_perm (h : values'.Perm values) :
    percentile values' probability = percentile values probability := by
  have hordered : ordered values' = ordered values := by
    apply List.Perm.eq_of_pairwise _ (ordered_sorted values') (ordered_sorted values)
      ((ordered_perm values').trans (h.trans (ordered_perm values).symm))
    exact fun a b _ _ hab hba => le_antisymm hab hba
  have hsorted : values'.insertionSort (· ≤ ·) = values.insertionSort (· ≤ ·) := hordered
  rw [percentile, percentile, hsorted]

theorem percentile_mono {probability' : ℚ} (hne : values ≠ []) (hlow : 0 ≤ probability)
    (h : probability ≤ probability') (hhigh : probability' ≤ 1) :
    percentile values probability ≤ percentile values probability' := by
  have hlength := ordered_length values
  rw [percentile_eq_interpolate hne hlow, percentile_eq_interpolate hne (hlow.trans h)]
  apply interpolate_mono_position (ordered_sorted values) (position_nonneg hne hlow)
    (position_mono hne h)
  · rw [hlength]
    exact position_le hne hhigh
  · rw [← List.length_pos_iff, hlength]
    exact List.length_pos_iff.mpr hne

/-- No element can be raised so that a percentile falls. -/
theorem percentile_mono_values (hne : values ≠ []) (hlow : 0 ≤ probability)
    (h : List.Forall₂ (· ≤ ·) values values') :
    percentile values probability ≤ percentile values' probability := by
  have hne' : values' ≠ [] := by
    rw [← List.length_pos_iff, ← h.length_eq]
    exact List.length_pos_iff.mpr hne
  have hposition : position values' probability = position values probability := by
    rw [position, position, h.length_eq]
  rw [percentile_eq_interpolate hne hlow, percentile_eq_interpolate hne' hlow, hposition]
  exact interpolate_mono_list (insertionSort_mono h) (position_nonneg hne hlow)

end Cote3Mon.Features
