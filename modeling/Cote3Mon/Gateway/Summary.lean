import Cote3Mon.Features.Interpolation

namespace Cote3Mon.Gateway
open Features Statistics

-- `compare_double` and `percentile` of `gateway/gateway.c` in exact arithmetic, and that this is
-- the `percentile` of `cote3mon/features.py`.

/-- `(a > b) - (a < b)`. -/
def compareDouble (a b : ℚ) : ℤ := (if b < a then 1 else 0) - if a < b then 1 else 0

/-- The array after `qsort` with `compare_double`. -/
structure IsSorted (values sorted : List ℚ) : Prop where
  perm : sorted.Perm values
  inOrder : sorted.Pairwise fun a b => compareDouble a b ≤ 0

/-- The index after a fractional position. -/
def upperIndex (lower : ℕ) (position : ℚ) : ℕ := lower + if (lower : ℚ) < position then 1 else 0

/-- `none` is an access outside the array. -/
def percentile (values : List ℚ) (probability : ℚ) : Option ℚ :=
  if values.length = 0 then some 0
  else do
    let position : ℚ := (values.length - 1 : ℕ) * probability
    let lower := ⌊position⌋₊
    let upper := upperIndex lower position
    let weight := position - lower
    return (← values[lower]?) * (1 - weight) + (← values[upper]?) * weight

variable {values sorted : List ℚ} {probability : ℚ}

theorem compareDouble_le_zero {a b : ℚ} : compareDouble a b ≤ 0 ↔ a ≤ b := by
  rw [compareDouble, ← not_lt (a := b)]
  by_cases hba : b < a
  · rw [if_pos hba, if_neg hba.asymm]
    exact iff_of_false (by decide) (not_not.mpr hba)
  · rw [if_neg hba]
    refine iff_of_true ?_ hba
    split_ifs <;> decide

/-- There is one sorted array. -/
theorem IsSorted.eq (h : IsSorted values sorted) : sorted = ordered values := by
  apply List.Perm.eq_of_pairwise _ (h.inOrder.imp compareDouble_le_zero.mp) (ordered_sorted values)
    (h.perm.trans (ordered_perm values).symm)
  exact fun a b _ _ hab hba => le_antisymm hab hba

theorem upperIndex_lt (hne : values ≠ []) (hlow : 0 ≤ probability) (hhigh : probability ≤ 1) :
    upperIndex ⌊position values probability⌋₊ (position values probability) < values.length := by
  have hpos := position_nonneg hne hlow
  have hlast := position_le hne hhigh
  have hcount : 0 < values.length := List.length_pos_iff.mpr hne
  rw [upperIndex]
  split_ifs with hlt
  · exact upper_lt hpos hlast hlt.ne'
  · have hfloor := Nat.floor_le_of_le hlast
    omega

/-- The C function reads the same elements with the same weights. -/
theorem percentile_sorted (hne : values ≠ []) (hlow : 0 ≤ probability) (hhigh : probability ≤ 1)
    (h : IsSorted values sorted) :
    percentile sorted probability = some (Features.percentile values probability) := by
  have hpos := position_nonneg hne hlow
  have hlength : sorted.length = values.length := h.perm.length_eq
  have hcount : 0 < values.length := List.length_pos_iff.mpr hne
  have hposition : ((values.length - 1 : ℕ) : ℚ) * probability = position values probability := by
    rw [position, Nat.cast_sub hcount, Nat.cast_one]
  have hupper := upperIndex_lt hne hlow hhigh
  have hlower : ⌊position values probability⌋₊ < sorted.length :=
    hlength ▸ (Nat.le_add_right _ _).trans_lt hupper
  rw [← hlength] at hupper
  have hnext : position values probability ≠ ⌊position values probability⌋₊ →
      upperIndex ⌊position values probability⌋₊ (position values probability) =
        ⌊position values probability⌋₊ + 1 := fun hbetween => by
    rw [upperIndex, if_pos (lt_of_le_of_ne (Nat.floor_le hpos) hbetween.symm)]
  rw [percentile, if_neg (hlength ▸ hcount.ne'), hlength, hposition,
    percentile_eq_interpolate hne hlow, ← interpolate_of_upper hnext, ← h.eq]
  simp only [List.getElem?_eq_getElem hlower, List.getElem?_eq_getElem hupper,
    List.getD_eq_getElem _ _ hlower, List.getD_eq_getElem _ _ hupper]
  rfl

/-- **One percentile in both languages.**  The indices stay inside the list, the order of the list
does not matter, the value lies between the extremes, grows with the probability and with the
elements, and is what the gateway computes from the sorted array. -/
theorem percentile_sound (values : List ℚ) (hne : values ≠ []) {p q : ℚ} (hp : 0 ≤ p) (hpq : p ≤ q)
    (hq : q ≤ 1) :
    checkedPercentile values p = .ok (Features.percentile values p) ∧
      (0 ≤ ⌊position values p⌋ ∧ ⌈position values p⌉ < values.length) ∧
      (∀ values' : List ℚ, values'.Perm values →
        Features.percentile values' p = Features.percentile values p) ∧
      (∀ low ∈ values.min?, low ≤ Features.percentile values p) ∧
      Features.percentile values p ≤ Features.percentile values q ∧
      (∀ high ∈ values.max?, Features.percentile values q ≤ high) ∧
      (∀ values' : List ℚ, List.Forall₂ (· ≤ ·) values values' →
        Features.percentile values p ≤ Features.percentile values' p) ∧
      ∀ sorted, IsSorted values sorted →
        percentile sorted p = some (Features.percentile values p) ∧
          upperIndex ⌊position sorted p⌋₊ (position sorted p) < sorted.length := by
  have hp1 : p ≤ 1 := hpq.trans hq
  have hq0 : 0 ≤ q := hp.trans hpq
  refine ⟨checkedPercentile_eq hne hp hp1, index_lt hne hp hp1, fun values' => percentile_perm,
    fun low hlow => ?_, percentile_mono hne hp hpq hq, fun high hhigh => ?_,
    fun values' => percentile_mono_values hne hp, fun sorted hsorted =>
      ⟨percentile_sorted hne hp hp1 hsorted, ?_⟩⟩
  · obtain ⟨⟨a, ha, hle⟩, -⟩ := percentile_within hne hp hp1
    exact ((List.min?_eq_some_iff.mp hlow).2 a ha).trans hle
  · obtain ⟨-, b, hb, hle⟩ := percentile_within hne hq0 hq
    exact hle.trans ((List.max?_eq_some_iff.mp hhigh).2 b hb)
  · apply upperIndex_lt _ hp hp1
    rw [← List.length_pos_iff, hsorted.perm.length_eq]
    exact List.length_pos_iff.mpr hne

theorem percentile_sound_quartiles :
    Features.percentile [(3 : ℚ), 1, 2] (1 / 4) ≤ Features.percentile [3, 1, 2] (3 / 4) ∧
      percentile [1, 2, 3] (1 / 4) = some (Features.percentile [3, 1, 2] (1 / 4)) := by
  obtain ⟨-, -, -, -, hmono, -, -, hsame⟩ := percentile_sound [3, 1, 2] (by simp)
    (p := 1 / 4) (q := 3 / 4) (by norm_num) (by norm_num) (by norm_num)
  exact ⟨hmono, (hsame [1, 2, 3] ⟨by decide, by decide +kernel⟩).1⟩

end Cote3Mon.Gateway
