import Cote3Mon.Features.Aggregate

namespace Cote3Mon.Features
open Statistics

-- What `percentile` of `cote3mon/features.py` returns: a value between two neighbours of the sorted
-- list, which a known number of its elements exceeds.

variable {K : Type} [LinearOrder K] {values : List K}

/-- `sorted(values)`. -/
def ordered (values : List K) : List K := values.insertionSort (· ≤ ·)

theorem ordered_sorted (values : List K) : (ordered values).Pairwise (· ≤ ·) :=
  List.pairwise_insertionSort _ _

theorem ordered_perm (values : List K) : (ordered values).Perm values :=
  List.perm_insertionSort _ _

theorem ordered_length (values : List K) : (ordered values).length = values.length :=
  (ordered_perm values).length_eq

theorem ordered_strict (h : values.Nodup) : (ordered values).Pairwise (· < ·) := by
  have hnodup : (ordered values).Nodup := (ordered_perm values).nodup_iff.mpr h
  exact ((ordered_sorted values).and hnodup).imp fun ⟨hle, hne⟩ => lt_of_le_of_ne hle hne

variable [Field K] [FloorSemiring K] {probability : K}

def position {K : Type} [Field K] (values : List K) (probability : K) : K :=
  ((values.length : K) - 1) * probability

def lowerIndex (values : List K) (probability : K) : ℕ := ⌊position values probability⌋₊

variable [IsStrictOrderedRing K]

/-- One formula covers the single value, the exact position and the one between neighbours. -/
theorem percentile_eq (hne : values ≠ []) (hpos : 0 ≤ position values probability) :
    percentile values probability =
      (ordered values).getD (lowerIndex values probability) 0 *
          (1 - (position values probability - lowerIndex values probability)) +
        (ordered values).getD ⌈position values probability⌉₊ 0 *
          (position values probability - lowerIndex values probability) := by
  have hlength := ordered_length values
  have hsorted : values.insertionSort (· ≤ ·) = ordered values := rfl
  rw [percentile, lowerIndex, hsorted]
  rcases hordered : ordered values with _ | ⟨a, _ | ⟨b, rest⟩⟩
  · rw [hordered] at hlength
    exact absurd (List.length_eq_zero_iff.mp hlength.symm) hne
  · have hzero : position values probability = 0 := by
      rw [hordered] at hlength
      rw [position, ← hlength]
      simp
    simp [hzero]
  · have hposition : ((a :: b :: rest).length - 1 : K) * probability =
        position values probability := by
      rw [position, ← hlength, hordered]
    dsimp only
    rw [hposition]
    split_ifs with heq
    · have hexact : position values probability = ⌊position values probability⌋₊ := by
        apply le_antisymm _ (Nat.floor_le hpos)
        calc position values probability ≤ ⌈position values probability⌉₊ := Nat.le_ceil _
          _ = ⌊position values probability⌋₊ := by rw [heq]
      rw [← hexact, sub_self, sub_zero, mul_one, mul_zero, add_zero]
    · rfl

/-- Where a percentile lies among the sorted values. -/
theorem percentile_spec (hne : values ≠ []) (hlow : 0 ≤ probability) (hhigh : probability ≤ 1) :
    ∃ h : lowerIndex values probability < (ordered values).length,
      (ordered values)[lowerIndex values probability] ≤ percentile values probability ∧
      (∃ b ∈ ordered values, percentile values probability ≤ b) ∧
      ((ordered values).Pairwise (· < ·) → ∀ i, (hi : i < (ordered values).length) →
        lowerIndex values probability < i → percentile values probability <
            (ordered values)[i]) := by
  have hlength := ordered_length values
  have hcount : 1 ≤ values.length := List.length_pos_iff.mpr hne
  have hlast : (0 : K) ≤ (values.length : K) - 1 := by
    rw [sub_nonneg]
    exact_mod_cast hcount
  have hpos : 0 ≤ position values probability := mul_nonneg hlast hlow
  have hle : position values probability ≤ (values.length - 1 : ℕ) := by
    rw [Nat.cast_sub hcount, Nat.cast_one]
    exact mul_le_of_le_one_right hlast hhigh
  have hupper : ⌈position values probability⌉₊ ≤ values.length - 1 := Nat.ceil_le.mpr hle
  have hfloor : (lowerIndex values probability : K) ≤ position values probability :=
    Nat.floor_le hpos
  have hnext : position values probability < lowerIndex values probability + 1 :=
    Nat.lt_floor_add_one _
  have hindices : lowerIndex values probability ≤ ⌈position values probability⌉₊ :=
    Nat.floor_le_ceil _
  have hceil : ⌈position values probability⌉₊ ≤ lowerIndex values probability + 1 :=
    Nat.ceil_le_floor_add_one _
  have hlt : lowerIndex values probability < (ordered values).length := by omega
  have hlt' : ⌈position values probability⌉₊ < (ordered values).length := by omega
  have hneighbours : (ordered values)[lowerIndex values probability] ≤
      (ordered values)[⌈position values probability⌉₊] := by
    rcases hindices.lt_or_eq with h | h
    · exact List.pairwise_iff_getElem.mp (ordered_sorted values) _ _ hlt hlt' h
    · simp only [h, le_refl]
  have heq := percentile_eq hne hpos
  rw [List.getD_eq_getElem _ _ hlt, List.getD_eq_getElem _ _ hlt'] at heq
  rw [heq]
  refine ⟨hlt, le_interpolate hneighbours (by linarith), ⟨_, List.getElem_mem hlt', ?_⟩, ?_⟩
  · exact interpolate_le hneighbours (by linarith)
  · intro hstrict i hi hli
    have hsteps := List.pairwise_iff_getElem.mp hstrict
    rcases hindices.lt_or_eq with h | h
    · have hup : (ordered values)[⌈position values probability⌉₊] ≤ (ordered values)[i] := by
        rcases (show ⌈position values probability⌉₊ ≤ i by omega).lt_or_eq with hlt | rfl
        · exact (hsteps _ _ hlt' hi hlt).le
        · exact le_rfl
      exact (interpolate_lt (hsteps _ _ hlt hlt' h) (by linarith)).trans_le hup
    · simp only [← h]
      calc _ = (ordered values)[lowerIndex values probability] := by ring
        _ < (ordered values)[i] := hsteps _ _ hlt hi hli

theorem percentile_within (hne : values ≠ []) (hlow : 0 ≤ probability) (hhigh : probability ≤ 1) :
    Within values (percentile values probability) := by
  obtain ⟨h, hle, habove, -⟩ := percentile_spec hne hlow hhigh
  exact Within.of_perm (ordered_perm values) ⟨⟨_, List.getElem_mem h, hle⟩, habove⟩

/-- The lower neighbour leaves the intended share of the values above it. -/
theorem length_sub_lowerIndex {rate : K} (hne : values ≠ []) (hlow : 0 ≤ rate) (hhigh : rate ≤ 1) :
    values.length - 1 - lowerIndex values (1 - rate) = ⌈rate * ((values.length : K) - 1)⌉₊ := by
  have hcount : 1 ≤ values.length := List.length_pos_iff.mpr hne
  have hcast : (values.length : K) - 1 = (values.length - 1 : ℕ) := by
    rw [Nat.cast_sub hcount, Nat.cast_one]
  rw [lowerIndex, position, hcast]
  generalize values.length - 1 = last
  have hshare : 0 ≤ rate * last := mul_nonneg hlow (Nat.cast_nonneg _)
  have hle : ⌈rate * last⌉₊ ≤ last := Nat.ceil_le.mpr
    (mul_le_of_le_one_left (Nat.cast_nonneg _) hhigh)
  have hfloor : ⌊(last : K) * (1 - rate)⌋₊ = last - ⌈rate * last⌉₊ := by
    have hceil := Nat.le_ceil (rate * last)
    have hceil' := Nat.ceil_lt_add_one hshare
    rw [Nat.floor_eq_iff (mul_nonneg (Nat.cast_nonneg _) (sub_nonneg.mpr hhigh)), Nat.cast_sub hle]
    constructor <;> linarith
  rw [hfloor, Nat.sub_sub_self hle]

theorem countP_percentile_le {rate : K} (hne : values ≠ []) (hlow : 0 ≤ rate) (hhigh : rate ≤ 1) :
    values.countP (percentile values (1 - rate) < ·) ≤ ⌈rate * ((values.length : K) - 1)⌉₊ := by
  obtain ⟨h, hle, -, -⟩ := percentile_spec hne (sub_nonneg.mpr hhigh) (sub_le_self 1 hlow)
  rw [← (ordered_perm values).countP_eq, ← length_sub_lowerIndex hne hlow hhigh,
    ← ordered_length values]
  exact countP_gt_le (ordered_sorted values) h hle

theorem countP_percentile_eq {rate : K} (hne : values ≠ []) (hlow : 0 ≤ rate) (hhigh : rate ≤ 1)
    (hnodup : values.Nodup) :
    values.countP (percentile values (1 - rate) < ·) = ⌈rate * ((values.length : K) - 1)⌉₊ := by
  obtain ⟨h, hle, -, hnext⟩ := percentile_spec hne (sub_nonneg.mpr hhigh) (sub_le_self 1 hlow)
  rw [← (ordered_perm values).countP_eq, ← length_sub_lowerIndex hne hlow hhigh,
    ← ordered_length values]
  exact countP_gt_eq (ordered_sorted values) h hle (hnext (ordered_strict hnodup))

end Cote3Mon.Features
