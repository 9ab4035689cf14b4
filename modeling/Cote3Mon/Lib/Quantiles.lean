import Cote3Mon.Lib.Statistics
import Mathlib.Data.List.GetD

namespace Cote3Mon.Statistics

section Sorting

variable {α : Type} [LinearOrder α] {l l' : List α} {a b : α}

theorem orderedInsert_of_le (hsorted : (a :: l).Pairwise (· ≤ ·)) :
    l.orderedInsert (· ≤ ·) a = a :: l := by
  cases l with
  | nil => rfl
  | cons b l =>
    exact List.orderedInsert_cons_of_le _ l (List.rel_of_pairwise_cons hsorted List.mem_cons_self)

/-- An insertion preserves the order of sorted lists. -/
theorem orderedInsert_mono (h : List.Forall₂ (· ≤ ·) l l') (hl : l.Pairwise (· ≤ ·))
    (hl' : l'.Pairwise (· ≤ ·)) (hab : a ≤ b) :
    List.Forall₂ (· ≤ ·) (l.orderedInsert (· ≤ ·) a) (l'.orderedInsert (· ≤ ·) b) := by
  induction h generalizing a b with
  | nil => exact List.Forall₂.cons hab List.Forall₂.nil
  | @cons c d l l' hcd hrest ih =>
    have ih := fun {a b : α} (hab : a ≤ b) => ih hl.tail hl'.tail (a := a) (b := b) hab
    by_cases hac : a ≤ c
    · rw [List.orderedInsert_cons_of_le _ l hac]
      by_cases hbd : b ≤ d
      · rw [List.orderedInsert_cons_of_le _ l' hbd]
        exact List.Forall₂.cons hab (List.Forall₂.cons hcd hrest)
      · -- the smaller list keeps its head, which is below the inserted element of the other
        rw [List.orderedInsert_of_not_le _ l' hbd]
        have hrest' := ih (hcd.trans (not_le.mp hbd).le)
        rw [orderedInsert_of_le hl] at hrest'
        exact List.Forall₂.cons (hac.trans hcd) hrest'
    · rw [List.orderedInsert_of_not_le _ l hac]
      by_cases hbd : b ≤ d
      · rw [List.orderedInsert_cons_of_le _ l' hbd]
        have hrest' := ih (hab.trans hbd)
        rw [orderedInsert_of_le hl'] at hrest'
        exact List.Forall₂.cons ((not_le.mp hac).le.trans hab) hrest'
      · rw [List.orderedInsert_of_not_le _ l' hbd]
        exact List.Forall₂.cons hcd (ih hab)

theorem insertionSort_mono (h : List.Forall₂ (· ≤ ·) l l') :
    List.Forall₂ (· ≤ ·) (l.insertionSort (· ≤ ·)) (l'.insertionSort (· ≤ ·)) := by
  induction h with
  | nil => exact List.Forall₂.nil
  | cons hab _ ih =>
    exact orderedInsert_mono ih (List.pairwise_insertionSort _ _)
      (List.pairwise_insertionSort _ _) hab

theorem getD_mono (h : List.Forall₂ (· ≤ ·) l l') (k : ℕ) (d : α) : l.getD k d ≤ l'.getD k d := by
  induction h generalizing k with
  | nil => exact le_rfl
  | cons hab _ ih =>
    cases k with
    | zero => exact hab
    | succ k => exact ih k

theorem getD_le_getD (hsorted : l.Pairwise (· ≤ ·)) {i j : ℕ} (hij : i ≤ j) (hj : j < l.length)
    (d : α) : l.getD i d ≤ l.getD j d := by
  have hi : i < l.length := by omega
  rw [List.getD_eq_getElem _ _ hi, List.getD_eq_getElem _ _ hj]
  rcases hij.lt_or_eq with hlt | rfl
  · exact List.pairwise_iff_getElem.mp hsorted i j hi hj hlt
  · exact le_rfl

end Sorting

section Positions

variable {K : Type} [Field K] [LinearOrder K] [IsStrictOrderedRing K] [FloorSemiring K]
  {l l' : List K} {x y : K}

def interpolate (l : List K) (x : K) : K :=
  l.getD ⌊x⌋₊ 0 * (1 - (x - ⌊x⌋₊)) + l.getD (⌊x⌋₊ + 1) 0 * (x - ⌊x⌋₊)

omit [IsStrictOrderedRing K] in
/-- At a position of the list the upper neighbour does not count. -/
theorem interpolate_of_upper {upper : ℕ} (hupper : x ≠ ⌊x⌋₊ → upper = ⌊x⌋₊ + 1) :
    l.getD ⌊x⌋₊ 0 * (1 - (x - ⌊x⌋₊)) + l.getD upper 0 * (x - ⌊x⌋₊) = interpolate l x := by
  by_cases hx : x = ⌊x⌋₊
  · rw [interpolate, ← hx, sub_self, mul_zero, mul_zero]
  · rw [interpolate, hupper hx]

theorem weight_mem (hx : 0 ≤ x) : 0 ≤ x - ⌊x⌋₊ ∧ x - ⌊x⌋₊ < 1 := by
  have hlow := Nat.floor_le hx
  have hhigh := Nat.lt_floor_add_one x
  constructor <;> linarith

/-- Between two elements there is an upper neighbour. -/
theorem upper_lt (hx : 0 ≤ x) (hlast : x ≤ (l.length - 1 : ℕ)) (hne : x ≠ ⌊x⌋₊) :
    ⌊x⌋₊ + 1 < l.length := by
  have hlt : (⌊x⌋₊ : K) < x := lt_of_le_of_ne (Nat.floor_le hx) hne.symm
  have hfloor : ⌊x⌋₊ < l.length - 1 := by exact_mod_cast hlt.trans_le hlast
  omega

theorem getD_floor_le_interpolate (hsorted : l.Pairwise (· ≤ ·)) (hx : 0 ≤ x)
    (hlast : x ≤ (l.length - 1 : ℕ)) : l.getD ⌊x⌋₊ 0 ≤ interpolate l x := by
  by_cases hne : x = ⌊x⌋₊
  · rw [interpolate, ← hne, sub_self, mul_zero, sub_zero, mul_one, add_zero]
  · exact le_interpolate (getD_le_getD hsorted (Nat.le_succ _) (upper_lt hx hlast hne) 0)
      (weight_mem hx).1

theorem interpolate_le_getD (hsorted : l.Pairwise (· ≤ ·)) (hx : 0 ≤ x) {k : ℕ} (hxk : x ≤ k)
    (hk : k < l.length) : interpolate l x ≤ l.getD k 0 := by
  have hfloor : ⌊x⌋₊ ≤ k := Nat.floor_le_of_le hxk
  by_cases hne : x = ⌊x⌋₊
  · rw [interpolate, ← hne, sub_self, mul_zero, sub_zero, mul_one, add_zero]
    exact getD_le_getD hsorted hfloor hk 0
  · have hlt : (⌊x⌋₊ : K) < x := lt_of_le_of_ne (Nat.floor_le hx) (Ne.symm hne)
    have hnext : ⌊x⌋₊ + 1 ≤ k := by
      have hcast : (⌊x⌋₊ : K) < k := hlt.trans_le hxk
      exact_mod_cast hcast
    have hup : ⌊x⌋₊ + 1 < l.length := by omega
    calc interpolate l x
        ≤ l.getD (⌊x⌋₊ + 1) 0 :=
          interpolate_le (getD_le_getD hsorted (Nat.le_succ _) hup 0) (weight_mem hx).2.le
      _ ≤ l.getD k 0 := getD_le_getD hsorted hnext hk 0

/-- Over a sorted list the value grows with the position, across its segments. -/
theorem interpolate_mono_position (hsorted : l.Pairwise (· ≤ ·)) (hx : 0 ≤ x) (hxy : x ≤ y)
    (hlast : y ≤ (l.length - 1 : ℕ)) (hne : l ≠ []) : interpolate l x ≤ interpolate l y := by
  have hy : 0 ≤ y := hx.trans hxy
  rcases (Nat.floor_le_floor hxy).lt_or_eq with hlt | hsame
  · -- the segment of `x` ends before that of `y` begins
    have hcount : 0 < l.length := List.length_pos_iff.mpr hne
    have hfloor : ⌊y⌋₊ < l.length := by
      have hle : ⌊y⌋₊ ≤ l.length - 1 := Nat.floor_le_of_le hlast
      omega
    have hxfloor : x ≤ (⌊y⌋₊ : K) := by
      have hnext : ((⌊x⌋₊ + 1 : ℕ) : K) ≤ ⌊y⌋₊ := by exact_mod_cast hlt
      have hhigh := Nat.lt_floor_add_one x
      push_cast at hnext
      linarith
    exact (interpolate_le_getD hsorted hx hxfloor hfloor).trans
      (getD_floor_le_interpolate hsorted hy hlast)
  · by_cases hexact : y = ⌊y⌋₊
    · have hxeq : x = y := by
        apply le_antisymm hxy
        rw [hexact, ← hsame]
        exact Nat.floor_le hx
      rw [hxeq]
    · -- both lie on one segment
      have hup := upper_lt hy hlast hexact
      have hstep := getD_le_getD hsorted (Nat.le_succ ⌊y⌋₊) hup 0
      rw [interpolate, interpolate, hsame]
      have hgrow := mul_nonneg (sub_nonneg.mpr hstep) (sub_nonneg.mpr hxy)
      simp only [Nat.succ_eq_add_one] at hgrow
      linarith

/-- The value grows with the elements. -/
theorem interpolate_mono_list (h : List.Forall₂ (· ≤ ·) l l') (hx : 0 ≤ x) :
    interpolate l x ≤ interpolate l' x := by
  obtain ⟨hlow, hhigh⟩ := weight_mem hx
  have hfirst := mul_le_mul_of_nonneg_right (getD_mono h ⌊x⌋₊ 0) (sub_nonneg.mpr hhigh.le)
  have hsecond := mul_le_mul_of_nonneg_right (getD_mono h (⌊x⌋₊ + 1) 0) hlow
  exact add_le_add hfirst hsecond

end Positions

end Cote3Mon.Statistics
