import Mathlib.Algebra.BigOperators.Group.List.Lemmas
import Mathlib.Algebra.Order.BigOperators.Group.List
import Mathlib.Algebra.Order.Field.Basic
import Mathlib.Algebra.Order.Floor.Semiring
import Mathlib.Data.List.Dedup
import Mathlib.Data.List.Sort
import Mathlib.Tactic.FieldSimp
import Mathlib.Tactic.Linarith
import Mathlib.Tactic.Ring

namespace Cote3Mon.Statistics

variable {α : Type} [LinearOrder α] {l : List α} {x : α}

def Within (l : List α) (x : α) : Prop := (∃ a ∈ l, a ≤ x) ∧ ∃ b ∈ l, x ≤ b

theorem Within.of_perm {l' : List α} (hperm : l.Perm l') (h : Within l x) : Within l' x := by
  obtain ⟨⟨a, ha, hax⟩, b, hb, hxb⟩ := h
  exact ⟨⟨a, hperm.mem_iff.mp ha, hax⟩, b, hperm.mem_iff.mp hb, hxb⟩

/-- Nothing up to position `k` of a sorted list exceeds a value that its element `k` does not. -/
theorem countP_gt_eq_drop (hsorted : l.Pairwise (· ≤ ·)) {k : ℕ} (hk : k < l.length)
    (hx : l[k] ≤ x) : l.countP (x < ·) = (l.drop (k + 1)).countP (x < ·) := by
  have hlow : (l.take (k + 1)).countP (x < ·) = 0 := by
    rw [List.countP_eq_zero]
    intro a ha
    obtain ⟨i, hi, rfl⟩ := List.mem_take_iff_getElem.mp ha
    have hle : l[i] ≤ l[k] := by
      rcases (show i ≤ k by omega).lt_or_eq with hlt | rfl
      · exact List.pairwise_iff_getElem.mp hsorted i k _ hk hlt
      · exact le_rfl
    rw [decide_eq_true_iff, not_lt]
    exact hle.trans hx
  conv_lhs => rw [← List.take_append_drop (k + 1) l]
  rw [List.countP_append, hlow, zero_add]

theorem countP_gt_le (hsorted : l.Pairwise (· ≤ ·)) {k : ℕ} (hk : k < l.length) (hx : l[k] ≤ x) :
    l.countP (x < ·) ≤ l.length - 1 - k := by
  rw [countP_gt_eq_drop hsorted hk hx]
  apply List.countP_le_length.trans_eq
  rw [List.length_drop]
  omega

theorem countP_gt_eq (hsorted : l.Pairwise (· ≤ ·)) {k : ℕ} (hk : k < l.length) (hx : l[k] ≤ x)
    (hnext : ∀ i, (hi : i < l.length) → k < i → x < l[i]) :
    l.countP (x < ·) = l.length - 1 - k := by
  have hall : (l.drop (k + 1)).countP (x < ·) = (l.drop (k + 1)).length := by
    rw [List.countP_eq_length]
    intro a ha
    obtain ⟨i, hi, rfl⟩ := List.mem_drop_iff_getElem.mp ha
    have hlt : k + 1 + i < l.length := by omega
    exact decide_eq_true (hnext _ hlt (by omega))
  rw [countP_gt_eq_drop hsorted hk hx, hall, List.length_drop]
  omega

section Occurrences

variable {β : Type} [BEq β] [LawfulBEq β]

theorem sum_beq (values : List β) (a : β) :
    (values.map fun v => if a == v then 1 else 0).sum = values.count a := by
  induction values with
  | nil => rfl
  | cons v values ih => rw [List.map_cons, List.sum_cons, ih, List.count_cons, BEq.comm, add_comm]

/-- Distinct values do not occur more often than a list is long. -/
theorem sum_count_le {values : List β} (h : values.Nodup) (l : List β) :
    (values.map l.count).sum ≤ l.length := by
  induction l with
  | nil => simp
  | cons a l ih =>
    have hone : values.count a ≤ 1 := List.nodup_iff_count_le_one.mp h a
    calc (values.map (a :: l).count).sum
        = (values.map fun v => l.count v + if a == v then 1 else 0).sum := by
          simp only [List.count_cons]
      _ = (values.map l.count).sum + values.count a := by rw [List.sum_map_add, sum_beq]
      _ ≤ (a :: l).length := by
          rw [List.length_cons]
          omega

end Occurrences

variable {K : Type} [Field K]

def mean (values : List K) : K := values.sum / values.length

def variance (values : List K) : K :=
  (values.map fun v => (v - mean values) ^ 2).sum / values.length

theorem sum_sq_sub (values : List K) (c : K) : (values.map fun v => (v - c) ^ 2).sum =
    (values.map (· ^ 2)).sum - 2 * c * values.sum + values.length * c ^ 2 := by
  induction values with
  | nil => simp
  | cons v values ih =>
    simp only [List.map_cons, List.sum_cons, List.length_cons, ih]
    push_cast
    ring

variable [LinearOrder K] [IsStrictOrderedRing K] {values : List K}

theorem mul_mean (h : values ≠ []) : values.length * mean values = values.sum := by
  have hne : (values.length : K) ≠ 0 := Nat.cast_ne_zero.mpr (List.length_pos_iff.mpr h).ne'
  rw [mean, mul_div_cancel₀ _ hne]

/-- The mean lies between the smallest and the largest element. -/
theorem mean_within (h : values ≠ []) : Within values (mean values) := by
  have hpos : 0 < (values.length : K) := Nat.cast_pos.mpr (List.length_pos_iff.mpr h)
  constructor
  · by_contra hnone
    push Not at hnone
    have hlt : (values.map fun _ => mean values).sum < (values.map id).sum :=
      List.sum_lt_sum_of_ne_nil h _ _ hnone
    rw [List.map_id, List.map_const', List.sum_replicate, nsmul_eq_mul, mul_mean h] at hlt
    exact lt_irrefl _ hlt
  · by_contra hnone
    push Not at hnone
    have hlt : (values.map id).sum < (values.map fun _ => mean values).sum :=
      List.sum_lt_sum_of_ne_nil h _ _ hnone
    rw [List.map_id, List.map_const', List.sum_replicate, nsmul_eq_mul, mul_mean h] at hlt
    exact lt_irrefl _ hlt

theorem mean_nonneg (h : ∀ v ∈ values, 0 ≤ v) : 0 ≤ mean values :=
  div_nonneg (List.sum_nonneg h) (Nat.cast_nonneg _)

theorem variance_nonneg (values : List K) : 0 ≤ variance values := by
  apply div_nonneg _ (Nat.cast_nonneg _)
  apply List.sum_nonneg
  intro s hs
  obtain ⟨v, -, rfl⟩ := List.mem_map.mp hs
  exact sq_nonneg _

theorem sum_sq_le_sq_sum (h : ∀ v ∈ values, 0 ≤ v) :
    (values.map (· ^ 2)).sum ≤ values.sum ^ 2 := by
  induction values with
  | nil => simp
  | cons v values ih =>
    have hv : 0 ≤ v := h v (List.mem_cons_self ..)
    have hrest : 0 ≤ values.sum := List.sum_nonneg fun w hw => h w (List.mem_cons_of_mem _ hw)
    have hsquares := ih fun w hw => h w (List.mem_cons_of_mem _ hw)
    have hcross := mul_nonneg hv hrest
    rw [List.map_cons, List.sum_cons, List.sum_cons]
    calc v ^ 2 + (values.map (· ^ 2)).sum
        ≤ v ^ 2 + values.sum ^ 2 := by gcongr
      _ ≤ (v + values.sum) ^ 2 := by
        rw [add_sq]
        linarith

/-- Among non-negative values of a given mean the variance is largest when one has it all. -/
theorem variance_le (h : ∀ v ∈ values, 0 ≤ v) (hne : values ≠ []) :
    variance values ≤ (values.length - 1) * mean values ^ 2 := by
  have hpos : 0 < (values.length : K) := Nat.cast_pos.mpr (List.length_pos_iff.mpr hne)
  have hsum := mul_mean hne
  have hsquares := sum_sq_le_sq_sum h
  rw [variance, div_le_iff₀ hpos, sum_sq_sub, ← hsum]
  rw [← hsum] at hsquares
  calc (values.map (· ^ 2)).sum - 2 * mean values * (values.length * mean values) +
        values.length * mean values ^ 2
      ≤ (values.length * mean values) ^ 2 - 2 * mean values * (values.length * mean values) +
        values.length * mean values ^ 2 := by gcongr
    _ = (values.length - 1) * mean values ^ 2 * values.length := by ring

section Interpolation

variable {a b w : K}

theorem le_interpolate (hab : a ≤ b) (hw : 0 ≤ w) : a ≤ a * (1 - w) + b * w := by
  have := mul_nonneg (sub_nonneg.mpr hab) hw
  linarith

theorem interpolate_le (hab : a ≤ b) (hw : w ≤ 1) : a * (1 - w) + b * w ≤ b := by
  have := mul_nonneg (sub_nonneg.mpr hab) (sub_nonneg.mpr hw)
  linarith

theorem interpolate_lt (hab : a < b) (hw : w < 1) : a * (1 - w) + b * w < b := by
  have := mul_pos (sub_pos.mpr hab) (sub_pos.mpr hw)
  linarith

end Interpolation

end Cote3Mon.Statistics
