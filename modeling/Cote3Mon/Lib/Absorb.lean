import Mathlib.Data.List.Basic
import Mathlib.Logic.Function.Basic

namespace Cote3Mon.Absorb

variable {σ α : Type} {step : σ → α → σ} {xs ys : List α}

/-- The sequences have one length and differ in exactly one place. -/
def DiffersOnce (xs ys : List α) : Prop :=
  ∃ front x y back, x ≠ y ∧ xs = front ++ x :: back ∧ ys = front ++ y :: back

theorem DiffersOnce.append_left (h : DiffersOnce xs ys) (before : List α) :
    DiffersOnce (before ++ xs) (before ++ ys) := by
  obtain ⟨front, x, y, back, hne, rfl, rfl⟩ := h
  exact ⟨before ++ front, x, y, back, hne, (List.append_assoc ..).symm, (List.append_assoc ..).symm⟩

theorem DiffersOnce.append_right (h : DiffersOnce xs ys) (after : List α) :
    DiffersOnce (xs ++ after) (ys ++ after) := by
  obtain ⟨front, x, y, back, hne, rfl, rfl⟩ := h
  exact ⟨front, x, y, back ++ after, hne, List.append_assoc .., List.append_assoc ..⟩

theorem foldl_injective (hstate : ∀ x, Function.Injective fun s => step s x) (xs : List α) :
    Function.Injective fun s => xs.foldl step s := by
  induction xs with
  | nil => exact fun _ _ h => h
  | cons x xs ih => exact ih.comp (hstate x)

/-- Steps that lose neither the state nor the element keep sequences apart that differ once. -/
theorem foldl_ne (hstate : ∀ x, Function.Injective fun s => step s x)
    (helement : ∀ s, Function.Injective (step s)) (h : DiffersOnce xs ys) (s : σ) :
    xs.foldl step s ≠ ys.foldl step s := by
  obtain ⟨front, x, y, back, hne, rfl, rfl⟩ := h
  rw [List.foldl_append, List.foldl_append, List.foldl_cons, List.foldl_cons]
  intro hsame
  exact hne (helement _ (foldl_injective hstate back hsame))

end Cote3Mon.Absorb
