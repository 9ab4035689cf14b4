import Mathlib

inductive LabelledTree (ι : Type) where
  | leaf (n : ι)
  | split (n : ι) (left right : LabelledTree ι)

namespace LabelledTree

variable {ι : Type}

def root : LabelledTree ι → ι
  | leaf n => n
  | split n _ _ => n

def size : LabelledTree ι → ℕ
  | leaf _ => 1
  | split _ left right => left.size + right.size + 1

/-- The nodes below a root at distance `d`, each with its distance; the right subtree comes
first, as a stack returns it. -/
def levels (d : ℕ) : LabelledTree ι → List (ι × ℕ)
  | leaf n => [(n, d)]
  | split n left right => (n, d) :: (right.levels (d + 1) ++ left.levels (d + 1))

def labels : LabelledTree ι → List ι
  | leaf n => [n]
  | split n left right => n :: (right.labels ++ left.labels)

def Distinct (t : LabelledTree ι) : Prop := t.labels.Nodup

def descend (goesLeft : ι → Bool) : LabelledTree ι → ι
  | leaf n => n
  | split n left right =>
    if goesLeft n then left.descend goesLeft else right.descend goesLeft

def leafDepth (goesLeft : ι → Bool) : LabelledTree ι → ℕ
  | leaf _ => 0
  | split n left right =>
    (if goesLeft n then left.leafDepth goesLeft else right.leafDepth goesLeft) + 1

/-- On the way that the first test takes, the second one takes the same turns. -/
def SameTurns (g h : ι → Bool) : LabelledTree ι → Prop
  | leaf _ => True
  | split n left right => g n = h n ∧ if g n then left.SameTurns g h else right.SameTurns g h

variable {t left right : LabelledTree ι} {n : ι} {g h : ι → Bool}

@[simp] theorem levels_labels (t : LabelledTree ι) (d : ℕ) :
    (t.levels d).map Prod.fst = t.labels := by
  induction t generalizing d with
  | leaf n => rfl
  | split n left right ihl ihr =>
    rw [levels, List.map_cons, List.map_append, ihl, ihr, labels]

theorem labels_length (t : LabelledTree ι) : t.labels.length = t.size := by
  induction t with
  | leaf n => rfl
  | split n left right ihl ihr =>
    rw [labels, List.length_cons, List.length_append, ihl, ihr, size]
    omega

theorem root_mem (t : LabelledTree ι) : t.root ∈ t.labels := by
  cases t with
  | leaf n => exact List.mem_cons_self
  | split n left right => exact List.mem_cons_self

theorem descend_mem (g : ι → Bool) (t : LabelledTree ι) : t.descend g ∈ t.labels := by
  induction t with
  | leaf n => exact List.mem_cons_self
  | split n left right ihl ihr =>
    rw [descend, labels]
    split_ifs
    · exact List.mem_cons_of_mem _ (List.mem_append_right _ ihl)
    · exact List.mem_cons_of_mem _ (List.mem_append_left _ ihr)

/-- Tests that agree on the nodes lead to the same leaf. -/
theorem descend_congr (hgh : ∀ n ∈ t.labels, g n = h n) : t.descend g = t.descend h := by
  induction t with
  | leaf n => rfl
  | split n left right ihl ihr =>
    rw [descend, descend, hgh n List.mem_cons_self,
      ihl fun m hm => hgh m (List.mem_cons_of_mem _ (List.mem_append_right _ hm)),
      ihr fun m hm => hgh m (List.mem_cons_of_mem _ (List.mem_append_left _ hm))]

/-- The leaf is found at its depth. -/
theorem descend_levels (g : ι → Bool) (t : LabelledTree ι) (d : ℕ) :
    (t.descend g, d + t.leafDepth g) ∈ t.levels d := by
  induction t generalizing d with
  | leaf n => exact List.mem_cons_self
  | split n left right ihl ihr =>
    rw [descend, leafDepth, levels]
    apply List.mem_cons_of_mem
    split_ifs
    · rw [← add_assoc, Nat.add_right_comm]
      exact List.mem_append_right _ (ihl (d + 1))
    · rw [← add_assoc, Nat.add_right_comm]
      exact List.mem_append_left _ (ihr (d + 1))

theorem distinct_split (ht : (split n left right).Distinct) :
    left.Distinct ∧ right.Distinct ∧ ∀ a ∈ left.labels, ∀ b ∈ right.labels, a ≠ b := by
  have hrest := (List.nodup_cons.mp ht).2
  obtain ⟨hright, hleft, hdisjoint⟩ := List.nodup_append.mp hrest
  exact ⟨hleft, hright, fun a ha b hb hab => hdisjoint b hb a ha hab.symm⟩

/-- Two tests lead to the same leaf exactly when they take the same turns. -/
theorem descend_eq_iff (ht : t.Distinct) : t.descend g = t.descend h ↔ t.SameTurns g h := by
  induction t with
  | leaf n => exact iff_of_true rfl trivial
  | split n left right ihl ihr =>
    obtain ⟨hleft, hright, hdisjoint⟩ := distinct_split ht
    have hl := hdisjoint _ (descend_mem g left) _ (descend_mem h right)
    have hr := hdisjoint _ (descend_mem h left) _ (descend_mem g right)
    rw [descend, descend, SameTurns]
    cases hg : g n with
    | true =>
      cases hh : h n with
      | true => simpa using ihl hleft
      | false => simpa using hl
    | false =>
      cases hh : h n with
      | true => simpa using hr.symm
      | false => simpa using ihr hright

end LabelledTree
