import Mathlib

namespace Grouping

variable {α κ : Type} [DecidableEq κ]

/-- `buckets[k].append(x)`, with a new list where `k` has none. -/
def place (k : κ) (x : α) : List (κ × List α) → List (κ × List α)
  | [] => [(k, [x])]
  | (j, items) :: rest =>
    if j = k then (j, items ++ [x]) :: rest else (j, items) :: place k x rest

def group (key : α → κ) (xs : List α) : List (κ × List α) :=
  xs.foldl (fun buckets x => place (key x) x buckets) []

def keys (buckets : List (κ × List α)) : List κ := buckets.map Prod.fst

variable {key : α → κ} {buckets : List (κ × List α)} {k j : κ} {x : α} {items : List α}

omit [DecidableEq κ] in
theorem mem_keys (h : (k, items) ∈ buckets) : k ∈ keys buckets :=
  List.mem_map_of_mem h

theorem keys_place : keys (place k x buckets) =
    if k ∈ keys buckets then keys buckets else keys buckets ++ [k] := by
  induction buckets with
  | nil => rfl
  | cons bucket rest ih =>
    obtain ⟨j, items⟩ := bucket
    rw [place]
    by_cases hj : j = k
    · rw [if_pos hj, if_pos (by rw [hj]; exact List.mem_cons_self)]
      rfl
    · rw [if_neg hj]
      have hmem : k ∈ keys ((j, items) :: rest) ↔ k ∈ keys rest := by
        rw [keys, List.map_cons, List.mem_cons, or_iff_right (Ne.symm hj)]
        rfl
      change j :: keys (place k x rest) = _
      simp only [ih, hmem]
      split_ifs <;> rfl

theorem nodup_place (h : (keys buckets).Nodup) : (keys (place k x buckets)).Nodup := by
  rw [keys_place]
  split_ifs with hk
  · exact h
  · rw [← List.concat_eq_append]
    exact h.concat hk

/-- The other groups stay, and the group of the key has one item more. -/
theorem mem_place (h : (keys buckets).Nodup) : (j, items) ∈ place k x buckets ↔
    if j = k then ∃ old, items = old ++ [x] ∧
      ((k, old) ∈ buckets ∨ k ∉ keys buckets ∧ old = [])
    else (j, items) ∈ buckets := by
  induction buckets with
  | nil =>
    rw [place, List.mem_singleton, Prod.mk.injEq]
    split_ifs with hj
    · simp [hj, keys]
    · simp [hj]
  | cons bucket rest ih =>
    obtain ⟨i, group⟩ := bucket
    change (i :: keys rest).Nodup at h
    rw [List.nodup_cons] at h
    rw [place]
    by_cases hi : i = k
    · subst hi
      rw [if_pos rfl, List.mem_cons, Prod.mk.injEq]
      split_ifs with hj
      · subst hj
        have hnot : ∀ old, (j, old) ∉ rest := fun old hold => h.1 (mem_keys hold)
        simp [hnot, keys]
      · simp [hj]
    · rw [if_neg hi, List.mem_cons, ih h.2, Prod.mk.injEq]
      split_ifs with hj
      · subst hj
        simp [Ne.symm hi, keys]
      · simp

theorem group_append (key : α → κ) (xs : List α) (x : α) :
    group key (xs ++ [x]) = place (key x) x (group key xs) := by
  rw [group, List.foldl_append]
  rfl

theorem nodup_group (key : α → κ) (xs : List α) : (keys (group key xs)).Nodup := by
  induction xs using List.reverseRecOn with
  | nil => exact List.nodup_nil
  | append_singleton xs x ih =>
    rw [group_append]
    exact nodup_place ih

theorem mem_keys_group {xs : List α} : k ∈ keys (group key xs) ↔ k ∈ xs.map key := by
  induction xs using List.reverseRecOn with
  | nil => exact Iff.rfl
  | append_singleton xs x ih =>
    rw [group_append, keys_place, List.map_append, List.mem_append, List.map_singleton,
      List.mem_singleton]
    split_ifs with hx
    · rw [ih]
      exact ⟨Or.inl, fun hor => hor.elim id fun heq => heq ▸ ih.mp (heq ▸ hx)⟩
    · rw [List.mem_append, ih, List.mem_singleton]

/-- The groups are the items of each key that occurs. -/
theorem mem_group {xs : List α} : (k, items) ∈ group key xs ↔
    k ∈ xs.map key ∧ items = xs.filter fun x => key x = k := by
  induction xs using List.reverseRecOn generalizing items with
  | nil => simp [group]
  | append_singleton xs x ih =>
    rw [group_append, mem_place (nodup_group key xs), mem_keys_group]
    simp only [ih, List.map_append, List.mem_append, List.map_singleton, List.mem_singleton,
      List.filter_append]
    split_ifs with hk
    · subst hk
      rw [List.filter_singleton, decide_eq_true rfl, cond_true]
      by_cases hold : key x ∈ xs.map key
      · simp [ih, hold]
      · have hnone : xs.filter (fun y => key y = key x) = [] := by
          rw [List.filter_eq_nil_iff]
          intro y hy heq
          exact hold (List.mem_map.mpr ⟨y, hy, by simpa using heq⟩)
        simp [ih, hold, hnone]
    · rw [List.filter_singleton, decide_eq_false (Ne.symm hk), cond_false, List.append_nil]
      simp [hk]

/-- Items of one key are one group. -/
theorem group_of_const {xs : List α} (h : ∀ x ∈ xs, key x = k) (hne : xs ≠ []) :
    group key xs = [(k, xs)] := by
  induction xs using List.reverseRecOn with
  | nil => exact absurd rfl hne
  | append_singleton xs x ih =>
    obtain ⟨hxs, hx⟩ := List.forall_mem_append.mp h
    rw [group_append, hx x List.mem_cons_self]
    by_cases hempty : xs = []
    · rw [hempty]
      rfl
    · rw [ih hxs hempty, place, if_pos rfl]

/-- The group of a key that occurs. -/
theorem lookup_group {xs : List α} (h : k ∈ xs.map key) :
    (group key xs).lookup k = some (xs.filter fun x => key x = k) := by
  have hmem : (k, xs.filter fun x => key x = k) ∈ group key xs := mem_group.mpr ⟨h, rfl⟩
  have hnodup := nodup_group key xs
  generalize group key xs = buckets at hmem hnodup
  induction buckets with
  | nil => exact absurd hmem List.not_mem_nil
  | cons bucket rest ih =>
    obtain ⟨j, items⟩ := bucket
    obtain ⟨hj, hrest⟩ := List.nodup_cons.mp (show (j :: keys rest).Nodup from hnodup)
    rw [List.lookup_cons]
    rcases List.mem_cons.mp hmem with heq | hmem
    · obtain ⟨rfl, rfl⟩ := Prod.mk.inj heq
      rw [beq_self_eq_true]
    · have hne : k ≠ j := fun heq => hj (heq ▸ mem_keys hmem)
      rw [beq_false_of_ne hne]
      exact ih hmem hrest

theorem flatMap_place : ((place k x buckets).flatMap Prod.snd).Perm
    (x :: buckets.flatMap Prod.snd) := by
  induction buckets with
  | nil => exact List.Perm.refl _
  | cons bucket rest ih =>
    obtain ⟨j, items⟩ := bucket
    rw [place, List.flatMap_cons]
    split_ifs with hj
    · rw [List.flatMap_cons, List.append_assoc, List.singleton_append]
      exact List.perm_middle
    · rw [List.flatMap_cons]
      exact (ih.append_left items).trans List.perm_middle

/-- The groups together are the list. -/
theorem flatMap_group (key : α → κ) (xs : List α) : ((group key xs).flatMap Prod.snd).Perm xs := by
  induction xs using List.reverseRecOn with
  | nil => exact List.Perm.refl _
  | append_singleton xs x ih =>
    rw [group_append]
    exact (flatMap_place.trans (ih.cons x)).trans (List.perm_append_singleton x xs).symm

/-- `sorted(buckets.items())`; the keys are distinct, so the lists are never compared. -/
def sortByKey [LinearOrder κ] (buckets : List (κ × List α)) : List (κ × List α) :=
  buckets.insertionSort fun a b => a.1 ≤ b.1

/-- What is counted group by group is counted in the whole list. -/
theorem sum_countP_group [LinearOrder κ] (key : α → κ) (xs : List α) (p : α → Bool) :
    ((sortByKey (group key xs)).map fun bucket => bucket.2.countP p).sum = xs.countP p := by
  have hsorted : (sortByKey (group key xs)).Perm (group key xs) := List.perm_insertionSort _ _
  rw [← ((hsorted.flatMap_right Prod.snd).trans (flatMap_group key xs)).countP_eq p,
    List.countP_flatMap]
  rfl

section

variable {ι : Type} [LinearOrder ι]

theorem mem_sortByKey {buckets : List (ι × List α)} {bucket : ι × List α} :
    bucket ∈ sortByKey buckets ↔ bucket ∈ buckets :=
  List.mem_insertionSort _

/-- The keys of the sorted groups increase strictly. -/
theorem sortByKey_pairwise {buckets : List (ι × List α)} (h : (buckets.map Prod.fst).Nodup) :
    (sortByKey buckets).Pairwise fun a b => a.1 < b.1 := by
  have hsorted : (sortByKey buckets).Pairwise fun a b => a.1 ≤ b.1 :=
    List.pairwise_insertionSort (fun a b : ι × List α => a.1 ≤ b.1) buckets
  have hperm := List.perm_insertionSort (fun a b : ι × List α => a.1 ≤ b.1) buckets
  have hnodup : (sortByKey buckets).Pairwise fun a b => a.1 ≠ b.1 :=
    List.pairwise_map.mp ((hperm.map Prod.fst).nodup_iff.mpr h)
  exact (hsorted.and hnodup).imp fun hab => lt_of_le_of_ne hab.1 hab.2

end

end Grouping
