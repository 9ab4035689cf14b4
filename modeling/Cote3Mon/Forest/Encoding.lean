import Cote3Mon.Forest.Runtime
import Cote3Mon.Lib.LabelledTree

namespace Cote3Mon.Forest
open Python

section

variable {α : Type} {xs : List α} {n : ℕ} {x : α}

theorem item_some (h : xs[n]? = some x) : item xs n = .ok x := by
  have hn : ¬ (n : ℤ) < 0 := by omega
  simp only [item, if_neg hn, Int.toNat_natCast, h]

theorem item_getD (h : n < xs.length) (d : α) : item xs n = .ok (xs.getD n d) := by
  apply item_some
  rw [List.getD_eq_getElem?_getD, List.getElem?_eq_getElem h, Option.getD_some]

theorem setItem_lt (h : n < xs.length) (x : α) : setItem xs n x = .ok (xs.set n x) := by
  have hn : ¬ (n : ℤ) < 0 := by omega
  have hrange : ¬ ((n : ℤ) < 0 ∨ (xs.length : ℤ) ≤ n) := by omega
  simp only [setItem, if_neg hn, if_neg hrange, Int.toNat_natCast]

def InRange (xs : List α) (i : ℤ) : Prop := 0 ≤ i ∧ i < xs.length

end

@[simp] theorem raising_ok {α : Type} (a : α) : raising (.ok a) = .ok a := rfl

/-- The arrays hold the tree: a leaf has no children, an inner node has the roots of its subtrees
and a feature of the row. -/
def Encodes (tree : SklearnTree) (featureMap : List ℤ) (featureCount : ℕ) :
    LabelledTree ℕ → Prop
  | .leaf n => tree.childrenLeft[n]? = some (-1) ∧ tree.childrenRight[n]? = some (-1)
  | .split n left right =>
    tree.childrenLeft[n]? = some (left.root : ℤ) ∧ tree.childrenRight[n]? = some (right.root : ℤ) ∧
      (∃ localFeature sourceFeature : ℕ, tree.feature[n]? = some (localFeature : ℤ) ∧
        featureMap[localFeature]? = some (sourceFeature : ℤ) ∧ sourceFeature < featureCount) ∧
      Encodes tree featureMap featureCount left ∧ Encodes tree featureMap featureCount right

/-- A tree of a fitted forest.  The nodes of the encoded tree are the indices of the arrays, each
once: node 0 is the root and every other node has one parent. -/
structure FittedTree (featureCount : ℕ) where
  tree : SklearnTree
  featureMap : List ℤ
  shape : LabelledTree ℕ
  root : shape.root = 0
  nodes : shape.labels.Perm (List.range tree.nodeCount)
  encodes : Encodes tree featureMap featureCount shape
  left_length : tree.childrenLeft.length = tree.nodeCount
  right_length : tree.childrenRight.length = tree.nodeCount
  feature_length : tree.feature.length = tree.nodeCount
  threshold_length : tree.threshold.length = tree.nodeCount
  samples_length : tree.nNodeSamples.length = tree.nodeCount

namespace FittedTree

variable {featureCount : ℕ} (ft : FittedTree featureCount)

def estimator : SklearnTree × List ℤ := (ft.tree, ft.featureMap)

theorem distinct : ft.shape.Distinct := ft.nodes.nodup_iff.mpr List.nodup_range

theorem size_eq : ft.shape.size = ft.tree.nodeCount := by
  rw [← LabelledTree.labels_length, ft.nodes.length_eq, List.length_range]

theorem lt_nodeCount {n : ℕ} (h : n ∈ ft.shape.labels) : n < ft.tree.nodeCount :=
  List.mem_range.mp (ft.nodes.mem_iff.mp h)

def tested (values : List ℚ) (n : ℕ) : ℚ :=
  values.getD (ft.featureMap.getD (ft.tree.feature.getD n 0).toNat 0).toNat 0

def thresholdAt (n : ℕ) : ℚ := ft.tree.threshold.getD n 0

def goesLeft (values : List ℚ) (n : ℕ) : Bool := ft.tested values n ≤ ft.thresholdAt n

def leaf (values : List ℚ) : ℕ := ft.shape.descend (ft.goesLeft values)

theorem leaf_mem (values : List ℚ) : ft.leaf values ∈ ft.shape.labels :=
  LabelledTree.descend_mem _ _

end FittedTree

/-- The assignments of the loop for the nodes it visits. -/
def assign (depths : List ℤ) (visits : List (ℕ × ℕ)) : List ℤ :=
  visits.foldl (fun depths visit => depths.set visit.1 visit.2) depths

theorem assign_length (depths : List ℤ) (visits : List (ℕ × ℕ)) :
    (assign depths visits).length = depths.length := by
  induction visits generalizing depths with
  | nil => rfl
  | cons visit visits ih => exact (ih _).trans List.length_set

theorem assign_append (depths : List ℤ) (first second : List (ℕ × ℕ)) :
    assign depths (first ++ second) = assign (assign depths first) second :=
  List.foldl_append

theorem assign_other {depths : List ℤ} {visits : List (ℕ × ℕ)} {n : ℕ}
    (h : n ∉ visits.map Prod.fst) : (assign depths visits)[n]? = depths[n]? := by
  induction visits generalizing depths with
  | nil => rfl
  | cons visit visits ih =>
    rw [List.map_cons, List.mem_cons, not_or] at h
    exact (ih h.2).trans (List.getElem?_set_ne (Ne.symm h.1))

/-- A node that is visited once keeps the depth of its visit. -/
theorem assign_visited {depths : List ℤ} {visits : List (ℕ × ℕ)} {n d : ℕ}
    (hnodup : (visits.map Prod.fst).Nodup) (hmem : (n, d) ∈ visits) (hlt : n < depths.length) :
    (assign depths visits)[n]? = some (d : ℤ) := by
  induction visits generalizing depths with
  | nil => cases hmem
  | cons visit visits ih =>
    obtain ⟨hfirst, hrest⟩ := List.nodup_cons.mp hnodup
    rcases List.mem_cons.mp hmem with rfl | hmem
    · exact (assign_other hfirst).trans (List.getElem?_set_self hlt)
    · exact ih hrest hmem (by rwa [List.length_set])

variable {featureCount : ℕ} {tree : SklearnTree} {featureMap : List ℤ}

/-- A subtree on top of the stack is visited node by node, and then the rest of the stack. -/
theorem depthLoop_subtree (t : LabelledTree ℕ) (ht : Encodes tree featureMap featureCount t)
    (fuel : ℕ) (d : ℕ) (stack : List (ℤ × ℤ)) (depths visited : List ℤ)
    (hlt : ∀ n ∈ t.labels, n < depths.length) :
    depthLoop tree (t.size + fuel) (((t.root : ℤ), (d : ℤ)) :: stack) depths visited =
      depthLoop tree fuel stack (assign depths (t.levels d))
        (visited ++ t.labels.map fun n : ℕ => (n : ℤ)) := by
  induction t generalizing fuel d stack depths visited with
  | leaf n =>
    have hset := setItem_lt (hlt n List.mem_cons_self) (d : ℤ)
    rw [LabelledTree.size, Nat.add_comm, depthLoop, LabelledTree.root, hset, raising_ok, ok_bind,
      item_some ht.1, raising_ok, ok_bind, if_neg (by simp)]
    rfl
  | split n left right ihl ihr =>
    obtain ⟨hleft, hright, -, hleftEncodes, hrightEncodes⟩ := ht
    have hset := setItem_lt (hlt n List.mem_cons_self) (d : ℤ)
    have hne : (left.root : ℤ) ≠ -1 := by omega
    have hltRight : ∀ m ∈ right.labels, m < (depths.set n (d : ℤ)).length := fun m hm => by
      rw [List.length_set]
      exact hlt m (List.mem_cons_of_mem _ (List.mem_append_left _ hm))
    have hltLeft : ∀ m ∈ left.labels,
        m < (assign (depths.set n (d : ℤ)) (right.levels (d + 1))).length := fun m hm => by
      rw [assign_length, List.length_set]
      exact hlt m (List.mem_cons_of_mem _ (List.mem_append_right _ hm))
    have hsize : (LabelledTree.split n left right).size + fuel =
        right.size + (left.size + fuel) + 1 := by
      rw [LabelledTree.size]
      omega
    rw [hsize, depthLoop, LabelledTree.root, hset, raising_ok, ok_bind, item_some hleft, raising_ok,
      ok_bind, if_pos hne, item_some hright, raising_ok, ok_bind,
      show ((d : ℤ) + 1) = ((d + 1 : ℕ) : ℤ) from rfl]
    -- the right child was pushed last, so its subtree comes first
    rw [ihr hrightEncodes _ _ _ _ _ hltRight, ihl hleftEncodes _ _ _ _ _ hltLeft,
      ← assign_append, List.append_assoc, List.append_assoc, LabelledTree.levels,
      LabelledTree.labels, List.map_cons, List.map_append]
    rfl

/-- **The stack loop** visits every node once and sets its distance from the root. -/
theorem depthLoop_spec (ft : FittedTree featureCount) :
    ∃ depths visited, (∀ fuel, ft.tree.nodeCount ≤ fuel →
        depthLoop ft.tree fuel [(0, 0)] (initialDepths ft.tree) [] = .ok (depths, visited)) ∧
      visited.Perm ((List.range ft.tree.nodeCount).map fun n : ℕ => (n : ℤ)) ∧
      depths.length = ft.tree.nodeCount ∧
      ∀ n d, (n, d) ∈ ft.shape.levels 0 → depths[n]? = some (d : ℤ) := by
  have hlength : (initialDepths ft.tree).length = ft.tree.nodeCount := List.length_replicate
  have hlt : ∀ n ∈ ft.shape.labels, n < (initialDepths ft.tree).length := fun n hn => by
    rw [hlength]
    exact ft.lt_nodeCount hn
  refine ⟨assign (initialDepths ft.tree) (ft.shape.levels 0),
    ft.shape.labels.map fun n : ℕ => (n : ℤ), fun fuel hfuel => ?_, ft.nodes.map _, ?_,
    fun n d hmem => ?_⟩
  · have hloop := depthLoop_subtree ft.shape ft.encodes (fuel - ft.shape.size) 0 []
      (initialDepths ft.tree) [] hlt
    rw [Nat.add_sub_cancel' (ft.size_eq.trans_le hfuel), ft.root] at hloop
    refine hloop.trans ?_
    rw [depthLoop, List.nil_append]
  · rw [assign_length, hlength]
  · have hnodup : ((ft.shape.levels 0).map Prod.fst).Nodup := by
      rw [LabelledTree.levels_labels]
      exact ft.distinct
    have hlabel : n ∈ ft.shape.labels := by
      rw [← LabelledTree.levels_labels ft.shape 0]
      exact List.mem_map_of_mem hmem
    exact assign_visited hnodup hmem (hlt n hlabel)

end Cote3Mon.Forest
