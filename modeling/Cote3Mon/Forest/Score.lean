import Cote3Mon.Forest.Encoding

namespace Cote3Mon.Forest
open Python

variable {featureCount : ℕ} {ft : FittedTree featureCount} {tree : TreeModel} {values : List ℚ}

/-- The exported tree has the arrays of the fitted one.  The stack loop, with enough fuel, ends
after visiting every node once, and has set the distance of every node from the root. -/
structure IsExport (ft : FittedTree featureCount) (tree : TreeModel) : Prop where
  left : tree.left = ft.tree.childrenLeft
  right : tree.right = ft.tree.childrenRight
  feature : tree.feature = ft.tree.feature
  threshold : tree.threshold = ft.tree.threshold
  samples : tree.samples = ft.tree.nNodeSamples
  featureMap : tree.featureMap = ft.featureMap
  visits : ∃ visited, (∀ fuel, ft.tree.nodeCount ≤ fuel →
      depthLoop ft.tree fuel [(0, 0)] (initialDepths ft.tree) [] = .ok (tree.depth, visited)) ∧
    visited.Perm ((List.range ft.tree.nodeCount).map fun n : ℕ => (n : ℤ))
  depth_length : tree.depth.length = ft.tree.nodeCount
  depth : ∀ n d, (n, d) ∈ ft.shape.levels 0 → tree.depth[n]? = some (d : ℤ)

theorem exportTree_spec (ft : FittedTree featureCount) : ∃ tree, IsExport ft tree ∧
    ∀ fuel, ft.tree.nodeCount ≤ fuel → exportTree fuel ft.estimator = .ok tree := by
  obtain ⟨depths, visited, hloop, hvisited, hlength, hdepth⟩ := depthLoop_spec ft
  refine ⟨⟨ft.tree.childrenLeft, ft.tree.childrenRight, ft.tree.feature, ft.tree.threshold,
    ft.tree.nNodeSamples, depths, ft.featureMap⟩,
    ⟨rfl, rfl, rfl, rfl, rfl, rfl, ⟨visited, hloop, hvisited⟩, hlength, hdepth⟩,
      fun fuel hfuel => ?_⟩
  rw [exportTree, FittedTree.estimator]
  simp only [hloop fuel hfuel, ok_bind]
  rfl

/-- The test of an inner node of the exported tree. -/
theorem step_spec (h : IsExport ft tree) (hvalues : values.length = featureCount) {n : ℕ}
    {left right : LabelledTree ℕ} (hn : n < ft.tree.nodeCount)
    (ht : Encodes ft.tree ft.featureMap featureCount (.split n left right)) :
    step tree values n =
      .ok (if ft.goesLeft values n then (left.root : ℤ) else (right.root : ℤ)) := by
  obtain ⟨hleft, hright, ⟨localFeature, sourceFeature, hlocal, hsource, hlt⟩, -, -⟩ := ht
  have htested : ft.tested values n = values.getD sourceFeature 0 := by
    simp only [FittedTree.tested, List.getD_eq_getElem?_getD, hlocal, hsource, Option.getD_some,
      Int.toNat_natCast]
  have hvalue := item_getD (hvalues ▸ hlt : sourceFeature < values.length) 0
  have hthreshold := item_getD (ft.threshold_length ▸ hn : n < ft.tree.threshold.length) 0
  rw [step, h.feature, item_some hlocal, ok_bind, h.featureMap, item_some hsource, ok_bind, hvalue,
    ok_bind, h.threshold, hthreshold, ok_bind, h.left, h.right, item_some hleft, item_some hright]
  simp only [FittedTree.goesLeft, htested, FittedTree.thresholdAt, decide_eq_true_eq]
  split_ifs <;> rfl

/-- From the root of a subtree the loop ends in the leaf of its recursive definition. -/
theorem descend_subtree (h : IsExport ft tree) (hvalues : values.length = featureCount)
    (t : LabelledTree ℕ) (ht : Encodes ft.tree ft.featureMap featureCount t)
    (hlt : ∀ n ∈ t.labels, n < ft.tree.nodeCount) {fuel : ℕ} (hfuel : t.size ≤ fuel) :
    descend tree values fuel t.root = .ok ((t.descend (ft.goesLeft values) : ℕ) : ℤ) := by
  induction t generalizing fuel with
  | leaf n =>
    obtain ⟨fuel, rfl⟩ := Nat.exists_eq_succ_of_ne_zero (n := fuel) (by
      rw [LabelledTree.size] at hfuel
      omega)
    rw [descend, LabelledTree.root, h.left, item_some ht.1, raising_ok, ok_bind, if_neg (by simp)]
    rfl
  | split n left right ihl ihr =>
    rw [LabelledTree.size] at hfuel
    obtain ⟨fuel, rfl⟩ := Nat.exists_eq_succ_of_ne_zero (n := fuel) (by omega)
    have hstep := step_spec h hvalues (hlt n List.mem_cons_self) ht
    obtain ⟨hleft, -, -, hleftEncodes, hrightEncodes⟩ := ht
    have hne : (left.root : ℤ) ≠ -1 := by omega
    rw [descend, LabelledTree.root, h.left, item_some hleft, raising_ok, ok_bind, if_pos hne, hstep,
      raising_ok, ok_bind, LabelledTree.descend]
    split_ifs
    · exact ihl hleftEncodes (fun m hm => hlt m
        (List.mem_cons_of_mem _ (List.mem_append_right _ hm))) (by omega)
    · exact ihr hrightEncodes (fun m hm => hlt m
        (List.mem_cons_of_mem _ (List.mem_append_left _ hm))) (by omega)

theorem descend_leaf (h : IsExport ft tree) (hvalues : values.length = featureCount) {fuel : ℕ}
    (hfuel : ft.tree.nodeCount ≤ fuel) :
    descend tree values fuel 0 = .ok (ft.leaf values : ℤ) := by
  have hloop := descend_subtree h hvalues ft.shape ft.encodes (fun n hn => ft.lt_nodeCount hn)
    (ft.size_eq.trans_le hfuel)
  rwa [ft.root] at hloop

/-- The nodes that the loop comes to. -/
inductive Visits (tree : TreeModel) (values : List ℚ) : ℤ → Prop
  | root : Visits tree values 0
  | next {node left child : ℤ} : Visits tree values node → item tree.left node = .ok left →
      left ≠ -1 → step tree values node = .ok child → Visits tree values child

/-- Every list that the loop or the path length indexes with the node has it. -/
structure InBounds (tree : TreeModel) (values : List ℚ) (node : ℤ) : Prop where
  left : InRange tree.left node
  right : InRange tree.right node
  feature : InRange tree.feature node
  threshold : InRange tree.threshold node
  depth : InRange tree.depth node
  samples : InRange tree.samples node
  localFeature : ∀ left i, item tree.left node = .ok left → left ≠ -1 →
    item tree.feature node = .ok i → InRange tree.featureMap i
  sourceFeature : ∀ left i j, item tree.left node = .ok left → left ≠ -1 →
    item tree.feature node = .ok i → item tree.featureMap i = .ok j → InRange values j

/-- The loop only comes to roots of subtrees. -/
theorem visits_subtree (h : IsExport ft tree) (hvalues : values.length = featureCount) {node : ℤ}
    (hvisit : Visits tree values node) : ∃ t : LabelledTree ℕ, node = t.root ∧
      Encodes ft.tree ft.featureMap featureCount t ∧ ∀ n ∈ t.labels, n < ft.tree.nodeCount := by
  induction hvisit with
  | root => exact ⟨ft.shape, by rw [ft.root]; rfl, ft.encodes, fun n hn => ft.lt_nodeCount hn⟩
  | next _ hleft hne hstep ih =>
    obtain ⟨t, rfl, ht, hlt⟩ := ih
    cases t with
    | leaf n =>
      rw [LabelledTree.root, h.left, item_some ht.1] at hleft
      exact absurd (Except.ok.inj hleft).symm hne
    | split n left right =>
      rw [LabelledTree.root, step_spec h hvalues (hlt n List.mem_cons_self) ht] at hstep
      rw [← Except.ok.inj hstep]
      split_ifs
      · exact ⟨left, rfl, ht.2.2.2.1, fun m hm => hlt m
          (List.mem_cons_of_mem _ (List.mem_append_right _ hm))⟩
      · exact ⟨right, rfl, ht.2.2.2.2, fun m hm => hlt m
          (List.mem_cons_of_mem _ (List.mem_append_left _ hm))⟩

theorem visits_inBounds (h : IsExport ft tree) (hvalues : values.length = featureCount) {node : ℤ}
    (hvisit : Visits tree values node) : InBounds tree values node := by
  obtain ⟨t, rfl, ht, hlt⟩ := visits_subtree h hvalues hvisit
  have hroot : t.root < ft.tree.nodeCount := hlt _ t.root_mem
  have hin : ∀ {α : Type} {xs : List α}, xs.length = ft.tree.nodeCount → InRange xs t.root :=
    fun hxs => ⟨by omega, by rw [hxs]; omega⟩
  refine ⟨hin (by rw [h.left, ft.left_length]), hin (by rw [h.right, ft.right_length]),
    hin (by rw [h.feature, ft.feature_length]), hin (by rw [h.threshold, ft.threshold_length]),
    hin h.depth_length, hin (by rw [h.samples, ft.samples_length]), ?_, ?_⟩
  · intro left i hleft hne hi
    cases t with
    | leaf n =>
      rw [LabelledTree.root, h.left, item_some ht.1] at hleft
      exact absurd (Except.ok.inj hleft).symm hne
    | split n l r =>
      obtain ⟨-, -, ⟨localFeature, sourceFeature, hlocal, hsource, -⟩, -, -⟩ := ht
      rw [LabelledTree.root, h.feature, item_some hlocal] at hi
      rw [← Except.ok.inj hi, h.featureMap]
      have hlength := (List.getElem?_eq_some_iff.mp hsource).1
      exact ⟨by omega, by omega⟩
  · intro left i j hleft hne hi hj
    cases t with
    | leaf n =>
      rw [LabelledTree.root, h.left, item_some ht.1] at hleft
      exact absurd (Except.ok.inj hleft).symm hne
    | split n l r =>
      obtain ⟨-, -, ⟨localFeature, sourceFeature, hlocal, hsource, hcount⟩, -, -⟩ := ht
      rw [LabelledTree.root, h.feature, item_some hlocal] at hi
      rw [← Except.ok.inj hi, h.featureMap, item_some hsource] at hj
      rw [← Except.ok.inj hj]
      exact ⟨by omega, by rw [hvalues]; omega⟩

def FittedTree.leafDepth (ft : FittedTree featureCount) (values : List ℚ) : ℕ :=
  ft.shape.leafDepth (ft.goesLeft values)

noncomputable def FittedTree.path (ft : FittedTree featureCount) (values : List ℚ) : ℝ :=
  ft.leafDepth values + averagePathLength (ft.tree.nNodeSamples.getD (ft.leaf values) 0)

noncomputable def forestScore (forest : List (FittedTree featureCount)) (maxSamples : ℤ)
    (values : List ℚ) : ℝ :=
  if averagePathLength maxSamples = 0 then 1
  else powerOfTwo (-(forest.map fun ft => ft.path values).sum /
    (forest.length * averagePathLength maxSamples))

def Enough (forest : List (FittedTree featureCount)) (fuel : ℕ) : Prop :=
  ∀ ft ∈ forest, ft.tree.nodeCount ≤ fuel

theorem pathLength_spec (h : IsExport ft tree) (hvalues : values.length = featureCount) {fuel : ℕ}
    (hfuel : ft.tree.nodeCount ≤ fuel) : pathLength tree values fuel = .ok (ft.path values) := by
  have hdepth := h.depth (ft.leaf values) (ft.leafDepth values) (by
    have hlevels := LabelledTree.descend_levels (ft.goesLeft values) ft.shape 0
    rwa [Nat.zero_add] at hlevels)
  have hleaf : ft.leaf values < ft.tree.nNodeSamples.length := by
    rw [ft.samples_length]
    exact ft.lt_nodeCount (ft.leaf_mem values)
  rw [pathLength, descend_leaf h hvalues hfuel, ok_bind, item_some hdepth, raising_ok, ok_bind,
    h.samples, item_getD hleaf 0, raising_ok, ok_bind, FittedTree.path]
  push_cast
  rfl

/-- The sum over the trees, where each of them adds its path length. -/
theorem sum_pathLengths {trees : List TreeModel} {paths : List ℝ} {fuel : ℕ}
    (h : List.Forall₂ (fun tree path => pathLength tree values fuel = .ok path) trees paths)
    (total : ℝ) :
    trees.foldlM (fun total tree => do return total + (← pathLength tree values fuel)) total =
      (.ok (total + paths.sum) : Loop ℝ) := by
  induction h generalizing total with
  | nil =>
    rw [List.sum_nil, add_zero]
    rfl
  | cons hfirst _ ih =>
    rw [List.foldlM_cons, hfirst, ok_bind, pure_bind, ih, List.sum_cons, add_assoc]

section Exported
variable {forest : List (FittedTree featureCount)} {trees : List TreeModel} {fuel : ℕ}

theorem forall_paths (h : List.Forall₂ IsExport forest trees)
    (hvalues : values.length = featureCount)
    (hfuel : Enough forest fuel) :
    List.Forall₂ (fun tree path => pathLength tree values fuel = .ok path) trees
      (forest.map fun ft => ft.path values) := by
  induction h with
  | nil => exact List.Forall₂.nil
  | cons hfirst _ ih =>
    obtain ⟨hfuelFirst, hfuelRest⟩ := List.forall_mem_cons.mp hfuel
    exact List.Forall₂.cons (pathLength_spec hfirst hvalues hfuelFirst) (ih hfuelRest)

/-- The runtime of the exported trees returns the score of the formula. -/
theorem score_export {features : List String} {threshold : ℝ} {maxSamples : ℤ}
    {row : String → Except Exc ℚ} (hexports : List.Forall₂ IsExport forest trees)
    (hforest : forest ≠ []) (hrow : features.mapM row = .ok values)
    (hvalues : values.length = featureCount) (hfuel : Enough forest fuel) :
    IsolationForestRuntime.score ⟨features, threshold, maxSamples, trees⟩ fuel row =
      .ok (forestScore forest maxSamples values) := by
  have hlength : (forest.length : ℝ) ≠ 0 := by
    rw [Nat.cast_ne_zero]
    exact List.length_pos_iff.mpr hforest |>.ne'
  rw [IsolationForestRuntime.score, hrow, raising_ok, ok_bind,
    sum_pathLengths (forall_paths hexports hvalues hfuel), ok_bind, zero_add, forestScore,
    ← hexports.length_eq]
  simp only [mul_eq_zero, hlength, false_or]
  rfl

end Exported

theorem descend_leaves {forest : List (FittedTree featureCount)} {trees : List TreeModel}
    (h : List.Forall₂ IsExport forest trees) (hvalues : values.length = featureCount) {fuel : ℕ}
    (hfuel : Enough forest fuel) :
    List.Forall₂ (fun ft tree => descend tree values fuel 0 = .ok (ft.leaf values : ℤ))
      forest trees := by
  induction h with
  | nil => exact List.Forall₂.nil
  | cons hfirst _ ih =>
    obtain ⟨hfuelFirst, hfuelRest⟩ := List.forall_mem_cons.mp hfuel
    exact List.Forall₂.cons (descend_leaf hfirst hvalues hfuelFirst) (ih hfuelRest)

theorem exists_fitted_mem {forest : List (FittedTree featureCount)} {trees : List TreeModel}
    (h : List.Forall₂ IsExport forest trees) (htree : tree ∈ trees) :
    ∃ ft ∈ forest, IsExport ft tree := by
  induction h with
  | nil => cases htree
  | cons hfirst _ ih =>
    rcases List.mem_cons.mp htree with rfl | hlater
    · exact ⟨_, List.mem_cons_self, hfirst⟩
    · obtain ⟨ft, hft, hexport⟩ := ih hlater
      exact ⟨ft, List.mem_cons_of_mem _ hft, hexport⟩

theorem mapM_exportTree (forest : List (FittedTree featureCount)) :
    ∃ trees, List.Forall₂ IsExport forest trees ∧ ∀ fuel, Enough forest fuel →
      (forest.map FittedTree.estimator).mapM (exportTree fuel) = .ok trees := by
  induction forest with
  | nil => exact ⟨[], List.Forall₂.nil, fun _ _ => rfl⟩
  | cons ft forest ih =>
    obtain ⟨trees, hexports, htrees⟩ := ih
    obtain ⟨tree, hexport, htree⟩ := exportTree_spec ft
    refine ⟨tree :: trees, List.Forall₂.cons hexport hexports, fun fuel hfuel => ?_⟩
    obtain ⟨hfirst, hrest⟩ := List.forall_mem_cons.mp hfuel
    rw [List.map_cons, List.mapM_cons, htree fuel hfirst, ok_bind, htrees fuel hrest, ok_bind]
    rfl

/-- With enough fuel the export returns the exported trees and the percentile of the scores. -/
theorem exists_export (features : List String) (forest : List (FittedTree features.length))
    (maxSamples seed : ℤ) (validationScores : List ℝ) (falsePositiveRate : ℚ)
    (hscores : validationScores ≠ []) (hrate : 0 < falsePositiveRate ∧ falsePositiveRate < 1) :
    ∃ trees, List.Forall₂ IsExport forest trees ∧ ∀ fuel, Enough forest fuel →
      exportIsolationForest fuel ⟨forest.map FittedTree.estimator, maxSamples⟩ validationScores
        falsePositiveRate seed features = .ok ⟨modelSchema, features, maxSamples,
          Features.percentile validationScores (1 - falsePositiveRate), seed, trees⟩ := by
  obtain ⟨trees, hexports, htrees⟩ := mapM_exportTree forest
  refine ⟨trees, hexports, fun fuel hfuel => ?_⟩
  rw [exportIsolationForest, if_neg (not_not.mpr hrate), if_neg hscores, htrees fuel hfuel]
  rfl

theorem init_export {features : List String} {maxSamples seed : ℤ} {threshold : ℝ}
    {trees : List TreeModel} (hne : trees ≠ []) :
    IsolationForestRuntime.init ⟨modelSchema, features, maxSamples, threshold, seed, trees⟩ =
      .ok ⟨features, threshold, maxSamples, trees⟩ := by
  rw [IsolationForestRuntime.init, if_neg (by simp), if_neg hne]

/-- **The exported forest.**  The stack loop of the export visits every node of every tree once
and sets its distance from the root.  On every row the runtime indexes only inside the lists, ends
in the leaf of the recursive definition in every tree, and returns the score of the formula. -/
theorem exported_forest_correct (features : List String)
    (forest : List (FittedTree features.length)) (maxSamples seed : ℤ) (validationScores : List ℝ)
    (falsePositiveRate : ℚ) (hforest : forest ≠ []) (hscores : validationScores ≠ [])
    (hrate : 0 < falsePositiveRate ∧ falsePositiveRate < 1) :
    ∃ model rt, (∀ fuel, Enough forest fuel →
        exportIsolationForest fuel ⟨forest.map FittedTree.estimator, maxSamples⟩ validationScores
          falsePositiveRate seed features = .ok model) ∧
      IsolationForestRuntime.init model = .ok rt ∧
      List.Forall₂ IsExport forest model.trees ∧
      ∀ row values, features.mapM row = .ok values →
        (∀ tree ∈ model.trees, ∀ node, Visits tree values node → InBounds tree values node) ∧
        ∀ fuel, Enough forest fuel →
          List.Forall₂ (fun ft tree => descend tree values fuel 0 = .ok (ft.leaf values : ℤ))
            forest model.trees ∧
          rt.score fuel row = .ok (forestScore forest maxSamples values) := by
  obtain ⟨trees, hexports, htrees⟩ := exists_export features forest maxSamples seed validationScores
    falsePositiveRate hscores hrate
  have hne : trees ≠ [] := by
    rintro rfl
    exact hforest (List.forall₂_nil_right_iff.mp hexports)
  refine ⟨_, _, htrees, init_export hne, hexports, fun row values hrow => ?_⟩
  have hvalues : values.length = features.length := (mapM_eq_ok.mp hrow).length_eq.symm
  refine ⟨fun tree htree node hvisit => ?_, fun fuel hfuel =>
    ⟨descend_leaves hexports hvalues hfuel, score_export hexports hforest hrow hvalues hfuel⟩⟩
  obtain ⟨ft, -, hexport⟩ := exists_fitted_mem hexports htree
  exact visits_inBounds hexport hvalues hvisit

def stump : FittedTree 1 where
  tree := ⟨3, [1, -1, -1], [2, -1, -1], [0, -2, -2], [1, -2, -2], [2, 1, 1]⟩
  featureMap := [0]
  shape := .split 0 (.leaf 1) (.leaf 2)
  root := rfl
  nodes := by decide
  encodes := ⟨rfl, rfl, ⟨0, 0, rfl, rfl, by decide⟩, ⟨rfl, rfl⟩, rfl, rfl⟩
  left_length := rfl
  right_length := rfl
  feature_length := rfl
  threshold_length := rfl
  samples_length := rfl

theorem exported_forest_correct_stump : ∃ rt : IsolationForestRuntime, ∀ row values,
    ["request_rate"].mapM row = .ok values →
      ∀ fuel, Enough [stump] fuel → rt.score fuel row = .ok (forestScore [stump] 2 values) := by
  obtain ⟨model, rt, -, -, -, hscore⟩ := exported_forest_correct ["request_rate"] [stump] 2 42
    [1 / 2]
    (1 / 100) (by simp) (by simp) (by norm_num)
  exact ⟨rt, fun row values hrow fuel hfuel => ((hscore row values hrow).2 fuel hfuel).2⟩

end Cote3Mon.Forest
