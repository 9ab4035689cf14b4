import Cote3Mon.Forest.Score

namespace Cote3Mon.Forest
open Python

theorem averagePathLength_one : averagePathLength 1 = 0 := by
  rw [averagePathLength, if_pos le_rfl]

theorem averagePathLength_two : averagePathLength 2 = 1 := by
  rw [averagePathLength, if_neg (by decide), if_pos rfl]

theorem averagePathLength_formula {n : ℤ} (h : 3 ≤ n) : averagePathLength n =
    2 * (Real.log (n - 1) + 0.5772156649015329) - 2 * (n - 1) / n := by
  rw [averagePathLength, if_neg (by omega), if_neg (by omega)]

/-- The seam between the special cases and the formula. -/
theorem averagePathLength_two_lt_three : averagePathLength 2 < averagePathLength 3 := by
  have hlog := Real.log_two_gt_d9
  rw [averagePathLength_two, averagePathLength_formula le_rfl]
  norm_num
  linarith

/-- From `3` on the logarithm grows by more than the last term. -/
theorem averagePathLength_succ {n : ℤ} (h : 3 ≤ n) :
    averagePathLength n < averagePathLength (n + 1) := by
  have hreal : (3 : ℝ) ≤ n := by exact_mod_cast h
  have hpos : (0 : ℝ) < n := by linarith
  have hpred : (0 : ℝ) < (n : ℝ) - 1 := by linarith
  have hlog : 1 - ((n : ℝ) / (n - 1))⁻¹ ≤ Real.log n - Real.log (n - 1) := by
    rw [← Real.log_div hpos.ne' hpred.ne']
    exact Real.one_sub_inv_le_log_of_pos (div_pos hpos hpred)
  have hgain : 1 - ((n : ℝ) / (n - 1))⁻¹ = 1 / n := by
    rw [inv_div]
    field_simp
    ring
  have hloss : (2 : ℝ) * (n : ℝ) / (n + 1) - 2 * (n - 1) / n = 2 * (1 / n) * (1 / (n + 1)) := by
    field_simp
    ring
  have hshare : 2 * (1 / (n : ℝ)) * (1 / (n + 1)) < 2 * (1 / n) := by
    have hlt : 1 / ((n : ℝ) + 1) < 1 := by
      rw [div_lt_one (by linarith)]
      linarith
    exact mul_lt_of_lt_one_right (by positivity) hlt
  rw [averagePathLength_formula h, averagePathLength_formula (by omega)]
  push_cast
  rw [add_sub_cancel_right]
  linarith

theorem averagePathLength_lt_succ {n : ℤ} (h : 1 ≤ n) :
    averagePathLength n < averagePathLength (n + 1) := by
  rcases (show n = 1 ∨ n = 2 ∨ 3 ≤ n by omega) with rfl | rfl | h3
  · have htwo : averagePathLength (1 + 1) = 1 := averagePathLength_two
    rw [averagePathLength_one, htwo]
    exact one_pos
  · exact averagePathLength_two_lt_three
  · exact averagePathLength_succ h3

theorem averagePathLength_strictMono {m n : ℤ} (hm : 1 ≤ m) (h : m < n) :
    averagePathLength m < averagePathLength n := by
  induction n, (show m + 1 ≤ n by omega) using Int.leInduction with
  | base => exact averagePathLength_lt_succ hm
  | succ n hle ih => exact (ih (by omega)).trans (averagePathLength_lt_succ (by omega))

theorem averagePathLength_nonneg (n : ℤ) : 0 ≤ averagePathLength n := by
  rcases lt_trichotomy n 1 with hlt | rfl | hgt
  · rw [averagePathLength, if_pos hlt.le]
  · rw [averagePathLength_one]
  · exact (averagePathLength_one ▸ averagePathLength_strictMono le_rfl hgt).le

theorem averagePathLength_mono {m n : ℤ} (h : m ≤ n) :
    averagePathLength m ≤ averagePathLength n := by
  rcases le_or_gt m 1 with hm | hm
  · rw [averagePathLength, if_pos hm]
    exact averagePathLength_nonneg n
  · rcases h.lt_or_eq with hlt | rfl
    · exact (averagePathLength_strictMono hm.le hlt).le
    · exact le_rfl

variable {values : List ℚ} {fuel : ℕ} {trees : List TreeModel} {paths : List ℝ} {tree : TreeModel}

noncomputable def scoreOf (maxSamples : ℤ) (paths : List ℝ) : ℝ :=
  let denominator := paths.length * averagePathLength maxSamples
  if denominator = 0 then 1 else powerOfTwo (-paths.sum / denominator)

theorem score_eq {rt : IsolationForestRuntime} {row : String → Except Exc ℚ}
    (hrow : rt.features.mapM row = .ok values)
    (h : List.Forall₂ (fun tree path => pathLength tree values fuel = .ok path) rt.trees paths) :
    rt.score fuel row = .ok (scoreOf rt.maxSamples paths) := by
  rw [IsolationForestRuntime.score, hrow, raising_ok, ok_bind, sum_pathLengths h, ok_bind, zero_add,
    scoreOf, h.length_eq]
  rfl

theorem scoreOf_mem {maxSamples : ℤ} (hpaths : ∀ path ∈ paths, 0 ≤ path) :
    0 < scoreOf maxSamples paths ∧ scoreOf maxSamples paths ≤ 1 := by
  rw [scoreOf]
  split_ifs with hzero
  · exact ⟨one_pos, le_rfl⟩
  · have hdenominator : 0 ≤ paths.length * averagePathLength maxSamples :=
      mul_nonneg (Nat.cast_nonneg _) (averagePathLength_nonneg _)
    have hexponent : -paths.sum / (paths.length * averagePathLength maxSamples) ≤ 0 :=
      div_nonpos_of_nonpos_of_nonneg (neg_nonpos.mpr (List.sum_nonneg hpaths)) hdenominator
    exact ⟨Real.rpow_pos_of_pos two_pos _, Real.rpow_le_one_of_one_le_of_nonpos one_le_two hexponent⟩

/-- Longer paths do not raise the score. -/
theorem scoreOf_anti {maxSamples : ℤ} {paths' : List ℝ} (hlength : paths.length = paths'.length)
    (hsum : paths.sum ≤ paths'.sum) : scoreOf maxSamples paths' ≤ scoreOf maxSamples paths := by
  rw [scoreOf, scoreOf, hlength]
  split_ifs with hzero
  · exact le_rfl
  · have hdenominator : 0 ≤ paths'.length * averagePathLength maxSamples :=
      mul_nonneg (Nat.cast_nonneg _) (averagePathLength_nonneg _)
    apply Real.rpow_le_rpow_of_exponent_le one_le_two
    exact div_le_div_of_nonneg_right (neg_le_neg hsum) hdenominator

def replaceLeaf (tree : TreeModel) (leaf : ℕ) (depth samples : ℤ) : TreeModel :=
  { tree with
    depth := tree.depth.set leaf depth
    samples := tree.samples.set leaf samples }

/-- The loop does not look at the depths and the samples. -/
theorem descend_replaceLeaf (tree : TreeModel) (leaf : ℕ) (depth samples : ℤ) (values : List ℚ)
    (fuel : ℕ) (node : ℤ) :
    descend (replaceLeaf tree leaf depth samples) values fuel node =
        descend tree values fuel node := by
  induction fuel generalizing node with
  | zero => rfl
  | succ fuel ih =>
    have hstep : step (replaceLeaf tree leaf depth samples) values node =
      step tree values node := rfl
    rw [descend, descend, hstep]
    simp only [ih]
    rfl

theorem pathLength_leaf {leaf : ℕ} {depth samples : ℤ}
    (hleaf : descend tree values fuel 0 = .ok (leaf : ℤ)) (hdepth : tree.depth[leaf]? = some depth)
    (hsamples : tree.samples[leaf]? = some samples) :
    pathLength tree values fuel = .ok (depth + averagePathLength samples) := by
  rw [pathLength, hleaf, ok_bind, item_some hdepth, raising_ok, ok_bind, item_some hsamples,
    raising_ok, ok_bind]
  rfl

/-- The path of the replaced leaf is not shorter. -/
theorem pathLength_replaceLeaf {leaf : ℕ} {d n depth samples : ℤ}
    (hleaf : descend tree values fuel 0 = .ok (leaf : ℤ)) (hdepth : tree.depth[leaf]? = some d)
    (hsamples : tree.samples[leaf]? = some n) (hd : d ≤ depth) (hn : n ≤ samples) :
    ∃ path path', pathLength tree values fuel = .ok path ∧
      pathLength (replaceLeaf tree leaf depth samples) values fuel = .ok path' ∧ path ≤ path' := by
  have hreplaced : pathLength (replaceLeaf tree leaf depth samples) values fuel =
      .ok (depth + averagePathLength samples) := by
    apply pathLength_leaf
    · rw [descend_replaceLeaf, hleaf]
    · exact List.getElem?_set_self (List.getElem?_eq_some_iff.mp hdepth).1
    · exact List.getElem?_set_self (List.getElem?_eq_some_iff.mp hsamples).1
  have hdepths : (d : ℝ) ≤ depth := by exact_mod_cast hd
  exact ⟨_, _, pathLength_leaf hleaf hdepth hsamples, hreplaced,
    add_le_add hdepths (averagePathLength_mono hn)⟩

/-- A longer path in one tree makes the sum larger. -/
theorem forall_paths_replace {front back : List TreeModel} {tree' : TreeModel} {path path' : ℝ}
    (h : List.Forall₂ (fun tree path => pathLength tree values fuel = .ok path)
      (front ++ tree :: back) paths)
    (hpath : pathLength tree values fuel = .ok path)
    (hpath' : pathLength tree' values fuel = .ok path') (hle : path ≤ path') :
    ∃ paths', List.Forall₂ (fun tree path => pathLength tree values fuel = .ok path)
        (front ++ tree' :: back) paths' ∧ paths.length = paths'.length ∧ paths.sum ≤ paths'.sum := by
  induction front generalizing paths with
  | nil =>
    cases h with
    | @cons _ first _ rest hfirst hrest =>
      have hsame : path = first := Except.ok.inj (hpath.symm.trans hfirst)
      refine ⟨path' :: rest, List.Forall₂.cons hpath' hrest, rfl, ?_⟩
      rw [List.sum_cons, List.sum_cons, ← hsame]
      exact add_le_add_left hle _
  | cons other front ih =>
    cases h with
    | @cons _ first _ rest hfirst hrest =>
      obtain ⟨paths', hpaths, hlength, hsum⟩ := ih hrest
      refine ⟨first :: paths', List.Forall₂.cons hfirst hpaths, congrArg Nat.succ hlength, ?_⟩
      rw [List.sum_cons, List.sum_cons]
      exact add_le_add_right hsum _

theorem path_nonneg {featureCount : ℕ} (ft : FittedTree featureCount) (values : List ℚ) :
    0 ≤ ft.path values :=
  add_nonneg (Nat.cast_nonneg _) (averagePathLength_nonneg _)

/-- **Path lengths and scores.**  The average path length is non-negative and increases strictly.
The score of an exported forest lies in (0, 1], and it does not grow when the leaf that the row
reaches in one of the trees becomes deeper or gets more samples. -/
theorem score_range (features : List String) (forest : List (FittedTree features.length))
    (trees : List TreeModel) (hexports : List.Forall₂ IsExport forest trees) (threshold : ℝ)
    (maxSamples : ℤ) (row : String → Except Exc ℚ) (values : List ℚ)
    (hrow : features.mapM row = .ok values) (fuel : ℕ) (hfuel : Enough forest fuel) :
    (∀ n : ℤ, 1 ≤ n → 0 ≤ averagePathLength n) ∧
      (∀ m n : ℤ, 1 ≤ m → m < n → averagePathLength m < averagePathLength n) ∧
      ∃ score, IsolationForestRuntime.score ⟨features, threshold, maxSamples, trees⟩ fuel row =
        .ok score ∧
        0 < score ∧ score ≤ 1 ∧
        ∀ front tree back, trees = front ++ tree :: back → ∀ leaf : ℕ,
          descend tree values fuel 0 = .ok (leaf : ℤ) → ∀ depth samples,
            (∀ d ∈ tree.depth[leaf]?, d ≤ depth) → (∀ n ∈ tree.samples[leaf]?, n ≤ samples) →
              ∃ score', IsolationForestRuntime.score ⟨features, threshold, maxSamples,
                front ++ replaceLeaf tree leaf depth samples :: back⟩ fuel row = .ok score' ∧
                  score' ≤ score := by
  have hvalues : values.length = features.length := (mapM_eq_ok.mp hrow).length_eq.symm
  have hpaths := forall_paths hexports hvalues hfuel
  have hnonneg : ∀ path ∈ forest.map fun ft => ft.path values, 0 ≤ path :=
    List.forall_mem_map.mpr fun ft _ => path_nonneg ft values
  have hscore : ∀ trees paths, List.Forall₂ (fun tree path => pathLength tree values fuel = .ok path)
      trees paths → IsolationForestRuntime.score ⟨features, threshold, maxSamples, trees⟩ fuel row =
        .ok (scoreOf maxSamples paths) := fun trees paths h => score_eq hrow h
  refine ⟨fun n _ => averagePathLength_nonneg n, fun m n hm h => averagePathLength_strictMono hm h,
    _, hscore trees _ hpaths, (scoreOf_mem hnonneg).1, (scoreOf_mem hnonneg).2, ?_⟩
  rintro front tree back rfl leaf hleaf depth samples hdepth hcount
  obtain ⟨ft, hft, hexport⟩ := exists_fitted_mem hexports
    (List.mem_append_right front List.mem_cons_self)
  -- the leaf of an exported tree is a position of its arrays
  have hsame : ft.leaf values = leaf := by
    have hloop := descend_leaf hexport hvalues (hfuel ft hft)
    rw [hleaf] at hloop
    exact_mod_cast (Except.ok.inj hloop).symm
  have hlt : leaf < ft.tree.nodeCount := hsame ▸ ft.lt_nodeCount (ft.leaf_mem values)
  have hltDepth : leaf < tree.depth.length := hexport.depth_length ▸ hlt
  have hltSamples : leaf < tree.samples.length := by
    rw [hexport.samples, ft.samples_length]
    exact hlt
  obtain ⟨path, path', hpath, hpath', hle⟩ := pathLength_replaceLeaf hleaf
    (List.getElem?_eq_getElem hltDepth) (List.getElem?_eq_getElem hltSamples)
    (hdepth _ (List.getElem?_eq_getElem hltDepth)) (hcount _ (List.getElem?_eq_getElem hltSamples))
  obtain ⟨paths', hpaths', hlength, hsum⟩ := forall_paths_replace hpaths hpath hpath' hle
  exact ⟨_, hscore _ _ hpaths', scoreOf_anti hlength hsum⟩

theorem score_range_stump : ∃ trees : List TreeModel, ∃ score : ℝ,
    IsolationForestRuntime.score ⟨["request_rate"], 1 / 2, 2, trees⟩ 3 (fun _ => .ok 0) = .ok score ∧
      0 < score ∧ score ≤ 1 := by
  obtain ⟨tree, hexport, -⟩ := exportTree_spec stump
  have hfuel : Enough [stump] 3 := fun ft hft => by
    rw [List.mem_singleton.mp hft]
    exact le_rfl
  obtain ⟨-, -, score, hscore, hpos, hle, -⟩ := score_range ["request_rate"] [stump] [tree]
    (List.Forall₂.cons hexport List.Forall₂.nil) (1 / 2) 2 (fun _ => .ok 0) [0] rfl 3 hfuel
  exact ⟨[tree], score, hscore, hpos, hle⟩

end Cote3Mon.Forest
