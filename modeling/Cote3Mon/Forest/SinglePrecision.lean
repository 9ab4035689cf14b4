import Cote3Mon.Forest.Score
import Cote3Mon.Lib.Rounding

namespace Cote3Mon.Forest
open Python Rounding

-- The tree code of scikit-learn rounds every value to single precision before it compares it; the
-- runtime compares the value as it is.

variable {featureCount : ℕ} (ft : FittedTree featureCount) (values : List ℚ)

def FittedTree.goesLeftSingle (n : ℕ) : Bool := roundSingle (ft.tested values n) ≤ ft.thresholdAt n

/-- The leaf that `score_samples` reaches. -/
def FittedTree.sklearnLeaf : ℕ := ft.shape.descend (ft.goesLeftSingle values)

/-- At no node on the row's way does rounding carry the tested value across the threshold. -/
def FittedTree.SurvivesRounding : Prop :=
  ft.shape.SameTurns (ft.goesLeft values) (ft.goesLeftSingle values)

variable {ft values}

/-- A node whose threshold is more than half a unit in the last place away takes the same turn. -/
theorem same_turn_of_far {n : ℕ}
    (h : ulpSingle (ft.tested values n) / 2 < |ft.tested values n - ft.thresholdAt n|) :
    ft.goesLeft values n = ft.goesLeftSingle values n := by
  rw [FittedTree.goesLeft, FittedTree.goesLeftSingle, decide_eq_decide]
  exact (roundSingle_le_iff h).symm

theorem survivesRounding_of_far (h : ∀ n ∈ ft.shape.labels,
    ulpSingle (ft.tested values n) / 2 < |ft.tested values n - ft.thresholdAt n|) :
    ft.SurvivesRounding values := by
  apply (LabelledTree.descend_eq_iff ft.distinct).mp
  exact LabelledTree.descend_congr fun n hn => same_turn_of_far (h n hn)

theorem leaf_eq_sklearnLeaf_iff : ft.leaf values = ft.sklearnLeaf values ↔
    ft.SurvivesRounding values :=
  LabelledTree.descend_eq_iff ft.distinct

/-- **The same leaves.**  In every tree of the exported model the runtime reaches the leaf that
scikit-learn reaches exactly when, in every tree, rounding carries no tested value on the row's
way across its threshold. -/
theorem runtime_leaves_iff (features : List String) (forest : List (FittedTree features.length))
    (maxSamples seed : ℤ) (validationScores : List ℝ) (falsePositiveRate : ℚ)
    (hscores : validationScores ≠ []) (hrate : 0 < falsePositiveRate ∧ falsePositiveRate < 1) :
    ∃ model, (∀ fuel, Enough forest fuel →
        exportIsolationForest fuel ⟨forest.map FittedTree.estimator, maxSamples⟩ validationScores
          falsePositiveRate seed features = .ok model) ∧
      ∀ values, values.length = features.length → ∀ fuel, Enough forest fuel →
        (List.Forall₂ (fun ft tree => descend tree values fuel 0 = .ok (ft.sklearnLeaf values : ℤ))
            forest model.trees ↔
          ∀ ft ∈ forest, ft.SurvivesRounding values) := by
  obtain ⟨trees, hexports, htrees⟩ := exists_export features forest maxSamples seed validationScores
    falsePositiveRate hscores hrate
  refine ⟨_, htrees, fun values hvalues fuel hfuel => ?_⟩
  clear htrees
  induction hexports with
  | nil => exact iff_of_true List.Forall₂.nil (by simp)
  | cons hfirst _ ih =>
    obtain ⟨hfuelFirst, hfuelRest⟩ := List.forall_mem_cons.mp hfuel
    rw [List.forall₂_cons, List.forall_mem_cons, ih hfuelRest,
      descend_leaf hfirst hvalues hfuelFirst, ← leaf_eq_sklearnLeaf_iff, Except.ok.injEq,
      Nat.cast_inj]

theorem runtime_leaves_iff_stump : ∃ model : Model, ∀ fuel, Enough [stump] fuel →
    (List.Forall₂ (fun ft tree => descend tree [3] fuel 0 = .ok (ft.sklearnLeaf [3] : ℤ))
        [stump] model.trees ↔
      ∀ ft ∈ [stump], ft.SurvivesRounding [3]) := by
  obtain ⟨model, -, hleaves⟩ := runtime_leaves_iff ["request_rate"] [stump] 2 42 [1 / 2] (1 / 100)
    (by simp) (by norm_num)
  exact ⟨model, fun fuel hfuel => hleaves [3] rfl fuel hfuel⟩

/-- A value just above the threshold, which rounding brings down to it. -/
theorem rounded_value_turns_left :
    (exportTree 3 stump.estimator >>= fun tree => descend tree [1 + 1 / 2 ^ 30] 3 0) = .ok 2 ∧
      stump.sklearnLeaf [1 + 1 / 2 ^ 30] = 1 := by
  decide +kernel

end Cote3Mon.Forest
