import Cote3Mon.Features.Percentile
import Cote3Mon.Forest.Score

namespace Cote3Mon.Training
open Python Features Forest

-- The percentile baseline of `cote3mon/threshold.py`, and the number of validation rows that exceed
-- its threshold or that of an exported forest.

/-- `float(row[name])` for a row of features, or what that raises. -/
abbrev Numbers := String → Except Exc ℚ

structure PercentileModel where
  features : List String
  centres : List ℚ
  scales : List ℚ
  threshold : ℚ

namespace PercentileModel

/-- `abs(float(row[feature]) - centre) / scale`. -/
def deviation (row : Numbers) (term : String × ℚ × ℚ) : Except Exc ℚ := do
  let value ← row term.1
  if term.2.2 = 0 then .error .zeroDivisionError else .ok (|value - term.2.1| / term.2.2)

def score (model : PercentileModel) (row : Numbers) : Except Exc ℚ := do
  let deviations ← (model.features.zip (model.centres.zip model.scales)).mapM (deviation row)
  match deviations.max? with
  | some top => return top
  | none => .error .valueError

def isAnomaly (model : PercentileModel) (row : Numbers) : Except Exc Bool := do
  return model.threshold < (← model.score row)

def spread (training : List Numbers) (feature : String) : Except Exc (ℚ × ℚ) := do
  let values ← training.mapM fun row => row feature
  let centre := percentile values (1 / 2)
  let low := percentile values (1 / 100)
  let high := percentile values (99 / 100)
  return (centre, max (max (centre - low) (high - centre)) (1 / 1000000000))

def fit (training validation : List Numbers) (falsePositiveRate : ℚ) (features : List String) :
    Except Exc PercentileModel :=
  if training = [] ∨ validation = [] then
    .error (.refused "training and validation rows are required")
  else if ¬ (0 < falsePositiveRate ∧ falsePositiveRate < 1) then
    .error (.refused "false_positive_rate must be between zero and one")
  else do
    let spreads ← features.mapM (spread training)
    let provisional : PercentileModel := ⟨features, spreads.map Prod.fst, spreads.map Prod.snd, 0⟩
    let validationScores ← validation.mapM provisional.score
    return { provisional with threshold := percentile validationScores (1 - falsePositiveRate) }

end PercentileModel

variable {training validation : List Numbers} {rate : ℚ} {features : List String}
  {model : PercentileModel} {row : Numbers}

namespace PercentileModel

/-- A model of some feature scores every row that has its features. -/
theorem exists_score (hfeatures : model.features ≠ [])
    (hcentres : model.centres.length = model.features.length)
    (hscales : model.scales.length = model.features.length)
    (hpos : ∀ scale ∈ model.scales, 0 < scale)
    (hrow : ∀ name ∈ model.features, ∃ v, row name = .ok v) : ∃ s, model.score row = .ok s := by
  have hdeviation : ∀ term ∈ model.features.zip (model.centres.zip model.scales),
      ∃ d, deviation row term = .ok d := by
    rintro ⟨name, centre, scale⟩ hterm
    obtain ⟨hname, hpair⟩ := List.of_mem_zip hterm
    obtain ⟨v, hv⟩ := hrow name hname
    have hne : scale ≠ 0 := (hpos scale (List.of_mem_zip hpair).2).ne'
    refine ⟨|v - centre| / scale, ?_⟩
    rw [deviation, hv, ok_bind, if_neg hne]
  obtain ⟨deviations, hdeviations⟩ := exists_mapM hdeviation
  have hlen := (mapM_eq_ok.mp hdeviations).length_eq
  rw [List.length_zip, List.length_zip, hcentres, hscales, min_self, min_self] at hlen
  have hne : deviations ≠ [] := fun hnil => by
    rw [hnil] at hlen
    exact hfeatures (List.length_eq_zero_iff.mp hlen)
  obtain ⟨top, htop⟩ := Option.ne_none_iff_exists'.mp (mt List.max?_eq_none_iff.mp hne)
  refine ⟨top, ?_⟩
  rw [score, hdeviations, ok_bind, htop]
  rfl

theorem exists_spread {feature : String} (h : ∀ row ∈ training, ∃ v, row feature = .ok v) :
    ∃ centre scale, spread training feature = .ok (centre, scale) ∧ 0 < scale := by
  obtain ⟨values, hvalues⟩ := exists_mapM h
  refine ⟨_, _, by rw [spread, hvalues]; rfl, ?_⟩
  apply lt_max_of_lt_right
  norm_num

/-- `fit` returns a model for rows that have the features, unless there are none. -/
theorem exists_fit (hlow : 0 < rate) (hhigh : rate < 1) (htraining : training ≠ [])
    (hvalidation : validation ≠ []) (hfeatures : features ≠ [])
    (hrows : ∀ row ∈ training ++ validation, ∀ name ∈ features, ∃ v, row name = .ok v) :
    ∃ model, fit training validation rate features = .ok model := by
  have hspread : ∀ feature ∈ features, ∃ pair, spread training feature = .ok pair := by
    intro feature hfeature
    obtain ⟨centre, scale, h, -⟩ := exists_spread fun row hrow =>
      hrows row (List.mem_append_left _ hrow) feature hfeature
    exact ⟨_, h⟩
  obtain ⟨spreads, hspreads⟩ := exists_mapM hspread
  have hlen := (mapM_eq_ok.mp hspreads).length_eq
  have hpos : ∀ scale ∈ spreads.map Prod.snd, 0 < scale := by
    intro scale hscale
    obtain ⟨pair, hpair, rfl⟩ := List.mem_map.mp hscale
    obtain ⟨i, hi, rfl⟩ := List.mem_iff_getElem.mp hpair
    have hi' : i < features.length := hlen ▸ hi
    have hat : spread training features[i] = .ok spreads[i] :=
      (List.forall₂_iff_get.mp (mapM_eq_ok.mp hspreads)).2 i hi' hi
    obtain ⟨centre, scale, h, hscale⟩ := exists_spread fun row hrow =>
      hrows row (List.mem_append_left _ hrow) features[i] (List.getElem_mem hi')
    rw [hat] at h
    rw [Except.ok.inj h]
    exact hscale
  let provisional : PercentileModel := ⟨features, spreads.map Prod.fst, spreads.map Prod.snd, 0⟩
  have hscore : ∀ row ∈ validation, ∃ s, provisional.score row = .ok s := fun row hrow =>
    exists_score hfeatures (by rw [List.length_map, hlen]) (by rw [List.length_map, hlen]) hpos
      (hrows row (List.mem_append_right _ hrow))
  obtain ⟨scores, hscores⟩ := exists_mapM hscore
  rw [fit, if_neg (not_or.mpr ⟨htraining, hvalidation⟩), if_neg (not_not.mpr ⟨hlow, hhigh⟩),
    hspreads, ok_bind]
  dsimp only
  rw [hscores]
  exact ⟨_, rfl⟩

/-- The threshold of a fitted model is a percentile of its validation scores. -/
theorem fit_threshold (h : fit training validation rate features = .ok model) :
    ∃ scores, validation.mapM model.score = .ok scores ∧
      model.threshold = percentile scores (1 - rate) := by
  unfold fit at h
  split_ifs at h
  obtain ⟨spreads, -, h⟩ := bind_eq_ok.mp h
  obtain ⟨scores, hscores, h⟩ := bind_eq_ok.mp h
  obtain rfl := Except.ok.inj h
  exact ⟨scores, hscores, rfl⟩

end PercentileModel

section Budget
variable {K : Type} [Field K] [LinearOrder K] [FloorSemiring K]

/-- The alerts on `n` rows with these scores keep to the rate: at most `⌈rate * (n - 1)⌉` of them,
and exactly as many where the scores are distinct. -/
def WithinBudget (rate : K) (scores : List K) (alerts : List Bool) : Prop :=
  alerts.length = scores.length ∧
    alerts.count true ≤ ⌈rate * ((scores.length : K) - 1)⌉₊ ∧
    (scores.Nodup → alerts.count true = ⌈rate * ((scores.length : K) - 1)⌉₊)

theorem withinBudget [IsStrictOrderedRing K] {rate : K} {scores : List K} (hlow : 0 < rate)
    (hhigh : rate < 1) (hne : scores ≠ []) :
    WithinBudget rate scores (scores.map fun s => decide (percentile scores (1 - rate) < s)) := by
  have hcount : (scores.map fun s => decide (percentile scores (1 - rate) < s)).count true =
      scores.countP (percentile scores (1 - rate) < ·) := by
    rw [List.count, List.countP_map]
    exact List.countP_congr fun s _ => by simp
  refine ⟨List.length_map _, ?_, fun hnodup => ?_⟩
  · rw [hcount]
    exact countP_percentile_le hne hlow.le hhigh.le
  · rw [hcount]
    exact countP_percentile_eq hne hlow.le hhigh.le hnodup

end Budget

/-- **Calibration keeps the false positives in the budget.**  `fit` returns a model wherever the
rows have the features, and its alerts on the validation rows keep to the rate; so do those of an
exported forest whose runtime gives each row the score that it was calibrated on. -/
theorem calibration_keeps_budget (hlow : 0 < rate) (hhigh : rate < 1) :
    (∀ (training validation : List Numbers) (features : List String), training ≠ [] →
      validation ≠ [] →
      (features ≠ [] →
        (∀ row ∈ training ++ validation, ∀ name ∈ features, ∃ v, row name = .ok v) →
        ∃ model, PercentileModel.fit training validation rate features = .ok model) ∧
      ∀ model, PercentileModel.fit training validation rate features = .ok model →
        ∃ scores alerts, validation.mapM model.score = .ok scores ∧
          validation.mapM model.isAnomaly = .ok alerts ∧ WithinBudget rate scores alerts) ∧
    ∀ (exportFuel fuel : ℕ) (forest : SklearnForest) (validationScores : List ℝ) (seed : ℤ)
      (features : List String) (model : Model) (rt : IsolationForestRuntime)
      (validation : List Numbers),
      exportIsolationForest exportFuel forest validationScores rate seed features = .ok model →
      IsolationForestRuntime.init model = .ok rt →
      List.Forall₂ (fun row s => rt.score fuel row = .ok s) validation validationScores →
      ∃ alerts, validation.mapM (rt.isAnomaly fuel) = .ok alerts ∧
        WithinBudget (rate : ℝ) validationScores alerts := by
  refine ⟨fun training validation features htraining hvalidation =>
    ⟨PercentileModel.exists_fit hlow hhigh htraining hvalidation, fun model hfit => ?_⟩, ?_⟩
  · obtain ⟨scores, hscores, hthreshold⟩ := PercentileModel.fit_threshold hfit
    have hrows := mapM_eq_ok.mp hscores
    have hne : scores ≠ [] := fun hnil => by
      rw [hnil, List.forall₂_nil_right_iff] at hrows
      exact hvalidation hrows
    refine ⟨scores, _, hscores, mapM_map _ hrows, ?_⟩
    rw [hthreshold]
    exact withinBudget hlow hhigh hne
  · intro exportFuel fuel forest validationScores seed features model rt validation hexport hinit
      hrows
    unfold exportIsolationForest at hexport
    split_ifs at hexport with hrate hne
    obtain ⟨trees, -, hmodel⟩ := bind_eq_ok.mp hexport
    obtain rfl := Except.ok.inj hmodel
    unfold IsolationForestRuntime.init at hinit
    split_ifs at hinit
    obtain rfl := Except.ok.inj hinit
    exact ⟨_, mapM_map _ hrows,
      withinBudget (Rat.cast_pos.mpr hlow) (by exact_mod_cast hhigh) hne⟩

/-- A tree whose leaves have different depths and different numbers of samples. -/
def unevenTree : FittedTree 1 where
  tree := ⟨5, [1, -1, 3, -1, -1], [2, -1, 4, -1, -1], [0, -2, 0, -2, -2], [1, -2, 2, -2, -2],
    [6, 3, 3, 2, 1]⟩
  featureMap := [0]
  shape := .split 0 (.leaf 1) (.split 2 (.leaf 3) (.leaf 4))
  root := rfl
  nodes := by decide
  encodes := ⟨rfl, rfl, ⟨0, 0, rfl, rfl, Nat.one_pos⟩, ⟨rfl, rfl⟩, rfl, rfl,
    ⟨0, 0, rfl, rfl, Nat.one_pos⟩, ⟨rfl, rfl⟩, rfl, rfl⟩
  left_length := rfl
  right_length := rfl
  feature_length := rfl
  threshold_length := rfl
  samples_length := rfl

/-- Three rows, one for every leaf, with the scores that the forest of this tree gives them. -/
noncomputable def unevenScores : List ℝ := [[0], [3 / 2], [3]].map (forestScore [unevenTree] 6)

def unevenRows : List Numbers := [fun _ => .ok 0, fun _ => .ok (3 / 2), fun _ => .ok 3]

theorem calibration_keeps_budget_two_rows :
    (∃ model, PercentileModel.fit [fun _ => .ok 1] [fun _ => .ok 2, fun _ => .ok 1] (1 / 100)
        ["request_rate"] = .ok model ∧
      ∃ scores alerts, [fun _ => .ok 2, fun _ => .ok 1].mapM model.score = .ok scores ∧
        [fun _ => .ok 2, fun _ => .ok 1].mapM model.isAnomaly = .ok alerts ∧
        WithinBudget (1 / 100) scores alerts) ∧
    ∃ model rt alerts, exportIsolationForest 5 ⟨[unevenTree.estimator], 6⟩ unevenScores (1 / 100) 42
        ["request_rate"] = .ok model ∧
      IsolationForestRuntime.init model = .ok rt ∧
      List.Forall₂ (fun row s => rt.score 5 row = .ok s) unevenRows unevenScores ∧
      unevenRows.mapM (rt.isAnomaly 5) = .ok alerts ∧
      WithinBudget ((1 / 100 : ℚ) : ℝ) unevenScores alerts := by
  obtain ⟨hbaseline, hforest⟩ :=
    calibration_keeps_budget (show (0 : ℚ) < 1 / 100 by norm_num) (by norm_num)
  constructor
  · obtain ⟨hfit, hbudget⟩ := hbaseline [fun _ => .ok 1] [fun _ => .ok 2, fun _ => .ok 1]
      ["request_rate"] (List.cons_ne_nil _ _) (List.cons_ne_nil _ _)
    obtain ⟨model, hmodel⟩ := hfit (List.cons_ne_nil _ _) fun row hrow name _ => by
      simp only [List.cons_append, List.nil_append, List.mem_cons, List.not_mem_nil,
        or_false] at hrow
      rcases hrow with rfl | rfl | rfl
      · exact ⟨_, rfl⟩
      · exact ⟨_, rfl⟩
      · exact ⟨_, rfl⟩
    exact ⟨model, hmodel, hbudget model hmodel⟩
  · have hfuel : Enough [unevenTree] 5 := fun ft hft => by
      rw [List.mem_singleton.mp hft]
      exact le_rfl
    obtain ⟨trees, hexports, hexport⟩ := exists_export ["request_rate"]
      [unevenTree] 6 42 unevenScores
      (1 / 100) (List.cons_ne_nil _ _) (by norm_num)
    have htrees : trees ≠ [] := by
      rintro rfl
      cases hexports
    have hscores : List.Forall₂ (fun row s => IsolationForestRuntime.score ⟨["request_rate"],
        percentile unevenScores (1 - (1 / 100 : ℚ)), 6, trees⟩ 5 row = .ok s) unevenRows
            unevenScores := by
      have hrow : ∀ q : ℚ, IsolationForestRuntime.score ⟨["request_rate"],
          percentile unevenScores (1 - (1 / 100 : ℚ)), 6, trees⟩ 5 (fun _ => .ok q) =
            .ok (forestScore [unevenTree] 6 [q]) := fun q =>
        score_export hexports (List.cons_ne_nil _ _) rfl rfl hfuel
      exact .cons (hrow 0) (.cons (hrow (3 / 2)) (.cons (hrow 3) .nil))
    obtain ⟨alerts, halerts, hbudget⟩ := hforest 5 5 _ unevenScores 42
      ["request_rate"] _ _ unevenRows
      (hexport 5 hfuel) (init_export htrees) hscores
    exact ⟨_, _, alerts, hexport 5 hfuel, init_export htrees, hscores, halerts, hbudget⟩

end Cote3Mon.Training
