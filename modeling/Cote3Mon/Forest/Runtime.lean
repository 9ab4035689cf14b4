import Cote3Mon.Features.Aggregate

namespace Cote3Mon.Forest
open Python

-- The export of a fitted forest in `cote3mon/training.py` and the inference of
-- `cote3mon/iforest_runtime.py`. Numbers that are only compared are exact rationals, scores are
-- real numbers.

section

variable {α : Type}

/-- `xs[i]`: a negative index counts from the end. -/
def item (xs : List α) (i : ℤ) : Except Exc α :=
  let j := if i < 0 then i + xs.length else i
  if j < 0 then .error .indexError
  else
    match xs[j.toNat]? with
    | some x => .ok x
    | none => .error .indexError

/-- `xs[i] = x`. -/
def setItem (xs : List α) (i : ℤ) (x : α) : Except Exc (List α) :=
  let j := if i < 0 then i + xs.length else i
  if j < 0 ∨ xs.length ≤ j then .error .indexError else .ok (xs.set j.toNat x)

/-- What a loop with fuel returns or raises; `none` is a loop that has not ended yet. -/
abbrev Loop (α : Type) := Except (Option Exc) α

def raising (r : Except Exc α) : Loop α := r.mapError some

end

/-- An estimator's `tree_`. -/
structure SklearnTree where
  nodeCount : ℕ
  childrenLeft : List ℤ
  childrenRight : List ℤ
  feature : List ℤ
  threshold : List ℚ
  nNodeSamples : List ℤ

/-- The fitted forest: `estimators_` with `estimators_features_`, and `max_samples_`. -/
structure SklearnForest where
  estimators : List (SklearnTree × List ℤ)
  maxSamples : ℤ

structure TreeModel where
  left : List ℤ
  right : List ℤ
  feature : List ℤ
  threshold : List ℚ
  samples : List ℤ
  depth : List ℤ
  featureMap : List ℤ

structure Model where
  schema : String
  features : List String
  maxSamples : ℤ
  threshold : ℝ
  seed : ℤ
  trees : List TreeModel

/-- The loop that fills `depths`.  The second result is the order of the visits. -/
def depthLoop (tree : SklearnTree) :
    ℕ → List (ℤ × ℤ) → List ℤ → List ℤ → Loop (List ℤ × List ℤ)
  | _, [], depths, visited => .ok (depths, visited)
  | 0, _ :: _, _, _ => .error none
  | fuel + 1, (node, depth) :: stack, depths, visited => do
    let depths ← raising (setItem depths node depth)
    let left ← raising (item tree.childrenLeft node)
    if left ≠ -1 then
      let right ← raising (item tree.childrenRight node)
      depthLoop tree fuel ((right, depth + 1) :: (left, depth + 1) :: stack) depths
        (visited ++ [node])
    else depthLoop tree fuel stack depths (visited ++ [node])

def initialDepths (tree : SklearnTree) : List ℤ := List.replicate tree.nodeCount 0

def exportTree (fuel : ℕ) (estimator : SklearnTree × List ℤ) : Loop TreeModel := do
  let (tree, featureMap) := estimator
  let out ← depthLoop tree fuel [(0, 0)] (initialDepths tree) []
  return ⟨tree.childrenLeft, tree.childrenRight, tree.feature, tree.threshold, tree.nNodeSamples,
    out.1, featureMap⟩

def modelSchema : String := "cote3-mon-iforest-v1"

/-- `validationScores` are the negated scores of the forest on the validation rows. -/
noncomputable def exportIsolationForest (fuel : ℕ) (forest : SklearnForest)
    (validationScores : List ℝ)
    (falsePositiveRate : ℚ) (seed : ℤ) (features : List String) : Loop Model :=
  if ¬ (0 < falsePositiveRate ∧ falsePositiveRate < 1) then
    .error (some (.refused "false_positive_rate must be between zero and one"))
  else if validationScores = [] then .error (some (.refused "validation rows are required"))
  else do
    let trees ← forest.estimators.mapM (exportTree fuel)
    return ⟨modelSchema, features, forest.maxSamples,
      Features.percentile validationScores (1 - falsePositiveRate), seed, trees⟩

noncomputable def averagePathLength (sampleCount : ℤ) : ℝ :=
  if sampleCount ≤ 1 then 0
  else if sampleCount = 2 then 1
  else 2 * (Real.log (sampleCount - 1) + 0.5772156649015329) - 2 * (sampleCount - 1) / sampleCount

/-- `2.0 ** exponent`. -/
noncomputable def powerOfTwo (exponent : ℝ) : ℝ := 2 ^ exponent

structure IsolationForestRuntime where
  features : List String
  threshold : ℝ
  maxSamples : ℤ
  trees : List TreeModel

def IsolationForestRuntime.init (model : Model) : Except Exc IsolationForestRuntime :=
  if model.schema ≠ modelSchema then
    .error (.refused "unsupported Isolation Forest model schema")
  else if model.trees = [] then .error (.refused "model does not contain any trees")
  else .ok ⟨model.features, model.threshold, model.maxSamples, model.trees⟩

def step (tree : TreeModel) (values : List ℚ) (node : ℤ) : Except Exc ℤ := do
  let localFeature ← item tree.feature node
  let sourceFeature ← item tree.featureMap localFeature
  let value ← item values sourceFeature
  let threshold ← item tree.threshold node
  if value ≤ threshold then item tree.left node else item tree.right node

def descend (tree : TreeModel) (values : List ℚ) : ℕ → ℤ → Loop ℤ
  | 0, _ => .error none
  | fuel + 1, node => do
    let left ← raising (item tree.left node)
    if left ≠ -1 then
      let next ← raising (step tree values node)
      descend tree values fuel next
    else return node

noncomputable def pathLength (tree : TreeModel) (values : List ℚ) (fuel : ℕ) : Loop ℝ := do
  let node ← descend tree values fuel 0
  let depth ← raising (item tree.depth node)
  let samples ← raising (item tree.samples node)
  return depth + averagePathLength samples

/-- `row[name]` is a number, or raises. -/
noncomputable def IsolationForestRuntime.score (rt : IsolationForestRuntime) (fuel : ℕ)
    (row : String → Except Exc ℚ) : Loop ℝ := do
  let values ← raising (rt.features.mapM row)
  let totalPath ← rt.trees.foldlM (fun total tree => do
    return total + (← pathLength tree values fuel)) 0
  let denominator := rt.trees.length * averagePathLength rt.maxSamples
  return if denominator = 0 then 1 else powerOfTwo (-totalPath / denominator)

open Classical in
noncomputable def IsolationForestRuntime.isAnomaly (rt : IsolationForestRuntime) (fuel : ℕ)
    (row : String → Except Exc ℚ) : Loop Bool := do
  return decide (rt.threshold < (← rt.score fuel row))

end Cote3Mon.Forest
