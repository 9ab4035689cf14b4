import Cote3Mon.Features.Aggregate
import Mathlib.Data.List.Sort
import Mathlib.Tactic.Linarith

namespace Cote3Mon.Training
open Python

-- `classification_metrics` and `average_precision` of `cote3mon/evaluation.py`, in exact
-- arithmetic. The area is added up along the ranking, so rows of the same score count in the order
-- of the input.

variable {α : Type} [LinearOrder α]

/-- The variables of the loop of `average_precision`. -/
structure Sweep where
  truePositives : ℕ
  area : ℚ
  previousRecall : ℚ

def Sweep.next (positives rank label : ℕ) (s : Sweep) : Sweep :=
  if label = 0 then s
  else
    let truePositives := s.truePositives + 1
    let recallRate : ℚ := truePositives / positives
    let precision : ℚ := truePositives / rank
    ⟨truePositives, s.area + (recallRate - s.previousRecall) * precision, recallRate⟩

def sweep (positives : ℕ) : ℕ → List ℕ → Sweep → Sweep
  | _, [], s => s
  | rank, label :: labels, s => sweep positives (rank + 1) labels (s.next positives rank label)

/-- `sorted(zip(scores, labels), key=lambda item: item[0], reverse=True)`, which is stable. -/
def ranked (items : List (α × ℕ)) : List (α × ℕ) := items.insertionSort fun a b => b.1 ≤ a.1

def averagePrecision (labels : List ℕ) (scores : List α) : ℚ :=
  let positives := labels.sum
  if positives = 0 then 0
  else (sweep positives 1 ((ranked (scores.zip labels)).map Prod.snd) ⟨0, 0, 0⟩).area

structure Metrics where
  tp : ℕ
  fp : ℕ
  tn : ℕ
  fn : ℕ
  precision : ℚ
  recallRate : ℚ
  f1 : ℚ
  falsePositiveRate : ℚ
  auprc : ℚ

/-- `a / b if b else 0.0`. -/
def ratio (a b : ℚ) : ℚ := if b = 0 then 0 else a / b

def classificationMetrics (labels : List ℕ) (scores : List α) (threshold : α) : Except Exc Metrics :=
  if labels.length ≠ scores.length ∨ labels = [] then
    .error (.refused "labels and scores must be non-empty and have equal length")
  else
    let predictions := scores.map fun score => if threshold < score then 1 else 0
    let outcomes (label prediction : ℕ) := (labels.zip predictions).count (label, prediction)
    let tp := outcomes 1 1
    let fp := outcomes 0 1
    let tn := outcomes 0 0
    let fn := outcomes 1 0
    let precision := ratio tp (tp + fp)
    let recallRate := ratio tp (tp + fn)
    .ok { tp, fp, tn, fn, precision, recallRate
          f1 := ratio (2 * precision * recallRate) (precision + recallRate)
          falsePositiveRate := ratio fp (tn + fp)
          auprc := averagePrecision labels scores }

/-- The `auprc` of the metrics. -/
def auprc (labels : List ℕ) (scores : List α) (threshold : α) : Except Exc ℚ := do
  return (← classificationMetrics labels scores threshold).auprc

/-- The precisions at the positive labels, added up from a rank on. -/
def precisions : ℕ → ℕ → List ℕ → ℚ
  | _, _, [] => 0
  | truePositives, rank, label :: labels =>
    if label = 0 then precisions truePositives (rank + 1) labels
    else ((truePositives + 1 : ℕ) : ℚ) / (rank + 1 : ℕ) +
      precisions (truePositives + 1) (rank + 1) labels

variable {positives truePositives rank : ℕ} {labels : List ℕ} {s : Sweep}

/-- Every positive label adds the same to the recall. -/
theorem sweep_area (hrecall : s.previousRecall = s.truePositives / positives) :
    (sweep positives (rank + 1) labels s).area =
      s.area + precisions s.truePositives rank labels / positives := by
  induction labels generalizing rank s with
  | nil => simp [sweep, precisions]
  | cons label labels ih =>
    rw [sweep, precisions]
    by_cases hlabel : label = 0
    · rw [Sweep.next, if_pos hlabel, if_pos hlabel, ih hrecall]
    · rw [Sweep.next, if_neg hlabel, if_neg hlabel]
      dsimp only
      rw [ih rfl, hrecall]
      push_cast
      ring

theorem averagePrecision_eq (labels : List ℕ) (scores : List α) : averagePrecision labels scores =
    if labels.sum = 0 then 0
    else precisions 0 0 ((ranked (scores.zip labels)).map Prod.snd) / labels.sum := by
  rw [averagePrecision]
  split_ifs with hsum
  · rfl
  · rw [sweep_area (by simp), zero_add]

theorem precisions_append (front back : List ℕ) :
    precisions truePositives rank (front ++ back) = precisions truePositives rank front +
      precisions (truePositives + front.countP (· ≠ 0)) (rank + front.length) back := by
  induction front generalizing truePositives rank with
  | nil => simp [precisions]
  | cons label front ih =>
    rw [List.cons_append, precisions, precisions]
    by_cases hlabel : label = 0
    · rw [if_pos hlabel, if_pos hlabel, ih, List.countP_cons_of_neg (by simpa using hlabel),
        List.length_cons, Nat.add_right_comm rank, ← Nat.add_assoc]
    · rw [if_neg hlabel, if_neg hlabel, ih, List.countP_cons_of_pos (by simpa using hlabel),
        List.length_cons, Nat.add_right_comm rank, Nat.add_right_comm truePositives]
      exact (add_assoc _ _ _).symm

/-- A positive label counts more at the better of two neighbouring ranks. -/
theorem precisions_swap (front back : List ℕ) :
    precisions 0 0 (front ++ 0 :: 1 :: back) < precisions 0 0 (front ++ 1 :: 0 :: back) := by
  rw [precisions_append, precisions_append]
  generalize 0 + front.countP (· ≠ 0) = t
  generalize 0 + front.length = k
  simp only [precisions, if_pos, one_ne_zero, if_false]
  have hpos : (0 : ℚ) < (t + 1 : ℕ) := by positivity
  have hrank : (0 : ℚ) < (k + 1 : ℕ) := by positivity
  have hlt : ((k + 1 : ℕ) : ℚ) < (k + 1 + 1 : ℕ) := by
    push_cast
    linarith
  have hshare : ((t + 1 : ℕ) : ℚ) / (k + 1 + 1 : ℕ) < (t + 1 : ℕ) / (k + 1 : ℕ) :=
    div_lt_div_of_pos_left hpos hrank hlt
  linarith

/-- Two rows of the same score keep their order. -/
theorem ranked_tie (score : α) (items : List (α × ℕ)) : ∃ front back, ∀ label label' : ℕ,
    ranked ((score, label) :: (score, label') :: items) =
      front ++ (score, label) :: (score, label') :: back := by
  refine ⟨(ranked items).takeWhile fun b => ¬ b.1 ≤ score,
    (ranked items).dropWhile fun b => ¬ b.1 ≤ score, fun label label' => ?_⟩
  have hinner : ranked ((score, label') :: items) =
      ((ranked items).takeWhile fun b => ¬ b.1 ≤ score) ++
        (score, label') :: (ranked items).dropWhile fun b => ¬ b.1 ≤ score :=
    List.orderedInsert_eq_take_drop _ _ _
  have houter : ranked ((score, label) :: (score, label') :: items) =
      ((ranked ((score, label') :: items)).takeWhile fun b => ¬ b.1 ≤ score) ++
        (score, label) :: (ranked ((score, label') :: items)).dropWhile fun b => ¬ b.1 ≤ score :=
    List.orderedInsert_eq_take_drop _ _ _
  have hfront : ∀ b ∈ (ranked items).takeWhile fun b => ¬ b.1 ≤ score, decide (¬ b.1 ≤ score) :=
    fun b hb => List.mem_takeWhile_imp (p := fun b : α × ℕ => decide (¬ b.1 ≤ score)) hb
  rw [houter, hinner, List.takeWhile_append_of_pos hfront, List.dropWhile_append_of_pos hfront,
    List.takeWhile_cons_of_neg (by simp), List.dropWhile_cons_of_neg (by simp), List.append_nil]

/-- Rows of the same score have the same label. -/
def Untied (items : List (α × ℕ)) : Prop := ∀ a ∈ items, ∀ b ∈ items, a.1 = b.1 → a.2 = b.2

theorem ranked_perm {items items' : List (α × ℕ)} (h : items'.Perm items) (huntied : Untied items) :
    ranked items' = ranked items := by
  have hsorted : ∀ l : List (α × ℕ), (ranked l).Pairwise fun a b => b.1 ≤ a.1 := fun l => by
    have : IsTrans (α × ℕ) fun a b => b.1 ≤ a.1 := ⟨fun a b c hab hbc => hbc.trans hab⟩
    have : Std.Total fun a b : α × ℕ => b.1 ≤ a.1 := ⟨fun a b => le_total b.1 a.1⟩
    exact List.pairwise_insertionSort _ l
  have hperm : ∀ l : List (α × ℕ), (ranked l).Perm l := fun l => List.perm_insertionSort _ l
  apply List.Perm.eq_of_pairwise _ (hsorted items') (hsorted items)
    ((hperm items').trans (h.trans (hperm items).symm))
  intro a b ha hb hab hba
  have hscore : a.1 = b.1 := le_antisymm hba hab
  have hamem : a ∈ items := h.mem_iff.mp ((hperm items').mem_iff.mp ha)
  exact Prod.ext hscore (huntied a hamem b ((hperm items).mem_iff.mp hb) hscore)

/-- Where a positive and a negative row have the same score, two orders have different values. -/
theorem exists_order_of_tie {items : List (α × ℕ)} {score : α} (hpos : (score, 1) ∈ items)
    (hneg : (score, 0) ∈ items) : ∃ first second : List (α × ℕ), first.Perm items ∧
      second.Perm items ∧
      precisions 0 0 ((ranked first).map Prod.snd) <
          precisions 0 0 ((ranked second).map Prod.snd) := by
  have hrest : (score, 0) ∈ items.erase (score, 1) :=
    (List.mem_erase_of_ne (by simp)).mpr hneg
  have hsplit : items.Perm ((score, 1) :: (score, 0) :: (items.erase (score, 1)).erase (score, 0)) :=
    (List.perm_cons_erase hpos).trans ((List.perm_cons_erase hrest).cons _)
  obtain ⟨front, back, horder⟩ := ranked_tie score ((items.erase (score, 1)).erase (score, 0))
  refine ⟨_, _, ((List.Perm.swap _ _ _).trans hsplit.symm), hsplit.symm, ?_⟩
  rw [horder 0 1, horder 1 0, List.map_append, List.map_append]
  exact precisions_swap _ _

def OrderIndependent (labels : List ℕ) (scores : List α) : Prop :=
  ∀ labels' : List ℕ, ∀ scores' : List α, labels'.length = scores'.length →
    (scores'.zip labels').Perm (scores.zip labels) →
      averagePrecision labels' scores' = averagePrecision labels scores ∧
        ∀ threshold, auprc labels' scores' threshold = auprc labels scores threshold

omit [LinearOrder α] in
theorem labels_perm {labels labels' : List ℕ} {scores scores' : List α}
    (hlength : labels.length = scores.length) (hlength' : labels'.length = scores'.length)
    (h : (scores'.zip labels').Perm (scores.zip labels)) : labels'.Perm labels := by
  have hmap := h.map Prod.snd
  rwa [List.map_snd_zip hlength'.le, List.map_snd_zip hlength.le] at hmap

theorem auprc_eq (labels : List ℕ) (scores : List α) (threshold : α) :
    auprc labels scores threshold =
    if labels.length ≠ scores.length ∨ labels = [] then
      .error (.refused "labels and scores must be non-empty and have equal length")
    else .ok (averagePrecision labels scores) := by
  rw [auprc, classificationMetrics]
  split_ifs with hempty
  · rfl
  · rfl

/-- **Average precision and the order of the rows.**  It depends on the scored set only, exactly when
no positive row has the score of a negative one. -/
theorem averagePrecision_order_iff (labels : List ℕ) (scores : List α)
    (hlength : labels.length = scores.length) (hlabels : ∀ label ∈ labels, label = 0 ∨ label = 1) :
    OrderIndependent labels scores ↔ Untied (scores.zip labels) := by
  constructor
  · intro hall
    by_contra htied
    rw [Untied] at htied
    push Not at htied
    obtain ⟨⟨score, label⟩, ha, ⟨score', label'⟩, hb, hscore, hne⟩ := htied
    obtain rfl : score = score' := hscore
    -- one of the labels is positive, the other one is not
    have hmixed : (score, 1) ∈ scores.zip labels ∧ (score, 0) ∈ scores.zip labels := by
      rcases hlabels label (List.of_mem_zip ha).2 with rfl | rfl
      · rcases hlabels label' (List.of_mem_zip hb).2 with rfl | rfl
        · exact absurd rfl hne
        · exact ⟨hb, ha⟩
      · rcases hlabels label' (List.of_mem_zip hb).2 with rfl | rfl
        · exact ⟨ha, hb⟩
        · exact absurd rfl hne
    obtain ⟨first, second, hfirst, hsecond, hlt⟩ := exists_order_of_tie hmixed.1 hmixed.2
    have hvalue : ∀ items : List (α × ℕ), items.Perm (scores.zip labels) →
        precisions 0 0 ((ranked items).map Prod.snd) / labels.sum =
            averagePrecision labels scores := by
      intro items hperm
      have hzip : (items.map Prod.fst).zip (items.map Prod.snd) = items :=
        (List.zip_of_prod rfl rfl).symm
      have hsame : (items.map Prod.snd).length = (items.map Prod.fst).length := by
        rw [List.length_map, List.length_map]
      have hperm' : ((items.map Prod.fst).zip (items.map Prod.snd)).Perm (scores.zip labels) := by
        rwa [hzip]
      have hsum := (labels_perm hlength hsame hperm').sum_eq
      have hpositive : labels.sum ≠ 0 := fun hzero =>
        absurd (List.sum_eq_zero_iff.mp hzero 1 (List.of_mem_zip hmixed.1).2) one_ne_zero
      have happly := (hall _ _ hsame hperm').1
      rwa [averagePrecision_eq (items.map Prod.snd), hzip, hsum, if_neg hpositive] at happly
    have hpositive : (0 : ℚ) < labels.sum := by
      have hle : 1 ≤ labels.sum := List.single_le_sum (fun _ _ => Nat.zero_le _) 1
        (List.of_mem_zip hmixed.1).2
      exact_mod_cast hle
    have hshare := div_lt_div_of_pos_right hlt hpositive
    rw [hvalue first hfirst, hvalue second hsecond] at hshare
    exact lt_irrefl _ hshare
  · intro huntied labels' scores' hlength' hperm
    have hlabelsPerm := labels_perm hlength hlength' hperm
    have hvalue : averagePrecision labels' scores' = averagePrecision labels scores := by
      rw [averagePrecision_eq, averagePrecision_eq, ranked_perm hperm huntied, hlabelsPerm.sum_eq]
    refine ⟨hvalue, fun threshold => ?_⟩
    have hempty : labels' = [] ↔ labels = [] := by
      rw [← List.length_eq_zero_iff, ← List.length_eq_zero_iff, hlabelsPerm.length_eq]
    rw [auprc_eq, auprc_eq, hvalue]
    simp only [hlength, hlength', hempty, ne_eq, not_true_eq_false]

/-- A positive and a negative row of the same score. -/
theorem averagePrecision_tied : averagePrecision [1, 0] [(1 : ℚ), 1] = 1 ∧
    averagePrecision [0, 1] [(1 : ℚ), 1] = 1 / 2 ∧ ¬ OrderIndependent [1, 0] [(1 : ℚ), 1] := by
  have hfirst : averagePrecision [1, 0] [(1 : ℚ), 1] = 1 := by decide +kernel
  have hsecond : averagePrecision [0, 1] [(1 : ℚ), 1] = 1 / 2 := by decide +kernel
  refine ⟨hfirst, hsecond, fun hall => ?_⟩
  have hsame := (hall [0, 1] [1, 1] rfl (List.Perm.swap _ _ _)).1
  rw [hfirst, hsecond] at hsame
  norm_num at hsame

theorem averagePrecision_order_iff_two :
    OrderIndependent [1, 0] [(2 : ℚ), 1] ↔ Untied ([(2 : ℚ), 1].zip [1, 0]) :=
  averagePrecision_order_iff [1, 0] [(2 : ℚ), 1] rfl (by decide)

end Cote3Mon.Training
