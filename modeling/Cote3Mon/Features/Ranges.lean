import Cote3Mon.Features.Percentile
import Cote3Mon.Features.Windows
import Mathlib.Analysis.Real.Sqrt

namespace Cote3Mon.Features
open ByteText Python Grouping Statistics

-- Python raises `ZeroDivisionError` on a zero divisor and a `ValueError` on the mean of no data and
-- on the maximum of an empty list. The aggregation is written once more with these errors, which
-- never occur, and its features are bounded.

section Checked

variable {K : Type} [Field K] (lib : Library K)

def divide (a : K) (b : ℚ) : Except Exc K := if b = 0 then .error .zeroDivisionError else .ok (a / b)

def checkedMean (values : List ℚ) : Except Exc ℚ :=
  if values = [] then .error .valueError else divide values.sum values.length

def checkedMeanOrZero (values : List ℚ) : Except Exc ℚ :=
  if values = [] then .ok 0 else checkedMean values

def checkedMaximum (values : List ℚ) : Except Exc ℚ :=
  if values = [] then .error .valueError else .ok (maximum values)

def checkedDeviation (values : List ℚ) : Except Exc K :=
  if values = [] then .error .valueError else .ok (lib.pstdev values)

def checkedReuse (values : List Text) : Except Exc ℚ :=
  if values = [] then .ok 0
  else do return 1 - (← divide (values.dedup.length : ℚ) values.length)

def transitions (operations : List Text) : ℚ :=
  (List.zipWith (fun left right => if left ≠ right then 1 else 0) operations operations.tail).sum

def checkedTransitions (operations : List Text) (count : ℕ) : Except Exc ℚ :=
  if 1 < count then divide (transitions operations) (count - 1) else .ok 0

def checkedVariation (idleValues : List ℚ) (idleMean : ℚ) : Except Exc K :=
  if 1 < idleValues.length ∧ 0 < idleMean then do
    divide (← checkedDeviation lib idleValues) idleMean
  else .ok 0

/-- `rowOf` with the errors of its operations. -/
def checkedRowOf (windowSeconds : ℤ) (bucket : Key × List Event) : Except Exc (Option (Row K)) := do
  let requests := (bucket.2.filter Event.isRequest).insertionSort fun a b => a.tsUnixNs ≤ b.tsUnixNs
  let resources := bucket.2.filter Event.isResource
  let count : ℚ := requests.length
  let operations := requests.map lib.operationOf
  let statuses := requests.map lib.statusOf
  let latencies := requests.map fun e => e.latencyUs.getD 0
  let sizes := requests.map fun e => e.inputBytes.getD 0
  let idleValues := List.zipWith idleBetween requests requests.tail
  match requests with
  | [] => return none
  | first :: _ =>
    let operationTransitionRatio ← checkedTransitions operations requests.length
    let idleMean ← checkedMeanOrZero idleValues
    let requestRate ← divide count windowSeconds
    let putRatio ← divide (operations.count (text "PUT") : ℚ) count
    let getRatio ← divide (operations.count (text "GET") : ℚ) count
    let deleteRatio ← divide (operations.count (text "DELETE") : ℚ) count
    let rejectRatio ← divide (operations.count (text "REJECT") : ℚ) count
    let errorRatio ← divide (statuses.countP (· ≠ text "OK") : ℚ) count
    let latencyMeanUs ← checkedMean latencies
    let inputMeanBytes ← checkedMean sizes
    let inputMaxBytes ← checkedMaximum sizes
    let cpuPercentMean ← checkedMeanOrZero (resources.map fun e => e.cpuPercent.getD 0)
    let rssKbMean ← checkedMeanOrZero (resources.map fun e => e.rssKb.getD 0)
    let keyReuseRatio ← checkedReuse (truthy Event.keyFingerprint requests)
    let requestReuseRatio ← checkedReuse (truthy Event.requestFingerprint requests)
    let idleCv ← checkedVariation lib idleValues idleMean
    return some
      { runId := (ofLex bucket.1).1
        scenario := first.scenario.getD (text "unknown")
        isAttack := if first.isAttack.getD false then 1 else 0
        windowStartNs := (ofLex bucket.1).2
        requestRate := requestRate
        putRatio := putRatio
        getRatio := getRatio
        deleteRatio := deleteRatio
        rejectRatio := rejectRatio
        errorRatio := errorRatio
        latencyMeanUs := latencyMeanUs
        latencyP95Us := percentile latencies (95 / 100)
        inputMeanBytes := inputMeanBytes
        inputMaxBytes := inputMaxBytes
        cpuPercentMean := cpuPercentMean
        rssKbMean := rssKbMean
        keyReuseRatio := keyReuseRatio
        requestReuseRatio := requestReuseRatio
        operationTransitionRatio := operationTransitionRatio
        idleMeanUs := idleMean
        idleP95Us := percentile idleValues (95 / 100)
        idleCv := idleCv }

/-- `aggregateEvents` behind its first two checks, with the errors of its operations. -/
def checkedAggregate (events : List Event) (windowSeconds warmupSeconds : ℤ) :
    Except Exc (List (Row K)) := do
  let kept := events.filter (afterWarmup (firstRequest events) (nanoseconds warmupSeconds))
  if kept ≠ [] ∧ nanoseconds windowSeconds = 0 then .error .zeroDivisionError
  let rows ← (sortByKey (group (keyOf (nanoseconds windowSeconds)) kept)).mapM
    (checkedRowOf lib windowSeconds)
  return rows.filterMap id

variable {lib} {windowSeconds : ℤ}

theorem divide_eq (a : K) {b : ℚ} (h : b ≠ 0) : divide a b = .ok (a / b) := if_neg h

theorem divide_rat (a : ℚ) {b : ℚ} (h : b ≠ 0) : divide a b = .ok (a / b) := by
  rw [divide_eq a h, Rat.cast_id]

theorem length_ne_zero {α : Type} {values : List α} (h : values ≠ []) : (values.length : ℚ) ≠ 0 :=
  Nat.cast_ne_zero.mpr (List.length_pos_iff.mpr h).ne'

theorem checkedMean_eq {values : List ℚ} (h : values ≠ []) :
    checkedMean values = .ok (fmean values) := by
  rw [checkedMean, if_neg h, divide_rat _ (length_ne_zero h), fmean, mean]

theorem checkedMeanOrZero_eq (values : List ℚ) :
    checkedMeanOrZero values = .ok (meanOrZero values) := by
  unfold checkedMeanOrZero meanOrZero
  split_ifs with h
  · rfl
  · exact checkedMean_eq h

theorem checkedMaximum_eq {values : List ℚ} (h : values ≠ []) :
    checkedMaximum values = .ok (maximum values) := if_neg h

theorem checkedReuse_eq (values : List Text) : checkedReuse values = .ok (reuseRatio values) := by
  unfold checkedReuse reuseRatio
  split_ifs with h
  · rfl
  · rw [divide_rat _ (length_ne_zero h)]
    rfl

theorem checkedVariation_eq (lib : Library K) (idleValues : List ℚ) (idleMean : ℚ) :
    checkedVariation lib idleValues idleMean =
      .ok (if 1 < idleValues.length ∧ 0 < idleMean then lib.pstdev idleValues / (idleMean : K)
        else 0) := by
  unfold checkedVariation
  split_ifs with h
  · have hne : idleValues ≠ [] := List.length_pos_iff.mp (by omega)
    rw [checkedDeviation, if_neg hne]
    exact divide_eq _ h.2.ne'
  · rfl

theorem checkedTransitions_eq (operations : List Text) (count : ℕ) :
    checkedTransitions operations count =
      .ok (if 1 < count then transitions operations / (count - 1) else 0) := by
  unfold checkedTransitions
  split_ifs with h
  · have hpos : (1 : ℚ) < count := by exact_mod_cast h
    exact divide_rat _ (sub_pos.mpr hpos).ne'
  · rfl

/-- No operation of a row raises. -/
theorem checkedRowOf_eq (lib : Library K) (hwindow : 0 < windowSeconds) (bucket : Key × List Event) :
    checkedRowOf lib windowSeconds bucket = .ok (rowOf lib windowSeconds bucket) := by
  have hseconds : (windowSeconds : ℚ) ≠ 0 := by exact_mod_cast hwindow.ne'
  unfold checkedRowOf rowOf
  dsimp only
  generalize (bucket.2.filter Event.isRequest).insertionSort
    (fun a b => a.tsUnixNs ≤ b.tsUnixNs) = requests
  cases requests with
  | nil => rfl
  | cons first rest =>
    have hcount : ((first :: rest).length : ℚ) ≠ 0 := length_ne_zero (List.cons_ne_nil _ _)
    dsimp only
    rw [checkedTransitions_eq, checkedMeanOrZero_eq, checkedMeanOrZero_eq, checkedMeanOrZero_eq,
      divide_rat _ hseconds, divide_rat _ hcount, divide_rat _ hcount, divide_rat _ hcount,
      divide_rat _ hcount, divide_rat _ hcount, checkedMean_eq (by simp), checkedMean_eq (by simp),
      checkedMaximum_eq (by simp), checkedReuse_eq, checkedReuse_eq]
    simp only [checkedVariation_eq, bind, Except.bind]
    rfl

/-- No operation of the aggregation raises. -/
theorem checkedAggregate_eq (lib : Library K) (events : List Event) (hwindow : 0 < windowSeconds)
    (warmupSeconds : ℤ) : checkedAggregate lib events windowSeconds warmupSeconds =
      .ok (rowsOf lib events windowSeconds warmupSeconds) := by
  have hns := (nanoseconds_pos hwindow).ne'
  have hrow : checkedRowOf lib windowSeconds = fun bucket =>
      (pure (rowOf lib windowSeconds bucket) : Except Exc (Option (Row K))) := by
    funext bucket
    exact checkedRowOf_eq lib hwindow bucket
  simp only [checkedAggregate, hns, and_false, if_false, hrow, List.mapM_pure, pure_bind,
    List.filterMap_map]
  rfl

end Checked

/-- `statistics.pstdev` in exact arithmetic. -/
noncomputable def pstdev (values : List ℚ) : ℝ := √((variance values : ℚ) : ℝ)

noncomputable def exactLibrary (upperChar : ℕ → Text) : Library ℝ := ⟨upperChar, pstdev⟩

variable {K : Type} [Field K] {lib : Library K}

theorem share_mem_Icc {part whole : ℕ} (hle : part ≤ whole) :
    (part : ℚ) / whole ∈ Set.Icc (0 : ℚ) 1 := by
  have hcast : (part : ℚ) ≤ whole := by exact_mod_cast hle
  exact ⟨by positivity, div_le_one_of_le₀ hcast (Nat.cast_nonneg _)⟩

/-- The four named operations are distinct, so no request is counted twice. -/
theorem shares_le_one (operations : List Text) :
    (operations.count (text "PUT") : ℚ) / operations.length +
      operations.count (text "GET") / operations.length +
      operations.count (text "DELETE") / operations.length +
      operations.count (text "REJECT") / operations.length ≤ 1 := by
  have hdistinct : [text "PUT", text "GET", text "DELETE", text "REJECT"].Nodup := by decide
  have hsum := sum_count_le hdistinct operations
  simp only [List.map_cons, List.map_nil, List.sum_cons, List.sum_nil, add_zero] at hsum
  rw [← add_div, ← add_div, ← add_div]
  apply div_le_one_of_le₀ _ (Nat.cast_nonneg _)
  calc ((operations.count (text "PUT") : ℚ) + operations.count (text "GET") +
        operations.count (text "DELETE") + operations.count (text "REJECT"))
      = ((operations.count (text "PUT") + (operations.count (text "GET") +
        (operations.count (text "DELETE") + operations.count (text "REJECT"))) : ℕ) : ℚ) := by
        push_cast
        ring
    _ ≤ operations.length := by exact_mod_cast hsum

theorem reuseRatio_mem_Ico (values : List Text) : reuseRatio values ∈ Set.Ico (0 : ℚ) 1 := by
  unfold reuseRatio
  split_ifs with h
  · simp
  · have hlen : 0 < values.length := List.length_pos_iff.mpr h
    have hpos : 0 < values.dedup.length := by
      obtain ⟨v, hv⟩ := List.exists_mem_of_ne_nil _ h
      exact List.length_pos_of_mem (List.mem_dedup.mpr hv)
    have hshare := share_mem_Icc (List.dedup_sublist values).length_le
    have hdistinct : 0 < (values.dedup.length : ℚ) / values.length := by positivity
    exact ⟨sub_nonneg.mpr hshare.2, sub_lt_self 1 hdistinct⟩

theorem transitions_share (operations : List Text) :
    (if 1 < operations.length then transitions operations / ((operations.length : ℚ) - 1) else 0) ∈
      Set.Icc (0 : ℚ) 1 := by
  split_ifs with h
  · have hpos : (0 : ℚ) < (operations.length : ℚ) - 1 := by
      rw [sub_pos]
      exact_mod_cast h
    have hbit : ∀ v ∈ List.zipWith (fun left right : Text => if left ≠ right then (1 : ℚ) else 0)
        operations operations.tail, 0 ≤ v ∧ v ≤ 1 := by
      intro v hv
      obtain ⟨i, hi, rfl⟩ := List.mem_iff_getElem.mp hv
      rw [List.getElem_zipWith]
      split_ifs <;> simp
    have hsum := List.sum_le_card_nsmul _ (1 : ℚ) fun v hv => (hbit v hv).2
    have hlen : (List.zipWith (fun left right : Text => if left ≠ right then (1 : ℚ) else 0)
        operations operations.tail).length = operations.length - 1 := by
      rw [List.length_zipWith, List.length_tail]
      omega
    rw [hlen, nsmul_eq_mul, mul_one, Nat.cast_sub h.le, Nat.cast_one] at hsum
    exact ⟨div_nonneg (List.sum_nonneg fun v hv => (hbit v hv).1) hpos.le,
      div_le_one_of_le₀ hsum hpos.le⟩
  · simp

theorem meanOrZero_nonneg {values : List ℚ} (h : ∀ v ∈ values, 0 ≤ v) : 0 ≤ meanOrZero values := by
  unfold meanOrZero
  split_ifs
  · exact le_rfl
  · exact mean_nonneg h

theorem mean_le_maximum {values : List ℚ} (h : values ≠ []) : fmean values ≤ maximum values := by
  obtain ⟨-, b, hb, hle⟩ := mean_within h
  exact hle.trans ((maximum_spec h).2 b hb)

noncomputable def variation (idleValues : List ℚ) : ℝ :=
  if 1 < idleValues.length ∧ 0 < meanOrZero idleValues then
    pstdev idleValues / (meanOrZero idleValues : ℚ)
  else 0

theorem variation_nonneg (idleValues : List ℚ) : 0 ≤ variation idleValues := by
  unfold variation
  split_ifs with h
  · have hmean : (0 : ℝ) ≤ (meanOrZero idleValues : ℚ) := by exact_mod_cast h.2.le
    exact div_nonneg (Real.sqrt_nonneg _) hmean
  · exact le_rfl

theorem variation_sq_le {idleValues : List ℚ} (h : ∀ v ∈ idleValues, 0 ≤ v)
    (hlen : 1 < idleValues.length) : variation idleValues ^ 2 ≤ idleValues.length - 1 := by
  have hlast : (0 : ℝ) ≤ (idleValues.length : ℝ) - 1 := by
    rw [sub_nonneg]
    exact_mod_cast hlen.le
  unfold variation
  split_ifs with hcond
  · have hne : idleValues ≠ [] := List.length_pos_iff.mp (by omega)
    have hmean : meanOrZero idleValues = mean idleValues := if_neg hne
    have hpos : (0 : ℝ) < (mean idleValues : ℚ) := by
      rw [← hmean]
      exact_mod_cast hcond.2
    have hvar : ((variance idleValues : ℚ) : ℝ) ≤
        (idleValues.length - 1) * ((mean idleValues : ℚ) : ℝ) ^ 2 := by
      exact_mod_cast variance_le h hne
    have hnonneg : (0 : ℝ) ≤ (variance idleValues : ℚ) := by
      exact_mod_cast variance_nonneg idleValues
    rw [hmean, div_pow, pstdev, Real.sq_sqrt hnonneg, div_le_iff₀ (by positivity)]
    exact hvar
  · simpa using hlast

def orderedRequests (bucket : List Event) : List Event :=
  (requestsOf bucket).insertionSort fun a b => a.tsUnixNs ≤ b.tsUnixNs

def idleGaps (bucket : List Event) : List ℚ :=
  List.zipWith idleBetween (orderedRequests bucket) (orderedRequests bucket).tail

theorem idleGaps_nonneg (bucket : List Event) : ∀ gap ∈ idleGaps bucket, 0 ≤ gap := by
  intro gap hgap
  obtain ⟨i, hi, rfl⟩ := List.mem_iff_getElem.mp hgap
  rw [show (idleGaps bucket)[i] = _ from List.getElem_zipWith]
  exact le_max_left _ _

theorem idleGaps_length (bucket : List Event) :
    (idleGaps bucket).length = (requestsOf bucket).length - 1 := by
  have hlen : (orderedRequests bucket).length = (requestsOf bucket).length :=
    List.length_insertionSort _ _
  rw [idleGaps, List.length_zipWith, List.length_tail, hlen]
  omega

structure InRange (bucket : List Event) (row : Row ℝ) : Prop where
  requests : requestsOf bucket ≠ []
  putRatio : row.putRatio ∈ Set.Icc (0 : ℚ) 1
  getRatio : row.getRatio ∈ Set.Icc (0 : ℚ) 1
  deleteRatio : row.deleteRatio ∈ Set.Icc (0 : ℚ) 1
  rejectRatio : row.rejectRatio ∈ Set.Icc (0 : ℚ) 1
  operations : row.putRatio + row.getRatio + row.deleteRatio + row.rejectRatio ≤ 1
  errorRatio : row.errorRatio ∈ Set.Icc (0 : ℚ) 1
  operationTransitionRatio : row.operationTransitionRatio ∈ Set.Icc (0 : ℚ) 1
  keyReuseRatio : row.keyReuseRatio ∈ Set.Ico (0 : ℚ) 1
  requestReuseRatio : row.requestReuseRatio ∈ Set.Ico (0 : ℚ) 1
  latencyMeanUs : Within ((requestsOf bucket).map fun e => e.latencyUs.getD 0) row.latencyMeanUs
  latencyP95Us : Within ((requestsOf bucket).map fun e => e.latencyUs.getD 0) row.latencyP95Us
  inputBytes : row.inputMeanBytes ≤ row.inputMaxBytes
  idleMeanUs : 0 ≤ row.idleMeanUs
  idleP95Us : if (requestsOf bucket).length = 1 then row.idleP95Us = 0
    else Within (idleGaps bucket) row.idleP95Us
  idleCv : 0 ≤ row.idleCv
  idleCv_sq : if 2 ≤ (idleGaps bucket).length then row.idleCv ^ 2 ≤ (idleGaps bucket).length - 1
    else row.idleCv = 0

variable {upperChar : ℕ → Text} {windowSeconds warmupSeconds : ℤ} {key : Key} {bucket : List Event}
  {row : Row ℝ} {events : List Event}

/-- The row of a bucket in terms of its ordered requests and idle gaps. -/
theorem rowOf_some (h : rowOf (exactLibrary upperChar) windowSeconds (key, bucket) = some row) :
    orderedRequests bucket ≠ [] ∧
      let requests := orderedRequests bucket
      let operations := requests.map (exactLibrary upperChar).operationOf
      let shareOf := fun operation : String =>
        (operations.count (text operation) : ℚ) / operations.length
      let latencies := requests.map fun e => e.latencyUs.getD 0
      let sizes := requests.map fun e => e.inputBytes.getD 0
      let statuses := requests.map (exactLibrary upperChar).statusOf
      row.putRatio = shareOf "PUT" ∧ row.getRatio = shareOf "GET" ∧
        row.deleteRatio = shareOf "DELETE" ∧ row.rejectRatio = shareOf "REJECT" ∧
        row.errorRatio = (statuses.countP (· ≠ text "OK") : ℚ) / statuses.length ∧
        row.latencyMeanUs = fmean latencies ∧ row.latencyP95Us = percentile latencies (95 / 100) ∧
        row.inputMeanBytes = fmean sizes ∧ row.inputMaxBytes = maximum sizes ∧
        row.keyReuseRatio = reuseRatio (truthy Event.keyFingerprint requests) ∧
        row.requestReuseRatio = reuseRatio (truthy Event.requestFingerprint requests) ∧
        row.operationTransitionRatio = (if 1 < operations.length then
          transitions operations / ((operations.length : ℚ) - 1) else 0) ∧
        row.idleMeanUs = meanOrZero (idleGaps bucket) ∧
        row.idleP95Us = percentile (idleGaps bucket) (95 / 100) ∧
        row.idleCv = variation (idleGaps bucket) := by
  have hsorted : (bucket.filter Event.isRequest).insertionSort (fun a b => a.tsUnixNs ≤ b.tsUnixNs) =
      orderedRequests bucket := rfl
  have hgaps : List.zipWith idleBetween (orderedRequests bucket) (orderedRequests bucket).tail =
      idleGaps bucket := rfl
  unfold rowOf at h
  dsimp only at h
  rw [hsorted, hgaps] at h
  generalize orderedRequests bucket = requests at h ⊢
  cases requests with
  | nil => cases h
  | cons first rest =>
    obtain rfl := Option.some.inj h
    refine ⟨List.cons_ne_nil _ _, ?_⟩
    dsimp only
    rw [List.length_map, List.length_map]
    exact ⟨rfl, rfl, rfl, rfl, rfl, rfl, rfl, rfl, rfl, rfl, rfl, rfl, rfl, rfl, rfl⟩

theorem rowOf_inRange (h : rowOf (exactLibrary upperChar) windowSeconds (key, bucket) = some row) :
    InRange bucket row := by
  obtain ⟨hne, hput, hget, hdelete, hreject, herror, hmean, hp95, hsize, hmax, hkey, hrequest,
    htransition, hidle, hidle95, hcv⟩ := rowOf_some h
  have hperm : (orderedRequests bucket).Perm (requestsOf bucket) := List.perm_insertionSort _ _
  have hgaps := idleGaps_nonneg bucket
  have hgapsLen := idleGaps_length bucket
  have hrequests : requestsOf bucket ≠ [] := fun hnil => by
    rw [hnil] at hperm
    exact hne hperm.eq_nil
  have hlatencies : (orderedRequests bucket).map (fun e => e.latencyUs.getD 0) ≠ [] :=
    mt List.map_eq_nil_iff.mp hne
  have hsizes : (orderedRequests bucket).map (fun e => e.inputBytes.getD 0) ≠ [] :=
    mt List.map_eq_nil_iff.mp hne
  constructor
  case requests => exact hrequests
  case putRatio => exact hput ▸ share_mem_Icc List.count_le_length
  case getRatio => exact hget ▸ share_mem_Icc List.count_le_length
  case deleteRatio => exact hdelete ▸ share_mem_Icc List.count_le_length
  case rejectRatio => exact hreject ▸ share_mem_Icc List.count_le_length
  case operations =>
    rw [hput, hget, hdelete, hreject]
    exact shares_le_one _
  case errorRatio => exact herror ▸ share_mem_Icc List.countP_le_length
  case operationTransitionRatio => exact htransition ▸ transitions_share _
  case keyReuseRatio => exact hkey ▸ reuseRatio_mem_Ico _
  case requestReuseRatio => exact hrequest ▸ reuseRatio_mem_Ico _
  case latencyMeanUs =>
    rw [hmean]
    exact (mean_within hlatencies).of_perm (hperm.map _)
  case latencyP95Us =>
    rw [hp95]
    exact (percentile_within hlatencies (by norm_num) (by norm_num)).of_perm (hperm.map _)
  case inputBytes =>
    rw [hsize, hmax]
    exact mean_le_maximum hsizes
  case idleMeanUs => exact hidle ▸ meanOrZero_nonneg hgaps
  case idleP95Us =>
    rw [hidle95]
    have hpos := List.length_pos_iff.mpr hrequests
    split_ifs with hone
    · have hnil : idleGaps bucket = [] := List.length_eq_zero_iff.mp (by omega)
      rw [hnil]
      rfl
    · exact percentile_within (List.length_pos_iff.mp (by omega)) (by norm_num) (by norm_num)
  case idleCv => exact hcv ▸ variation_nonneg _
  case idleCv_sq =>
    rw [hcv]
    split_ifs with htwo
    · exact variation_sq_le hgaps htwo
    · exact if_neg fun hcond => htwo hcond.1

/-- **Every feature row is well defined and in range.**  No division of the aggregation is by
zero and no maximum is of an empty list, and the features of every row keep their bounds. -/
theorem aggregate_in_range (upperChar : ℕ → Text) (events : List Event)
    (windowSeconds warmupSeconds : ℤ) (hwindow : 0 < windowSeconds) :
    ∃ rows, checkedAggregate (exactLibrary upperChar) events windowSeconds warmupSeconds = .ok rows ∧
      aggregateEvents (exactLibrary upperChar) events windowSeconds warmupSeconds =
        (if warmupSeconds < 0 then .error (.refused "warmup_seconds cannot be negative")
          else .ok rows) ∧
      ∀ row ∈ rows, InRange (bucketAt events (nanoseconds windowSeconds) (nanoseconds warmupSeconds)
        (toLex (row.runId, row.windowStartNs))) row := by
  refine ⟨_, checkedAggregate_eq _ events hwindow warmupSeconds, ?_, fun row hrow => ?_⟩
  · rw [aggregateEvents, if_neg (not_le.mpr hwindow)]
    rfl
  · obtain ⟨key, hkey⟩ := mem_rowsOf.mp hrow
    have hat : toLex (row.runId, row.windowStartNs) = key := rowOf_key hkey
    rw [hat]
    exact rowOf_inRange hkey

def busyRequest (tsUnixNs : ℤ) (operation result : String) (latencyUs : ℚ) (key : String) : Event :=
  { bareRequest tsUnixNs with
    operation := some (text operation)
    result := some (text result)
    latencyUs := some latencyUs
    inputBytes := some 6
    keyFingerprint := some (text key)
    requestFingerprint := some (text (operation ++ key)) }

/-- The second request starts before the first one ends, the last one much later; one key is used
twice. -/
def busyEvents : List Event :=
  [busyRequest 4000000 "PUT" "OK" 3000 "aa", busyRequest 5000000 "get" "OK" 2500 "aa",
    busyRequest 90000000 "DELETE" "NOT_FOUND" 40 "bb", resourceAt 6000000 10 100]

theorem aggregate_in_range_busy :
    ∃ rows, checkedAggregate (exactLibrary fun c => [c]) busyEvents 5 0 = .ok rows ∧
      aggregateEvents (exactLibrary fun c => [c]) busyEvents 5 0 = .ok rows ∧
      ∀ row ∈ rows, InRange (bucketAt busyEvents (nanoseconds 5) (nanoseconds 0)
        (toLex (row.runId, row.windowStartNs))) row := by
  obtain ⟨rows, hchecked, hrows, hrange⟩ :=
    aggregate_in_range (fun c => [c]) busyEvents 5 0 (by decide)
  exact ⟨rows, hchecked, hrows, hrange⟩

end Cote3Mon.Features
