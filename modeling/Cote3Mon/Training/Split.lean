import Cote3Mon.Python.Reload

namespace Cote3Mon.Training
open ByteText Python

-- `split_benign_runs` and `split_benign_runs_stratified` of `cote3mon/training.py`. The seeded
-- shuffles are parameters; all that is known of them is that they permute.

/-- What a split reads of a row: `int(row["is_attack"])`, `str(row["run_id"])` and
`str(row["scenario"])`. -/
structure Columns (α : Type) where
  isAttack : α → ℤ
  runId : α → Text
  scenario : α → Text

structure Splits (α : Type) where
  training : List α
  validation : List α
  testing : List α
  deriving DecidableEq

/-- `sorted` of a set. -/
def sortedSet (texts : List Text) : List Text :=
  texts.dedup.insertionSort fun a b => textLe a b

def trainEnd (n : ℕ) : ℕ := max 1 ⌊(n : ℚ) * (6 / 10)⌋₊

def validationEnd (n : ℕ) : ℕ := max (trainEnd n + 1) ⌊(n : ℚ) * (8 / 10)⌋₊

def cut (runIds : List Text) : Splits Text where
  training := runIds.take (trainEnd runIds.length)
  validation := (runIds.take (validationEnd runIds.length)).drop (trainEnd runIds.length)
  testing := runIds.drop (validationEnd runIds.length)

/-- `update` of each of three sets. -/
def Splits.update (ids more : Splits Text) : Splits Text :=
  ⟨ids.training ++ more.training, ids.validation ++ more.validation, ids.testing ++ more.testing⟩

variable {α : Type} (cols : Columns α)

def Columns.benign (rows : List α) : List α := rows.filter fun row => cols.isAttack row = 0

def selectRows (benign : List α) (ids : Splits Text) : Splits α where
  training := benign.filter fun row => cols.runId row ∈ ids.training
  validation := benign.filter fun row => cols.runId row ∈ ids.validation
  testing := benign.filter fun row => cols.runId row ∈ ids.testing

/-- `shuffle` is `random.Random(seed).shuffle`. -/
def splitBenignRuns (shuffle : List Text → List Text) (rows : List α) : Except Exc (Splits α) :=
  let benign := cols.benign rows
  let runIds := sortedSet (benign.map cols.runId)
  if runIds.length < 5 then
    .error (.refused "at least five benign runs are required for run-level splitting")
  else .ok (selectRows cols benign (cut (shuffle runIds)))

def runsOf (benign : List α) (scenario : Text) : List Text :=
  sortedSet ((benign.filter fun row => cols.scenario row = scenario).map cols.runId)

/-- The loop over the scenarios; the messages also name the scenario. -/
def assignRuns (shuffle : Text → List Text → List Text) (benign : List α) :
    List Text → Splits Text → Except Exc (Splits Text)
  | [], ids => .ok ids
  | scenario :: rest, ids =>
    if (runsOf cols benign scenario).length < 5 then
      .error (.refused "at least five benign runs are required for scenario")
    else
      let runIds := shuffle scenario (runsOf cols benign scenario)
      if runIds.length ≤ validationEnd runIds.length then
        .error (.refused "scenario has no test run after splitting")
      else assignRuns shuffle benign rest (ids.update (cut runIds))

/-- `shuffle scenario` is `random.Random(f"\x7bseed\x7d:\x7bscenario\x7d").shuffle`. -/
def splitBenignRunsStratified (shuffle : Text → List Text → List Text)
    (scenarios : Option (List Text)) (rows : List α) : Except Exc (Splits α) := do
  let benign := cols.benign rows
  let observed := sortedSet (benign.map cols.scenario)
  let expected := sortedSet (scenarios.getD observed)
  if observed ≠ expected then .error (.refused "benign scenario coverage mismatch")
  else
    let ids ← assignRuns cols shuffle benign expected ⟨[], [], []⟩
    return selectRows cols benign ids

theorem sortedSet_perm (texts : List Text) : (sortedSet texts).Perm texts.dedup :=
  List.perm_insertionSort _ _

theorem mem_sortedSet {texts : List Text} {t : Text} : t ∈ sortedSet texts ↔ t ∈ texts :=
  (sortedSet_perm texts).mem_iff.trans List.mem_dedup

theorem nodup_sortedSet (texts : List Text) : (sortedSet texts).Nodup :=
  (sortedSet_perm texts).nodup_iff.mpr (List.nodup_dedup texts)

theorem length_sortedSet (texts : List Text) : (sortedSet texts).length = texts.dedup.length :=
  (sortedSet_perm texts).length_eq

theorem floor_fraction (n k : ℕ) : ⌊(n : ℚ) * (k / 10)⌋₊ = n * k / 10 := by
  rw [← mul_div_assoc]
  have hcast : (n : ℚ) * k / 10 = ((n * k : ℕ) : ℚ) / (10 : ℕ) := by push_cast; rfl
  rw [hcast, Nat.floor_div_eq_div]

theorem boundaries {n : ℕ} (h : 5 ≤ n) :
    trainEnd n = ⌊(n : ℚ) * (6 / 10)⌋₊ ∧ validationEnd n = ⌊(n : ℚ) * (8 / 10)⌋₊ ∧
      0 < trainEnd n ∧ trainEnd n < validationEnd n ∧ validationEnd n < n := by
  have hsix : ⌊(n : ℚ) * (6 / 10)⌋₊ = n * 6 / 10 := floor_fraction n 6
  have height : ⌊(n : ℚ) * (8 / 10)⌋₊ = n * 8 / 10 := floor_fraction n 8
  rw [validationEnd, trainEnd, hsix, height]
  omega

variable {l : List Text} {t : Text}

theorem cut_append (l : List Text) :
    (cut l).training ++ (cut l).validation ++ (cut l).testing = l := by
  have hle : trainEnd l.length ≤ validationEnd l.length := by
    rw [validationEnd]
    omega
  have htake : l.take (trainEnd l.length) =
      (l.take (validationEnd l.length)).take (trainEnd l.length) := by
    rw [List.take_take, min_eq_left hle]
  rw [cut, htake, List.take_append_drop, List.take_append_drop]

theorem mem_cut : t ∈ l ↔ t ∈ (cut l).training ∨ t ∈ (cut l).validation ∨ t ∈ (cut l).testing := by
  conv_lhs => rw [← cut_append l]
  rw [List.mem_append, List.mem_append, or_assoc]

/-- No run is in two of three sets. -/
structure Splits.Apart (ids : Splits Text) : Prop where
  training_validation : ids.training.Disjoint ids.validation
  training_testing : ids.training.Disjoint ids.testing
  validation_testing : ids.validation.Disjoint ids.testing

theorem cut_apart (h : l.Nodup) : (cut l).Apart := by
  rw [← cut_append l, List.nodup_append', List.nodup_append'] at h
  obtain ⟨⟨-, -, hfirst⟩, -, hlast⟩ := h
  obtain ⟨htraining, hvalidation⟩ := List.disjoint_append_left.mp hlast
  exact ⟨hfirst, htraining, hvalidation⟩

theorem cut_nonempty (h : 5 ≤ l.length) :
    (cut l).training ≠ [] ∧ (cut l).validation ≠ [] ∧ (cut l).testing ≠ [] := by
  obtain ⟨-, -, hpos, hlt, hend⟩ := boundaries h
  refine ⟨?_, ?_, ?_⟩ <;>
  · apply List.ne_nil_of_length_pos
    simp only [cut, List.length_take, List.length_drop]
    omega

/-- What a split by whole runs promises. -/
structure WholeRuns (rows : List α) (s : Splits α) : Prop where
  once : (s.training ++ s.validation ++ s.testing).Perm (cols.benign rows)
  training_order : s.training.Sublist (cols.benign rows)
  validation_order : s.validation.Sublist (cols.benign rows)
  testing_order : s.testing.Sublist (cols.benign rows)
  apart : Splits.Apart ⟨s.training.map cols.runId, s.validation.map cols.runId,
    s.testing.map cols.runId⟩

theorem filter_three_perm (benign : List α) (p q r : α → Bool)
    (h : ∀ a ∈ benign, (p a ∧ ¬ q a ∧ ¬ r a) ∨ (¬ p a ∧ q a ∧ ¬ r a) ∨ (¬ p a ∧ ¬ q a ∧ r a)) :
    (benign.filter p ++ benign.filter q ++ benign.filter r).Perm benign := by
  induction benign with
  | nil => exact .refl _
  | cons a rest ih =>
    have hrest := ih fun b hb => h b (List.mem_cons_of_mem a hb)
    rcases h a List.mem_cons_self with ⟨hp, hq, hr⟩ | ⟨hp, hq, hr⟩ | ⟨hp, hq, hr⟩
    · rw [List.filter_cons_of_pos hp, List.filter_cons_of_neg hq, List.filter_cons_of_neg hr]
      exact hrest.cons a
    · rw [List.filter_cons_of_neg hp, List.filter_cons_of_pos hq, List.filter_cons_of_neg hr,
        List.append_assoc, List.cons_append]
      refine List.perm_middle.trans ((List.Perm.cons a ?_))
      rwa [List.append_assoc] at hrest
    · rw [List.filter_cons_of_neg hp, List.filter_cons_of_neg hq, List.filter_cons_of_pos hr]
      exact List.perm_middle.trans (hrest.cons a)

variable {cols} {rows : List α} {ids : Splits Text}

theorem mem_map_filter {benign : List α} {chosen : List Text} :
    t ∈ (benign.filter fun row => cols.runId row ∈ chosen).map cols.runId ↔
      t ∈ benign.map cols.runId ∧ t ∈ chosen := by
  simp only [List.mem_map, List.mem_filter, decide_eq_true_eq]
  constructor
  · rintro ⟨row, ⟨hrow, hchosen⟩, rfl⟩
    exact ⟨⟨row, hrow, rfl⟩, hchosen⟩
  · rintro ⟨⟨row, hrow, rfl⟩, hchosen⟩
    exact ⟨row, ⟨hrow, hchosen⟩, rfl⟩

theorem wholeRuns_selectRows (hall : ∀ row ∈ cols.benign rows, cols.runId row ∈ ids.training ∨
      cols.runId row ∈ ids.validation ∨ cols.runId row ∈ ids.testing) (hapart : ids.Apart) :
    WholeRuns cols rows (selectRows cols (cols.benign rows) ids) where
  once := by
    apply filter_three_perm
    intro row hrow
    simp only [decide_eq_true_eq]
    rcases hall row hrow with h | h | h
    · exact Or.inl ⟨h, hapart.training_validation h, hapart.training_testing h⟩
    · exact Or.inr (Or.inl ⟨fun h' => hapart.training_validation h' h, h,
        hapart.validation_testing h⟩)
    · exact Or.inr (Or.inr ⟨fun h' => hapart.training_testing h' h,
        fun h' => hapart.validation_testing h' h, h⟩)
  training_order := List.filter_sublist
  validation_order := List.filter_sublist
  testing_order := List.filter_sublist
  apart := by
    refine ⟨?_, ?_, ?_⟩
    · intro t h h'
      exact hapart.training_validation (mem_map_filter.mp h).2 (mem_map_filter.mp h').2
    · intro t h h'
      exact hapart.training_testing (mem_map_filter.mp h).2 (mem_map_filter.mp h').2
    · intro t h h'
      exact hapart.validation_testing (mem_map_filter.mp h).2 (mem_map_filter.mp h').2

variable (cols) in
def Columns.runCount (rows : List α) : ℕ := (rows.map cols.runId).dedup.length

theorem runCount_filter {benign : List α} {chosen : List Text} (hnodup : chosen.Nodup)
    (hsub : chosen ⊆ benign.map cols.runId) :
    cols.runCount (benign.filter fun row => cols.runId row ∈ chosen) = chosen.length := by
  apply List.Perm.length_eq
  rw [List.perm_ext_iff_of_nodup (List.nodup_dedup _) hnodup]
  intro t
  rw [List.mem_dedup, mem_map_filter]
  exact ⟨fun h => h.2, fun h => ⟨hsub h, h⟩⟩

theorem ne_nil_of_runCount (cols : Columns α) {rows : List α} (h : 0 < cols.runCount rows) :
    rows ≠ [] := by
  rintro rfl
  exact absurd h (by simp [Columns.runCount])

/-- **A split by run leaks nothing**, whatever the shuffle, and cuts the runs at six and at
eight tenths. -/
theorem splitBenignRuns_whole (cols : Columns α) (shuffle : List Text → List Text)
    (hshuffle : ∀ ids, (shuffle ids).Perm ids) (rows : List α)
    (hfive : 5 ≤ cols.runCount (cols.benign rows)) :
    ∃ s, splitBenignRuns cols shuffle rows = .ok s ∧ WholeRuns cols rows s ∧
      s.training ≠ [] ∧ s.validation ≠ [] ∧ s.testing ≠ [] ∧
      cols.runCount s.training = ⌊(cols.runCount (cols.benign rows) : ℚ) * (6 / 10)⌋₊ ∧
      cols.runCount s.validation = ⌊(cols.runCount (cols.benign rows) : ℚ) * (8 / 10)⌋₊ -
        ⌊(cols.runCount (cols.benign rows) : ℚ) * (6 / 10)⌋₊ ∧
      cols.runCount s.testing = cols.runCount (cols.benign rows) -
        ⌊(cols.runCount (cols.benign rows) : ℚ) * (8 / 10)⌋₊ := by
  have hperm := hshuffle (sortedSet ((cols.benign rows).map cols.runId))
  set runIds := shuffle (sortedSet ((cols.benign rows).map cols.runId)) with hrunIds
  have hnodup : runIds.Nodup := hperm.nodup_iff.mpr (nodup_sortedSet _)
  have hmem : ∀ t, t ∈ runIds ↔ t ∈ (cols.benign rows).map cols.runId := fun t =>
    hperm.mem_iff.trans mem_sortedSet
  have hlength : runIds.length = cols.runCount (cols.benign rows) :=
    hperm.length_eq.trans (length_sortedSet _)
  rw [← hlength] at hfive ⊢
  obtain ⟨htrain, hvalidation, hpos, hlt, hend⟩ := boundaries hfive
  have hsub : ∀ chosen : List Text, chosen.Sublist runIds →
      cols.runCount ((cols.benign rows).filter fun row => cols.runId row ∈ chosen) =
        chosen.length := fun chosen hchosen =>
    runCount_filter (hnodup.sublist hchosen) fun t ht => (hmem t).mp (hchosen.subset ht)
  set s := selectRows cols (cols.benign rows) (cut runIds) with hs
  have htraining : cols.runCount s.training = trainEnd runIds.length := by
    refine (hsub (cut runIds).training (List.take_sublist _ _)).trans ?_
    simp only [cut, List.length_take]
    omega
  have hvalidating : cols.runCount s.validation =
      validationEnd runIds.length - trainEnd runIds.length := by
    refine (hsub (cut runIds).validation
      ((List.drop_sublist _ _).trans (List.take_sublist _ _))).trans ?_
    simp only [cut, List.length_take, List.length_drop]
    omega
  have htesting : cols.runCount s.testing = runIds.length - validationEnd runIds.length := by
    refine (hsub (cut runIds).testing (List.drop_sublist _ _)).trans ?_
    simp only [cut, List.length_drop]
  rw [← htrain, ← hvalidation]
  refine ⟨s, ?_, ?_, ?_, ?_, ?_, htraining, hvalidating, htesting⟩
  · rw [splitBenignRuns, if_neg]
    rw [← hperm.length_eq]
    omega
  · refine wholeRuns_selectRows (fun row hrow => ?_) (cut_apart hnodup)
    exact mem_cut.mp ((hmem _).mpr (List.mem_map_of_mem hrow))
  · exact ne_nil_of_runCount cols (by omega)
  · exact ne_nil_of_runCount cols (by omega)
  · exact ne_nil_of_runCount cols (by omega)

def plainColumns : Columns (Text × Text) := ⟨fun _ => 0, Prod.fst, Prod.snd⟩

def fiveRuns (scenario : Text) : List (Text × Text) :=
  [(text "a", scenario), (text "b", scenario), (text "c", scenario), (text "d", scenario),
    (text "e", scenario)]

theorem splitBenignRuns_whole_five_runs : ∃ s,
    splitBenignRuns plainColumns List.reverse (fiveRuns (text "steady")) = .ok s ∧
      WholeRuns plainColumns (fiveRuns (text "steady")) s ∧
      s.training ≠ [] ∧ s.validation ≠ [] ∧ s.testing ≠ [] ∧
      plainColumns.runCount s.training = ⌊((5 : ℕ) : ℚ) * (6 / 10)⌋₊ ∧
      plainColumns.runCount s.validation = ⌊((5 : ℕ) : ℚ) * (8 / 10)⌋₊ - ⌊((5 : ℕ) : ℚ) *
        (6 / 10)⌋₊ ∧
      plainColumns.runCount s.testing = 5 - ⌊((5 : ℕ) : ℚ) * (8 / 10)⌋₊ :=
  splitBenignRuns_whole plainColumns List.reverse (fun ids => List.reverse_perm ids)
    (fiveRuns (text "steady")) (by decide)

def Shuffles (shuffle : Text → List Text → List Text) : Prop :=
  ∀ scenario ids, (shuffle scenario ids).Perm ids

def assigned (cols : Columns α) (shuffle : Text → List Text → List Text) (benign : List α)
    (scenarios : List Text) : Splits Text where
  training := scenarios.flatMap fun sc => (cut (shuffle sc (runsOf cols benign sc))).training
  validation := scenarios.flatMap fun sc => (cut (shuffle sc (runsOf cols benign sc))).validation
  testing := scenarios.flatMap fun sc => (cut (shuffle sc (runsOf cols benign sc))).testing

variable {shuffle : Text → List Text → List Text} {benign : List α} {scenarios : List Text}

theorem mem_runsOf {scenario : Text} : t ∈ runsOf cols benign scenario ↔
    ∃ row ∈ benign, cols.scenario row = scenario ∧ cols.runId row = t := by
  simp only [runsOf, mem_sortedSet, List.mem_map, List.mem_filter, decide_eq_true_eq, and_assoc]

/-- With five runs in each scenario the loop ends, and the test for a part without runs never
fails. -/
theorem assignRuns_eq_ok (hshuffle : Shuffles shuffle) {ids ids' : Splits Text} :
    assignRuns cols shuffle benign scenarios ids = .ok ids' ↔
      (∀ sc ∈ scenarios, 5 ≤ (runsOf cols benign sc).length) ∧
        ids' = ids.update (assigned cols shuffle benign scenarios) := by
  induction scenarios generalizing ids with
  | nil =>
    rw [assignRuns, Except.ok.injEq, eq_comm]
    simp [assigned, Splits.update]
  | cons sc rest ih =>
    rw [assignRuns, List.forall_mem_cons]
    by_cases hfew : (runsOf cols benign sc).length < 5
    · rw [if_pos hfew]
      simp only [reduceCtorEq, false_iff]
      omega
    · have hlength := (hshuffle sc (runsOf cols benign sc)).length_eq
      have hend : ¬ (shuffle sc (runsOf cols benign sc)).length ≤
          validationEnd (shuffle sc (runsOf cols benign sc)).length := by
        have hlt := (boundaries (not_lt.mp hfew)).2.2.2.2
        rw [hlength]
        omega
      rw [if_neg hfew]
      dsimp only
      rw [if_neg hend, ih]
      have hupdate : (ids.update (cut (shuffle sc (runsOf cols benign sc)))).update
          (assigned cols shuffle benign rest) =
          ids.update (assigned cols shuffle benign (sc :: rest)) := by
        simp only [Splits.update, assigned, List.flatMap_cons, List.append_assoc]
      rw [hupdate, and_iff_right (not_lt.mp hfew)]

def Covers (cols : Columns α) (rows : List α) (s : Splits α) : Prop :=
  ∀ row ∈ cols.benign rows, (∃ a ∈ s.training, cols.scenario a = cols.scenario row) ∧
    (∃ a ∈ s.validation, cols.scenario a = cols.scenario row) ∧
    ∃ a ∈ s.testing, cols.scenario a = cols.scenario row

/-- No run has rows of two scenarios. -/
def OneScenario (cols : Columns α) (rows : List α) : Prop :=
  ∀ a ∈ cols.benign rows, ∀ b ∈ cols.benign rows, cols.runId a = cols.runId b →
    cols.scenario a = cols.scenario b

theorem stratified_eq_ok {scenarios : Option (List Text)} (hshuffle : Shuffles shuffle)
    {s : Splits α} : splitBenignRunsStratified cols shuffle scenarios rows = .ok s ↔
      sortedSet ((cols.benign rows).map cols.scenario) =
          sortedSet (scenarios.getD (sortedSet ((cols.benign rows).map cols.scenario))) ∧
        (∀ row ∈ cols.benign rows, 5 ≤ (runsOf cols (cols.benign rows) (cols.scenario row)).length) ∧
        s = selectRows cols (cols.benign rows) (assigned cols shuffle (cols.benign rows)
          (sortedSet ((cols.benign rows).map cols.scenario))) := by
  rw [splitBenignRunsStratified]
  by_cases hcoverage : sortedSet ((cols.benign rows).map cols.scenario) =
      sortedSet (scenarios.getD (sortedSet ((cols.benign rows).map cols.scenario)))
  · rw [if_neg (not_not.mpr hcoverage), ← hcoverage, bind_eq_ok]
    simp only [assignRuns_eq_ok hshuffle, mem_sortedSet, List.forall_mem_map, true_and]
    constructor
    · rintro ⟨ids, ⟨hfive, rfl⟩, hs⟩
      exact ⟨hfive, (Except.ok.inj hs).symm⟩
    · rintro ⟨hfive, rfl⟩
      exact ⟨_, ⟨hfive, rfl⟩, rfl⟩
  · simp [hcoverage]

/-- The run of a row is assigned by the shuffle of its scenario. -/
theorem mem_cut_runsOf (hshuffle : Shuffles shuffle) {row : α} (hrow : row ∈ benign) :
    cols.runId row ∈ shuffle (cols.scenario row) (runsOf cols benign (cols.scenario row)) :=
  (hshuffle _ _).mem_iff.mpr (mem_runsOf.mpr ⟨row, hrow, rfl, rfl⟩)

/-- A run in one part of one scenario and in another part of another shows two scenarios. -/
theorem assigned_apart (hshuffle : Shuffles shuffle) (hone : OneScenario cols rows)
    (scenarios : List Text) : (assigned cols shuffle (cols.benign rows) scenarios).Apart := by
  have hcut : ∀ sc, (cut (shuffle sc (runsOf cols (cols.benign rows) sc))).Apart := fun sc =>
    cut_apart ((hshuffle sc _).nodup_iff.mpr (nodup_sortedSet _))
  have hsame : ∀ sc sc' : Text, ∀ t, t ∈ shuffle sc (runsOf cols (cols.benign rows) sc) →
      t ∈ shuffle sc' (runsOf cols (cols.benign rows) sc') → sc = sc' := by
    intro sc sc' t h h'
    obtain ⟨a, ha, rfl, hrun⟩ := mem_runsOf.mp ((hshuffle sc _).mem_iff.mp h)
    obtain ⟨b, hb, rfl, hrun'⟩ := mem_runsOf.mp ((hshuffle sc' _).mem_iff.mp h')
    exact hone a ha b hb (hrun.trans hrun'.symm)
  refine ⟨?_, ?_, ?_⟩
  · intro t h h'
    obtain ⟨sc, -, h⟩ := List.mem_flatMap.mp h
    obtain ⟨sc', -, h'⟩ := List.mem_flatMap.mp h'
    obtain rfl := hsame sc sc' t (mem_cut.mpr (Or.inl h)) (mem_cut.mpr (Or.inr (Or.inl h')))
    exact (hcut sc).training_validation h h'
  · intro t h h'
    obtain ⟨sc, -, h⟩ := List.mem_flatMap.mp h
    obtain ⟨sc', -, h'⟩ := List.mem_flatMap.mp h'
    obtain rfl := hsame sc sc' t (mem_cut.mpr (Or.inl h)) (mem_cut.mpr (Or.inr (Or.inr h')))
    exact (hcut sc).training_testing h h'
  · intro t h h'
    obtain ⟨sc, -, h⟩ := List.mem_flatMap.mp h
    obtain ⟨sc', -, h'⟩ := List.mem_flatMap.mp h'
    obtain rfl := hsame sc sc' t (mem_cut.mpr (Or.inr (Or.inl h)))
      (mem_cut.mpr (Or.inr (Or.inr h')))
    exact (hcut sc).validation_testing h h'

/-- A run that a scenario puts into a part has a row of that scenario there. -/
theorem exists_row_of_part (part : Splits Text → List Text) (hshuffle : Shuffles shuffle) {sc : Text}
    {chosen : List Text} (hne : part (cut (shuffle sc (runsOf cols benign sc))) ≠ [])
    (hpart : ∀ l t, t ∈ part (cut l) → t ∈ l)
    (hchosen : ∀ t ∈ part (cut (shuffle sc (runsOf cols benign sc))), t ∈ chosen) :
    ∃ a ∈ benign.filter fun row => cols.runId row ∈ chosen, cols.scenario a = sc := by
  obtain ⟨t, ht⟩ := List.exists_mem_of_ne_nil _ hne
  obtain ⟨a, ha, hsc, rfl⟩ := mem_runsOf.mp ((hshuffle sc _).mem_iff.mp (hpart _ t ht))
  exact ⟨a, List.mem_filter.mpr ⟨ha, decide_eq_true (hchosen _ ht)⟩, hsc⟩

theorem covers_assigned (hshuffle : Shuffles shuffle) (hfive : ∀ row ∈ cols.benign rows,
      5 ≤ (runsOf cols (cols.benign rows) (cols.scenario row)).length) :
    Covers cols rows (selectRows cols (cols.benign rows) (assigned cols shuffle (cols.benign rows)
      (sortedSet ((cols.benign rows).map cols.scenario)))) := by
  intro row hrow
  have hsc : cols.scenario row ∈ sortedSet ((cols.benign rows).map cols.scenario) :=
    mem_sortedSet.mpr (List.mem_map_of_mem hrow)
  have hlength := hfive row hrow
  rw [← (hshuffle _ _).length_eq] at hlength
  obtain ⟨htraining, hvalidation, htesting⟩ := cut_nonempty hlength
  refine ⟨?_, ?_, ?_⟩
  · exact exists_row_of_part Splits.training hshuffle htraining
      (fun l t ht => mem_cut.mpr (Or.inl ht)) fun t ht => List.mem_flatMap.mpr ⟨_, hsc, ht⟩
  · exact exists_row_of_part Splits.validation hshuffle hvalidation
      (fun l t ht => mem_cut.mpr (Or.inr (Or.inl ht))) fun t ht => List.mem_flatMap.mpr ⟨_, hsc, ht⟩
  · exact exists_row_of_part Splits.testing hshuffle htesting
      (fun l t ht => mem_cut.mpr (Or.inr (Or.inr ht))) fun t ht => List.mem_flatMap.mpr ⟨_, hsc, ht⟩

/-- The list with `t` at its front. -/
def front (t : Text) (l : List Text) : List Text := if t ∈ l then t :: l.erase t else l

/-- The list with `t` at its end. -/
def back (t : Text) (l : List Text) : List Text := if t ∈ l then l.erase t ++ [t] else l

theorem front_perm (t : Text) (l : List Text) : (front t l).Perm l := by
  unfold front
  split_ifs with h
  · exact (List.perm_cons_erase h).symm
  · exact .refl l

theorem back_perm (t : Text) (l : List Text) : (back t l).Perm l := by
  unfold back
  split_ifs with h
  · exact (List.perm_append_singleton t _).trans (List.perm_cons_erase h).symm
  · exact .refl l

theorem mem_training_front (hfive : 5 ≤ l.length) (h : t ∈ l) : t ∈ (cut (front t l)).training := by
  obtain ⟨-, -, hpos, -, -⟩ := boundaries (hfive.trans_eq (front_perm t l).length_eq.symm)
  rw [cut]
  obtain ⟨k, hk⟩ := Nat.exists_eq_succ_of_ne_zero hpos.ne'
  simp only [hk]
  rw [front, if_pos h]
  exact List.mem_cons_self

theorem mem_testing_back (hfive : 5 ≤ l.length) (h : t ∈ l) : t ∈ (cut (back t l)).testing := by
  obtain ⟨-, -, -, -, hend⟩ := boundaries (hfive.trans_eq (back_perm t l).length_eq.symm)
  have hback : back t l = l.erase t ++ [t] := if_pos h
  rw [cut]
  generalize validationEnd (back t l).length = k at hend ⊢
  rw [hback, List.length_append, List.length_singleton] at hend
  simp only [hback]
  rw [List.drop_append_of_le_length (by omega)]
  exact List.mem_append_right _ List.mem_cons_self

/-- A shuffle that puts a run first in one scenario and last in all others. -/
def straddle (t sc : Text) : Text → List Text → List Text := fun sc' =>
  if sc' = sc then front t else back t

theorem straddle_shuffles (t sc : Text) : Shuffles (straddle t sc) := by
  intro sc' ids
  unfold straddle
  split_ifs
  · exact front_perm t ids
  · exact back_perm t ids

/-- **When the stratified split keeps its promise.**  Whatever the shuffles, every part has whole
runs and rows of every scenario, exactly where no run has rows of two scenarios. -/
theorem stratified_whole_iff (cols : Columns α) (scenarios : Option (List Text)) (rows : List α)
    (hreturns : ∃ shuffle s, Shuffles shuffle ∧
      splitBenignRunsStratified cols shuffle scenarios rows = .ok s) :
    (∀ shuffle s, Shuffles shuffle → splitBenignRunsStratified cols shuffle scenarios rows = .ok s →
      WholeRuns cols rows s ∧ Covers cols rows s) ↔ OneScenario cols rows := by
  constructor
  · intro hpromise a ha b hb hrun
    by_contra hne
    obtain ⟨shuffle, s, hshuffle, hs⟩ := hreturns
    obtain ⟨hcoverage, hfive, -⟩ := (stratified_eq_ok hshuffle).mp hs
    have hstraddle := straddle_shuffles (cols.runId a) (cols.scenario a)
    obtain ⟨hwhole, -⟩ := hpromise _ _ hstraddle ((stratified_eq_ok hstraddle).mpr
      ⟨hcoverage, hfive, rfl⟩)
    have hmem : ∀ row ∈ cols.benign rows, cols.scenario row ∈
        sortedSet ((cols.benign rows).map cols.scenario) := fun row hrow =>
      mem_sortedSet.mpr (List.mem_map_of_mem hrow)
    have htraining : cols.runId a ∈ (cut (straddle (cols.runId a) (cols.scenario a)
        (cols.scenario a) (runsOf cols (cols.benign rows) (cols.scenario a)))).training := by
      rw [straddle, if_pos rfl]
      exact mem_training_front (hfive a ha) (mem_runsOf.mpr ⟨a, ha, rfl, rfl⟩)
    have htesting : cols.runId a ∈ (cut (straddle (cols.runId a) (cols.scenario a)
        (cols.scenario b) (runsOf cols (cols.benign rows) (cols.scenario b)))).testing := by
      rw [straddle, if_neg (Ne.symm hne)]
      exact mem_testing_back (hfive b hb) (mem_runsOf.mpr ⟨b, hb, rfl, hrun.symm⟩)
    have hrunMem : cols.runId a ∈ (cols.benign rows).map cols.runId := List.mem_map_of_mem ha
    exact hwhole.apart.training_testing
      (mem_map_filter.mpr ⟨hrunMem, List.mem_flatMap.mpr ⟨_, hmem a ha, htraining⟩⟩)
      (mem_map_filter.mpr ⟨hrunMem, List.mem_flatMap.mpr ⟨_, hmem b hb, htesting⟩⟩)
  · intro hone shuffle s hshuffle hs
    obtain ⟨-, hfive, rfl⟩ := (stratified_eq_ok hshuffle).mp hs
    refine ⟨wholeRuns_selectRows (fun row hrow => ?_) (assigned_apart hshuffle hone _),
      covers_assigned hshuffle hfive⟩
    have hsc : cols.scenario row ∈ sortedSet ((cols.benign rows).map cols.scenario) :=
      mem_sortedSet.mpr (List.mem_map_of_mem hrow)
    rcases mem_cut.mp (mem_cut_runsOf hshuffle hrow) with h | h | h
    · exact Or.inl (List.mem_flatMap.mpr ⟨_, hsc, h⟩)
    · exact Or.inr (Or.inl (List.mem_flatMap.mpr ⟨_, hsc, h⟩))
    · exact Or.inr (Or.inr (List.mem_flatMap.mpr ⟨_, hsc, h⟩))

theorem stratified_whole_iff_five_runs :
    (∀ shuffle s, Shuffles shuffle → splitBenignRunsStratified plainColumns shuffle none
      (fiveRuns (text "steady")) = .ok s → WholeRuns plainColumns (fiveRuns (text "steady")) s ∧
        Covers plainColumns (fiveRuns (text "steady")) s) ↔
      OneScenario plainColumns (fiveRuns (text "steady")) :=
  stratified_whole_iff plainColumns none (fiveRuns (text "steady"))
    ⟨fun _ ids => ids, _, fun _ ids => .refl ids, (stratified_eq_ok fun _ ids => .refl ids).mpr
      ⟨rfl, by decide, rfl⟩⟩

def sharedRuns : List (Text × Text) := fiveRuns (text "bursty") ++ fiveRuns (text "steady")

/-- Run `a` comes first in one scenario and last in the other, and its rows are both trained and
tested on. -/
theorem stratified_leaks : Shuffles (straddle (text "a") (text "bursty")) ∧
    ∃ s, splitBenignRunsStratified plainColumns (straddle (text "a") (text "bursty"))
        (some [text "steady", text "bursty"]) sharedRuns = .ok s ∧
      (text "a", text "steady") ∈ s.training ∧ (text "a", text "steady") ∈ s.testing := by
  refine ⟨straddle_shuffles _ _, _, (stratified_eq_ok (straddle_shuffles _ _)).mpr
    ⟨?_, ?_, rfl⟩, ?_, ?_⟩ <;> decide +kernel

end Cote3Mon.Training
