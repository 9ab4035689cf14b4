import Cote3Mon.Features.Windows

namespace Cote3Mon.Features
open ByteText Python Grouping

variable {K : Type} [Field K] {lib : Library K} {events events' bucket bucket' : List Event}
  {r : Text} {warmupNs windowNs windowSeconds warmupSeconds : ℤ} {key : Key}

def rowKey (row : Row K) : Key := toLex (row.runId, row.windowStartNs)

/-- Lists in strict order are equal where their elements are. -/
theorem eq_of_strictly_sorted {α κ : Type} [LinearOrder κ] {f : α → κ} {l l' : List α}
    (hl : l.Pairwise fun a b => f a < f b) (hl' : l'.Pairwise fun a b => f a < f b)
    (h : ∀ a, a ∈ l ↔ a ∈ l') : l = l' := by
  have hnodup : ∀ {xs : List α}, xs.Pairwise (fun a b => f a < f b) → xs.Nodup := fun hxs =>
    hxs.imp fun hlt heq => absurd (heq ▸ hlt) (lt_irrefl _)
  have hperm : l.Perm l' := (List.perm_ext_iff_of_nodup (hnodup hl) (hnodup hl')).mpr h
  exact hperm.eq_of_pairwise (fun a b _ _ hab hba => absurd hab (lt_asymm hba)) hl hl'

theorem rowsOf_eq_of_mem {rows : List (Row K)}
    (hrows : rows.Pairwise fun a b => rowKey a < rowKey b)
    (h : ∀ row, row ∈ rows ↔ row ∈ rowsOf lib events windowSeconds warmupSeconds) :
    rows = rowsOf lib events windowSeconds warmupSeconds :=
  eq_of_strictly_sorted hrows (rowsOf_pairwise lib events windowSeconds warmupSeconds) h

/-- The first request of a run depends on the times of its requests only. -/
theorem firstRequest_congr (h : requestTimes events r = requestTimes events' r) :
    firstRequest events r = firstRequest events' r := by
  rcases firstRequest_spec events r with ⟨hnone, hempty⟩ | ⟨first, hsome, hleast⟩
  · rcases firstRequest_spec events' r with ⟨hnone', -⟩ | ⟨first', -, hleast'⟩
    · rw [hnone, hnone']
    · rw [← h, hempty] at hleast'
      exact absurd hleast'.1 (Set.notMem_empty _)
  · rcases firstRequest_spec events' r with ⟨-, hempty'⟩ | ⟨first', hsome', hleast'⟩
    · rw [h, hempty'] at hleast
      exact absurd hleast.1 (Set.notMem_empty _)
    · rw [← h] at hleast'
      rw [hsome, hsome', hleast.unique hleast']

theorem afterWarmup_congr (warmupNs : ℤ) {first first' : Text → Option ℤ} {e : Event}
    (h : first e.run = first' e.run) : afterWarmup first warmupNs e =
        afterWarmup first' warmupNs e := by
  rw [afterWarmup, afterWarmup, h]

def DistinctTimes (events : List Event) : Prop :=
  ∀ r, ((events.filter fun e => e.isRequest ∧ e.run = r).map Event.tsUnixNs).Nodup

theorem requestTimes_perm (h : events.Perm events') (r : Text) :
    requestTimes events r = requestTimes events' r := by
  ext t
  simp only [requestTimes, h.mem_iff]

theorem bucketAt_perm (h : events.Perm events') :
    (bucketAt events windowNs warmupNs key).Perm (bucketAt events' windowNs warmupNs key) := by
  have hfirst : firstRequest events = firstRequest events' :=
    funext fun r => firstRequest_congr (requestTimes_perm h r)
  rw [bucketAt, bucketAt, hfirst]
  exact h.filter _

/-- Requests with distinct timestamps are sorted in one way. -/
theorem sorted_requests_perm (h : bucket.Perm bucket')
    (hdistinct : ((requestsOf bucket).map Event.tsUnixNs).Nodup) :
    (requestsOf bucket).insertionSort (fun a b => a.tsUnixNs ≤ b.tsUnixNs) =
      (requestsOf bucket').insertionSort fun a b => a.tsUnixNs ≤ b.tsUnixNs := by
  have hrequests : (requestsOf bucket).Perm (requestsOf bucket') := h.filter _
  have hsort := List.perm_insertionSort (fun a b : Event => a.tsUnixNs ≤ b.tsUnixNs)
  have htotal : Std.Total fun a b : Event => a.tsUnixNs ≤ b.tsUnixNs :=
    ⟨fun a b => le_total _ _⟩
  have htrans : IsTrans Event fun a b => a.tsUnixNs ≤ b.tsUnixNs := ⟨fun _ _ _ => le_trans⟩
  refine List.Perm.eq_of_pairwise ?_ (List.pairwise_insertionSort _ _)
    (List.pairwise_insertionSort _ _) (((hsort _).trans hrequests).trans (hsort _).symm)
  intro a b ha hb hab hba
  refine List.inj_on_of_nodup_map hdistinct ((hsort _).mem_iff.mp ha) ?_ (le_antisymm hab hba)
  exact hrequests.mem_iff.mpr ((hsort _).mem_iff.mp hb)

theorem meanOrZero_perm {values values' : List ℚ} (h : values.Perm values') :
    meanOrZero values = meanOrZero values' := by
  have hnil : values = [] ↔ values' = [] := by rw [← List.length_eq_zero_iff, h.length_eq,
    List.length_eq_zero_iff]
  simp only [meanOrZero, fmean, Statistics.mean, hnil, h.sum_eq, h.length_eq]

theorem rowOf_perm (h : bucket.Perm bucket')
    (hdistinct : ((requestsOf bucket).map Event.tsUnixNs).Nodup) :
    rowOf lib windowSeconds (key, bucket) = rowOf lib windowSeconds (key, bucket') := by
  have hrequests := sorted_requests_perm h hdistinct
  have hresources : ∀ value : Event → ℚ, meanOrZero ((bucket.filter Event.isResource).map value) =
      meanOrZero ((bucket'.filter Event.isResource).map value) := fun value =>
    meanOrZero_perm ((h.filter _).map value)
  unfold requestsOf at hrequests
  unfold rowOf
  simp only [hrequests, hresources]

theorem distinctTimes_bucketAt (h : DistinctTimes events) (windowNs warmupNs : ℤ) (key : Key) :
    ((requestsOf (bucketAt events windowNs warmupNs key)).map Event.tsUnixNs).Nodup := by
  refine (h (ofLex key).1).sublist (List.Sublist.map _ ?_)
  have hsame : requestsOf (bucketAt events windowNs warmupNs key) =
      (events.filter fun e => e.isRequest ∧ e.run = (ofLex key).1).filter fun e =>
        afterWarmup (firstRequest events) warmupNs e ∧ keyOf windowNs e = key := by
    rw [requestsOf, bucketAt, List.filter_filter, List.filter_filter]
    apply List.filter_congr
    intro e _
    by_cases hkey : keyOf windowNs e = key
    · have hrun : e.run = (ofLex key).1 := by rw [← hkey]; rfl
      simp [hkey, hrun, Bool.and_comm]
    · simp [hkey]
  rw [hsame]
  exact List.filter_sublist

theorem mem_rowsOf_perm (h : events.Perm events') (hdistinct : DistinctTimes events) (row : Row K) :
    row ∈ rowsOf lib events windowSeconds warmupSeconds ↔
      row ∈ rowsOf lib events' windowSeconds warmupSeconds := by
  rw [mem_rowsOf, mem_rowsOf]
  apply exists_congr
  intro key
  rw [rowOf_perm (bucketAt_perm h) (distinctTimes_bucketAt hdistinct _ _ key)]

/-- **The order of the telemetry does not matter.** -/
theorem aggregate_perm (lib : Library K) {events events' : List Event} (h : events.Perm events')
    (hdistinct : DistinctTimes events) (windowSeconds warmupSeconds : ℤ) :
    aggregateEvents lib events windowSeconds warmupSeconds =
      aggregateEvents lib events' windowSeconds warmupSeconds := by
  have hrows : rowsOf lib events windowSeconds warmupSeconds =
      rowsOf lib events' windowSeconds warmupSeconds :=
    rowsOf_eq_of_mem (rowsOf_pairwise lib events windowSeconds warmupSeconds)
      (mem_rowsOf_perm h hdistinct)
  by_cases hwindow : 0 < windowSeconds
  · by_cases hwarmup : 0 ≤ warmupSeconds
    · rw [aggregateEvents_ok lib events hwindow hwarmup,
        aggregateEvents_ok lib events' hwindow hwarmup, hrows]
    · simp only [aggregateEvents, if_neg (not_le.mpr hwindow), if_pos (not_le.mp hwarmup)]
  · simp only [aggregateEvents, if_pos (not_lt.mp hwindow)]

theorem aggregate_perm_two_requests :
    aggregateEvents plainLibrary [bareRequest 7, bareRequest 3] 5 0 =
      aggregateEvents plainLibrary [bareRequest 3, bareRequest 7] 5 0 :=
  aggregate_perm plainLibrary (.swap _ _ _) (by
    intro r
    by_cases hr : text "unknown" = r
    · subst hr
      decide
    · have hrun : ∀ t, (bareRequest t).run = text "unknown" := fun _ => rfl
      simp [hrun, hr]) 5 0

theorem requestTimes_filter_run (events : List Event) (r : Text) :
    requestTimes (events.filter fun e => e.run = r) r = requestTimes events r := by
  ext t
  simp only [requestTimes, List.mem_filter, decide_eq_true_eq, Set.mem_ofPred_eq]
  constructor
  · rintro ⟨e, ⟨he, hrun⟩, hreq⟩
    exact ⟨e, he, hreq⟩
  · rintro ⟨e, he, hreq, hrun, ht⟩
    exact ⟨e, ⟨he, hrun⟩, hreq, hrun, ht⟩

/-- The buckets of a run come from its own events. -/
theorem bucketAt_filter_run (hkey : (ofLex key).1 = r) :
    bucketAt (events.filter fun e => e.run = r) windowNs warmupNs key =
      bucketAt events windowNs warmupNs key := by
  rw [bucketAt, bucketAt, List.filter_filter]
  apply List.filter_congr
  intro e _
  by_cases hat : keyOf windowNs e = key
  · have hrun : e.run = r := by
      rw [← hkey, ← hat]
      rfl
    have hfirst : firstRequest (events.filter fun e => e.run = r) e.run =
        firstRequest events e.run := by
      rw [hrun]
      exact firstRequest_congr (requestTimes_filter_run events r)
    simp [hat, hrun, afterWarmup_congr warmupNs hfirst]
  · simp [hat]

theorem bucketAt_other_run (hkey : (ofLex key).1 ≠ r) :
    bucketAt (events.filter fun e => e.run = r) windowNs warmupNs key = [] := by
  rw [bucketAt, List.filter_filter, List.filter_eq_nil_iff]
  intro e _ hand
  simp only [Bool.and_eq_true, decide_eq_true_eq] at hand
  obtain ⟨⟨-, hat⟩, hrun⟩ := hand
  exact hkey (by rw [← hat, ← hrun]; rfl)

theorem rowOf_run {row : Row K} (h : rowOf lib windowSeconds (key, bucket) = some row) :
    row.runId = (ofLex key).1 := congrArg (fun k : Key => (ofLex k).1) (rowOf_key h)

theorem rowOf_nil : rowOf lib windowSeconds (key, []) = none := rfl

theorem mem_rowsOf_filter_run {row : Row K} :
    row ∈ rowsOf lib (events.filter fun e => e.run = r) windowSeconds warmupSeconds ↔
      row ∈ rowsOf lib events windowSeconds warmupSeconds ∧ row.runId = r := by
  rw [mem_rowsOf, mem_rowsOf]
  constructor
  · rintro ⟨key, hrow⟩
    by_cases hkey : (ofLex key).1 = r
    · rw [bucketAt_filter_run hkey] at hrow
      exact ⟨⟨key, hrow⟩, (rowOf_run hrow).trans hkey⟩
    · rw [bucketAt_other_run hkey, rowOf_nil] at hrow
      cases hrow
  · rintro ⟨⟨key, hrow⟩, hrun⟩
    have hkey : (ofLex key).1 = r := (rowOf_run hrow).symm.trans hrun
    exact ⟨key, by rw [bucketAt_filter_run hkey]; exact hrow⟩

theorem rowsOf_filter_run (lib : Library K) (events : List Event) (r : Text) :
    (rowsOf lib events windowSeconds warmupSeconds).filter (fun row => row.runId = r) =
      rowsOf lib (events.filter fun e => e.run = r) windowSeconds warmupSeconds := by
  refine rowsOf_eq_of_mem ((rowsOf_pairwise lib events windowSeconds warmupSeconds).filter _) ?_
  intro row
  rw [mem_rowsOf_filter_run, List.mem_filter, decide_eq_true_iff]

def DisjointRuns (events events' : List Event) : Prop :=
  ∀ e ∈ events, ∀ e' ∈ events', e.run ≠ e'.run

theorem exists_event {row : Row K} (h : row ∈ rowsOf lib events windowSeconds warmupSeconds) :
    ∃ e ∈ events, e.run = row.runId := by
  by_contra hnone
  push Not at hnone
  have hnil : events.filter (fun e => e.run = row.runId) = [] :=
    List.filter_eq_nil_iff.mpr fun e he => by simpa using hnone e he
  have hmem := mem_rowsOf_filter_run.mpr ⟨h, rfl⟩
  rw [hnil, mem_rowsOf] at hmem
  obtain ⟨key, hrow⟩ := hmem
  cases hrow

/-- The rows of a run of the first list. -/
theorem filter_run_append (hdisjoint : DisjointRuns events events') (h : ∃ e ∈ events, e.run = r) :
    (events ++ events').filter (fun e => e.run = r) = events.filter fun e => e.run = r := by
  obtain ⟨e, he, hrun⟩ := h
  rw [List.filter_append, List.append_right_eq_self, List.filter_eq_nil_iff]
  intro e' he' heq
  exact hdisjoint e he e' he' (hrun.trans (of_decide_eq_true heq).symm)

theorem DisjointRuns.symm (h : DisjointRuns events events') : DisjointRuns events' events :=
  fun e he e' he' heq => h e' he' e he heq.symm

theorem filter_run_append_right (hdisjoint : DisjointRuns events events')
    (h : ∃ e ∈ events', e.run = r) :
    (events ++ events').filter (fun e => e.run = r) = events'.filter fun e => e.run = r := by
  obtain ⟨e', he', hrun⟩ := h
  rw [List.filter_append, List.append_left_eq_self, List.filter_eq_nil_iff]
  intro e he heq
  exact hdisjoint e he e' he' ((of_decide_eq_true heq).trans hrun.symm)

theorem mem_rowsOf_append (hdisjoint : DisjointRuns events events') {row : Row K} :
    row ∈ rowsOf lib (events ++ events') windowSeconds warmupSeconds ↔
      row ∈ rowsOf lib events windowSeconds warmupSeconds ∨
        row ∈ rowsOf lib events' windowSeconds warmupSeconds := by
  constructor
  · intro h
    have hmem := mem_rowsOf_filter_run.mpr ⟨h, rfl⟩
    obtain ⟨e, he, hrun⟩ := exists_event h
    rcases List.mem_append.mp he with he | he
    · rw [filter_run_append hdisjoint ⟨e, he, hrun⟩] at hmem
      exact Or.inl (mem_rowsOf_filter_run.mp hmem).1
    · rw [filter_run_append_right hdisjoint ⟨e, he, hrun⟩] at hmem
      exact Or.inr (mem_rowsOf_filter_run.mp hmem).1
  · rintro (h | h)
    · have hmem := mem_rowsOf_filter_run.mpr ⟨h, rfl⟩
      rw [← filter_run_append hdisjoint (exists_event h)] at hmem
      exact (mem_rowsOf_filter_run.mp hmem).1
    · have hmem := mem_rowsOf_filter_run.mpr ⟨h, rfl⟩
      rw [← filter_run_append_right hdisjoint (exists_event h)] at hmem
      exact (mem_rowsOf_filter_run.mp hmem).1

def mergeRows (rows rows' : List (Row K)) : List (Row K) :=
  rows.merge rows' fun a b => rowKey a ≤ rowKey b

omit [Field K] in
theorem mergeRows_pairwise {rows rows' : List (Row K)}
    (hrows : rows.Pairwise fun a b => rowKey a < rowKey b)
    (hrows' : rows'.Pairwise fun a b => rowKey a < rowKey b)
    (hne : ∀ a ∈ rows, ∀ b ∈ rows', rowKey a ≠ rowKey b) :
    (mergeRows rows rows').Pairwise fun a b => rowKey a < rowKey b := by
  have hperm : (mergeRows rows rows').Perm (rows ++ rows') :=
    List.merge_perm_append _
  have hdistinct : ((mergeRows rows rows').map rowKey).Nodup := by
    rw [(hperm.map rowKey).nodup_iff, List.map_append, List.nodup_append']
    refine ⟨List.pairwise_map.mpr (hrows.imp ne_of_lt),
      List.pairwise_map.mpr (hrows'.imp ne_of_lt), ?_⟩
    intro k hk hk'
    obtain ⟨a, ha, rfl⟩ := List.mem_map.mp hk
    obtain ⟨b, hb, heq⟩ := List.mem_map.mp hk'
    exact hne a ha b hb heq.symm
  have hsorted : (mergeRows rows rows').Pairwise fun a b => decide (rowKey a ≤ rowKey b) = true :=
    List.pairwise_merge
      (fun a b c hab hbc => decide_eq_true ((of_decide_eq_true hab).trans (of_decide_eq_true hbc)))
      (fun a b => by simpa using le_total (rowKey a) (rowKey b)) rows rows'
      (hrows.imp fun h => decide_eq_true h.le) (hrows'.imp fun h => decide_eq_true h.le)
  exact (hsorted.and (List.pairwise_map.mp hdistinct)).imp fun h =>
    lt_of_le_of_ne (of_decide_eq_true h.1) h.2

theorem rowsOf_append (lib : Library K) (hdisjoint : DisjointRuns events events') :
    rowsOf lib (events ++ events') windowSeconds warmupSeconds =
      mergeRows (rowsOf lib events windowSeconds warmupSeconds)
        (rowsOf lib events' windowSeconds warmupSeconds) := by
  refine (rowsOf_eq_of_mem ?_ fun row => ?_).symm
  · refine mergeRows_pairwise (rowsOf_pairwise lib events windowSeconds warmupSeconds)
      (rowsOf_pairwise lib events' windowSeconds warmupSeconds) fun a ha b hb heq => ?_
    obtain ⟨e, he, hrun⟩ := exists_event ha
    obtain ⟨e', he', hrun'⟩ := exists_event hb
    refine hdisjoint e he e' he' (hrun.trans (Eq.trans ?_ hrun'.symm))
    exact (Prod.mk.inj (toLex.injective heq)).1
  · rw [mem_rowsOf_append hdisjoint, mergeRows, List.mem_merge]

/-- **A run's rows come from its own events**: the rows of a run are the rows of its events, and
telemetry of other runs merges its rows into the others. -/
theorem aggregate_by_run (lib : Library K) (windowSeconds warmupSeconds : ℤ) :
    (∀ events r, (aggregateEvents lib events windowSeconds warmupSeconds).map
        (fun rows => rows.filter fun row => row.runId = r) =
      aggregateEvents lib (events.filter fun e => e.run = r) windowSeconds warmupSeconds) ∧
    ∀ events events', DisjointRuns events events' →
      aggregateEvents lib (events ++ events') windowSeconds warmupSeconds = do
        return mergeRows (← aggregateEvents lib events windowSeconds warmupSeconds)
          (← aggregateEvents lib events' windowSeconds warmupSeconds) := by
  by_cases hwindow : 0 < windowSeconds
  · by_cases hwarmup : 0 ≤ warmupSeconds
    · have hok := fun events => aggregateEvents_ok lib events hwindow hwarmup
      constructor
      · intro events r
        rw [hok, hok, ← rowsOf_filter_run]
        rfl
      · intro events events' hdisjoint
        rw [hok, hok, hok, rowsOf_append lib hdisjoint]
        rfl
    · have herror : ∀ events, aggregateEvents lib events windowSeconds warmupSeconds =
          .error (.refused "warmup_seconds cannot be negative") := fun events => by
        rw [aggregateEvents, if_neg (not_le.mpr hwindow), if_pos (not_le.mp hwarmup)]
      simp only [herror]
      exact ⟨fun _ _ => rfl, fun _ _ _ => rfl⟩
  · have herror : ∀ events, aggregateEvents lib events windowSeconds warmupSeconds =
        .error (.refused "window_seconds must be positive") := fun events => by
      rw [aggregateEvents, if_pos (not_lt.mp hwindow)]
    simp only [herror]
    exact ⟨fun _ _ => rfl, fun _ _ _ => rfl⟩

def requestOf (run : String) (tsUnixNs : ℤ) : Event :=
  { bareRequest tsUnixNs with runId := some (text run) }

theorem aggregate_by_run_two_runs :
    aggregateEvents plainLibrary ([requestOf "a" 7] ++ [requestOf "b" 3]) 5 0 = do
      return mergeRows (← aggregateEvents plainLibrary [requestOf "a" 7] 5 0)
        (← aggregateEvents plainLibrary [requestOf "b" 3] 5 0) :=
  (aggregate_by_run plainLibrary 5 0).2 _ _ (by
    intro e he e' he'
    rw [List.mem_singleton.mp he, List.mem_singleton.mp he']
    decide)

end Cote3Mon.Features
