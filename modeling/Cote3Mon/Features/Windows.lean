import Cote3Mon.Features.Aggregate

namespace Cote3Mon.Features
open ByteText Python Grouping

variable {K : Type} [Field K] {lib : Library K} {events : List Event} {e : Event} {r : Text}
  {warmupNs windowNs windowSeconds : ℤ}

def requestTimes (events : List Event) (r : Text) : Set ℤ :=
  {t | ∃ e ∈ events, e.isRequest ∧ e.run = r ∧ e.tsUnixNs = t}

theorem requestTimes_append (events : List Event) (e : Event) (r : Text) :
    requestTimes (events ++ [e]) r =
      if e.isRequest ∧ e.run = r then insert e.tsUnixNs (requestTimes events r)
      else requestTimes events r := by
  ext t
  split_ifs with he
  · simp only [requestTimes, List.mem_append, List.mem_singleton, or_and_right, exists_or,
      exists_eq_left, he, true_and, Set.mem_ofPred_eq, Set.mem_insert_iff, eq_comm (a := t)]
    exact or_comm
  · simp only [requestTimes, List.mem_append, List.mem_singleton, or_and_right, exists_or,
      exists_eq_left, Set.mem_ofPred_eq]
    exact or_iff_left fun h => he ⟨h.1, h.2.1⟩

theorem firstRequest_append (events : List Event) (e : Event) :
    firstRequest (events ++ [e]) =
      if e.isRequest then
        Function.update (firstRequest events) e.run
          (some (min ((firstRequest events e.run).getD e.tsUnixNs) e.tsUnixNs))
      else firstRequest events := by
  rw [firstRequest, List.foldl_append]
  rfl

/-- The table holds the earliest request of every run that has one. -/
theorem firstRequest_spec (events : List Event) (r : Text) :
    (firstRequest events r = none ∧ requestTimes events r = ∅) ∨
      ∃ first, firstRequest events r = some first ∧ IsLeast (requestTimes events r) first := by
  induction events using List.reverseRecOn with
  | nil =>
    refine Or.inl ⟨rfl, ?_⟩
    simp [requestTimes]
  | append_singleton events e ih =>
    rw [firstRequest_append, requestTimes_append]
    by_cases hreq : e.isRequest
    · rw [if_pos hreq]
      by_cases hrun : e.run = r
      · rw [if_pos ⟨hreq, hrun⟩, hrun, Function.update_self]
        refine Or.inr ⟨_, rfl, ?_⟩
        rcases ih with ⟨hnone, hempty⟩ | ⟨first, hsome, hleast⟩
        · rw [hnone, hempty, Option.getD_none, min_self]
          simp [isLeast_singleton]
        · rw [hsome, Option.getD_some, min_comm]
          exact hleast.insert e.tsUnixNs
      · rw [if_neg fun h => hrun h.2, Function.update_of_ne (Ne.symm hrun)]
        exact ih
    · rw [if_neg hreq, if_neg fun h => hreq h.1]
      exact ih

/-- Only events before the end of the warm-up of their run are skipped. -/
theorem afterWarmup_iff {first : ℤ} (h : IsLeast (requestTimes events e.run) first) :
    afterWarmup (firstRequest events) warmupNs e ↔ first + warmupNs ≤ e.tsUnixNs := by
  rcases firstRequest_spec events e.run with ⟨-, hempty⟩ | ⟨first', hsome, hleast⟩
  · rw [hempty] at h
    exact absurd h.1 (Set.notMem_empty first)
  · rw [afterWarmup, hsome, h.unique hleast]
    exact decide_eq_true_iff

theorem nanoseconds_pos {seconds : ℤ} (h : 0 < seconds) : 0 < nanoseconds seconds := by
  unfold nanoseconds
  omega

theorem windowStart_mod (windowNs t : ℤ) : windowStart windowNs t % windowNs = 0 := by
  have hsplit : windowStart windowNs t = windowNs * (t / windowNs) := by
    have hdiv := Int.emod_add_mul_ediv t windowNs
    rw [windowStart]
    linarith
  rw [hsplit, Int.mul_emod_right]

theorem windowStart_eq_iff (h : 0 < windowNs) {w t : ℤ} (hw : w % windowNs = 0) :
    windowStart windowNs t = w ↔ w ≤ t ∧ t < w + windowNs := by
  have hlow := Int.emod_nonneg t h.ne'
  have hhigh := Int.emod_lt_of_pos t h
  unfold windowStart
  refine ⟨fun hstart => by omega, fun ⟨hle, hlt⟩ => ?_⟩
  have hmod : t % windowNs = (t - w) % windowNs := by
    rw [Int.sub_emod, hw, sub_zero, Int.emod_emod]
  rw [hmod, Int.emod_eq_of_lt (by omega) (by omega)]
  omega

theorem keyOf_eq_iff {w : ℤ} :
    keyOf windowNs e = toLex (r, w) ↔ e.run = r ∧ windowStart windowNs e.tsUnixNs = w := by
  rw [keyOf, toLex.apply_eq_iff_eq, Prod.mk.injEq]

def requestsOf (bucket : List Event) : List Event := bucket.filter Event.isRequest

def resourcesOf (bucket : List Event) : List Event := bucket.filter Event.isResource

/-- What a row says about its bucket, apart from what depends on the order of the requests. -/
structure IsRowOf (lib : Library K) (windowSeconds : ℤ) (key : Key) (bucket : List Event)
    (row : Row K) : Prop where
  key : toLex (row.runId, row.windowStartNs) = key
  requestRate : row.requestRate = (requestsOf bucket).length / windowSeconds
  putRatio : row.putRatio = ((requestsOf bucket).countP fun e => lib.operationOf e = text "PUT") /
    (requestsOf bucket).length
  getRatio : row.getRatio = ((requestsOf bucket).countP fun e => lib.operationOf e = text "GET") /
    (requestsOf bucket).length
  deleteRatio : row.deleteRatio =
    ((requestsOf bucket).countP fun e => lib.operationOf e = text "DELETE") /
      (requestsOf bucket).length
  rejectRatio : row.rejectRatio =
    ((requestsOf bucket).countP fun e => lib.operationOf e = text "REJECT") /
      (requestsOf bucket).length
  errorRatio : row.errorRatio = ((requestsOf bucket).countP fun e => lib.statusOf e ≠ text "OK") /
    (requestsOf bucket).length
  inputMaxBytes : (∃ e ∈ requestsOf bucket, e.inputBytes.getD 0 = row.inputMaxBytes) ∧
    ∀ e ∈ requestsOf bucket, e.inputBytes.getD 0 ≤ row.inputMaxBytes
  cpuPercentMean : row.cpuPercentMean =
    meanOrZero ((resourcesOf bucket).map fun e => e.cpuPercent.getD 0)
  rssKbMean : row.rssKbMean = meanOrZero ((resourcesOf bucket).map fun e => e.rssKb.getD 0)

omit [Field K] in
/-- The rate times the seconds is the number of requests. -/
theorem IsRowOf.requests {lib : Library K} {windowSeconds : ℤ} {key : Key} {bucket : List Event}
    {row : Row K} (h : IsRowOf lib windowSeconds key bucket row) (hwindow : 0 < windowSeconds) :
    row.requestRate * windowSeconds = (requestsOf bucket).length := by
  have hne : (windowSeconds : ℚ) ≠ 0 := by exact_mod_cast hwindow.ne'
  rw [h.requestRate, div_mul_cancel₀ _ hne]

theorem maximum_spec {values : List ℚ} (h : values ≠ []) :
    maximum values ∈ values ∧ ∀ v ∈ values, v ≤ maximum values := by
  obtain ⟨top, htop⟩ := Option.ne_none_iff_exists'.mp (mt List.max?_eq_none_iff.mp h)
  rw [maximum, htop]
  exact List.max?_eq_some_iff.mp htop

/-- A bucket has a row exactly when it has a request. -/
theorem rowOf_spec (lib : Library K) (windowSeconds : ℤ) (key : Key) (bucket : List Event) :
    (requestsOf bucket = [] ∧ rowOf lib windowSeconds (key, bucket) = none) ∨
      ∃ row, rowOf lib windowSeconds (key, bucket) = some row ∧ requestsOf bucket ≠ [] ∧
        IsRowOf lib windowSeconds key bucket row := by
  have hperm : ((bucket.filter Event.isRequest).insertionSort
      fun a b => a.tsUnixNs ≤ b.tsUnixNs).Perm (requestsOf bucket) := List.perm_insertionSort _ _
  unfold rowOf
  dsimp only
  generalize (bucket.filter Event.isRequest).insertionSort
    (fun a b => a.tsUnixNs ≤ b.tsUnixNs) = sorted at hperm ⊢
  cases sorted with
  | nil => exact Or.inl ⟨hperm.symm.eq_nil, rfl⟩
  | cons first rest =>
    have hne : requestsOf bucket ≠ [] := fun hnil => by
      rw [hnil] at hperm
      exact absurd hperm.eq_nil (List.cons_ne_nil _ _)
    have hcount : ∀ t, ((first :: rest).map lib.operationOf).count t =
        (requestsOf bucket).countP fun e => lib.operationOf e = t := by
      intro t
      rw [List.count, List.countP_map, hperm.countP_eq]
      exact List.countP_congr fun e _ => by simp
    have hstatus : ((first :: rest).map lib.statusOf).countP (fun status => status ≠ text "OK") =
        (requestsOf bucket).countP fun e => lib.statusOf e ≠ text "OK" := by
      rw [List.countP_map, hperm.countP_eq]
      rfl
    have hmax := maximum_spec (show (first :: rest).map (fun e => e.inputBytes.getD 0) ≠ [] by simp)
    refine Or.inr ⟨_, rfl, hne, ?_⟩
    constructor
    · rfl
    · rw [hperm.length_eq]
    · simp only [hperm.length_eq, hcount]
    · simp only [hperm.length_eq, hcount]
    · simp only [hperm.length_eq, hcount]
    · simp only [hperm.length_eq, hcount]
    · simp only [hperm.length_eq, hstatus]
    · refine ⟨?_, fun e he => ?_⟩
      · obtain ⟨e, he, heq⟩ := List.mem_map.mp hmax.1
        exact ⟨e, hperm.mem_iff.mp he, heq⟩
      · exact hmax.2 _ (List.mem_map_of_mem (hperm.mem_iff.mpr he))
    · rfl
    · rfl

def bucketAt (events : List Event) (windowNs warmupNs : ℤ) (key : Key) : List Event :=
  events.filter fun e => afterWarmup (firstRequest events) warmupNs e ∧ keyOf windowNs e = key

theorem mem_bucketAt {key : Key} : e ∈ bucketAt events windowNs warmupNs key ↔
    e ∈ events ∧ afterWarmup (firstRequest events) warmupNs e ∧ keyOf windowNs e = key := by
  rw [bucketAt, List.mem_filter, decide_eq_true_iff]

/-- The rows of a call with valid parameters. -/
def rowsOf (lib : Library K) (events : List Event) (windowSeconds warmupSeconds : ℤ) :
    List (Row K) :=
  (sortByKey (group (keyOf (nanoseconds windowSeconds))
    (events.filter (afterWarmup (firstRequest events) (nanoseconds warmupSeconds))))).filterMap
      (rowOf lib windowSeconds)

variable {warmupSeconds : ℤ} {row : Row K}

theorem aggregateEvents_ok (lib : Library K) (events : List Event) (hwindow : 0 < windowSeconds)
    (hwarmup : 0 ≤ warmupSeconds) : aggregateEvents lib events windowSeconds warmupSeconds =
      .ok (rowsOf lib events windowSeconds warmupSeconds) := by
  rw [aggregateEvents, if_neg (not_le.mpr hwindow), if_neg (not_lt.mpr hwarmup)]
  rfl

/-- The rows are those of the buckets that have one. -/
theorem mem_rowsOf : row ∈ rowsOf lib events windowSeconds warmupSeconds ↔
    ∃ key, rowOf lib windowSeconds (key, bucketAt events (nanoseconds windowSeconds)
      (nanoseconds warmupSeconds) key) = some row := by
  have hgroup : ∀ key, (events.filter (afterWarmup (firstRequest events)
      (nanoseconds warmupSeconds))).filter (fun e => keyOf (nanoseconds windowSeconds) e = key) =
        bucketAt events (nanoseconds windowSeconds) (nanoseconds warmupSeconds) key := by
    intro key
    rw [List.filter_filter, bucketAt]
    apply List.filter_congr
    intro e _
    rw [Bool.decide_and, Bool.decide_eq_true, Bool.and_comm]
  rw [rowsOf, List.mem_filterMap]
  constructor
  · rintro ⟨⟨key, bucket⟩, hmem, hrow⟩
    rw [mem_sortByKey, mem_group, hgroup] at hmem
    exact ⟨key, by rw [← hmem.2]; exact hrow⟩
  · rintro ⟨key, hrow⟩
    refine ⟨_, ?_, hrow⟩
    rw [mem_sortByKey, mem_group, hgroup]
    refine ⟨?_, rfl⟩
    -- a bucket with a row has a request, so its key occurs
    rcases rowOf_spec lib windowSeconds key (bucketAt events (nanoseconds windowSeconds)
      (nanoseconds warmupSeconds) key) with ⟨-, hnone⟩ | ⟨-, -, hne, -⟩
    · rw [hnone] at hrow
      cases hrow
    · obtain ⟨e, he⟩ := List.exists_mem_of_ne_nil _ hne
      obtain ⟨hevent, hkept, hkey⟩ := mem_bucketAt.mp (List.mem_filter.mp he).1
      exact List.mem_map.mpr ⟨e, List.mem_filter.mpr ⟨hevent, hkept⟩, hkey⟩

theorem rowOf_key {bucket : Key × List Event} (h : rowOf lib windowSeconds bucket = some row) :
    toLex (row.runId, row.windowStartNs) = bucket.1 := by
  rcases rowOf_spec lib windowSeconds bucket.1 bucket.2 with ⟨-, hnone⟩ | ⟨row', hsome, -, hspec⟩
  · rw [hnone] at h
    cases h
  · rw [← Option.some.inj (hsome.symm.trans h)]
    exact hspec.key

/-- There is one row for a run and a window. -/
theorem rowsOf_unique {row' : Row K} (hrow : row ∈ rowsOf lib events windowSeconds warmupSeconds)
    (hrow' : row' ∈ rowsOf lib events windowSeconds warmupSeconds) (hrun : row.runId = row'.runId)
    (hstart : row.windowStartNs = row'.windowStartNs) : row = row' := by
  obtain ⟨key, hkey⟩ := mem_rowsOf.mp hrow
  obtain ⟨key', hkey'⟩ := mem_rowsOf.mp hrow'
  have hfirst : toLex (row.runId, row.windowStartNs) = key := rowOf_key hkey
  have hsecond : toLex (row'.runId, row'.windowStartNs) = key' := rowOf_key hkey'
  have hsame : key = key' := by
    rw [← hfirst, ← hsecond, hrun, hstart]
  rw [hsame] at hkey
  exact Option.some.inj (hkey.symm.trans hkey')

/-- The rows increase strictly by run and window. -/
theorem rowsOf_pairwise (lib : Library K) (events : List Event) (windowSeconds warmupSeconds : ℤ) :
    (rowsOf lib events windowSeconds warmupSeconds).Pairwise fun a b =>
      toLex (a.runId, a.windowStartNs) < toLex (b.runId, b.windowStartNs) := by
  rw [rowsOf, List.pairwise_filterMap]
  apply (sortByKey_pairwise (nodup_group (keyOf (nanoseconds windowSeconds)) _)).imp
  intro a b hab rowA hrowA rowB hrowB
  rw [rowOf_key hrowA, rowOf_key hrowB]
  exact hab

/-- The event belongs to the window of the run that starts at `w`. -/
def InWindow (windowNs : ℤ) (r : Text) (w : ℤ) (e : Event) : Prop :=
  e.run = r ∧ w ≤ e.tsUnixNs ∧ e.tsUnixNs < w + windowNs

instance (windowNs : ℤ) (r : Text) (w : ℤ) (e : Event) : Decidable (InWindow windowNs r w e) :=
  inferInstanceAs (Decidable (_ ∧ _))

theorem keyOf_eq_inWindow {w : ℤ} (hwindow : 0 < windowNs) (hw : w % windowNs = 0) :
    keyOf windowNs e = toLex (r, w) ↔ InWindow windowNs r w e := by
  rw [keyOf_eq_iff, windowStart_eq_iff hwindow hw, InWindow]

/-- The events of a window after the warm-up, where `f` is the first request of every run. -/
def eventsIn (events : List Event) (windowNs warmupNs : ℤ) (f : Text → ℤ) (r : Text) (w : ℤ) :
    List Event :=
  events.filter fun e => f r + warmupNs ≤ e.tsUnixNs ∧ InWindow windowNs r w e

theorem mem_eventsIn {f : Text → ℤ} {w : ℤ} : e ∈ eventsIn events windowNs warmupNs f r w ↔
    e ∈ events ∧ f r + warmupNs ≤ e.tsUnixNs ∧ InWindow windowNs r w e := by
  rw [eventsIn, List.mem_filter, decide_eq_true_iff]

/-- Where a run has a first request, its buckets are its windows. -/
theorem bucketAt_eq {f : Text → ℤ} {w : ℤ} (hwindow : 0 < windowNs) (hw : w % windowNs = 0)
    (hf : IsLeast (requestTimes events r) (f r)) :
    bucketAt events windowNs warmupNs (toLex (r, w)) = eventsIn events windowNs warmupNs f r w := by
  apply List.filter_congr
  intro e _
  rw [decide_eq_decide, keyOf_eq_inWindow hwindow hw]
  constructor
  · rintro ⟨hkept, hin⟩
    obtain rfl := hin.1
    exact ⟨(afterWarmup_iff hf).mp hkept, hin⟩
  · rintro ⟨hkept, hin⟩
    obtain rfl := hin.1
    exact ⟨(afterWarmup_iff hf).mpr hkept, hin⟩

/-- The bucket of a row is the window of its run. -/
theorem row_window {f : Text → ℤ} (hwindow : 0 < windowSeconds)
    (hf : ∀ e ∈ events, e.isRequest → IsLeast (requestTimes events e.run) (f e.run))
    (hrow : row ∈ rowsOf lib events windowSeconds warmupSeconds) :
    row.windowStartNs % nanoseconds windowSeconds = 0 ∧
      IsRowOf lib windowSeconds (toLex (row.runId, row.windowStartNs))
        (eventsIn events (nanoseconds windowSeconds) (nanoseconds warmupSeconds) f row.runId
          row.windowStartNs) row ∧
      ∃ e ∈ eventsIn events (nanoseconds windowSeconds) (nanoseconds warmupSeconds) f row.runId
        row.windowStartNs, e.isRequest := by
  have hpos := nanoseconds_pos hwindow
  obtain ⟨key, hkey⟩ := mem_rowsOf.mp hrow
  rcases rowOf_spec lib windowSeconds key _ with ⟨-, hnone⟩ | ⟨row', hsome, hne, hspec⟩
  · rw [hnone] at hkey
    cases hkey
  · rw [← Option.some.inj (hsome.symm.trans hkey)] at hrow ⊢
    obtain ⟨e, he⟩ := List.exists_mem_of_ne_nil _ hne
    obtain ⟨hbucket, hreq⟩ := List.mem_filter.mp he
    obtain ⟨hevent, -, hat⟩ := mem_bucketAt.mp hbucket
    rw [← hspec.key, keyOf_eq_iff] at hat
    have hw : row'.windowStartNs % nanoseconds windowSeconds = 0 := by
      rw [← hat.2]
      exact windowStart_mod _ _
    have hleast : IsLeast (requestTimes events row'.runId) (f row'.runId) := by
      rw [← hat.1]
      exact hf e hevent hreq
    have hbucketAt : bucketAt events _ (nanoseconds warmupSeconds) _ = _ :=
      bucketAt_eq hpos hw hleast
    rw [hspec.key] at hbucketAt
    rw [hspec.key, ← hbucketAt]
    exact ⟨hw, hspec, e, hbucket, hreq⟩

/-- A window with a request after the warm-up has a row. -/
theorem exists_row (lib : Library K) {f : Text → ℤ} {w : ℤ} (hwindow : 0 < windowSeconds)
    (hf : ∀ e ∈ events, e.isRequest → IsLeast (requestTimes events e.run) (f e.run))
    (hw : w % nanoseconds windowSeconds = 0)
    (he : e ∈ eventsIn events (nanoseconds windowSeconds) (nanoseconds warmupSeconds) f r w)
    (hreq : e.isRequest) :
    ∃ row ∈ rowsOf lib events windowSeconds warmupSeconds,
      row.runId = r ∧ row.windowStartNs = w := by
  have hpos := nanoseconds_pos hwindow
  obtain ⟨hevent, -, hrun, -⟩ := mem_eventsIn.mp he
  have hleast : IsLeast (requestTimes events r) (f r) := by
    rw [← hrun]
    exact hf e hevent hreq
  rw [← bucketAt_eq hpos hw hleast] at he
  rcases rowOf_spec lib windowSeconds (toLex (r, w)) (bucketAt events (nanoseconds windowSeconds)
    (nanoseconds warmupSeconds) (toLex (r, w))) with ⟨hnil, -⟩ | ⟨row, hsome, -, hspec⟩
  · have hbucket : e ∈ requestsOf _ := List.mem_filter.mpr ⟨he, hreq⟩
    rw [hnil] at hbucket
    exact absurd hbucket List.not_mem_nil
  · have hkey := Prod.mk.inj (toLex.injective hspec.key)
    exact ⟨row, mem_rowsOf.mpr ⟨_, hsome⟩, hkey.1, hkey.2⟩

/-- **The windows partition the telemetry.**  With `f` the first request of every run, each
request after the warm-up is counted in exactly one row, that of its window, and a row counts
exactly these and averages exactly the resource events of its window after the warm-up. -/
theorem aggregate_partitions (lib : Library K) (events : List Event)
    (windowSeconds warmupSeconds : ℤ) (hwindow : 0 < windowSeconds) (hwarmup : 0 ≤ warmupSeconds)
    (f : Text → ℤ)
    (hf : ∀ e ∈ events, e.isRequest → IsLeast (requestTimes events e.run) (f e.run)) :
    ∃ rows, aggregateEvents lib events windowSeconds warmupSeconds = .ok rows ∧
      (rows.Pairwise fun a b =>
        toLex (a.runId, a.windowStartNs) < toLex (b.runId, b.windowStartNs)) ∧
      (∀ e ∈ events, e.isRequest → f e.run + nanoseconds warmupSeconds ≤ e.tsUnixNs →
        ∃! row, row ∈ rows ∧
          InWindow (nanoseconds windowSeconds) row.runId row.windowStartNs e) ∧
      (∀ row ∈ rows, ∀ e, InWindow (nanoseconds windowSeconds) row.runId row.windowStartNs e →
        row.windowStartNs = e.tsUnixNs - e.tsUnixNs % nanoseconds windowSeconds) ∧
      (∀ r w, (∃ row ∈ rows, row.runId = r ∧ row.windowStartNs = w) ↔
        w % nanoseconds windowSeconds = 0 ∧
          ∃ e ∈ eventsIn events (nanoseconds windowSeconds) (nanoseconds warmupSeconds) f r w,
            e.isRequest) ∧
      ∀ row ∈ rows,
        let inside := eventsIn events (nanoseconds windowSeconds) (nanoseconds warmupSeconds) f
          row.runId row.windowStartNs
        let cpu : List ℚ := (inside.filter Event.isResource).map fun e => e.cpuPercent.getD 0
        let rss : List ℚ := (inside.filter Event.isResource).map fun e => e.rssKb.getD 0
        row.requestRate * windowSeconds = (inside.filter Event.isRequest).length ∧
          row.cpuPercentMean = (if cpu = [] then 0 else cpu.sum / cpu.length) ∧
          row.rssKbMean = if rss = [] then 0 else rss.sum / rss.length := by
  have hpos := nanoseconds_pos hwindow
  have hrow := fun row (hmem : row ∈ rowsOf lib events windowSeconds warmupSeconds) =>
    row_window hwindow hf hmem
  have hpairwise := rowsOf_pairwise lib events windowSeconds warmupSeconds
  have hstart : ∀ row ∈ rowsOf lib events windowSeconds warmupSeconds, ∀ e,
      InWindow (nanoseconds windowSeconds) row.runId row.windowStartNs e →
        windowStart (nanoseconds windowSeconds) e.tsUnixNs = row.windowStartNs :=
            fun row hmem e he =>
    (windowStart_eq_iff hpos (hrow row hmem).1).mpr he.2
  refine ⟨rowsOf lib events windowSeconds warmupSeconds,
    aggregateEvents_ok lib events hwindow hwarmup, hpairwise, fun e he hreq hafter => ?_,
    fun row hmem e hin => (hstart row hmem e hin).symm, fun r w => ⟨?_, ?_⟩, fun row hmem => ?_⟩
  · have hmod := windowStart_mod (nanoseconds windowSeconds) e.tsUnixNs
    have hin : InWindow (nanoseconds windowSeconds) e.run
        (windowStart (nanoseconds windowSeconds) e.tsUnixNs) e :=
      ⟨rfl, (windowStart_eq_iff hpos hmod).mp rfl⟩
    have hevent : e ∈ eventsIn events (nanoseconds windowSeconds) (nanoseconds warmupSeconds) f
        e.run (windowStart (nanoseconds windowSeconds) e.tsUnixNs) :=
      mem_eventsIn.mpr ⟨he, hafter, hin⟩
    obtain ⟨row, hmem, hrun, hw⟩ := exists_row lib hwindow hf hmod hevent hreq
    refine ⟨row, ⟨hmem, by rw [hrun, hw]; exact hin⟩, fun row' ⟨hmem', hin'⟩ => ?_⟩
    refine rowsOf_unique hmem' hmem (hin'.1.symm.trans hrun.symm) ?_
    rw [hw, hstart row' hmem' e hin']
  · rintro ⟨row, hmem, rfl, rfl⟩
    exact ⟨(hrow row hmem).1, (hrow row hmem).2.2⟩
  · rintro ⟨hw, e, he, hreq⟩
    exact exists_row lib hwindow hf hw he hreq
  · obtain ⟨-, hspec, -⟩ := hrow row hmem
    refine ⟨?_, hspec.cpuPercentMean, hspec.rssKbMean⟩
    rw [hspec.requests hwindow]
    rfl

def bareRequest (tsUnixNs : ℤ) : Event :=
  ⟨none, none, tsUnixNs, none, none, none, none, none, none, none, none, none, none⟩

def plainLibrary : Library := ⟨fun c => [c], fun _ => 0⟩

def resourceAt (tsUnixNs : ℤ) (cpuPercent rssKb : ℚ) : Event :=
  { bareRequest tsUnixNs with
    eventType := some (text "resource")
    cpuPercent := some cpuPercent
    rssKb := some rssKb }

/-- Two requests out of order; one of the resource events is before the first request. -/
def mixedEvents : List Event :=
  [bareRequest 7, resourceAt 5 10 100, bareRequest 3, resourceAt 1 80 900, resourceAt 4 20 300]

theorem mixedEvents_first : ∀ e ∈ mixedEvents, e.run = text "unknown" := by decide

theorem aggregate_partitions_mixed :
    ∃ rows, aggregateEvents plainLibrary mixedEvents 5 0 = .ok rows ∧
      (∃! row, row ∈ rows ∧ InWindow 5000000000 row.runId row.windowStartNs (bareRequest 7)) ∧
      ∃ row ∈ rows, row.cpuPercentMean = 15 ∧ row.rssKbMean = 200 := by
  have hleast : IsLeast (requestTimes mixedEvents (text "unknown")) 3 := by
    refine ⟨⟨bareRequest 3, by simp [mixedEvents], by decide, rfl, rfl⟩, ?_⟩
    rintro t ⟨e, he, hreq, -, rfl⟩
    have hall : ∀ e ∈ mixedEvents, e.isRequest → 3 ≤ e.tsUnixNs := by decide
    exact hall e he hreq
  obtain ⟨rows, hrows, -, hone, -, hkeys, hmeans⟩ :=
    aggregate_partitions plainLibrary mixedEvents 5 0
    (by decide) (by decide) (fun _ => 3) fun e he _ => mixedEvents_first e he ▸ hleast
  obtain ⟨row, hrow, hrun, hstart⟩ := (hkeys (text "unknown") 0).mpr
    ⟨by decide, bareRequest 7, by decide, by decide⟩
  obtain ⟨-, hcpu, hrss⟩ := hmeans row hrow
  rw [hrun, hstart] at hcpu hrss
  refine ⟨rows, hrows, hone (bareRequest 7) (by simp [mixedEvents]) (by decide) (by decide), row,
    hrow, hcpu.trans ?_, hrss.trans ?_⟩
  · decide +kernel
  · decide +kernel

end Cote3Mon.Features
