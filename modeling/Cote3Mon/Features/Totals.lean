import Cote3Mon.Features.Windows

namespace Cote3Mon.Features
open ByteText Python Grouping

variable {K : Type} [Field K] {lib : Library K} {events : List Event} {e : Event}
  {windowSeconds warmupSeconds : ℤ} {row : Row K} {key : Key} {bucket : List Event}

theorem afterWarmup_zero (he : e ∈ events) (hreq : e.isRequest) :
    afterWarmup (firstRequest events) (nanoseconds 0) e := by
  have hself : e.tsUnixNs ∈ requestTimes events e.run := ⟨e, he, hreq, rfl, rfl⟩
  rcases firstRequest_spec events e.run with ⟨-, hempty⟩ | ⟨first, -, hleast⟩
  · rw [hempty] at hself
    exact absurd hself (Set.notMem_empty _)
  · apply (afterWarmup_iff hleast).mpr
    rw [nanoseconds, zero_mul, add_zero]
    exact hleast.2 hself

theorem requestsOf_bucketAt (events : List Event) (windowNs : ℤ) (key : Key) :
    requestsOf (bucketAt events windowNs (nanoseconds 0) key) =
      (requestsOf events).filter fun e => keyOf windowNs e = key := by
  rw [requestsOf, requestsOf, bucketAt, List.filter_filter, List.filter_filter]
  apply List.filter_congr
  intro e he
  by_cases hreq : e.isRequest
  · simp [hreq, afterWarmup_zero he hreq]
  · simp [hreq]

/-- A row is that of the bucket of its run and window. -/
theorem row_bucket (hrow : row ∈ rowsOf lib events windowSeconds warmupSeconds) :
    IsRowOf lib windowSeconds (toLex (row.runId, row.windowStartNs))
      (bucketAt events (nanoseconds windowSeconds) (nanoseconds warmupSeconds)
        (toLex (row.runId, row.windowStartNs))) row := by
  obtain ⟨key, hkey⟩ := mem_rowsOf.mp hrow
  rw [rowOf_key hkey]
  rcases rowOf_spec lib windowSeconds key _ with ⟨-, hnone⟩ | ⟨row', hsome, -, hspec⟩
  · rw [hnone] at hkey
    cases hkey
  · rw [← Option.some.inj (hsome.symm.trans hkey)]
    exact hspec

theorem reuseRatio_perm (member : Event → Option Text) {left right : List Event}
    (h : left.Perm right) :
    reuseRatio (truthy member left) = reuseRatio (truthy member right) := by
  have htruthy : (truthy member left).Perm (truthy member right) := (h.filterMap member).filter _
  have hnil : truthy member left = [] ↔ truthy member right = [] :=
    ⟨fun hl => (hl ▸ htruthy).symm.eq_nil, fun hr => (hr ▸ htruthy).eq_nil⟩
  unfold reuseRatio
  rw [htruthy.length_eq, htruthy.dedup.length_eq]
  exact if_congr hnil rfl rfl

theorem rowOf_bucketAt (hrow : row ∈ rowsOf lib events windowSeconds warmupSeconds) :
    rowOf lib windowSeconds (toLex (row.runId, row.windowStartNs),
      bucketAt events (nanoseconds windowSeconds) (nanoseconds warmupSeconds)
        (toLex (row.runId, row.windowStartNs))) = some row := by
  obtain ⟨key, hkey⟩ := mem_rowsOf.mp hrow
  have hsame := rowOf_key hkey
  dsimp only at hsame
  rw [hsame]
  exact hkey

/-- The reuse of the keys and of the requests in the bucket of a row. -/
theorem row_reuse (hrow : row ∈ rowsOf lib events windowSeconds warmupSeconds) :
    let bucket := bucketAt events (nanoseconds windowSeconds) (nanoseconds warmupSeconds)
      (toLex (row.runId, row.windowStartNs))
    row.keyReuseRatio = reuseRatio (truthy Event.keyFingerprint (requestsOf bucket)) ∧
      row.requestReuseRatio = reuseRatio (truthy Event.requestFingerprint (requestsOf bucket)) := by
  intro bucket
  have hbucket : rowOf lib windowSeconds (toLex (row.runId, row.windowStartNs), bucket) = some row :=
    rowOf_bucketAt hrow
  have hperm : ((bucket.filter Event.isRequest).insertionSort
      fun a b => a.tsUnixNs ≤ b.tsUnixNs).Perm (requestsOf bucket) := List.perm_insertionSort _ _
  rw [← reuseRatio_perm _ hperm, ← reuseRatio_perm _ hperm]
  unfold rowOf at hbucket
  dsimp only at hbucket
  split at hbucket
  · cases hbucket
  · rw [← Option.some.inj hbucket]
    exact ⟨rfl, rfl⟩

/-- The scenario and the label of a row are those of one of its requests. -/
theorem row_first (hrow : row ∈ rowsOf lib events windowSeconds warmupSeconds) :
    ∃ e ∈ requestsOf (bucketAt events (nanoseconds windowSeconds) (nanoseconds warmupSeconds)
        (toLex (row.runId, row.windowStartNs))),
      row.scenario = e.scenario.getD (text "unknown") ∧
        row.isAttack = if e.isAttack.getD false then 1 else 0 := by
  have hbucket := rowOf_bucketAt hrow
  generalize bucketAt events (nanoseconds windowSeconds) (nanoseconds warmupSeconds)
    (toLex (row.runId, row.windowStartNs)) = bucket at hbucket ⊢
  have hperm : ((bucket.filter Event.isRequest).insertionSort
      fun a b => a.tsUnixNs ≤ b.tsUnixNs).Perm (requestsOf bucket) := List.perm_insertionSort _ _
  unfold rowOf at hbucket
  dsimp only at hbucket
  split at hbucket
  · cases hbucket
  · rename_i first rest hsorted
    rw [hsorted] at hperm
    refine ⟨first, hperm.subset List.mem_cons_self, ?_⟩
    rw [← Option.some.inj hbucket]
    exact ⟨rfl, rfl⟩

/-- Without a warm-up the requests of a row are those of its window. -/
theorem requests_window (hwindow : 0 < windowSeconds)
    (hrow : row ∈ rowsOf lib events windowSeconds 0) :
    row.windowStartNs % nanoseconds windowSeconds = 0 ∧
      row.requestRate * windowSeconds = (requestsOf events).countP fun e =>
        InWindow (nanoseconds windowSeconds) row.runId row.windowStartNs e := by
  have hpos := nanoseconds_pos hwindow
  obtain ⟨first, hfirst, -⟩ := row_first hrow
  obtain ⟨-, -, hkey⟩ := mem_bucketAt.mp (List.mem_of_mem_filter hfirst)
  have hw : row.windowStartNs % nanoseconds windowSeconds = 0 := by
    rw [← (keyOf_eq_iff.mp hkey).2]
    exact windowStart_mod _ _
  refine ⟨hw, ?_⟩
  rw [(row_bucket hrow).requests hwindow, requestsOf_bucketAt, List.countP_eq_length_filter]
  simp only [keyOf_eq_inWindow hpos hw]

/-- Without a warm-up every request is counted in one row. -/
theorem request_row (lib : Library K) (hwindow : 0 < windowSeconds) (he : e ∈ events)
    (hreq : e.isRequest) : ∃! row, row ∈ rowsOf lib events windowSeconds 0 ∧
      InWindow (nanoseconds windowSeconds) row.runId row.windowStartNs e := by
  have hpos := nanoseconds_pos hwindow
  have hbucket : e ∈ requestsOf (bucketAt events (nanoseconds windowSeconds) (nanoseconds 0)
      (keyOf (nanoseconds windowSeconds) e)) :=
    List.mem_filter.mpr ⟨mem_bucketAt.mpr ⟨he, afterWarmup_zero he hreq, rfl⟩, hreq⟩
  rcases rowOf_spec lib windowSeconds _ (bucketAt events (nanoseconds windowSeconds) (nanoseconds 0)
    (keyOf (nanoseconds windowSeconds) e)) with ⟨hnil, -⟩ | ⟨row, hsome, -, hspec⟩
  · rw [hnil] at hbucket
    exact absurd hbucket List.not_mem_nil
  · have hrow : row ∈ rowsOf lib events windowSeconds 0 := mem_rowsOf.mpr ⟨_, hsome⟩
    -- a row has the event in its window exactly when it has its key
    have hin : ∀ row' ∈ rowsOf lib events windowSeconds 0,
        InWindow (nanoseconds windowSeconds) row'.runId row'.windowStartNs e ↔
          keyOf (nanoseconds windowSeconds) e = toLex (row'.runId, row'.windowStartNs) :=
      fun row' hrow' => (keyOf_eq_inWindow hpos (requests_window hwindow hrow').1).symm
    refine ⟨row, ⟨hrow, (hin row hrow).mpr hspec.key.symm⟩, fun row' ⟨hrow', he'⟩ => ?_⟩
    have hsame := toLex.injective (((hin row' hrow').mp he').symm.trans hspec.key.symm)
    exact rowsOf_unique hrow' hrow (congrArg Prod.fst hsame) (congrArg Prod.snd hsame)

theorem sum_filterMap {α β : Type} {g : α → Option β} {f : β → ℚ} {h : α → ℚ} (l : List α)
    (hnone : ∀ a, g a = none → h a = 0) (hsome : ∀ a b, g a = some b → f b = h a) :
    ((l.filterMap g).map f).sum = (l.map h).sum := by
  induction l with
  | nil => rfl
  | cons a l ih =>
    rw [List.map_cons, List.sum_cons, ← ih]
    cases hg : g a with
    | none => rw [List.filterMap_cons_none hg, hnone a hg, zero_add]
    | some b => rw [List.filterMap_cons_some hg, List.map_cons, List.sum_cons, hsome a b hg]

/-- What is counted row by row is counted among all requests. -/
theorem sum_rows (p : Event → Bool) {f : Row K → ℚ}
    (hf : ∀ key bucket row, requestsOf bucket ≠ [] → IsRowOf lib windowSeconds key bucket row →
      f row = (requestsOf bucket).countP p) :
    ((rowsOf lib events windowSeconds 0).map f).sum = (requestsOf events).countP p := by
  have hcount : ∀ bucket : List Event,
      (requestsOf bucket).countP p = bucket.countP fun e => p e && e.isRequest := fun bucket =>
    List.countP_filter
  have hkept : (events.filter (afterWarmup (firstRequest events) (nanoseconds 0))).countP
      (fun e => p e && e.isRequest) = (requestsOf events).countP p := by
    rw [List.countP_filter, hcount]
    apply List.countP_congr
    intro e he
    by_cases hreq : e.isRequest
    · simp [hreq, afterWarmup_zero he hreq]
    · simp [hreq]
  rw [← hkept, ← sum_countP_group (keyOf (nanoseconds windowSeconds)), Nat.cast_list_sum,
    List.map_map, rowsOf]
  apply sum_filterMap
  · intro bucket hnone
    rcases rowOf_spec lib windowSeconds bucket.1 bucket.2 with ⟨hnil, -⟩ | ⟨row, hsome, -, -⟩
    · rw [Function.comp_apply, ← hcount, hnil]
      rfl
    · rw [hnone] at hsome
      cases hsome
  · intro bucket row hrow
    rcases rowOf_spec lib windowSeconds bucket.1 bucket.2 with ⟨-, hnone⟩ | ⟨row', hsome, hne, hspec⟩
    · rw [hnone] at hrow
      cases hrow
    · rw [← Option.some.inj (hsome.symm.trans hrow), Function.comp_apply, ← hcount]
      exact hf bucket.1 bucket.2 row' hne hspec

/-- The rows count every request once. -/
theorem sum_requests (hwindow : 0 < windowSeconds) :
    ((rowsOf lib events windowSeconds 0).map fun row : Row K =>
      row.requestRate * windowSeconds).sum =
      (requestsOf events).length := by
  rw [← List.countP_true]
  apply sum_rows
  intro key bucket row _ hspec
  rw [hspec.requests hwindow, List.countP_true]

def total (windowSeconds : ℤ) (ratio : Row K → ℚ) (rows : List (Row K)) : ℚ :=
  (rows.map fun row => row.requestRate * windowSeconds * ratio row).sum

theorem total_rowsOf (hwindow : 0 < windowSeconds) (p : Event → Bool) {ratio : Row K → ℚ}
    (hratio : ∀ key bucket row, IsRowOf lib windowSeconds key bucket row →
      ratio row = (requestsOf bucket).countP p / (requestsOf bucket).length) :
    total windowSeconds ratio (rowsOf lib events windowSeconds 0) =
        (requestsOf events).countP p := by
  apply sum_rows
  intro key bucket row hne hspec
  have hlength : ((requestsOf bucket).length : ℚ) ≠ 0 := by
    exact_mod_cast (List.length_pos_iff.mpr hne).ne'
  rw [hspec.requests hwindow, hratio key bucket row hspec, mul_div_cancel₀ _ hlength]

end Cote3Mon.Features
