import Cote3Mon.Features.Windows
import Cote3Mon.Monitor.Online

namespace Cote3Mon.Monitor
open ByteText Python Features Grouping

variable {σ : Type} {lib : Library} {c : OnlineCall Event} {audit : Option (AuditBackend σ)}
  {first : ℤ} {read : List Event} {e : Event} {s s' : Online Event σ}

/-- The event is after the warm-up that begins with the request at `first`. -/
def kept (c : OnlineCall Event) (first : ℤ) (e : Event) : Bool :=
  first + Online.warmupNs c ≤ e.tsUnixNs

def startOf (c : OnlineCall Event) (e : Event) : ℤ := windowStart (Online.windowNs c) e.tsUnixNs

/-- The lines in `read` have been ingested. -/
structure Ingested (c : OnlineCall Event) (first : ℤ) (read : List Event) (s : Online Event σ) :
    Prop where
  firstRequest : s.firstRequestNs = if read.any Event.isRequest then some first else none
  buckets : s.buckets = group (startOf c) (read.filter (kept c first))

/-- The first request is the one at `first`, and a line before it is no loss. -/
def Admitted (c : OnlineCall Event) (first : ℤ) (read : List Event) (e : Event) : Prop :=
  read.any Event.isRequest = false →
    if e.isRequest then e.tsUnixNs = first else kept c first e = false

theorem ingestEvent_spec (lib : Library) (hwindow : 0 < Online.windowNs c)
    (h : Ingested c first read s) (hadmitted : Admitted c first read e) :
    ∃ s', Online.ingestEvent (featureReader lib c.windowSeconds) c e s =
        (.ok (if kept c first e then 1 else 0), s') ∧ Ingested c first (read ++ [e]) s' ∧
      s'.processed = s.processed ∧ s'.scored = s.scored := by
  have hstart : Online.bucketStart c e.tsUnixNs = .ok (startOf c e) := by
    rw [Online.bucketStart, if_neg hwindow.ne', Int.fmod_eq_emod_of_nonneg _ hwindow.le]
    rfl
  by_cases hany : (read ++ [e]).any Event.isRequest = true
  · -- the first request is known once the event has been seen
    have hfirst : s.firstAfter (featureReader lib c.windowSeconds) e = some first := by
      unfold Online.firstAfter
      cases hread : read.any Event.isRequest with
      | true =>
        have hsome : s.firstRequestNs = some first := by rw [h.firstRequest, hread]; rfl
        rw [if_neg (by simp [hsome]), hsome]
      | false =>
        have hnone : s.firstRequestNs = none := by rw [h.firstRequest, hread]; rfl
        have hreq : e.isRequest := by simpa [hread] using hany
        have htime := hadmitted hread
        rw [if_pos hreq] at htime
        rw [if_pos ⟨hreq, hnone⟩, ← htime]
        rfl
    simp only [Online.ingestEvent, hfirst]
    by_cases hkept : kept c first e
    · have hlate : ¬ (featureReader lib c.windowSeconds).tsUnixNs e < first + Online.warmupNs c :=
        not_lt.mpr (of_decide_eq_true hkept)
      rw [if_neg hlate, if_pos hkept]
      simp only [featureReader, hstart]
      refine ⟨_, rfl, ⟨by rw [hany]; rfl, ?_⟩, rfl, rfl⟩
      rw [List.filter_append, List.filter_singleton, hkept, cond_true, group_append, ← h.buckets]
    · have hearly : (featureReader lib c.windowSeconds).tsUnixNs e < first + Online.warmupNs c :=
        not_le.mp (of_decide_eq_false (Bool.eq_false_of_not_eq_true hkept))
      rw [if_pos hearly, if_neg hkept]
      refine ⟨_, rfl, ⟨by rw [hany]; rfl, ?_⟩, rfl, rfl⟩
      rw [List.filter_append, List.filter_singleton, Bool.eq_false_of_not_eq_true hkept, cond_false,
        List.append_nil, ← h.buckets]
  · rw [List.any_append, Bool.not_eq_true, Bool.or_eq_false_iff] at hany
    obtain ⟨hread, hreq⟩ := hany
    have hreq : e.isRequest = false := by simpa using hreq
    have hnone : s.firstRequestNs = none := by rw [h.firstRequest, hread]; rfl
    have hfirst : s.firstAfter (featureReader lib c.windowSeconds) e = none := by
      rw [Online.firstAfter, if_neg fun hand => ?_, hnone]
      rw [show (featureReader lib c.windowSeconds).isRequest e = e.isRequest from rfl, hreq] at hand
      cases hand.1
    have hskipped := hadmitted hread
    rw [hreq, if_neg (by decide)] at hskipped
    rw [Online.ingestEvent, hfirst, hskipped]
    refine ⟨s, rfl, ⟨?_, ?_⟩, rfl, rfl⟩
    · simp [hread, hreq, hnone]
    · simp [hskipped, h.buckets]

def AllAdmitted (c : OnlineCall Event) (first : ℤ) (read events : List Event) : Prop :=
  ∀ before e after, events = before ++ e :: after → Admitted c first (read ++ before) e

theorem ingest_spec (lib : Library) (hwindow : 0 < Online.windowNs c) {events : List Event}
    (h : Ingested c first read s) (hadmitted : AllAdmitted c first read events) :
    ∃ s', Online.ingest (featureReader lib c.windowSeconds) c
        (events.map fun e => .ok (some e)) s = (.ok (events.countP (kept c first)), s') ∧
      Ingested c first (read ++ events) s' ∧ s'.processed = s.processed ∧ s'.scored = s.scored := by
  induction events generalizing read s with
  | nil =>
    rw [List.append_nil]
    exact ⟨s, rfl, h, rfl, rfl⟩
  | cons e events ih =>
    have hhead : Admitted c first read e := by
      have hfirst := hadmitted [] e events rfl
      rwa [List.append_nil] at hfirst
    have htail : AllAdmitted c first (read ++ [e]) events := by
      rintro before e' after rfl
      rw [List.append_assoc, List.singleton_append]
      exact hadmitted (e :: before) e' after rfl
    obtain ⟨t, hevent, ht, hprocessed, hscored⟩ := ingestEvent_spec lib hwindow h hhead
    obtain ⟨s', hrest, hs', hprocessed', hscored'⟩ := ih ht htail
    rw [List.append_assoc, List.singleton_append] at hs'
    refine ⟨s', ?_, hs', hprocessed'.trans hprocessed, hscored'.trans hscored⟩
    rw [List.map_cons, Online.ingest, Exec.bind_apply, Exec.lift_apply, Exec.next_ok]
    dsimp only
    rw [Exec.bind_of_ok hevent, Exec.bind_of_ok hrest, Exec.pure_apply, List.countP_cons,
      Nat.add_comm]

def windowLines (c : OnlineCall Event) (first : ℤ) (lines : List Event) (w : ℤ) : List Event :=
  (lines.filter (kept c first)).filter fun e => startOf c e = w

def rowAt (lib : Library) (c : OnlineCall Event) (r : Text) (first : ℤ) (lines : List Event)
    (w : ℤ) :
    Option Row :=
  rowOf lib c.windowSeconds (toLex (r, w), windowLines c first lines w)

theorem mem_windowLines {lines : List Event} {w : ℤ} : e ∈ windowLines c first lines w ↔
    e ∈ lines ∧ kept c first e ∧ startOf c e = w := by
  rw [windowLines, List.mem_filter, List.mem_filter, decide_eq_true_iff, and_assoc]

theorem Ingested.mem_keys {w : ℤ} (h : Ingested c first read s) :
    w ∈ keys s.buckets ↔ ∃ e ∈ read, kept c first e ∧ startOf c e = w := by
  rw [h.buckets, mem_keys_group, List.mem_map]
  simp only [List.mem_filter, and_assoc]

theorem windowLines_ne_nil {lines : List Event} {w : ℤ} : windowLines c first lines w ≠ [] ↔
    ∃ e ∈ lines, kept c first e ∧ startOf c e = w := by
  rw [← List.isEmpty_eq_false_iff, List.isEmpty_eq_false_iff_exists_mem]
  simp only [mem_windowLines]

theorem Ingested.bucket {w : ℤ} (h : Ingested c first read s) (hw : w ∈ keys s.buckets) :
    s.bucket w = windowLines c first read w := by
  rw [h.buckets, mem_keys_group] at hw
  rw [Online.bucket, h.buckets, lookup_group hw]
  rfl

/-- A row depends on the requests and the resource events of its bucket only. -/
theorem rowOf_congr {windowSeconds : ℤ} {key : Key} {bucket bucket' : List Event}
    (hrequests : bucket.filter Event.isRequest = bucket'.filter Event.isRequest)
    (hresources : bucket.filter Event.isResource = bucket'.filter Event.isResource) :
    rowOf lib windowSeconds (key, bucket) = rowOf lib windowSeconds (key, bucket') := by
  unfold rowOf
  simp only [hrequests, hresources]

/-- Where no line of a window comes before its first request, `aggregate_events` keeps them all. -/
theorem aggregateEvents_window (lib : Library) {r : Text} {w : ℤ} {bucket : List Event}
    (hwindow : 0 < c.windowSeconds) (hlines : ∀ e ∈ bucket, e.run = r ∧ startOf c e = w)
    (hcovered : ∀ e ∈ bucket, ∀ q ∈ bucket, q.isRequest →
      ∃ q' ∈ bucket, q'.isRequest ∧ q'.tsUnixNs ≤ e.tsUnixNs) :
    aggregateEvents lib bucket c.windowSeconds 0 =
      .ok (rowOf lib c.windowSeconds (toLex (r, w), bucket)).toList := by
  rw [aggregateEvents_ok lib bucket hwindow le_rfl, rowsOf]
  have hafter : bucket.filter (afterWarmup (firstRequest bucket) (nanoseconds 0)) = bucket := by
    rw [List.filter_eq_self]
    intro e he
    rcases firstRequest_spec bucket e.run with ⟨hnone, -⟩ | ⟨first, hsome, hleast⟩
    · rw [afterWarmup, hnone]
    · obtain ⟨q, hq, hreq, -, -⟩ := hleast.1
      obtain ⟨q', hq', hreq', htime⟩ := hcovered e he q hq hreq
      have hrun : q'.run = e.run := (hlines q' hq').1.trans (hlines e he).1.symm
      have hfirst : first ≤ q'.tsUnixNs := hleast.2 ⟨q', hq', hreq', hrun, rfl⟩
      rw [afterWarmup, hsome]
      apply decide_eq_true
      rw [nanoseconds, zero_mul, add_zero]
      exact hfirst.trans htime
  rw [hafter]
  by_cases hempty : bucket = []
  · rw [hempty]
    rfl
  · have hkeys : ∀ e ∈ bucket, keyOf (nanoseconds c.windowSeconds) e = toLex (r, w) := by
      intro e he
      rw [keyOf_eq_iff]
      exact hlines e he
    rw [group_of_const hkeys hempty]
    cases hrow : rowOf lib c.windowSeconds (toLex (r, w), bucket) with
    | none => simp [sortByKey, hrow]
    | some row => simp [sortByKey, hrow]

/-- The variables that decide what is scored are the same. -/
structure Untouched (s t : Online Event σ) : Prop where
  firstRequestNs : t.firstRequestNs = s.firstRequestNs
  buckets : t.buckets = s.buckets
  processed : t.processed = s.processed
  scored : t.scored = s.scored

theorem untouched_anchor (audit : Option (AuditBackend σ)) (alert : Json) (s : Online Event σ) :
    Exec.Keeps (Untouched s) (Online.anchor audit alert) := by
  cases audit with
  | none => exact Exec.keeps_pure _
  | some backend => exact fun t ht => ⟨ht.firstRequestNs, ht.buckets, ht.processed, ht.scored⟩

theorem untouched_addRecord (record : Json) (s : Online Event σ) :
    Exec.Keeps (Untouched s) (Online.addRecord record) :=
  fun _ ht => ⟨ht.firstRequestNs, ht.buckets, ht.processed, ht.scored⟩

/-- A row is scored, or its score fails. -/
theorem scoreRow_cases (audit : Option (AuditBackend σ)) (model : Detector) (modelHash : Json)
    (row : Row) (s : Online Event σ) :
    ((∃ exc, (Online.scoreRow audit model modelHash row s).1 = .error exc) ∧
        Untouched s (Online.scoreRow audit model modelHash row s).2) ∨
      Untouched { s with scored := s.scored ++ [row] }
        (Online.scoreRow audit model modelHash row s).2 := by
  rw [Online.scoreRow, Exec.bind_apply, Exec.lift_apply]
  cases model.score row with
  | error exc => exact Or.inl ⟨⟨exc, rfl⟩, ⟨rfl, rfl, rfl, rfl⟩⟩
  | ok score =>
    right
    rw [Exec.next_ok, Exec.bind_apply, Online.addScored, Exec.next_ok]
    have hsame : Untouched { s with scored := s.scored ++ [row] }
        { s with scored := s.scored ++ [row] } :=
      ⟨rfl, rfl, rfl, rfl⟩
    split_ifs
    · exact hsame
    · exact (Exec.keeps_lift _).bind (fun alert => (untouched_anchor audit alert _).bind fun _ =>
        untouched_addRecord _ _) _ hsame

/-- The bucket is marked, and its row is scored if it has one. -/
theorem scoreWindow_cases {w : ℤ} {rows : List Row} (audit : Option (AuditBackend σ))
    (model : Detector) (modelHash : Json)
    (hrows : aggregateEvents lib (s.bucket w) c.windowSeconds 0 = .ok rows) :
    let out := Online.scoreWindow (featureReader lib c.windowSeconds) audit model modelHash w s
    (∃ exc, out.1 = .error exc) ∧ Untouched { s with processed := s.processed ++ [w] } out.2 ∨
      Untouched { s with processed := s.processed ++ [w], scored := s.scored ++ rows.head?.toList }
        out.2 := by
  intro out
  have hout : out = Online.scoreWindow (featureReader lib c.windowSeconds) audit model modelHash
      w s :=
    rfl
  have haggregate : (featureReader lib c.windowSeconds).aggregate (s.bucket w) = .ok rows := hrows
  rw [Online.scoreWindow, Exec.bind_apply, Exec.get_apply, Exec.next_ok, Exec.bind_apply,
    Exec.lift_apply, haggregate, Exec.next_ok, Exec.bind_apply, Online.addProcessed,
      Exec.next_ok] at hout
  cases rows with
  | nil =>
    right
    rw [hout]
    exact ⟨rfl, rfl, rfl, (List.append_nil _).symm⟩
  | cons row rest =>
    rw [hout]
    exact scoreRow_cases audit model modelHash row _

variable {r : Text} {lines : List Event}

/-- The window has the row of the whole telemetry once the lines in `read` have been read. -/
def Complete (lib : Library) (c : OnlineCall Event) (r : Text) (first : ℤ) (lines read : List Event)
    (w : ℤ) : Prop :=
  aggregateEvents lib (windowLines c first read w) c.windowSeconds 0 =
    .ok (rowAt lib c r first lines w).toList

/-- The scored rows are the rows of windows, none of which is scored twice. -/
def RowsOf (lib : Library) (c : OnlineCall Event) (r : Text) (first : ℤ) (lines : List Event)
    (s : Online Event σ) : Prop :=
  ∃ windows : List ℤ, windows.Nodup ∧ s.scored = windows.filterMap (rowAt lib c r first lines)

/-- The scored rows are those of the windows that are marked, each of which is marked once. -/
structure Exact (lib : Library) (c : OnlineCall Event) (r : Text) (first : ℤ) (lines : List Event)
    (s : Online Event σ) : Prop where
  nodup : s.processed.Nodup
  known : ∀ w ∈ s.processed, w ∈ keys s.buckets
  scored : s.scored = s.processed.filterMap (rowAt lib c r first lines)

theorem Exact.rowsOf (h : Exact lib c r first lines s) : RowsOf lib c r first lines s :=
  ⟨s.processed, h.nodup, h.scored⟩

theorem Untouched.ingested (h : Untouched s s') (hs : Ingested c first read s) :
    Ingested c first read s' :=
  ⟨h.firstRequestNs.trans hs.firstRequest, h.buckets.trans hs.buckets⟩

theorem Untouched.exact (h : Untouched s s') (hs : Exact lib c r first lines s) :
    Exact lib c r first lines s' := by
  refine ⟨?_, ?_, ?_⟩
  · rw [h.processed]
    exact hs.nodup
  · rw [h.processed, h.buckets]
    exact hs.known
  · rw [h.scored, h.processed]
    exact hs.scored

theorem Untouched.rowsOf (h : Untouched s s') (hs : RowsOf lib c r first lines s) :
    RowsOf lib c r first lines s' := by
  obtain ⟨windows, hnodup, hscored⟩ := hs
  exact ⟨windows, hnodup, h.scored.trans hscored⟩

/-- Complete windows are scored one after another. -/
theorem scoreWindows_spec (audit : Option (AuditBackend σ)) (model : Detector) (modelHash : Json)
    {starts : List ℤ} (hs : Ingested c first read s) (hexact : Exact lib c r first lines s)
    (hnodup : (s.processed ++ starts).Nodup) (hknown : ∀ w ∈ starts, w ∈ keys s.buckets)
    (hcomplete : ∀ w ∈ starts, Complete lib c r first lines read w) :
    let out := Online.scoreWindows (featureReader lib c.windowSeconds) audit model modelHash starts s
    RowsOf lib c r first lines out.2 ∧ (out.1 = .ok () → Ingested c first read out.2 ∧
      Exact lib c r first lines out.2 ∧ out.2.processed = s.processed ++ starts ∧
      out.2.buckets = s.buckets) := by
  induction starts generalizing s with
  | nil =>
    refine ⟨hexact.rowsOf, fun _ => ⟨hs, hexact, ?_, rfl⟩⟩
    rw [List.append_nil]
    rfl
  | cons w starts ih =>
    obtain ⟨hw, hknown⟩ := List.forall_mem_cons.mp hknown
    obtain ⟨hrow, hcomplete⟩ := List.forall_mem_cons.mp hcomplete
    have hrows : aggregateEvents lib (s.bucket w) c.windowSeconds 0 =
        .ok (rowAt lib c r first lines w).toList := by
      rw [hs.bucket hw]
      exact hrow
    have hcases := scoreWindow_cases audit model modelHash hrows
    -- what the marked window and its row make of the state
    have hscored : Exact lib c r first lines { s with
        processed := s.processed ++ [w]
        scored := s.scored ++ (rowAt lib c r first lines w).toList.head?.toList } := by
      refine ⟨?_, ?_, ?_⟩
      · rw [List.append_cons] at hnodup
        exact hnodup.of_append_left
      · intro w' hw'
        rcases List.mem_append.mp hw' with hold | hnew
        · exact hexact.known w' hold
        · rw [List.mem_singleton.mp hnew]
          exact hw
      · change s.scored ++ _ = _
        rw [hexact.scored, List.filterMap_append]
        cases hat : rowAt lib c r first lines w with
        | none => simp [hat]
        | some row => simp [hat]
    rw [Online.scoreWindows, Exec.bind_apply]
    rcases hout : Online.scoreWindow (featureReader lib c.windowSeconds) audit model modelHash w s
      with ⟨exc | _, t⟩
    · rw [hout] at hcases
      refine ⟨?_, nofun⟩
      rcases hcases with ⟨-, hsame⟩ | hsame
      · exact hsame.rowsOf hexact.rowsOf
      · exact hsame.rowsOf hscored.rowsOf
    · rw [hout] at hcases
      rw [Exec.next_ok]
      rcases hcases with ⟨⟨exc, hexc⟩, -⟩ | hsame
      · cases hexc
      · have ht : Ingested c first read t := hsame.ingested ⟨hs.firstRequest, hs.buckets⟩
        have hprocessed : t.processed = s.processed ++ [w] := hsame.processed
        have hbuckets : t.buckets = s.buckets := hsame.buckets
        obtain ⟨hrest, hok⟩ := ih ht (hsame.exact hscored)
          (by rw [hprocessed, List.append_assoc]; exact hnodup) (by rw [hbuckets]; exact hknown)
          hcomplete
        refine ⟨hrest, fun hdone => ?_⟩
        obtain ⟨hs', hexact', hprocessed', hbuckets'⟩ := hok hdone
        refine ⟨hs', hexact', ?_, hbuckets'.trans hbuckets⟩
        rw [hprocessed', hprocessed, List.append_assoc]
        rfl

theorem mem_ready {force : Bool} {now w : ℤ} : w ∈ s.ready c force now ↔
    w ∈ keys s.buckets ∧ w ∉ s.processed ∧
      (force ∨ w + Online.windowNs c + 250000000 ≤ now) := by
  rw [Online.ready, List.mem_insertionSort, List.mem_filter, decide_eq_true_iff]

/-- A pass over the windows that are ready, each of them complete. -/
theorem scoreReady_spec (audit : Option (AuditBackend σ)) (model : Detector) (modelHash : Json)
    (force : Bool) (now : ℤ) (hs : Ingested c first read s) (hexact : Exact lib c r first lines s)
    (hcomplete : ∀ w ∈ keys s.buckets, (force ∨ w + Online.windowNs c + 250000000 ≤ now) →
      Complete lib c r first lines read w) :
    let out := Online.scoreReady (featureReader lib c.windowSeconds) audit c model modelHash force
      now s
    RowsOf lib c r first lines out.2 ∧ (out.1 = .ok () → Ingested c first read out.2 ∧
      Exact lib c r first lines out.2 ∧ out.2.buckets = s.buckets ∧
      (force → ∀ w ∈ keys s.buckets, w ∈ out.2.processed)) := by
  have hkeys : (keys s.buckets).Nodup := by
    rw [hs.buckets]
    exact nodup_group _ _
  have hready : (s.ready c force now).Nodup :=
    (List.perm_insertionSort _ _).nodup_iff.mpr (hkeys.filter _)
  have hdisjoint : (s.processed ++ s.ready c force now).Nodup :=
    hexact.nodup.append hready fun w hold hnew => (mem_ready.mp hnew).2.1 hold
  intro out
  have hout : out = Online.scoreWindows (featureReader lib c.windowSeconds) audit model modelHash
      (s.ready c force now) s := by
    change Online.scoreReady (featureReader lib c.windowSeconds) audit c model modelHash force now
      s = _
    rw [Online.scoreReady, Exec.bind_apply, Exec.get_apply, Exec.next_ok]
  obtain ⟨hrows, hok⟩ := scoreWindows_spec audit model modelHash hs hexact hdisjoint
    (fun w hw => (mem_ready.mp hw).1)
    (fun w hw => hcomplete w (mem_ready.mp hw).1 (mem_ready.mp hw).2.2)
  rw [hout]
  refine ⟨hrows, fun hdone => ?_⟩
  obtain ⟨hs', hexact', hprocessed, hbuckets⟩ := hok hdone
  refine ⟨hs', hexact', hbuckets, fun hforce w hw => ?_⟩
  rw [hprocessed, List.mem_append]
  by_cases hmarked : w ∈ s.processed
  · exact Or.inl hmarked
  · exact Or.inr (mem_ready.mpr ⟨hw, hmarked, Or.inl hforce⟩)

structure Round where
  requests : List Event
  resources : List Event
  now : ℤ
  done : Bool

namespace Round

def poll (p : Round) : Poll Event :=
  ⟨p.requests.map fun e => .ok (some e), p.resources.map fun e => .ok (some e), p.now, p.done⟩

def events (p : Round) : List Event := p.requests ++ p.resources

@[simp] theorem poll_requests (p : Round) :
    p.poll.requests = p.requests.map fun e => .ok (some e) := rfl

@[simp] theorem poll_resources (p : Round) :
    p.poll.resources = p.resources.map fun e => .ok (some e) := rfl

@[simp] theorem poll_now (p : Round) : p.poll.now = p.now := rfl

end Round

def eventsOf (rounds : List Round) : List Event := rounds.flatMap Round.events

/-- Round by round: no line is lost before the first request, and a window whose time is up has been
read completely. -/
def StepsMeet (lib : Library) (c : OnlineCall Event) (r : Text) (first : ℤ) (lines : List Event) :
    List Event → List Round → Prop
  | _, [] => True
  | read, p :: rounds =>
    AllAdmitted c first read p.events ∧
      (∀ w, (∃ e ∈ read ++ p.events, kept c first e ∧ startOf c e = w) →
        w + Online.windowNs c + 250000000 ≤ p.now →
          Complete lib c r first lines (read ++ p.events) w) ∧
      StepsMeet lib c r first lines (read ++ p.events) rounds

/-- After a round that sees the done file only the next one finds lines after the warm-up. -/
def Drained (c : OnlineCall Event) (first : ℤ) : List Round → Prop
  | [] => True
  | p :: rounds =>
    (p.done → ∀ p' ∈ rounds.tail, ∀ e ∈ p'.events, kept c first e = false) ∧ Drained c first rounds

theorem stepsMeet_of {rounds : List Round}
    (h : ∀ before p after, rounds = before ++ p :: after →
      AllAdmitted c first (read ++ eventsOf before) p.events ∧
        ∀ w, (∃ e ∈ read ++ eventsOf (before ++ [p]), kept c first e ∧ startOf c e = w) →
          w + Online.windowNs c + 250000000 ≤ p.now →
            Complete lib c r first lines (read ++ eventsOf (before ++ [p])) w) :
    StepsMeet lib c r first lines read rounds := by
  induction rounds generalizing read with
  | nil => exact trivial
  | cons p rounds ih =>
    obtain ⟨hadmitted, hcomplete⟩ := h [] p rounds rfl
    have hread : ∀ before, read ++ eventsOf (p :: before) = read ++ p.events ++ eventsOf before :=
      fun before => (List.append_assoc _ _ _).symm
    have hone : eventsOf ([] ++ [p]) = p.events := List.append_nil _
    have hnone : read ++ eventsOf [] = read := List.append_nil _
    rw [hnone] at hadmitted
    rw [hone] at hcomplete
    refine ⟨hadmitted, hcomplete, ih fun before p' after hsplit => ?_⟩
    have hstep := h (p :: before) p' after (by rw [hsplit, List.cons_append])
    rwa [List.cons_append, hread, hread] at hstep

theorem allAdmitted_append {events events' : List Event} :
    AllAdmitted c first read (events ++ events') ↔
      AllAdmitted c first read events ∧ AllAdmitted c first (read ++ events) events' := by
  constructor
  · intro h
    constructor
    · rintro before e after rfl
      exact h before e (after ++ events') (by simp)
    · rintro before e after rfl
      rw [List.append_assoc]
      exact h (events ++ before) e after (by simp)
  · intro ⟨h, h'⟩ before e after hsplit
    rcases List.append_eq_append_iff.mp hsplit with ⟨more, hmore, htail⟩ | ⟨more, hmore, htail⟩
    · rw [hmore, ← List.append_assoc]
      exact h' more e after htail
    · cases more with
      | nil =>
        rw [List.append_nil] at hmore
        have hfirst := h' [] e after htail.symm
        rwa [List.append_nil, hmore] at hfirst
      | cons e' more =>
        rw [List.cons_append] at htail
        rw [List.cons.inj htail |>.1]
        exact h before e' more hmore

theorem windowLines_append {events : List Event} (h : ∀ e ∈ events, kept c first e = false) (w : ℤ) :
    windowLines c first (read ++ events) w = windowLines c first read w := by
  have hnone : events.filter (kept c first) = [] :=
    List.filter_eq_nil_iff.mpr fun e he => by rw [h e he]; decide
  rw [windowLines, List.filter_append, hnone, List.append_nil]
  rfl

/-- `quiet_after_done` after these rounds. -/
def quietCount (c : OnlineCall Event) (first : ℤ) : List Round → ℕ → ℕ
  | [], quiet => quiet
  | p :: rounds, quiet =>
    quietCount c first rounds
      (if p.done then Online.quietAfter quiet (p.events.countP (kept c first)) else quiet)

/-- The rounds after which the loop has ended. -/
def Ends (c : OnlineCall Event) (first : ℤ) (quiet : ℕ) (rounds before : List Round) : Prop :=
  before <+: rounds ∧ 3 ≤ quietCount c first before quiet

/-- The first step of the loop is not its end. -/
theorem Ends.cons {p : Round} {quiet quiet' : ℕ} {rounds before : List Round}
    (hquiet : (if p.done then Online.quietAfter quiet (p.events.countP (kept c first)) else quiet) =
      quiet') (h : Ends c first quiet' rounds before) :
          Ends c first quiet (p :: rounds) (p :: before) :=
  ⟨(List.prefix_cons_inj p).mpr h.1, by rw [quietCount, hquiet]; exact h.2⟩

theorem poll_spec (audit : Option (AuditBackend σ)) (model : Detector) (modelHash : Json)
    (hwindow : 0 < Online.windowNs c) {rounds : List Round} (quiet : ℕ)
    (hs : Ingested c first read s) (hexact : Exact lib c r first lines s)
    (hsteps : StepsMeet lib c r first lines read rounds) :
    let out := Online.poll (featureReader lib c.windowSeconds) audit c model modelHash
      (rounds.map Round.poll) quiet s
    RowsOf lib c r first lines out.2 ∧ (out.1 = .ok true → ∃ before,
      Ends c first quiet rounds before ∧ Ingested c first (read ++ eventsOf before) out.2 ∧
        Exact lib c r first lines out.2) := by
  induction rounds generalizing read s quiet with
  | nil => exact ⟨hexact.rowsOf, nofun⟩
  | cons p rounds ih =>
    obtain ⟨hadmitted, hcomplete, hsteps⟩ := hsteps
    obtain ⟨hrequests, hresources⟩ := allAdmitted_append.mp hadmitted
    obtain ⟨t, hingest, ht, hprocessed, hscored⟩ := ingest_spec lib hwindow hs hrequests
    obtain ⟨u, hingest', hu, hprocessed', hscored'⟩ := ingest_spec lib hwindow ht hresources
    rw [List.append_assoc] at hu
    have hu : Ingested c first (read ++ p.events) u := hu
    have hexact' : Exact lib c r first lines u := by
      refine ⟨?_, ?_, ?_⟩
      · rw [hprocessed', hprocessed]
        exact hexact.nodup
      · intro w hw
        rw [hprocessed', hprocessed] at hw
        obtain ⟨e, he, hwindow⟩ := hs.mem_keys.mp (hexact.known w hw)
        exact hu.mem_keys.mpr ⟨e, List.mem_append_left _ he, hwindow⟩
      · rw [hscored', hscored, hprocessed', hprocessed]
        exact hexact.scored
    have hready : ∀ w ∈ keys u.buckets, (false = true ∨ w + Online.windowNs c + 250000000 ≤ p.now) →
        Complete lib c r first lines (read ++ p.events) w := by
      rintro w hw (hfalse | hnow)
      · cases hfalse
      · exact hcomplete w (hu.mem_keys.mp hw) hnow
    obtain ⟨hrows, hok⟩ := scoreReady_spec audit model modelHash false p.now hu hexact' hready
    have hadded : p.requests.countP (kept c first) + p.resources.countP (kept c first) =
        p.events.countP (kept c first) := List.countP_append.symm
    have hread : ∀ before, read ++ eventsOf (p :: before) = read ++ p.events ++ eventsOf before :=
      fun before => (List.append_assoc _ _ _).symm
    intro out
    have hout : out = Online.poll (featureReader lib c.windowSeconds) audit c model modelHash
      ((p :: rounds).map Round.poll) quiet s := rfl
    rw [List.map_cons, Online.poll, Round.poll_requests, Exec.bind_of_ok hingest,
      Round.poll_resources, Exec.bind_of_ok hingest', Exec.bind_apply, Round.poll_now,
        hadded] at hout
    rcases hscore : Online.scoreReady (featureReader lib c.windowSeconds) audit c model modelHash
      false
      p.now u with ⟨exc | _, v⟩
    · rw [hscore] at hrows
      rw [hscore, Exec.next_error] at hout
      rw [hout]
      exact ⟨hrows, nofun⟩
    · rw [hscore] at hrows hok
      obtain ⟨hv, hexact'', hbuckets, -⟩ := hok rfl
      rw [hscore, Exec.next_ok] at hout
      split_ifs at hout with hdone hend
      · -- the loop ends with this round
        rw [hout]
        refine ⟨hrows, fun _ => ⟨[p], ⟨List.prefix_append [p] rounds, ?_⟩, ?_, hexact''⟩⟩
        · rw [quietCount, if_pos (show p.done = true from hdone)]
          exact hend
        · rw [hread, eventsOf, List.flatMap_nil, List.append_nil]
          exact hv
      · obtain ⟨hrest, hended⟩ := ih (Online.quietAfter quiet _) hv hexact'' hsteps
        rw [hout]
        refine ⟨hrest, fun htrue => ?_⟩
        obtain ⟨before, hends, hall, hexactAll⟩ := hended htrue
        exact ⟨p :: before, hends.cons (if_pos hdone), hread before ▸ hall, hexactAll⟩
      · obtain ⟨hrest, hended⟩ := ih quiet hv hexact'' hsteps
        rw [hout]
        refine ⟨hrest, fun htrue => ?_⟩
        obtain ⟨before, hends, hall, hexactAll⟩ := hended htrue
        exact ⟨p :: before, hends.cons (if_neg hdone), hread before ▸ hall, hexactAll⟩

/-- Every quiet poll has seen the done file. -/
theorem quietCount_le (c : OnlineCall Event) (first : ℤ) (rounds : List Round) (quiet : ℕ) :
    quietCount c first rounds quiet ≤ quiet + rounds.countP Round.done := by
  induction rounds generalizing quiet with
  | nil => exact le_rfl
  | cons p rounds ih =>
    rw [quietCount]
    apply (ih _).trans
    by_cases hdone : p.done
    · rw [if_pos hdone, List.countP_cons_of_pos hdone, Online.quietAfter]
      split_ifs
      · omega
      · omega
    · rw [if_neg hdone, List.countP_cons_of_neg hdone]

/-- Once two polls have seen the done file, nothing more is found. -/
theorem Drained.after {rounds before after : List Round} (h : Drained c first rounds)
    (hsplit : rounds = before ++ after) (hdone : 2 ≤ before.countP Round.done) :
    (∃ p ∈ rounds.dropLast, p.done) ∧ ∀ e ∈ eventsOf after, kept c first e = false := by
  induction before generalizing rounds with
  | nil => cases hdone
  | cons p before ih =>
    rw [List.cons_append] at hsplit
    subst hsplit
    obtain ⟨hafter, hrest⟩ := h
    have hmore : 0 < before.countP Round.done → before ≠ [] := by
      rintro hpos rfl
      exact absurd hpos (lt_irrefl 0)
    have hlast : before ≠ [] → (p :: (before ++ after)).dropLast = p :: (before ++ after).dropLast :=
      fun hne => List.dropLast_cons_of_ne_nil (by simp [hne])
    by_cases hp : p.done
    · rw [List.countP_cons_of_pos hp] at hdone
      have hne := hmore (by omega)
      refine ⟨⟨p, by rw [hlast hne]; exact List.mem_cons_self, hp⟩, fun e he => ?_⟩
      obtain ⟨p', hp', he'⟩ := List.mem_flatMap.mp he
      apply hafter hp p' _ e he'
      rw [List.tail_append_of_ne_nil hne]
      exact List.mem_append_right _ hp'
    · rw [List.countP_cons_of_neg hp] at hdone
      obtain ⟨⟨p', hp', hseen⟩, hnone⟩ := ih hrest rfl hdone
      have hne := hmore (by omega)
      exact ⟨⟨p', by rw [hlast hne]; exact List.mem_cons_of_mem p hp', hseen⟩, hnone⟩

/-- Where the files are drained, the loop has found every line when it ends. -/
theorem Drained.stops {rounds before : List Round} (h : Drained c first rounds)
    (hends : Ends c first 0 rounds before) : (∃ p ∈ rounds.dropLast, p.done) ∧
      ∀ w, windowLines c first (eventsOf before) w = windowLines c first (eventsOf rounds) w := by
  obtain ⟨⟨after, hsplit⟩, hquiet⟩ := hends
  have hle := quietCount_le c first before 0
  obtain ⟨hdone, hnone⟩ := h.after hsplit.symm (by omega)
  refine ⟨hdone, fun w => ?_⟩
  rw [← hsplit, eventsOf, eventsOf, List.flatMap_append]
  exact (windowLines_append hnone w).symm

def OnlineCall.Finds (c : OnlineCall Event) (rounds : List Round) : Prop :=
  c.polls = rounds.map Round.poll

theorem untouched_registerModel (audit : Option (AuditBackend σ)) (c : OnlineCall Event)
    (s : Online Event σ) : Exec.Keeps (Untouched s) (Online.registerModel audit c) := by
  cases audit with
  | none => exact Exec.keeps_pure _
  | some backend =>
    have hregister : Exec.Keeps (Untouched s)
        (Online.onMonitored (onAudit (backend.registerModel c.modelPath))) :=
      fun t ht => ⟨ht.firstRequestNs, ht.buckets, ht.processed, ht.scored⟩
    exact hregister.bind fun _ => Exec.keeps_pure _

theorem untouched_onMonitored {α : Type} (method : Method (Monitored σ) α) (s : Online Event σ) :
    Exec.Keeps (Untouched s) (Online.onMonitored method) :=
  fun _ ht => ⟨ht.firstRequestNs, ht.buckets, ht.processed, ht.scored⟩

/-- In a run whose steps all meet the condition every scored row is the row of a window, and once
the run has ended every window has been scored once. -/
theorem main_spec (audit : Option (AuditBackend σ)) (rt : Runtime) (monitored : Monitored σ)
    (hwindow : 0 < Online.windowNs c) {rounds : List Round} (hfinds : c.Finds rounds)
    (hsteps : StepsMeet lib c r first lines [] rounds)
    (hlast : ∀ before, Ends c first 0 rounds before → ∀ w,
      windowLines c first (eventsOf before) w ≠ [] →
        Complete lib c r first lines (eventsOf before) w) :
    let out := Online.main (featureReader lib c.windowSeconds) audit rt c (Online.start monitored)
    RowsOf lib c r first lines out.2 ∧ (out.1 = .ok true →
      ∃ (before : List Round) (windows : List ℤ), Ends c first 0 rounds before ∧ windows.Nodup ∧
      (∀ w, w ∈ windows ↔ windowLines c first (eventsOf before) w ≠ []) ∧
      out.2.scored = windows.filterMap (rowAt lib c r first lines)) := by
  have hs : Ingested c first [] (Online.start monitored : Online Event σ) := ⟨rfl, rfl⟩
  have hexact : Exact lib c r first lines (Online.start monitored) :=
    ⟨List.nodup_nil, by simp [Online.start], rfl⟩
  intro out
  have hout : out = Online.main (featureReader lib c.windowSeconds) audit rt c
    (Online.start monitored) := rfl
  rw [Online.main, Exec.bind_apply, Exec.lift_apply] at hout
  cases hload : c.loadModel with
  | error exc =>
    rw [hload, Exec.next_error] at hout
    rw [hout]
    exact ⟨hexact.rowsOf, nofun⟩
  | ok model =>
    rw [hload, Exec.next_ok, Exec.bind_apply] at hout
    have hsame := untouched_registerModel audit c (Online.start monitored) _ ⟨rfl, rfl, rfl, rfl⟩
    rcases hregister : Online.registerModel audit c (Online.start monitored) with
      ⟨exc | modelHash, t⟩
    · rw [hregister] at hout hsame
      rw [hout]
      exact ⟨hsame.rowsOf hexact.rowsOf, nofun⟩
    · rw [hregister] at hout hsame
      rw [Exec.next_ok, Exec.bind_apply, hfinds] at hout
      obtain ⟨hrows, hok⟩ := poll_spec audit model modelHash hwindow 0 (hsame.ingested hs)
        (hsame.exact hexact) hsteps
      rcases hpoll : Online.poll (featureReader lib c.windowSeconds) audit c model modelHash
        (rounds.map Round.poll) 0 t with ⟨exc | ended, u⟩
      · rw [hpoll] at hrows
        rw [hpoll, Exec.next_error] at hout
        rw [hout]
        exact ⟨hrows, nofun⟩
      · rw [hpoll] at hrows hok
        rw [hpoll, Exec.next_ok] at hout
        cases ended with
        | false =>
          rw [hout]
          exact ⟨hrows, nofun⟩
        | true =>
          obtain ⟨before, hends, hu, hexact'⟩ := hok rfl
          rw [List.nil_append] at hu
          obtain ⟨hrows', hok'⟩ := scoreReady_spec audit model modelHash true c.lastNow hu hexact'
            fun w hw _ => hlast before hends w (windowLines_ne_nil.mpr (hu.mem_keys.mp hw))
          rw [if_pos rfl, Exec.bind_apply] at hout
          rcases hscore : Online.scoreReady (featureReader lib c.windowSeconds) audit c model
            modelHash
            true c.lastNow u with ⟨exc | _, v⟩
          · rw [hscore] at hrows'
            rw [hscore, Exec.next_error] at hout
            rw [hout]
            exact ⟨hrows', nofun⟩
          · rw [hscore] at hok'
            obtain ⟨hv, hexact'', hbuckets, hall⟩ := hok' rfl
            rw [hscore, Exec.next_ok, Exec.bind_apply, Exec.get_apply, Exec.next_ok,
              Exec.bind_apply] at hout
            have hwritten := untouched_onMonitored
              (do openAlerts; Online.writeRecords rt v.records) v v
              ⟨rfl, rfl, rfl, rfl⟩
            rw [hscore] at hrows'
            rcases hwrite : Online.onMonitored (do openAlerts; Online.writeRecords rt v.records) v
              with ⟨exc | _, z⟩
            · rw [hwrite] at hout hwritten
              rw [hout]
              exact ⟨hwritten.rowsOf hrows', nofun⟩
            · rw [hwrite] at hout hwritten
              rw [hout]
              refine ⟨hwritten.rowsOf hrows', fun _ =>
                ⟨before, v.processed, hends, hexact''.nodup, fun w => ?_, ?_⟩⟩
              · rw [windowLines_ne_nil, ← hv.mem_keys]
                exact ⟨hexact''.known w, fun hw => hall rfl w (hbuckets ▸ hw)⟩
              · exact hwritten.scored.trans hexact''.scored

end Cote3Mon.Monitor
