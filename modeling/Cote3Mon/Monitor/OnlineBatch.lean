import Cote3Mon.Features.Invariance
import Cote3Mon.Monitor.Streaming

namespace Cote3Mon.Monitor
open ByteText Python Features Grouping

-- The telemetry of a run grows in two files while the online monitor polls them. The rows that it
-- scores are compared with those of `aggregate_events` on both files.

structure Append where
  event : Event
  time : ℤ

/-- A poll: when `readline` finds nothing more in each of the files, the clock of `score_ready`, and
whether there is a done file then. -/
structure Visit where
  requests : ℤ
  resources : ℤ
  now : ℤ
  done : Bool

def linesIn (file : List Append) : List Event := file.map Append.event

/-- The files of the run `r`: lines in the order of their timestamps, none of them written more than
250 ms after its timestamp. -/
structure Written (r : Text) (requests resources : List Append) : Prop where
  isRequest : ∀ a ∈ requests, a.event.isRequest
  isResource : ∀ a ∈ resources, a.event.isResource
  run : ∀ a ∈ requests ++ resources, a.event.run = r
  requestsInOrder : requests.Pairwise fun a b =>
    a.event.tsUnixNs ≤ b.event.tsUnixNs ∧ a.time ≤ b.time
  resourcesInOrder : resources.Pairwise fun a b =>
    a.event.tsUnixNs ≤ b.event.tsUnixNs ∧ a.time ≤ b.time
  inOrder : ∀ a ∈ requests, ∀ b ∈ resources,
    (a.event.tsUnixNs < b.event.tsUnixNs → a.time ≤ b.time) ∧
      (b.event.tsUnixNs < a.event.tsUnixNs → b.time ≤ a.time)
  prompt : ∀ a ∈ requests ++ resources,
    a.event.tsUnixNs ≤ a.time ∧ a.time ≤ a.event.tsUnixNs + 250000000

/-- The steps of the monitor, one after another. -/
structure InOrder (visits : List Visit) : Prop where
  steps : ∀ v ∈ visits, v.requests ≤ v.resources ∧ v.resources ≤ v.now
  polls : visits.Pairwise fun v v' => v.now ≤ v'.requests

def found (time : ℤ) (file : List Append) : List Append := file.takeWhile fun a => a.time ≤ time

def unread (time : ℤ) (file : List Append) : List Append := file.dropWhile fun a => a.time ≤ time

def roundsOf : List Append → List Append → List Visit → List Round
  | _, _, [] => []
  | requests, resources, v :: visits =>
    ⟨linesIn (found v.requests requests), linesIn (found v.resources resources), v.now, v.done⟩ ::
      roundsOf (unread v.requests requests) (unread v.resources resources) visits

/-- The lines that have been read at the end of a poll. -/
def readBy (requests resources : List Append) (v : Visit) : List Append :=
  (requests.filter fun a => a.time ≤ v.requests) ++ resources.filter fun a => a.time ≤ v.resources

/-- The windows that are due at a poll, with a line that has been read. -/
def dueAt (c : OnlineCall Event) (first : ℤ) (requests resources : List Append) (v : Visit) :
    List ℤ :=
  (((linesIn (readBy requests resources v)).filter (kept c first)).map (startOf c)).filter
    fun w => w + Online.windowNs c + 250000000 ≤ v.now

/-- Where the first request is at `first`, no line that counts is lost. -/
structure Meets (c : OnlineCall Event) (first : ℤ) (requests resources : List Append)
    (visits : List Visit) : Prop where
  /-- A window that is due has been read, up to its last line. -/
  complete : ∀ v ∈ visits, ∀ w ∈ dueAt c first requests resources v,
    (∀ a ∈ requests, kept c first a.event → startOf c a.event = w → a.time ≤ v.requests) ∧
      ∀ a ∈ resources, kept c first a.event → startOf c a.event = w → a.time ≤ v.resources
  /-- In a window with requests no resource line is before all of them. -/
  covered : ∀ a ∈ resources, kept c first a.event →
    (∃ q ∈ requests, kept c first q.event ∧ startOf c q.event = startOf c a.event) →
      ∃ q ∈ requests, kept c first q.event ∧ startOf c q.event = startOf c a.event ∧
        q.event.tsUnixNs ≤ a.event.tsUnixNs
  /-- No resource line is read before the first request. -/
  known : ∀ v ∈ visits, ∀ a ∈ resources, kept c first a.event → a.time ≤ v.resources →
    ∃ q ∈ requests, q.time ≤ v.requests
  /-- The poll after one that has seen the done file finds the last line. -/
  drained : visits.Pairwise fun v v' => v.done →
    (∀ a ∈ requests, kept c first a.event → a.time ≤ v'.requests) ∧
      ∀ a ∈ resources, kept c first a.event → a.time ≤ v'.resources

variable {lib : Library} {c : OnlineCall Event} {r : Text} {first w : ℤ} {read : List Event}
  {requests resources q q' r₁ r₂ : List Append} {visits : List Visit} {v : Visit}

theorem found_append_unread (time : ℤ) (file : List Append) :
    found time file ++ unread time file = file :=
  List.takeWhile_append_dropWhile

theorem mem_found {file : List Append} {a : Append} {time : ℤ} (h : a ∈ found time file) :
    a.time ≤ time :=
  of_decide_eq_true (List.mem_takeWhile_imp (p := fun a : Append => decide (a.time ≤ time)) h)

theorem mem_unread {file : List Append} {a : Append} {time : ℤ}
    (hsorted : file.Pairwise fun a b => a.time ≤ b.time) (h : a ∈ unread time file) :
    time < a.time := by
  induction file with
  | nil => cases h
  | cons b file ih =>
    obtain ⟨hle, hsorted⟩ := List.pairwise_cons.mp hsorted
    by_cases hb : b.time ≤ time
    · rw [unread, List.dropWhile_cons_of_pos (by simpa using hb)] at h
      exact ih hsorted h
    · rw [unread, List.dropWhile_cons_of_neg (by simpa using hb)] at h
      rcases List.mem_cons.mp h with rfl | hmem
      · omega
      · have hlater := hle a hmem
        omega

theorem linesIn_append (file file' : List Append) :
    linesIn (file ++ file') = linesIn file ++ linesIn file' :=
  List.map_append

theorem not_isResource {e : Event} (h : e.isRequest) : e.isResource = false := by
  apply Bool.eq_false_of_not_eq_true
  intro hresource
  have htype : e.eventType = some (text "resource") := of_decide_eq_true hresource
  rw [Event.isRequest, htype] at h
  revert h
  decide

/-- The lines in `read` are the requests `q` and the resource lines `r₁`, each in its order. -/
structure ReadSoFar (read : List Event) (q r₁ : List Append) : Prop where
  requests : read.filter Event.isRequest = linesIn q
  resources : read.filter Event.isResource = linesIn r₁
  kind : ∀ e ∈ read, e.isRequest ∨ e.isResource

theorem readSoFar_files (hq : ∀ a ∈ q, a.event.isRequest) (hr : ∀ a ∈ r₁, a.event.isResource) :
    ReadSoFar (linesIn q ++ linesIn r₁) q r₁ := by
  have hrequests : ∀ e ∈ linesIn q, e.isRequest := List.forall_mem_map.mpr hq
  have hresources : ∀ e ∈ linesIn r₁, e.isResource := List.forall_mem_map.mpr hr
  have hnot : ∀ e ∈ linesIn q, e.isResource ≠ true := fun e he => by
    rw [not_isResource (hrequests e he)]
    decide
  have hnot' : ∀ e ∈ linesIn r₁, e.isRequest ≠ true := fun e he hreq => by
    have hresource := hresources e he
    rw [not_isResource hreq] at hresource
    cases hresource
  refine ⟨?_, ?_, fun e he => ?_⟩
  · rw [List.filter_append, List.filter_eq_self.mpr hrequests, List.filter_eq_nil_iff.mpr hnot',
      List.append_nil]
  · rw [List.filter_append, List.filter_eq_nil_iff.mpr hnot, List.filter_eq_self.mpr hresources,
      List.nil_append]
  · exact (List.mem_append.mp he).imp (hrequests e) (hresources e)

theorem ReadSoFar.append {read' : List Event} (h : ReadSoFar read q r₁)
    (h' : ReadSoFar read' q' r₂) :
    ReadSoFar (read ++ read') (q ++ q') (r₁ ++ r₂) := by
  refine ⟨?_, ?_, fun e he => ?_⟩
  · rw [List.filter_append, h.requests, h'.requests, linesIn_append]
  · rw [List.filter_append, h.resources, h'.resources, linesIn_append]
  · exact (List.mem_append.mp he).elim (h.kind e) (h'.kind e)

theorem windowLines_filter (lines : List Event) (p : Event → Bool) :
    (windowLines c first lines w).filter p = windowLines c first (lines.filter p) w := by
  unfold windowLines
  rw [List.filter_filter, List.filter_filter, List.filter_filter, List.filter_filter]
  congr 1
  funext e
  ac_rfl

/-- What has not been read is not in the window. -/
theorem windowLines_read (hrest : ∀ a ∈ q', kept c first a.event → startOf c a.event ≠ w) :
    windowLines c first (linesIn (q ++ q')) w = windowLines c first (linesIn q) w := by
  have hnil : ((linesIn q').filter (kept c first)).filter (fun e => startOf c e = w) = [] := by
    rw [List.filter_filter, List.filter_eq_nil_iff]
    intro e he
    obtain ⟨a, ha, rfl⟩ := List.mem_map.mp he
    simpa [and_comm] using hrest a ha
  rw [linesIn_append, windowLines, List.filter_append, List.filter_append]
  exact (congrArg _ hnil).trans (List.append_nil _)

theorem Meets.tail (h : Meets c first requests resources (v :: visits)) :
    Meets c first requests resources visits :=
  ⟨fun v' hv' => h.complete v' (List.mem_cons_of_mem v hv'), h.covered,
    fun v' hv' => h.known v' (List.mem_cons_of_mem v hv'), h.drained.tail⟩

theorem InOrder.tail (h : InOrder (v :: visits)) : InOrder visits :=
  ⟨fun v' hv' => h.steps v' (List.mem_cons_of_mem v hv'), h.polls.tail⟩

/-- How far the monitor has got before the visits: what is in `q` and `r₁` has been read. -/
structure Midway (requests resources q q' r₁ r₂ : List Append) (read : List Event)
    (visits : List Visit) : Prop where
  requests : requests = q ++ q'
  resources : resources = r₁ ++ r₂
  read : ReadSoFar read q r₁
  requestsRead : ∀ v ∈ visits, ∀ a ∈ q, a.time ≤ v.requests
  resourcesRead : ∀ v ∈ visits, ∀ a ∈ r₁, a.time ≤ v.resources

/-- A window of which every line has been read has the row of the whole telemetry. -/
theorem Midway.complete (lib : Library) (hwindow : 0 < c.windowSeconds)
    (hwritten : Written r requests resources) (hmeets : Meets c first requests resources visits)
    {visits' : List Visit} (h : Midway requests resources q q' r₁ r₂ read visits')
    (hrequests : ∀ a ∈ q', kept c first a.event → startOf c a.event ≠ w)
    (hresources : ∀ a ∈ r₂, kept c first a.event → startOf c a.event ≠ w) :
    Complete lib c r first (linesIn requests ++ linesIn resources) read w := by
  obtain ⟨rfl, rfl, hread, -, -⟩ := h
  have hwhole := readSoFar_files hwritten.isRequest hwritten.isResource
  have hmem : ∀ e ∈ read, (∃ a ∈ q, a.event = e) ∨ ∃ a ∈ r₁, a.event = e := by
    intro e he
    rcases hread.kind e he with hreq | hresource
    · left
      rw [← List.mem_map, ← linesIn, ← hread.requests]
      exact List.mem_filter.mpr ⟨he, hreq⟩
    · right
      rw [← List.mem_map, ← linesIn, ← hread.resources]
      exact List.mem_filter.mpr ⟨he, hresource⟩
  have hsame : rowOf lib c.windowSeconds (toLex (r, w), windowLines c first read w) =
      rowAt lib c r first (linesIn (q ++ q') ++ linesIn (r₁ ++ r₂)) w := by
    apply rowOf_congr
    · rw [windowLines_filter, windowLines_filter, hread.requests, hwhole.requests,
        windowLines_read hrequests]
    · rw [windowLines_filter, windowLines_filter, hread.resources, hwhole.resources,
        windowLines_read hresources]
  rw [Complete, ← hsame]
  apply aggregateEvents_window lib hwindow
  · intro e he
    obtain ⟨hline, -, hstart⟩ := mem_windowLines.mp he
    refine ⟨?_, hstart⟩
    rcases hmem e hline with ⟨a, ha, rfl⟩ | ⟨a, ha, rfl⟩
    · exact hwritten.run a (List.mem_append_left _ (List.mem_append_left _ ha))
    · exact hwritten.run a (List.mem_append_right _ (List.mem_append_left _ ha))
  · intro e he e' he' hreq'
    obtain ⟨hline, hkept, hstart⟩ := mem_windowLines.mp he
    obtain ⟨hline', hkept', hstart'⟩ := mem_windowLines.mp he'
    by_cases hreq : e.isRequest
    · exact ⟨e, he, hreq, le_rfl⟩
    · -- a resource line comes after a request of its window, which has been read
      have hfile : ∃ a ∈ r₁, a.event = e := by
        rcases hmem e hline with ⟨a, ha, rfl⟩ | hresource
        · exact absurd (hwritten.isRequest a (List.mem_append_left _ ha)) hreq
        · exact hresource
      have hfile' : ∃ a ∈ q, a.event = e' := by
        rw [← List.mem_map, ← linesIn, ← hread.requests]
        exact List.mem_filter.mpr ⟨hline', hreq'⟩
      obtain ⟨a, ha, rfl⟩ := hfile
      obtain ⟨a', ha', rfl⟩ := hfile'
      obtain ⟨b, hb, hkeptb, hstartb, htime⟩ := hmeets.covered a (List.mem_append_left _ ha) hkept
        ⟨a', List.mem_append_left _ ha', hkept', hstart'.trans hstart.symm⟩
      have hbw : startOf c b.event = w := hstartb.trans hstart
      have hbq : b ∈ q := (List.mem_append.mp hb).resolve_right fun hlate =>
        hrequests b hlate hkeptb hbw
      refine ⟨b.event, mem_windowLines.mpr ⟨?_, hkeptb, hbw⟩, hwritten.isRequest b hb, htime⟩
      have hevent : b.event ∈ read.filter Event.isRequest := by
        rw [hread.requests]
        exact List.mem_map_of_mem hbq
      exact List.mem_of_mem_filter hevent

theorem progress_start (requests resources : List Append) (visits : List Visit) :
    Midway requests resources [] requests [] resources [] visits := by
  refine ⟨rfl, rfl, ⟨rfl, rfl, fun e he => ?_⟩, fun v _ a ha => ?_, fun v _ a ha => ?_⟩
  · exact absurd he List.not_mem_nil
  · exact absurd ha List.not_mem_nil
  · exact absurd ha List.not_mem_nil

theorem Midway.next (hwritten : Written r requests resources) (hordered : InOrder (v :: visits))
    (h : Midway requests resources q q' r₁ r₂ read (v :: visits)) :
    Midway requests resources (q ++ found v.requests q') (unread v.requests q')
      (r₁ ++ found v.resources r₂) (unread v.resources r₂)
      (read ++ (linesIn (found v.requests q') ++ linesIn (found v.resources r₂))) visits := by
  have hq : found v.requests q' ⊆ requests := by
    rw [h.requests]
    exact fun a ha => List.mem_append_right _ (List.takeWhile_subset _ ha)
  have hr : found v.resources r₂ ⊆ resources := by
    rw [h.resources]
    exact fun a ha => List.mem_append_right _ (List.takeWhile_subset _ ha)
  have hnow := (List.pairwise_cons.mp hordered.polls).1
  have hsteps := hordered.steps
  refine ⟨?_, ?_, h.read.append (readSoFar_files (fun a ha => hwritten.isRequest a (hq ha))
    fun a ha => hwritten.isResource a (hr ha)), fun v' hv' a ha => ?_, fun v' hv' a ha => ?_⟩
  · rw [List.append_assoc, found_append_unread, h.requests]
  · rw [List.append_assoc, found_append_unread, h.resources]
  · rcases List.mem_append.mp ha with hold | hnew
    · exact h.requestsRead v' (List.mem_cons_of_mem v hv') a hold
    · have hfound := mem_found hnew
      have hlater := hnow v' hv'
      have hstep := hsteps v List.mem_cons_self
      omega
  · rcases List.mem_append.mp ha with hold | hnew
    · exact h.resourcesRead v' (List.mem_cons_of_mem v hv') a hold
    · have hfound := mem_found hnew
      have hlater := hnow v' hv'
      have hstep := hsteps v List.mem_cons_self
      have hstep' := hsteps v' (List.mem_cons_of_mem v hv')
      omega

theorem Midway.later (hwritten : Written r requests resources) {visits' : List Visit}
    (h : Midway requests resources q q' r₁ r₂ read visits') (v : Visit) :
    (∀ a ∈ unread v.requests q', a ∈ requests ∧ v.requests < a.time) ∧
      ∀ a ∈ unread v.resources r₂, a ∈ resources ∧ v.resources < a.time := by
  have hq : q'.Sublist requests := by
    rw [h.requests]
    exact List.sublist_append_right q q'
  have hr : r₂.Sublist resources := by
    rw [h.resources]
    exact List.sublist_append_right r₁ r₂
  refine ⟨fun a ha => ⟨hq.subset (List.dropWhile_subset _ ha), ?_⟩,
    fun a ha => ⟨hr.subset (List.dropWhile_subset _ ha), ?_⟩⟩
  · exact mem_unread ((hwritten.requestsInOrder.imp And.right).sublist hq) ha
  · exact mem_unread ((hwritten.resourcesInOrder.imp And.right).sublist hr) ha

/-- The lines that a poll finds are admitted. -/
theorem Midway.admitted (hwritten : Written r requests resources)
    (hhead : ∀ a ∈ requests.head?, a.event.tsUnixNs = first)
    (hmeets : Meets c first requests resources (v :: visits))
    (h : Midway requests resources q q' r₁ r₂ read (v :: visits)) :
    AllAdmitted c first read
      (linesIn (found v.requests q') ++ linesIn (found v.resources r₂)) := by
  rw [allAdmitted_append]
  have hnone : read.any Event.isRequest = false → q = [] := fun hread => by
    have hfilter : read.filter Event.isRequest = [] :=
      List.filter_eq_nil_iff.mpr fun e he => by simpa using List.any_eq_false.mp hread e he
    rw [h.read.requests] at hfilter
    exact List.map_eq_nil_iff.mp hfilter
  constructor
  · intro before e after hsplit hread
    rw [List.any_append, Bool.or_eq_false_iff] at hread
    obtain ⟨hread, hbefore⟩ := hread
    -- the lines of the poll are requests, so this is the first of all
    have hq : requests = found v.requests q' ++ unread v.requests q' := by
      rw [h.requests, hnone hread, List.nil_append, found_append_unread]
    have hall : ∀ e ∈ linesIn (found v.requests q'), e.isRequest := by
      refine List.forall_mem_map.mpr fun a ha => hwritten.isRequest a ?_
      rw [hq]
      exact List.mem_append_left _ ha
    have hbefore : before = [] := by
      rw [List.eq_nil_iff_forall_not_mem]
      intro e' he'
      have hmem : e' ∈ linesIn (found v.requests q') := by
        rw [hsplit]
        exact List.mem_append_left _ he'
      exact List.any_eq_false.mp hbefore e' he' (hall e' hmem)
    rw [hbefore, List.nil_append] at hsplit
    rw [if_pos (hall e (hsplit ▸ List.mem_cons_self))]
    cases hfound : found v.requests q' with
    | nil =>
      rw [hfound] at hsplit
      cases hsplit
    | cons a file =>
      rw [hfound] at hsplit hq
      rw [← (List.cons.inj hsplit).1]
      exact hhead a (by rw [hq]; rfl)
  · intro before e after hsplit hread
    rw [List.any_append, List.any_append, Bool.or_eq_false_iff, Bool.or_eq_false_iff] at hread
    obtain ⟨⟨hread, hrequests⟩, -⟩ := hread
    have hresource : e ∈ linesIn (found v.resources r₂) := by
      rw [hsplit]
      exact List.mem_append_right _ List.mem_cons_self
    obtain ⟨a, ha, rfl⟩ := List.mem_map.mp hresource
    have haresource : a ∈ resources := by
      rw [h.resources]
      exact List.mem_append_right _ (List.takeWhile_subset _ ha)
    have hnot : a.event.isRequest ≠ true := fun hreq => by
      have hkind := hwritten.isResource a haresource
      rw [not_isResource hreq] at hkind
      cases hkind
    rw [if_neg hnot]
    apply Bool.eq_false_of_not_eq_true
    intro hkept
    -- a request would have been read by now
    obtain ⟨b, hb, htime⟩ := hmeets.known v List.mem_cons_self a haresource hkept (mem_found ha)
    have hreq := hwritten.isRequest b hb
    rw [h.requests, hnone hread, List.nil_append, ← found_append_unread v.requests q'] at hb
    rcases List.mem_append.mp hb with hfound | hlate
    · exact List.any_eq_false.mp hrequests b.event (List.mem_map_of_mem hfound) hreq
    · exact absurd htime (not_le.mpr ((h.later hwritten v).1 b hlate).2)

/-- A window that is due at a poll is complete then. -/
theorem Midway.due (lib : Library) (hwindow : 0 < c.windowSeconds)
    (hwritten : Written r requests resources) (hordered : InOrder (v :: visits))
    (hmeets : Meets c first requests resources (v :: visits))
    (h : Midway requests resources q q' r₁ r₂ read (v :: visits)) (hdue : ∃ e ∈ read ++
      (linesIn (found v.requests q') ++ linesIn (found v.resources r₂)), kept c first e ∧
        startOf c e = w)
    (hnow : w + Online.windowNs c + 250000000 ≤ v.now) :
    Complete lib c r first (linesIn requests ++ linesIn resources)
      (read ++ (linesIn (found v.requests q') ++ linesIn (found v.resources r₂))) w := by
  have hnext := h.next hwritten hordered
  have hlater := h.later hwritten v
  have hw : w ∈ dueAt c first requests resources v := by
    obtain ⟨e, he, hkept, hstart⟩ := hdue
    refine List.mem_filter.mpr ⟨List.mem_map.mpr ⟨e, List.mem_filter.mpr ⟨?_, hkept⟩, hstart⟩,
      decide_eq_true hnow⟩
    rw [readBy, linesIn_append, List.mem_append]
    rcases hnext.read.kind e he with hreq | hresource
    · left
      have hmem : e ∈ linesIn (q ++ found v.requests q') := by
        rw [← hnext.read.requests]
        exact List.mem_filter.mpr ⟨he, hreq⟩
      obtain ⟨a, ha, rfl⟩ := List.mem_map.mp hmem
      refine List.mem_map_of_mem (List.mem_filter.mpr ⟨?_, decide_eq_true ?_⟩)
      · rw [hnext.requests]
        exact List.mem_append_left _ ha
      · exact (List.mem_append.mp ha).elim (h.requestsRead v List.mem_cons_self a) mem_found
    · right
      have hmem : e ∈ linesIn (r₁ ++ found v.resources r₂) := by
        rw [← hnext.read.resources]
        exact List.mem_filter.mpr ⟨he, hresource⟩
      obtain ⟨a, ha, rfl⟩ := List.mem_map.mp hmem
      refine List.mem_map_of_mem (List.mem_filter.mpr ⟨?_, decide_eq_true ?_⟩)
      · rw [hnext.resources]
        exact List.mem_append_left _ ha
      · exact (List.mem_append.mp ha).elim (h.resourcesRead v List.mem_cons_self a) mem_found
  obtain ⟨hrequests, hresources⟩ := hmeets.complete v List.mem_cons_self w hw
  apply hnext.complete lib hwindow hwritten hmeets
  · intro a ha hkept hstart
    obtain ⟨hmem, hlate⟩ := hlater.1 a ha
    exact absurd (hrequests a hmem hkept hstart) (not_le.mpr hlate)
  · intro a ha hkept hstart
    obtain ⟨hmem, hlate⟩ := hlater.2 a ha
    exact absurd (hresources a hmem hkept hstart) (not_le.mpr hlate)

theorem Midway.stepsMeet (lib : Library) (hwindow : 0 < c.windowSeconds)
    (hwritten : Written r requests resources) (hordered : InOrder visits)
    (hhead : ∀ a ∈ requests.head?, a.event.tsUnixNs = first)
    (hmeets : Meets c first requests resources visits)
    (h : Midway requests resources q q' r₁ r₂ read visits) :
    StepsMeet lib c r first (linesIn requests ++ linesIn resources) read
        (roundsOf q' r₂ visits) := by
  induction visits generalizing read q q' r₁ r₂ with
  | nil => trivial
  | cons v visits ih =>
    exact ⟨h.admitted hwritten hhead hmeets, fun w => h.due lib hwindow hwritten hordered hmeets,
      ih hordered.tail hmeets.tail (h.next hwritten hordered)⟩

theorem mem_roundsOf {p : Round} {e : Event} (hp : p ∈ roundsOf q r₁ visits) (he : e ∈ p.events) :
    (∃ a ∈ q, a.event = e) ∨ ∃ a ∈ r₁, a.event = e := by
  induction visits generalizing q r₁ with
  | nil => cases hp
  | cons v visits ih =>
    rcases List.mem_cons.mp hp with rfl | hlater
    · rcases List.mem_append.mp he with hreq | hresource
      · obtain ⟨a, ha, hevent⟩ := List.mem_map.mp hreq
        exact Or.inl ⟨a, List.takeWhile_subset _ ha, hevent⟩
      · obtain ⟨a, ha, hevent⟩ := List.mem_map.mp hresource
        exact Or.inr ⟨a, List.takeWhile_subset _ ha, hevent⟩
    · have hq : unread v.requests q ⊆ q := List.dropWhile_subset _
      have hr : unread v.resources r₁ ⊆ r₁ := List.dropWhile_subset _
      exact (ih hlater).imp (fun ⟨a, ha, hevent⟩ => ⟨a, hq ha, hevent⟩)
        fun ⟨a, ha, hevent⟩ => ⟨a, hr ha, hevent⟩

theorem Midway.drained (hwritten : Written r requests resources) (hordered : InOrder visits)
    (hmeets : Meets c first requests resources visits)
    (h : Midway requests resources q q' r₁ r₂ read visits) :
    Drained c first (roundsOf q' r₂ visits) := by
  induction visits generalizing read q q' r₁ r₂ with
  | nil => trivial
  | cons v visits ih =>
    have hnext := h.next hwritten hordered
    refine ⟨fun hdone p hp e he => ?_, ih hordered.tail hmeets.tail hnext⟩
    cases visits with
    | nil => cases hp
    | cons v' visits =>
      obtain ⟨hrequests, hresources⟩ :=
        (List.pairwise_cons.mp hmeets.drained).1 v' List.mem_cons_self hdone
      have hlater := hnext.later hwritten v'
      apply Bool.eq_false_of_not_eq_true
      rcases mem_roundsOf hp he with ⟨a, ha, rfl⟩ | ⟨a, ha, rfl⟩
      · intro hkept
        obtain ⟨hmem, hlate⟩ := hlater.1 a ha
        exact absurd (hrequests a hmem hkept) (not_le.mpr hlate)
      · intro hkept
        obtain ⟨hmem, hlate⟩ := hlater.2 a ha
        exact absurd (hresources a hmem hkept) (not_le.mpr hlate)

/-- What is left after the last poll is later than any of them. -/
theorem Midway.last (hwritten : Written r requests resources) (hordered : InOrder visits)
    (h : Midway requests resources q q' r₁ r₂ read visits) :
    ∃ q₁ q₂ r₃ r₄, Midway requests resources q₁ q₂ r₃ r₄
        (read ++ eventsOf (roundsOf q' r₂ visits)) [] ∧ q₂ ⊆ q' ∧ r₄ ⊆ r₂ ∧
      ∀ v ∈ visits, (∀ a ∈ q₂, v.requests < a.time) ∧ ∀ a ∈ r₄, v.resources < a.time := by
  induction visits generalizing read q q' r₁ r₂ with
  | nil =>
    have hnone : eventsOf (roundsOf q' r₂ []) = [] := rfl
    rw [hnone, List.append_nil]
    exact ⟨q, q', r₁, r₂, h, List.Subset.refl _, List.Subset.refl _, nofun⟩
  | cons v visits ih =>
    obtain ⟨q₁, q₂, r₃, r₄, hend, hq, hr, hlater⟩ := ih hordered.tail (h.next hwritten hordered)
    have hunread := h.later hwritten v
    rw [List.append_assoc] at hend
    refine ⟨q₁, q₂, r₃, r₄, hend, fun a ha => List.dropWhile_subset _ (hq ha),
      fun a ha => List.dropWhile_subset _ (hr ha), List.forall_mem_cons.mpr ⟨⟨fun a ha => ?_,
        fun a ha => ?_⟩, hlater⟩⟩
    · exact (hunread.1 a (hq ha)).2
    · exact (hunread.2 a (hr ha)).2

theorem exists_later {P : Visit → Prop} (hlater : visits.Pairwise fun v v' => v.done → P v')
    (hdone : ∃ p ∈ (roundsOf q r₁ visits).dropLast, p.done) : ∃ v ∈ visits, P v := by
  induction visits generalizing q r₁ with
  | nil =>
    obtain ⟨p, hp, -⟩ := hdone
    cases hp
  | cons v visits ih =>
    obtain ⟨hfirst, hlater⟩ := List.pairwise_cons.mp hlater
    cases visits with
    | nil =>
      obtain ⟨p, hp, -⟩ := hdone
      cases hp
    | cons v' visits =>
      obtain ⟨p, hp, hseen⟩ := hdone
      rcases List.mem_cons.mp hp with rfl | hmem
      · exact ⟨v', List.mem_cons_of_mem v List.mem_cons_self, hfirst v' List.mem_cons_self hseen⟩
      · obtain ⟨u, hu, hlate⟩ := ih hlater ⟨p, hmem, hseen⟩
        exact ⟨u, List.mem_cons_of_mem v hu, hlate⟩

/-- The rows of the windows are those of `aggregate_events`. -/
theorem mem_rowsOf_iff {lines : List Event} {row : Row} (hrun : ∀ e ∈ lines, e.run = r)
    (hfirst : (∃ e ∈ lines, e.isRequest) → IsLeast (requestTimes lines r) first) :
    row ∈ rowsOf lib lines c.windowSeconds c.warmupSeconds ↔
      ∃ w, rowAt lib c r first lines w = some row := by
  have hbucket : (∃ e ∈ lines, e.isRequest) → ∀ w, bucketAt lines (Online.windowNs c)
      (Online.warmupNs c) (toLex (r, w)) = windowLines c first lines w := by
    intro hreq w
    rw [windowLines, List.filter_filter]
    apply List.filter_congr
    intro e he
    have hleast : IsLeast (requestTimes lines e.run) first := by
      rw [hrun e he]
      exact hfirst hreq
    rw [Bool.and_comm, kept, ← Bool.decide_and, decide_eq_decide, keyOf_eq_iff,
      afterWarmup_iff hleast]
    exact ⟨fun h => ⟨h.1, h.2.2⟩, fun h => ⟨h.1, hrun e he, h.2⟩⟩
  have hsome : ∀ {key bucket}, rowOf lib c.windowSeconds (key, bucket) = some row →
      ∃ e ∈ bucket, e.isRequest := by
    intro key bucket hrow
    rcases rowOf_spec lib c.windowSeconds key bucket with ⟨-, hnone⟩ | ⟨-, -, hne, -⟩
    · rw [hnone] at hrow
      cases hrow
    · obtain ⟨e, he⟩ := List.exists_mem_of_ne_nil _ hne
      exact ⟨e, List.mem_filter.mp he⟩
  rw [mem_rowsOf]
  constructor
  · rintro ⟨key, hrow⟩
    obtain ⟨e, he, hreq⟩ := hsome hrow
    obtain ⟨hline, -, hkey⟩ := mem_bucketAt.mp he
    have hat : key = toLex (r, startOf c e) := by
      rw [← hkey, keyOf, hrun e hline]
      rfl
    refine ⟨startOf c e, ?_⟩
    rw [rowAt, ← hbucket ⟨e, hline, hreq⟩, ← hat]
    exact hrow
  · rintro ⟨w, hrow⟩
    obtain ⟨e, he, hreq⟩ := hsome hrow
    refine ⟨toLex (r, w), ?_⟩
    change rowOf lib c.windowSeconds (_, bucketAt lines (Online.windowNs c)
      (Online.warmupNs c) _) = _
    rw [hbucket ⟨e, (mem_windowLines.mp he).1, hreq⟩]
    exact hrow

theorem nodup_rowAt {lines : List Event} {windows : List ℤ} (h : windows.Nodup) :
    (windows.filterMap (rowAt lib c r first lines)).Nodup := by
  apply h.filterMap
  intro w w' row hw hw'
  have hkey := rowOf_key hw
  have hkey' := rowOf_key hw'
  have hsame : toLex (r, w) = toLex (r, w') := hkey.symm.trans hkey'
  exact (Prod.mk.inj (toLex.injective hsame)).2

/-- The time of the first request, or one after all resource lines if there is no request. -/
theorem exists_first (c : OnlineCall Event) (hwritten : Written r requests resources)
    (hmeets : ∀ first, requests.head?.map (fun a => a.event.tsUnixNs) = some first →
      Meets c first requests resources visits) :
    ∃ first, (∀ a ∈ requests.head?, a.event.tsUnixNs = first) ∧
      Meets c first requests resources visits ∧
      ((∃ e ∈ linesIn requests ++ linesIn resources, e.isRequest) →
        IsLeast (requestTimes (linesIn requests ++ linesIn resources) r) first) := by
  have hfiles := readSoFar_files hwritten.isRequest hwritten.isResource
  have hrequest : ∀ e ∈ linesIn requests ++ linesIn resources, e.isRequest →
      ∃ a ∈ requests, a.event = e := by
    intro e he hreq
    rw [← List.mem_map, ← linesIn, ← hfiles.requests]
    exact List.mem_filter.mpr ⟨he, hreq⟩
  cases requests with
  | nil =>
    obtain ⟨top, htop⟩ := (resources.map fun a => a.event.tsUnixNs).toFinset.exists_le
    have hskipped : ∀ a ∈ resources,
        kept c (top + 1 - Online.warmupNs c) a.event ≠ true := by
      intro a ha hkept
      have hle := htop _ (List.mem_toFinset.mpr (List.mem_map_of_mem ha))
      have hlate := of_decide_eq_true hkept
      omega
    have hnone : ∀ a ∈ ([] : List Append), kept c (top + 1 - Online.warmupNs c) a.event ≠ true :=
      fun a ha => absurd ha List.not_mem_nil
    refine ⟨top + 1 - Online.warmupNs c, fun a ha => ?_, ⟨fun v _ w hw => ?_, fun a ha hkept => ?_,
      fun v _ a ha hkept => ?_, ?_⟩, fun ⟨e, he, hreq⟩ => ?_⟩
    · cases ha
    · exact ⟨fun a ha hkept => absurd hkept (hnone a ha),
        fun a ha hkept => absurd hkept (hskipped a ha)⟩
    · exact absurd hkept (hskipped a ha)
    · exact absurd hkept (hskipped a ha)
    · exact List.pairwise_of_forall fun _ _ _ =>
        ⟨fun a ha hkept => absurd hkept (hnone a ha),
          fun a ha hkept => absurd hkept (hskipped a ha)⟩
    · obtain ⟨a, ha, -⟩ := hrequest e he hreq
      cases ha
  | cons a file =>
    refine ⟨a.event.tsUnixNs, fun b hb => ?_, hmeets _ rfl, fun _ => ⟨?_, ?_⟩⟩
    · rw [Option.some.inj hb]
    · exact ⟨a.event, List.mem_append_left _ List.mem_cons_self,
        hwritten.isRequest a List.mem_cons_self,
        hwritten.run a (List.mem_append_left _ List.mem_cons_self), rfl⟩
    · rintro t ⟨e, he, hreq, -, rfl⟩
      obtain ⟨b, hb, rfl⟩ := hrequest e he hreq
      rcases List.mem_cons.mp hb with rfl | hlater
      · exact le_rfl
      · exact ((List.pairwise_cons.mp hwritten.requestsInOrder).1 b hlater).1

/-- **Online scoring is batch scoring where no line is lost.** In a run of the monitor whose polls
all meet the condition, a row is scored at most once and is a row of `aggregate_events` on all
lines, and once the last pass has been made these are all of them. -/
theorem online_eq_batch {σ : Type} (lib : Library) (audit : Option (AuditBackend σ)) (rt : Runtime)
    (monitored : Monitored σ) (c : OnlineCall Event) {r : Text} {requests resources : List Append}
    {visits : List Visit} {rows : List Row} (hwritten : Written r requests resources)
    (hordered : InOrder visits) (hfinds : c.Finds (roundsOf requests resources visits))
    (hbatch : aggregateEvents lib (linesIn requests ++ linesIn resources) c.windowSeconds
      c.warmupSeconds = .ok rows)
    (hmeets : ∀ first, requests.head?.map (fun a => a.event.tsUnixNs) = some first →
      Meets c first requests resources visits) :
    let out := Online.main (featureReader lib c.windowSeconds) audit rt c (Online.start monitored)
    out.2.scored.Subperm rows ∧ (out.1 = .ok true → out.2.scored.Perm rows) := by
  have hparameters : 0 < c.windowSeconds ∧ 0 ≤ c.warmupSeconds := by
    unfold aggregateEvents at hbatch
    split_ifs at hbatch with hwindow hwarmup
    omega
  obtain ⟨hwindow, hwarmup⟩ := hparameters
  have hpos : 0 < Online.windowNs c := by
    unfold Online.windowNs nanoseconds
    omega
  obtain ⟨first, hhead, hmeets, hleast⟩ := exists_first c hwritten hmeets
  rw [aggregateEvents_ok lib _ hwindow hwarmup] at hbatch
  rw [← Except.ok.inj hbatch]
  have hrun : ∀ e ∈ linesIn requests ++ linesIn resources, e.run = r := by
    rw [← linesIn_append]
    exact List.forall_mem_map.mpr hwritten.run
  have hrow : ∀ row, row ∈ rowsOf lib (linesIn requests ++ linesIn resources) c.windowSeconds
      c.warmupSeconds ↔ ∃ w, rowAt lib c r first (linesIn requests ++ linesIn resources) w =
          some row :=
    fun row => mem_rowsOf_iff hrun hleast
  have hstart : Midway requests resources [] requests [] resources [] visits :=
    progress_start requests resources visits
  obtain ⟨q₁, q₂, r₃, r₄, hend, hq, hr, hlater⟩ := hstart.last hwritten hordered
  rw [List.nil_append] at hend
  have hdrained : Drained c first (roundsOf requests resources visits) :=
    hstart.drained hwritten hordered hmeets
  have hlast : ∀ before, Ends c first 0 (roundsOf requests resources visits) before → ∀ w,
      Complete lib c r first (linesIn requests ++ linesIn resources) (eventsOf before) w := by
    intro before hends w
    obtain ⟨hdone, hlines⟩ := hdrained.stops hends
    rw [Complete, hlines]
    obtain ⟨v, hv, hrequests, hresources⟩ := exists_later hmeets.drained hdone
    apply hend.complete lib hwindow hwritten hmeets
    · intro a ha hkept
      exact absurd (hrequests a (hq ha) hkept) (not_le.mpr ((hlater v hv).1 a ha))
    · intro a ha hkept
      exact absurd (hresources a (hr ha) hkept) (not_le.mpr ((hlater v hv).2 a ha))
  obtain ⟨⟨windows, hnodup, hscored⟩, hok⟩ := main_spec audit rt monitored hpos hfinds
    (hstart.stepsMeet lib hwindow hwritten hordered hhead hmeets) fun before hends w _ =>
      hlast before hends w
  constructor
  · rw [hscored]
    apply (nodup_rowAt hnodup).subperm
    intro row hmem
    obtain ⟨w, -, hw⟩ := List.mem_filterMap.mp hmem
    exact (hrow row).mpr ⟨w, hw⟩
  · intro htrue
    obtain ⟨before, windows, hends, hnodup, hwindows, hscored⟩ := hok htrue
    have hrows : (rowsOf lib (linesIn requests ++ linesIn resources) c.windowSeconds
        c.warmupSeconds).Nodup :=
      (rowsOf_pairwise lib _ _ _).imp fun hlt heq => hlt.ne (by rw [heq])
    rw [hscored, List.perm_ext_iff_of_nodup (nodup_rowAt hnodup) hrows]
    intro row
    rw [hrow, List.mem_filterMap]
    refine ⟨fun ⟨w, _, hw⟩ => ⟨w, hw⟩, fun ⟨w, hw⟩ => ⟨w, (hwindows w).mpr fun hnil => ?_, hw⟩⟩
    -- a window with a row has lines
    have hcomplete := hlast before hends w
    rw [Complete, hnil, hw, aggregateEvents_ok lib [] hwindow le_rfl] at hcomplete
    exact absurd (Except.ok.inj hcomplete) (List.cons_ne_nil _ _).symm

def silent : Detector := ⟨.finite false 0, [], fun _ => .ok (.finite false 0)⟩

def sampleOf (run : String) (tsUnixNs : ℤ) (cpuPercent : ℚ) : Event :=
  { requestOf run tsUnixNs with eventType := some (text "resource"), cpuPercent := some cpuPercent }

def twoRequests : List Append :=
  [⟨requestOf "r" 5000000000, 5000000000⟩, ⟨requestOf "r" 10200000000, 10200000000⟩]

def oneSample (tsUnixNs : ℤ) : List Append := [⟨sampleOf "r" tsUnixNs 80, tsUnixNs⟩]

def lateVisits : List Visit := List.replicate 4 ⟨20000000000, 20000000000, 20000000000, true⟩

def lateCall (tsUnixNs : ℤ) : OnlineCall Event where
  loadModel := .ok silent
  modelPath := ⟨[], .ok []⟩
  windowSeconds := 5
  warmupSeconds := 0
  polls := (roundsOf twoRequests (oneSample tsUnixNs) lateVisits).map Round.poll
  lastNow := 20000000000

theorem lateVisits_inOrder : InOrder lateVisits := ⟨by decide +kernel, by decide +kernel⟩

theorem sample_written : Written (text "r") twoRequests (oneSample 10300000000) :=
  ⟨by decide +kernel, by decide +kernel, by decide +kernel, by decide +kernel, by decide +kernel,
    by decide +kernel, by decide +kernel⟩

theorem lateCall_meets :
    Meets (lateCall 10300000000) 5000000000 twoRequests (oneSample 10300000000) lateVisits :=
  ⟨by decide +kernel, by decide +kernel, by decide +kernel, by decide +kernel⟩

def lateRun (tsUnixNs : ℤ) : Except Exc Bool × Online Event Unit :=
  Online.main (featureReader plainLibrary (lateCall tsUnixNs).windowSeconds)
    (none : Option (AuditBackend Unit)) plainRuntime (lateCall tsUnixNs) (Online.start ⟨(), []⟩)

/-- What `aggregate_events` makes of both files. -/
def lateRows (tsUnixNs : ℤ) : List Row :=
  rowsOf plainLibrary (linesIn twoRequests ++ linesIn (oneSample tsUnixNs))
    (lateCall tsUnixNs).windowSeconds (lateCall tsUnixNs).warmupSeconds

theorem online_eq_batch_two_requests :
    (lateRun 10300000000).1 = .ok true ∧
      (lateRun 10300000000).2.scored.Perm (lateRows 10300000000) := by
  have hended : (lateRun 10300000000).1 = .ok true := by decide +kernel
  have hfinds : (lateCall 10300000000).Finds
      (roundsOf twoRequests (oneSample 10300000000) lateVisits) := by
    unfold OnlineCall.Finds lateCall
    rfl
  have hfirst : twoRequests.head?.map (fun a => a.event.tsUnixNs) = some 5000000000 := by
    decide +kernel
  have hbatch := aggregateEvents_ok plainLibrary
    (linesIn twoRequests ++ linesIn (oneSample 10300000000))
    (show 0 < (lateCall 10300000000).windowSeconds by decide)
    (show 0 ≤ (lateCall 10300000000).warmupSeconds by decide)
  have hrun := online_eq_batch plainLibrary (none : Option (AuditBackend Unit)) plainRuntime ⟨(), []⟩
    (lateCall 10300000000) sample_written lateVisits_inOrder hfinds hbatch fun first hhead => by
      rw [hfirst] at hhead
      rw [← Option.some.inj hhead]
      exact lateCall_meets
  unfold lateRun at hended ⊢
  exact ⟨hended, hrun.2 hended⟩

/-- A sample before the first request of its window, which the online monitor drops. -/
theorem early_sample_dropped :
    Written (text "r") twoRequests (oneSample 10100000000) ∧ InOrder lateVisits ∧
      (lateRun 10100000000).1 = .ok true ∧
      ¬ (lateRun 10100000000).2.scored.Perm (lateRows 10100000000) := by
  have honline : (lateRun 10100000000).2.scored.map Row.cpuPercentMean = [0, 0] := by decide +kernel
  have hbatch : (lateRows 10100000000).map Row.cpuPercentMean = [0, 80] := by decide +kernel
  refine ⟨⟨by decide +kernel, by decide +kernel, by decide +kernel, by decide +kernel,
    by decide +kernel, by decide +kernel, by decide +kernel⟩, lateVisits_inOrder,
    by decide +kernel, fun hperm => ?_⟩
  have hmeans := hperm.map Row.cpuPercentMean
  rw [honline, hbatch] at hmeans
  exact absurd hmeans (by decide +kernel)

end Cote3Mon.Monitor
