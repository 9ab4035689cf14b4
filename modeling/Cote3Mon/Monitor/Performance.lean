import Cote3Mon.Monitor.OnlineBatch

namespace Cote3Mon.Monitor
open ByteText Python Features Grouping

-- `scripts/run-qemu-performance.py` gives the online monitor the request log of the gateway and the
-- lines of its own `sample_processes`. These have no `event_type` and no `run_id`, so a sampler
-- line that is not skipped as part of the warm-up counts as a request of the run `unknown`.

/-- A line of `sample_processes`, without its schema and its component. -/
structure ProcessLine where
  tsUnixNs : ℤ
  cpuPercent : ℚ
  rssKb : ℚ

/-- What `aggregate_events` reads of the line. -/
def ProcessLine.event (line : ProcessLine) : Event :=
  { bareRequest line.tsUnixNs with cpuPercent := some line.cpuPercent, rssKb := some line.rssKb }

/-- A line of the gateway for the run `r`. -/
def IsGatewayLine (r : Text) (e : Event) : Prop :=
  e.eventType = some (text "request") ∧ e.runId = some r

def gatewayLines (rounds : List Round) : List Event := rounds.flatMap Round.requests

structure Streams (r : Text) (gateway : List Event) (samples : List ProcessLine)
    (rounds : List Round) :
    Prop where
  lines : ∀ e ∈ gateway, IsGatewayLine r e
  requests : gatewayLines rounds <+: gateway
  resources : rounds.flatMap Round.resources <+: samples.map ProcessLine.event

/-- The sampler lines stay apart from the windows of the gateway, and no window is scored early. -/
structure Apart (c : OnlineCall Event) (first : ℤ) (gateway : List Event)
    (samples : List ProcessLine)
    (rounds : List Round) : Prop where
  /-- No sampler line is in a window with a gateway line after the warm-up. -/
  windows : ∀ line ∈ samples, ∀ e ∈ gateway, kept c first e → startOf c e ≠ startOf c line.event
  /-- A sampler line is read after a gateway line, and skipped as part of the warm-up. -/
  skipped : ∀ before p after, rounds = before ++ p :: after → ∀ e ∈ p.resources,
    gatewayLines (before ++ [p]) ≠ [] ∧ kept c first e = false
  /-- A window is scored when all its gateway lines have been read. -/
  complete : ∀ before p after, rounds = before ++ p :: after → ∀ w,
    windowLines c first (gatewayLines (before ++ [p])) w ≠ [] →
      w + Online.windowNs c + 250000000 ≤ p.now →
        windowLines c first (gatewayLines (before ++ [p])) w = windowLines c first gateway w
  ended : ∀ before, Ends c first 0 rounds before → ∀ w,
    windowLines c first (gatewayLines before) w ≠ [] →
      windowLines c first (gatewayLines before) w = windowLines c first gateway w

/-- The row of a window with gateway lines, and what it says about them and the sampler lines. -/
structure SpeaksOf (c : OnlineCall Event) (r : Text) (first : ℤ) (gateway : List Event)
    (samples : List ProcessLine) (row : Row) : Prop where
  nonempty : windowLines c first gateway row.windowStartNs ≠ []
  runId : row.runId = r
  requestRate : row.requestRate * c.windowSeconds =
    (windowLines c first gateway row.windowStartNs).length
  cpuPercentMean : row.cpuPercentMean = meanOrZero
    ((samples.filter fun line => startOf c line.event = row.windowStartNs).map
      ProcessLine.cpuPercent)
  rssKbMean : row.rssKbMean = meanOrZero
    ((samples.filter fun line => startOf c line.event = row.windowStartNs).map ProcessLine.rssKb)

variable {lib : Library} {c : OnlineCall Event} {r : Text} {first w : ℤ} {gateway : List Event}
  {samples : List ProcessLine} {rounds : List Round} {e : Event} {row : Row}

theorem ProcessLine.isRequest (line : ProcessLine) : line.event.isRequest := rfl

theorem ProcessLine.run (line : ProcessLine) : line.event.run = text "unknown" := rfl

theorem IsGatewayLine.isRequest (h : IsGatewayLine r e) : e.isRequest := by
  rw [Event.isRequest, h.1]
  rfl

theorem IsGatewayLine.isResource (h : IsGatewayLine r e) : e.isResource = false := by
  rw [Event.isResource, h.1]
  rfl

theorem IsGatewayLine.run (h : IsGatewayLine r e) : e.run = r := by rw [Event.run, h.2]; rfl

theorem gatewayLines_append (before after : List Round) :
    gatewayLines (before ++ after) = gatewayLines before ++ gatewayLines after :=
  List.flatMap_append

/-- The lines that are kept come from the gateway. -/
theorem filter_kept (h : ∀ p ∈ rounds, ∀ e ∈ p.resources, kept c first e = false) :
    (eventsOf rounds).filter (kept c first) = (gatewayLines rounds).filter (kept c first) := by
  induction rounds with
  | nil => rfl
  | cons p rounds ih =>
    obtain ⟨hp, hrounds⟩ := List.forall_mem_cons.mp h
    have hnone : p.resources.filter (kept c first) = [] :=
      List.filter_eq_nil_iff.mpr fun e he => by rw [hp e he]; decide
    have hevents : eventsOf (p :: rounds) = p.requests ++ p.resources ++ eventsOf rounds := rfl
    have hgateway : gatewayLines (p :: rounds) = p.requests ++ gatewayLines rounds := rfl
    rw [hevents, hgateway, List.filter_append, List.filter_append, List.filter_append, hnone,
      List.append_nil, ih hrounds]

theorem windowLines_events (h : ∀ p ∈ rounds, ∀ e ∈ p.resources, kept c first e = false) (w : ℤ) :
    windowLines c first (eventsOf rounds) w = windowLines c first (gatewayLines rounds) w := by
  rw [windowLines, filter_kept h]
  rfl

/-- The bucket of a window of the gateway has one row. -/
theorem complete_of_windowLines (lib : Library) (hwindow : 0 < c.windowSeconds)
    (hgateway : ∀ e ∈ gateway, IsGatewayLine r e) {read : List Event}
    (hlines : windowLines c first read w = windowLines c first gateway w) :
    Complete lib c r first gateway read w := by
  rw [Complete, hlines]
  apply aggregateEvents_window lib hwindow
  · intro e he
    obtain ⟨hline, -, hstart⟩ := mem_windowLines.mp he
    exact ⟨(hgateway e hline).run, hstart⟩
  · intro e he q hq hreq
    exact ⟨e, he, (hgateway e (mem_windowLines.mp he).1).isRequest, le_rfl⟩

theorem speaksOf_row (hwindow : 0 < c.windowSeconds) (hgateway : ∀ e ∈ gateway, IsGatewayLine r e)
    (hwindows : ∀ line ∈ samples, ∀ e ∈ gateway, kept c first e → startOf c e ≠ startOf c line.event)
    (h : rowAt lib c r first gateway w = some row) : SpeaksOf c r first gateway samples row := by
  have hrequests : requestsOf (windowLines c first gateway w) = windowLines c first gateway w :=
    List.filter_eq_self.mpr fun e he => (hgateway e (mem_windowLines.mp he).1).isRequest
  have hresources : resourcesOf (windowLines c first gateway w) = [] :=
    List.filter_eq_nil_iff.mpr fun e he => by
      rw [(hgateway e (mem_windowLines.mp he).1).isResource]
      decide
  rw [rowAt] at h
  rcases rowOf_spec lib c.windowSeconds (toLex (r, w)) (windowLines c first gateway w) with
    ⟨-, hnone⟩ | ⟨row', hsome, hne, hrow⟩
  · rw [hnone] at h
    cases h
  · obtain rfl : row' = row := Option.some.inj (hsome.symm.trans h)
    rw [hrequests] at hne
    obtain ⟨hrun, rfl⟩ : row'.runId = r ∧ row'.windowStartNs = w := by
      have hkey := toLex.injective hrow.key
      exact ⟨(Prod.mk.inj hkey).1, (Prod.mk.inj hkey).2⟩
    -- the window has gateway lines, so the sampler has none in it
    have hsamples : samples.filter (fun line => startOf c line.event = row'.windowStartNs) = [] := by
      refine List.filter_eq_nil_iff.mpr fun line hline hstart => ?_
      obtain ⟨e, he, hkept, hat⟩ := windowLines_ne_nil.mp hne
      exact hwindows line hline e he hkept (hat.trans (of_decide_eq_true hstart).symm)
    have hseconds : (c.windowSeconds : ℚ) ≠ 0 := by exact_mod_cast hwindow.ne'
    refine ⟨hne, hrun, ?_, ?_, ?_⟩
    · rw [hrow.requestRate, hrequests, div_mul_cancel₀ _ hseconds]
    · rw [hrow.cpuPercentMean, hresources, hsamples]
      rfl
    · rw [hrow.rssKbMean, hresources, hsamples]
      rfl

theorem Streams.isRequest (h : Streams r gateway samples rounds) {p : Round} (hp : p ∈ rounds) :
    ∀ e ∈ p.events, e.isRequest := by
  intro e he
  rcases List.mem_append.mp he with hreq | hresource
  · exact (h.lines e (h.requests.subset (List.mem_flatMap.mpr ⟨p, hp, hreq⟩))).isRequest
  · obtain ⟨line, -, rfl⟩ := List.mem_map.mp
      (h.resources.subset (List.mem_flatMap.mpr ⟨p, hp, hresource⟩))
    exact line.isRequest

/-- The first line that is read is the first one of the gateway. -/
theorem allAdmitted_round (h : Streams r gateway samples rounds)
    (hfirst : ∀ e ∈ gateway.head?, e.tsUnixNs = first) {before after : List Round} {p : Round}
    (hsplit : rounds = before ++ p :: after)
    (hskipped : ∀ e ∈ p.resources, gatewayLines (before ++ [p]) ≠ []) :
    AllAdmitted c first (eventsOf before) p.events := by
  have hp : p ∈ rounds := by
    rw [hsplit]
    exact List.mem_append_right _ List.mem_cons_self
  intro b e a hevents hnone
  have hreq : e.isRequest := h.isRequest hp e (by simp [hevents])
  rw [if_pos hreq]
  -- nothing has been read before
  have hread : eventsOf before ++ b = [] := by
    rw [List.any_eq_false] at hnone
    refine List.eq_nil_iff_forall_not_mem.mpr fun e' he' => hnone e' he' ?_
    rcases List.mem_append.mp he' with hbefore | hb
    · obtain ⟨p', hp', hmem⟩ := List.mem_flatMap.mp hbefore
      exact h.isRequest (by rw [hsplit]; exact List.mem_append_left _ hp') e' hmem
    · exact h.isRequest hp e' (by rw [hevents]; exact List.mem_append_left _ hb)
  obtain ⟨hbefore, rfl⟩ := List.append_eq_nil_iff.mp hread
  have hgateway : gatewayLines before = [] := by
    refine List.eq_nil_iff_forall_not_mem.mpr fun e' he' => ?_
    obtain ⟨p', hp', hmem⟩ := List.mem_flatMap.mp he'
    have hin : e' ∈ eventsOf before := List.mem_flatMap.mpr ⟨p', hp', List.mem_append_left _ hmem⟩
    rw [hbefore] at hin
    cases hin
  have hlines : gatewayLines (before ++ [p]) = p.requests := by
    rw [gatewayLines_append, hgateway, List.nil_append, gatewayLines, List.flatMap_singleton]
  rw [hlines] at hskipped
  apply hfirst
  cases hrequests : p.requests with
  | nil =>
    have hresource : e ∈ p.resources := by
      have hmem : e ∈ p.requests ++ p.resources := by
        change e ∈ p.events
        rw [hevents]
        exact List.mem_cons_self
      rwa [hrequests, List.nil_append] at hmem
    exact absurd hrequests (hskipped e hresource)
  | cons q requests =>
    have hcons : q :: (requests ++ p.resources) = e :: a := by
      rw [← List.cons_append, ← hrequests]
      exact hevents
    obtain rfl : q = e := (List.cons.inj hcons).1
    have hprefix : gatewayLines (before ++ [p]) <+: gateway := by
      have hmore : gatewayLines rounds = gatewayLines (before ++ [p]) ++ gatewayLines after := by
        rw [hsplit, List.append_cons, gatewayLines_append (before ++ [p]) after]
      have hall : gatewayLines (before ++ [p]) <+: gatewayLines rounds := ⟨_, hmore.symm⟩
      exact hall.trans h.requests
    rw [hlines, hrequests] at hprefix
    obtain ⟨more, rfl⟩ := hprefix
    rfl

/-- **Sampler lines that stay apart.**  In a run of the monitor on the two files of the performance
pipeline whose polls all meet the condition, every scored row speaks of the gateway lines of its
window and of no sampler line. -/
theorem scored_speaksOf {σ : Type} (lib : Library) (audit : Option (AuditBackend σ)) (rt : Runtime)
    (monitored : Monitored σ) (c : OnlineCall Event) (hwindow : 0 < c.windowSeconds)
    (hfinds : c.Finds rounds) (h : Streams r gateway samples rounds)
    (hfirst : ∀ e ∈ gateway.head?, e.tsUnixNs = first)
    (hapart : Apart c first gateway samples rounds) :
    let out := Online.main (featureReader lib c.windowSeconds) audit rt c (Online.start monitored)
    ∀ row ∈ out.2.scored, SpeaksOf c r first gateway samples row := by
  have hpos : 0 < Online.windowNs c := by
    unfold Online.windowNs nanoseconds
    omega
  have hskipped : ∀ before after, rounds = before ++ after →
      ∀ p ∈ before, ∀ e ∈ p.resources, kept c first e = false := by
    intro before after hsplit p hp e he
    obtain ⟨front, back, rfl⟩ := List.append_of_mem hp
    rw [List.append_assoc, List.cons_append] at hsplit
    exact (hapart.skipped front p (back ++ after) hsplit e he).2
  have hsteps : StepsMeet lib c r first gateway [] rounds := by
    apply stepsMeet_of
    intro before p after hsplit
    have hcons : rounds = (before ++ [p]) ++ after := by rw [hsplit, List.append_cons]
    rw [List.nil_append, List.nil_append]
    refine ⟨allAdmitted_round h hfirst hsplit fun e he =>
      (hapart.skipped before p after hsplit e he).1,
      fun w hlines hdue => ?_⟩
    have hsame := windowLines_events (hskipped (before ++ [p]) after hcons) w
    apply complete_of_windowLines lib hwindow h.lines
    rw [hsame]
    apply hapart.complete before p after hsplit w _ hdue
    rw [← hsame]
    exact windowLines_ne_nil.mpr hlines
  have hlast : ∀ before, Ends c first 0 rounds before → ∀ w,
      windowLines c first (eventsOf before) w ≠ [] →
        Complete lib c r first gateway (eventsOf before) w := by
    intro before hends w hlines
    obtain ⟨after, hsplit⟩ := hends.1
    have hsame := windowLines_events (hskipped before after hsplit.symm) w
    rw [hsame] at hlines
    apply complete_of_windowLines lib hwindow h.lines
    rw [hsame]
    exact hapart.ended before hends w hlines
  intro out row hrow
  obtain ⟨⟨windows, -, hscored⟩, -⟩ := main_spec audit rt monitored hpos hfinds hsteps hlast
  rw [hscored] at hrow
  obtain ⟨w, -, hw⟩ := List.mem_filterMap.mp hrow
  exact speaksOf_row hwindow h.lines hapart.windows hw

def gatewayLine (tsUnixNs : ℤ) : Event :=
  { requestOf "telemetry_iforest-00" tsUnixNs with eventType := some (text "request") }

/-- Requests at 5 s and 16 s, where the warm-up ends at 15 s. -/
def twoLines : List Event := [gatewayLine 5000000000, gatewayLine 16000000000]

def pipelineRounds (samples : List ProcessLine) : List Round :=
  ⟨twoLines, samples.map ProcessLine.event, 30000000000, true⟩ ::
    List.replicate 3 ⟨[], [], 30000000000, true⟩

def pipelineCall (rounds : List Round) : OnlineCall Event where
  loadModel := .ok silent
  modelPath := ⟨[], .ok []⟩
  windowSeconds := 5
  warmupSeconds := 10
  polls := rounds.map Round.poll
  lastNow := 30000000000

def pipelineRun (rounds : List Round) : Except Exc Bool × Online Event Unit :=
  Online.main (featureReader plainLibrary 5) (none : Option (AuditBackend Unit)) plainRuntime
    (pipelineCall rounds) (Online.start ⟨(), []⟩)

theorem twoLines_gateway : ∀ e ∈ twoLines, IsGatewayLine (text "telemetry_iforest-00") e := by
  intro e he
  simp only [twoLines, List.mem_cons, List.not_mem_nil, or_false] at he
  rcases he with rfl | rfl
  · exact ⟨rfl, rfl⟩
  · exact ⟨rfl, rfl⟩

def lateSamples : List ProcessLine := [⟨16500000000, 80, 4000⟩, ⟨21000000000, 80, 4000⟩]

/-- The first one is left out of the row, and the second one is a row of its own. -/
theorem pipeline_mixed :
    Streams (text "telemetry_iforest-00") twoLines lateSamples (pipelineRounds lateSamples) ∧
      (pipelineRun (pipelineRounds lateSamples)).1 = .ok true ∧
      ((pipelineRun (pipelineRounds lateSamples)).2.scored.map fun row =>
        (row.runId, row.windowStartNs, row.requestRate * 5, row.cpuPercentMean)) =
          [(text "telemetry_iforest-00", 15000000000, 1, 0), (text "unknown", 20000000000, 1, 0)] ∧
      ¬ ∀ row ∈ (pipelineRun (pipelineRounds lateSamples)).2.scored,
        SpeaksOf (pipelineCall (pipelineRounds lateSamples)) (text "telemetry_iforest-00") 5000000000
          twoLines lateSamples row := by
  have hscored : ((pipelineRun (pipelineRounds lateSamples)).2.scored.map fun row =>
      (row.runId, row.windowStartNs, row.requestRate * 5, row.cpuPercentMean)) =
        [(text "telemetry_iforest-00", 15000000000, 1, 0), (text "unknown", 20000000000, 1, 0)] := by
    decide +kernel
  refine ⟨⟨twoLines_gateway, List.prefix_rfl, List.prefix_rfl⟩, by decide +kernel, hscored,
    fun hall => ?_⟩
  have hmem : (text "unknown", 20000000000, 1, 0) ∈
      (pipelineRun (pipelineRounds lateSamples)).2.scored.map fun row =>
        (row.runId, row.windowStartNs, row.requestRate * 5, row.cpuPercentMean) := by
    rw [hscored]
    exact List.mem_cons_of_mem _ List.mem_cons_self
  obtain ⟨row, hrow, hvalues⟩ := List.mem_map.mp hmem
  have hrun := (hall row hrow).runId
  rw [(Prod.mk.inj hvalues).1] at hrun
  exact absurd hrun (by decide)

def earlySamples : List ProcessLine := [⟨6000000000, 80, 4000⟩]

def onePoll : List Round := [⟨twoLines, earlySamples.map ProcessLine.event, 30000000000, true⟩]

theorem onePoll_split {before after : List Round} {p : Round} (h : onePoll = before ++ p :: after) :
    before ++ [p] = onePoll := by
  cases before with
  | nil =>
    obtain ⟨rfl, -⟩ := List.cons.inj h
    rfl
  | cons p' before =>
    have hnil := (List.cons.inj h).2
    simp at hnil

theorem onePoll_apart : Apart (pipelineCall onePoll) 5000000000 twoLines earlySamples onePoll where
  windows := by decide +kernel
  skipped before p after hsplit e he := by
    have hone := onePoll_split hsplit
    have hp : p ∈ onePoll := by
      rw [← hone]
      exact List.mem_append_right _ List.mem_cons_self
    rw [hone]
    rw [List.mem_singleton.mp hp] at he
    rw [List.mem_singleton.mp he]
    exact ⟨by decide +kernel, by decide +kernel⟩
  complete before p after hsplit w _ _ := by
    rw [onePoll_split hsplit]
    rfl
  ended before hends := by
    have hle := quietCount_le (pipelineCall onePoll) 5000000000 before 0
    have hcount : before.countP Round.done ≤ onePoll.length :=
      List.countP_le_length.trans hends.1.length_le
    have hquiet := hends.2
    have hone : onePoll.length = 1 := rfl
    omega

theorem scored_speaksOf_one_poll : (pipelineRun onePoll).2.scored.length = 1 ∧
    ∀ row ∈ (pipelineRun onePoll).2.scored, SpeaksOf (pipelineCall onePoll)
      (text "telemetry_iforest-00") 5000000000 twoLines earlySamples row :=
  ⟨by decide +kernel, scored_speaksOf plainLibrary (none : Option (AuditBackend Unit)) plainRuntime
    ⟨(), []⟩ (pipelineCall onePoll) (by decide) rfl
    ⟨twoLines_gateway, List.prefix_rfl, List.prefix_rfl⟩ (by decide) onePoll_apart⟩

end Cote3Mon.Monitor
