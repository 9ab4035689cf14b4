import Cote3Mon.Collection.Resume
import Cote3Mon.Gateway.Telemetry
import Cote3Mon.Python.Dumps

namespace Cote3Mon.Collection
open ByteText Cote3Mon.Python Cote3Mon.Gateway

variable {rt : Runtime}

theorem isLine_encode {v : Json} (h : Regular rt Style.line v) {line : Text}
    (hline : encode rt Style.line 0 v = .ok line) : IsLine line := by
  have hgraphic := graphic_encode rt rfl rfl h 0 line hline
  obtain ⟨c, rest, rfl, hspace, -⟩ := (reads_encode rt h 0 line hline).start
  have hc := hgraphic c List.mem_cons_self
  simp only [isJsonSpace, Bool.or_eq_false_iff, decide_eq_false_iff_not] at hspace
  refine ⟨⟨c, rest, rfl, ?_⟩, fun d hd => ?_⟩
  · unfold IsGraphic at hc
    unfold Optee.isStripSpace
    simp only [Bool.or_eq_false_iff, Bool.and_eq_false_imp, decide_eq_true_eq,
      decide_eq_false_iff_not]
    omega
  · have hd := (hgraphic d hd).1
    simp only [isLineEnd, Bool.or_eq_false_iff, decide_eq_false_iff_not]
    omega

/-- The values of a file that was written line by line. -/
theorem readJsonl_encode {values : List Json} {lines : List Text}
    (hregular : ∀ v ∈ values, Regular rt Style.line v)
    (h : List.Forall₂ (fun v line => encode rt Style.line 0 v = .ok line) values lines) :
    readJsonl rt (lines.flatMap (· ++ [10])) = .ok (values.map reload) := by
  have hall := (List.forall₂_and_left _ _).mpr ⟨hregular, h⟩
  have hlines : ∀ line ∈ lines, IsLine line := by
    intro line hline
    obtain ⟨v, -, hv, hencode⟩ := exists_of_forall₂ hall hline
    exact isLine_encode hv hencode
  rw [readJsonl_lines rt hlines, mapM_eq_ok, List.forall₂_map_right_iff]
  have hempty : ∀ c ∈ ([] : Text), isJsonSpace c := fun c hc => absurd hc List.not_mem_nil
  refine hall.flip.imp fun line v hv => ?_
  have hloads := loads_encode rt hv.1 hv.2 hempty
  rwa [List.append_nil] at hloads

/-- A turn of the loop, and what `sample` returned in it. -/
structure Sample where
  turn : Turn
  cpuPercent : ℚ
  rssKb : ℤ

/-- What `sample` returns turn by turn, until it raises or the deadline is over. -/
def sampled (rt : Runtime) (before : ℚ → Bool) : ProcessSampler → List Turn → List Sample
  | _, [] => []
  | s, turn :: turns =>
    if before turn.now then
      match sample rt turn.reading s with
      | (.ok (cpu, rss), s') => ⟨turn, cpu, rss⟩ :: sampled rt before s' turns
      | (.error _, _) => []
    else []

/-- The file holds one line for each sample, up to the one that could not be written. -/
theorem samplingLoop_lines (event : Turn → ℚ → ℤ → Json) (before : ℚ → Bool) (s : ProcessSampler)
    (log : Text) (count : ℕ) (turns : List Turn) :
    ∃ written lines, written <+: sampled rt before s turns ∧
      List.Forall₂ (fun (p : Sample) line =>
        encode rt Style.line 0 (event p.turn p.cpuPercent p.rssKb) = .ok line) written lines ∧
      (samplingLoop rt event before s log count turns).2 = log ++ lines.flatMap (· ++ [10]) ∧
      ∀ n, (samplingLoop rt event before s log count turns).1 = .ok n →
        written = sampled rt before s turns ∧ n = count + written.length := by
  induction turns generalizing s log count with
  | nil =>
    refine ⟨[], [], List.prefix_rfl, .nil, by simp [samplingLoop], fun n hn => ?_⟩
    exact ⟨rfl, (Except.ok.inj hn).symm⟩
  | cons turn turns ih =>
    rw [samplingLoop, sampled]
    by_cases hbefore : before turn.now
    · simp only [hbefore, if_true]
      cases hsample : sample rt turn.reading s with
      | mk out s' =>
        cases out with
        | error e =>
          -- nothing more is written, whatever was raised
          refine ⟨[], [], List.prefix_rfl, .nil, ?_, fun n hn => ?_⟩
          · cases e <;> simp
          · cases e <;> simp_all
        | ok reading =>
          obtain ⟨cpu, rss⟩ := reading
          cases hline : encode rt Style.line 0 (event turn cpu rss) with
          | error e =>
            simp only [hline]
            exact ⟨[], [], List.nil_prefix, .nil, by simp, fun n hn => by cases hn⟩
          | ok line =>
            simp only [hline]
            obtain ⟨written, lines, hwritten, hall, hlog, hcount⟩ :=
              ih s' (log ++ line ++ [10]) (count + 1)
            refine ⟨⟨turn, cpu, rss⟩ :: written, line :: lines, ?_, .cons hline hall, ?_,
              fun n hn => ?_⟩
            · exact (List.prefix_cons_inj _).mpr hwritten
            · rw [hlog]
              simp
            · obtain ⟨hwritten, hn⟩ := hcount n hn
              rw [← hwritten, hn, List.length_cons]
              exact ⟨rfl, by omega⟩
    · simp only [hbefore]
      refine ⟨[], [], List.prefix_rfl, .nil, by simp, fun n hn => ?_⟩
      exact ⟨rfl, (Except.ok.inj hn).symm⟩

/-- What `aggregate_events` takes from a line of the sampler. -/
def resourceRow (runId scenario : Text) (isAttack : Bool) (p : Sample) : Features.Event where
  eventType := some (text "resource")
  runId := some runId
  tsUnixNs := p.turn.tsUnixNs
  scenario := some scenario
  isAttack := some isAttack
  operation := none
  result := none
  latencyUs := none
  inputBytes := none
  cpuPercent := some p.cpuPercent
  rssKb := some p.rssKb
  keyFingerprint := none
  requestFingerprint := none

theorem reload_resourceEvent (runId scenario : Text) (isAttack : Bool) (p : Sample) :
    reload (resourceEvent runId scenario isAttack p.turn p.cpuPercent p.rssKb) =
      .obj [(text "cpu_percent", .float (.finite (p.cpuPercent < 0) (Rat.nnabs p.cpuPercent))),
        (text "event_type", .str (text "resource")), (text "is_attack", .bool isAttack),
        (text "rss_kb", .int p.rssKb), (text "run_id", .str runId), (text "scenario", .str scenario),
        (text "ts_unix_ns", .int p.turn.tsUnixNs)] := by
  rfl

theorem value_of_signed (q : ℚ) : (PyFloat.finite (q < 0) (Rat.nnabs q)).value? = some q := by
  by_cases hneg : q < 0
  · simp [PyFloat.value?, hneg, abs_of_neg hneg]
  · simp [PyFloat.value?, hneg, abs_of_nonneg (not_lt.mp hneg)]

theorem eventOf_resourceEvent (runId scenario : Text) (isAttack : Bool) (p : Sample) :
    eventOf (reload (resourceEvent runId scenario isAttack p.turn p.cpuPercent p.rssKb)) =
      some (resourceRow runId scenario isAttack p) := by
  rw [reload_resourceEvent]
  have hrest : ∀ f : PyFloat, eventOf (.obj [(text "cpu_percent", .float f),
      (text "event_type", .str (text "resource")), (text "is_attack", .bool isAttack),
      (text "rss_kb", .int p.rssKb), (text "run_id", .str runId), (text "scenario", .str scenario),
      (text "ts_unix_ns", .int p.turn.tsUnixNs)]) = (f.value?.map some).bind fun value =>
        some { resourceRow runId scenario isAttack p with cpuPercent := value } := fun f => rfl
  rw [hrest, value_of_signed]
  rfl

/-- The `repr` of a float is read back as the float. -/
def ReadsBack (rt : Runtime) (q : ℚ) : Prop :=
  IsFloatText (rt.floatRepr (q < 0) (Rat.nnabs q)) ∧
    rt.parseFloat (rt.floatRepr (q < 0) (Rat.nnabs q)) = .finite (q < 0) (Rat.nnabs q)

theorem regular_resourceEvent {runId scenario : Text} (hrun : IsReadable runId)
    (hscenario : IsReadable scenario) (isAttack : Bool) {p : Sample}
    (hcpu : ReadsBack rt p.cpuPercent) :
    Regular rt Style.line (resourceEvent runId scenario isAttack p.turn p.cpuPercent p.rssKb) := by
  refine .obj (fun m hm _ => isReadable_of_lt ?_) ?_
    (by simp only [List.map_cons, List.map_nil]; decide)
  · have hnames : ∀ name ∈ ["event_type", "ts_unix_ns", "run_id", "scenario", "is_attack",
        "cpu_percent", "rss_kb"].map text, ∀ c ∈ name, c < 0xd800 := by decide
    exact hnames m.1 (List.mem_map_of_mem (f := Prod.fst) hm)
  · simp only [List.forall_mem_cons]
    exact ⟨.str fun _ => isReadable_of_lt (by decide), .int _, .str fun _ => hrun,
      .str fun _ => hscenario, .bool _, .finite hcpu.1 hcpu.2, .int _, fun m hm =>
        absurd hm List.not_mem_nil⟩

/-- However the sampler ends, its file holds the samples that it took, in order, each as the event
that the features are computed from; if it returns, it returns their number. -/
theorem sampler_is_read (rt : Runtime) (run : SamplerRun) {runId scenario : Text}
    (hrun : IsReadable runId) (hscenario : IsReadable scenario) (isAttack : Bool)
    (duration : PyFloat) (interval : ℚ)
    (hcpu : ∀ p ∈ sampled rt (beforeDeadline run.start duration 0) (.init run.clockTicks) run.turns,
      ReadsBack rt p.cpuPercent) :
    let (result, log) := sampleToJsonl rt run runId scenario isAttack duration interval
    ∃ written, written <+: sampled rt (beforeDeadline run.start duration 0) (.init run.clockTicks)
        run.turns ∧
      (∃ values, readJsonl rt log = .ok values ∧
        values.map eventOf = written.map fun p => some (resourceRow runId scenario isAttack p)) ∧
      ∀ n, result = .ok n → written = sampled rt (beforeDeadline run.start duration 0)
        (.init run.clockTicks) run.turns ∧ n = written.length := by
  have hnone : ∃ values, readJsonl rt [] = .ok values ∧ values.map eventOf =
      ([] : List Sample).map fun p => some (resourceRow runId scenario isAttack p) := ⟨[], rfl, rfl⟩
  dsimp only
  unfold sampleToJsonl
  split_ifs
  · exact ⟨[], List.nil_prefix, hnone, fun n hn => by cases hn⟩
  · exact ⟨[], List.nil_prefix, hnone, fun n hn => by cases hn⟩
  · split
    · exact ⟨[], List.nil_prefix, hnone, fun n hn => by cases hn⟩
    · obtain ⟨written, lines, hwritten, hall, hlog, hcount⟩ := samplingLoop_lines
        (resourceEvent runId scenario isAttack) (beforeDeadline run.start duration 0)
        (.init run.clockTicks) [] 0 run.turns
      refine ⟨written, hwritten, ?_, fun n hn => ?_⟩
      · have hregular : ∀ p ∈ written, Regular rt Style.line
            (resourceEvent runId scenario isAttack p.turn p.cpuPercent p.rssKb) := fun p hp =>
          regular_resourceEvent hrun hscenario isAttack (hcpu p (hwritten.subset hp))
        have hread := readJsonl_encode (List.forall_mem_map.mpr hregular)
          (List.forall₂_map_left_iff.mpr hall)
        rw [hlog, List.nil_append]
        refine ⟨_, hread, ?_⟩
        rw [List.map_map, List.map_map]
        exact List.map_congr_left fun p _ => eventOf_resourceEvent runId scenario isAttack p
      · obtain ⟨hwritten, hn⟩ := hcount n hn
        exact ⟨hwritten, by omega⟩

def wholeRuntime : Runtime :=
  { secondsRuntime with parseFloat := fun t => .finite false (decimalValue (t.takeWhile isDigit)) }

/-- A number that the interpreter prints. -/
def IsWhole (q : ℚ) : Prop := 0 ≤ q ∧ (⌊q.nnabs⌋₊ : ℚ≥0) = q.nnabs

instance (q : ℚ) : Decidable (IsWhole q) := inferInstanceAs (Decidable (_ ∧ _))

theorem decimalValue_whole (n : ℕ) :
    decimalValue ((decimal n ++ text ".0").takeWhile isDigit) = n := by
  have hdigits : ∀ c ∈ decimal n, isDigit c = true := by
    intro c hc
    obtain ⟨hlow, hhigh⟩ := decimal_digits n c hc
    simp [isDigit, hlow, hhigh]
  have hstop : (text ".0").takeWhile isDigit = [] := by decide
  rw [List.takeWhile_append_of_pos hdigits, hstop, List.append_nil, decimalValue_decimal]

theorem readsBack_whole {q : ℚ} (h : IsWhole q) : ReadsBack wholeRuntime q := by
  have htext : wholeRuntime.floatRepr (q < 0) (Rat.nnabs q) = decimal ⌊q.nnabs⌋₊ ++ text ".0" := rfl
  have hfraction : IsFraction (text ".0") := Or.inr ⟨[48], rfl, by decide, by decide⟩
  rw [ReadsBack, htext]
  refine ⟨⟨false, ⌊q.nnabs⌋₊, text ".0", [], ?_, hfraction, Or.inl rfl, by decide⟩, ?_⟩
  · rw [List.append_nil]
    rfl
  · change PyFloat.finite false (decimalValue
      ((decimal ⌊q.nnabs⌋₊ ++ text ".0").takeWhile isDigit)) = _
    rw [decimalValue_whole, h.2, decide_eq_false (not_lt.mpr h.1)]

/-- A turn that finds a process named `worker` with so many ticks after some seconds. -/
def workerTurn (stime : UInt64) (seconds : ℕ) : Turn :=
  let found : Snapshot := ⟨some (statOf (asciiBytes "worker") stime), seconds * 1000000000,
    some (asciiBytes "VmRSS:\t4 kB\n")⟩
  ⟨Rat.ofInt seconds, found.reading, seconds * 1000000000⟩

/-- Half of a processor in the first second, a quarter of it in the next two, and a turn that is too
late. -/
def workerRun : SamplerRun :=
  ⟨Nat.succPNat 99, .ok (), Rat.ofInt 0,
    [workerTurn 0 0, workerTurn 50 1, workerTurn 100 3, workerTurn 100 60]⟩

theorem sampler_is_read_worker :
    let samples := sampled wholeRuntime (beforeDeadline workerRun.start (.finite false 60) 0)
      (.init workerRun.clockTicks) workerRun.turns
    samples.map Sample.cpuPercent = [0, 50, 25] ∧ ∃ values,
      readJsonl wholeRuntime (sampleToJsonl wholeRuntime workerRun (text "run") (text "normal") false
        (.finite false 60) 1).2 = .ok values ∧
      values.map eventOf = samples.map fun p =>
          some (resourceRow (text "run") (text "normal") false p) := by
  intro samples
  have hcpu : samples.map Sample.cpuPercent = [0, 50, 25] := by decide +kernel
  have hresult : (sampleToJsonl wholeRuntime workerRun (text "run") (text "normal") false
      (.finite false 60) 1).1 = .ok 3 := by decide +kernel
  have hwhole : ∀ q ∈ [(0 : ℚ), 50, 25], IsWhole q := by decide +kernel
  have hreadsBack : ∀ p ∈ samples, ReadsBack wholeRuntime p.cpuPercent := fun p hp =>
    readsBack_whole (hwhole _ (hcpu ▸ List.mem_map_of_mem hp))
  have hrun : IsReadable (text "run") := isReadable_of_lt (by decide)
  have hscenario : IsReadable (text "normal") := isReadable_of_lt (by decide)
  obtain ⟨written, -, ⟨values, hread, hevents⟩, hcount⟩ :=
    sampler_is_read wholeRuntime workerRun hrun
    hscenario false (.finite false 60) 1 hreadsBack
  refine ⟨hcpu, values, hread, ?_⟩
  rw [hevents, (hcount 3 hresult).1]

end Cote3Mon.Collection
