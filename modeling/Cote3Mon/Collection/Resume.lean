import Cote3Mon.Collection.Experiments

namespace Cote3Mon.Collection
open ByteText Python Words

variable (rt : Runtime)

/-- Every other failure than that of a missing file. -/
abbrev Present {α : Type} (r : Except Exc α) : Prop := FailsWith (· ≠ .osError) r

theorem present_readAscii (bs : Bytes) : Present (readAscii (some bs)) := by
  rw [readAscii]
  split_ifs
  · exact failsWith_ok _
  · exact failsWith_error (by decide)

theorem present_item (i : ℕ) (fields : List Text) : Present (item i fields) := by
  unfold item
  split
  · exact failsWith_ok _
  · exact failsWith_error (by decide)

theorem present_parseInt (t : Text) : Present (rt.parseInt t) := by
  intro e he hos
  have hcaught := caught_parseInt rt t e he
  rw [hos] at hcaught
  cases hcaught

theorem present_cpuTicks (stat : List Text) : Present (cpuTicks rt stat) := by
  unfold cpuTicks
  exact (present_item 13 stat).bind fun utime _ => (present_parseInt rt utime).bind fun _ _ =>
    (present_item 14 stat).bind fun stime _ => (present_parseInt rt stime).bind fun _ _ =>
      failsWith_ok _

theorem present_rssKb (status : Text) : Present (rssKb rt status) := by
  unfold rssKb
  split
  · exact (present_item 1 _).bind fun field _ => present_parseInt rt field
  · exact failsWith_ok _

/-- A missing file is the only `OSError` of a sample. -/
theorem sample_osError {r : Reading} {s : ProcessSampler} (h : (sample rt r s).1 = .error .osError) :
    r.stat = none ∨ r.status = none := by
  cases hticks : r.ticks rt with
  | error e =>
    left
    rw [sample_of_error rt hticks] at h
    obtain rfl := Except.error.inj h
    rw [Reading.ticks] at hticks
    cases hstat : r.stat with
    | none => rfl
    | some bs =>
      rw [hstat] at hticks
      have hpresent := (present_readAscii bs).bind fun content _ =>
        present_cpuTicks rt (split content)
      exact absurd rfl (hpresent _ hticks)
  | ok ticks =>
    right
    rw [sample_of_ticks rt hticks] at h
    cases hstatus : r.status with
    | none => rfl
    | some bs =>
      have hpresent : Present (r.rss rt) := by
        rw [Reading.rss, hstatus]
        exact (present_readAscii bs).bind fun content _ => present_rssKb rt content
      exact absurd rfl ((hpresent.bind fun _ _ => failsWith_ok _) _ h)

theorem sample_found {r : Reading} {s : ProcessSampler} {out : ℚ × ℤ}
    (h : (sample rt r s).1 = .ok out) : r.stat ≠ none ∧ r.status ≠ none := by
  constructor
  · intro hstat
    have hticks : r.ticks rt = .error .osError := by rw [Reading.ticks, hstat]; rfl
    rw [sample_of_error rt hticks] at h
    cases h
  · intro hstatus
    have hrss : r.rss rt = .error .osError := by rw [Reading.rss, hstatus]; rfl
    cases hticks : r.ticks rt with
    | error e =>
      rw [sample_of_error rt hticks] at h
      cases h
    | ok ticks =>
      rw [sample_of_ticks rt hticks, hrss] at h
      cases h

variable {rt} {event : Turn → ℚ → ℤ → Json} {before : ℚ → Bool}

/-- What is in the file stays there. -/
theorem samplingLoop_prefix {s : ProcessSampler} {log log' : Text} {count : ℕ} {turns : List Turn}
    {out : Except Exc ℕ} (h : samplingLoop rt event before s log count turns = (out, log')) :
    log <+: log' := by
  induction turns generalizing s log count with
  | nil => exact (Prod.mk.inj h).2 ▸ List.prefix_rfl
  | cons turn turns ih =>
    rw [samplingLoop] at h
    split at h
    · split at h
      · split at h
        · have hline := ih h
          rw [List.append_assoc] at hline
          exact (List.prefix_append log _).trans hline
        · exact (Prod.mk.inj h).2 ▸ List.prefix_rfl
      · exact (Prod.mk.inj h).2 ▸ List.prefix_rfl
      · exact (Prod.mk.inj h).2 ▸ List.prefix_rfl
    · exact (Prod.mk.inj h).2 ▸ List.prefix_rfl

theorem brace_mem_encode {members : List (Text × Json)} {line : Text}
    (h : encode rt Style.line 0 (.obj members) = .ok line) : 123 ∈ line := by
  rw [encode] at h
  obtain ⟨printed, -, hline⟩ := bind_eq_ok.mp h
  rw [← Except.ok.inj hline, Style.enclosed]
  split_ifs <;> exact List.mem_cons_self

/-- The process is found in the first turn. -/
def FoundFirst (before : ℚ → Bool) (turns : List Turn) : Prop :=
  ∃ turn rest, turns = turn :: rest ∧ before turn.now ∧ turn.reading.stat ≠ none ∧
    turn.reading.status ≠ none

/-- What a turn does, if the sampler returns. -/
theorem samplingLoop_turn {s : ProcessSampler} {log log' : Text} {count count' : ℕ} {turn : Turn}
    {turns : List Turn}
    (h : samplingLoop rt event before s log count (turn :: turns) = (.ok count', log')) :
    (log' = log ∧ (before turn.now → turn.reading.stat = none ∨ turn.reading.status = none)) ∨
      before turn.now ∧ turn.reading.stat ≠ none ∧ turn.reading.status ≠ none ∧
        ∃ cpu rss s' line, encode rt Style.line 0 (event turn cpu rss) = .ok line ∧
          samplingLoop rt event before s' (log ++ line ++ [10]) (count + 1) turns =
            (.ok count', log') := by
  rw [samplingLoop] at h
  split_ifs at h with hbefore
  · cases hout : (sample rt turn.reading s).1 with
    | error e =>
      rw [← Prod.mk.eta (p := sample rt turn.reading s), hout] at h
      by_cases hos : e = .osError
      · rw [hos] at h hout
        exact Or.inl ⟨(Prod.mk.inj h).2.symm, fun _ => sample_osError rt hout⟩
      · split at h
        · rename_i heq
          cases heq
        · rename_i heq
          cases heq
          exact absurd rfl hos
        · cases h
    | ok out =>
      rw [← Prod.mk.eta (p := sample rt turn.reading s), hout] at h
      obtain ⟨hstat, hstatus⟩ := sample_found rt hout
      dsimp only at h
      split at h
      · rename_i line hline
        exact Or.inr ⟨hbefore, hstat, hstatus, _, _, _, line, hline, h⟩
      · cases h
  · exact Or.inl ⟨(Prod.mk.inj h).2.symm, fun hnow => absurd hnow hbefore⟩

theorem samplingLoop_found (hevent : ∀ turn cpu rss, ∃ members, event turn cpu rss = .obj members)
    {s : ProcessSampler} {turns : List Turn} {count : ℕ} {log : Text}
    (h : samplingLoop rt event before s [] 0 turns = (.ok count, log)) :
    0 < (words isLineBreak log).length ↔ FoundFirst before turns := by
  cases turns with
  | nil =>
    obtain rfl : [] = log := (Prod.mk.inj h).2
    refine iff_of_false (by simp) ?_
    rintro ⟨turn, rest, hturns, -⟩
    cases hturns
  | cons turn turns =>
    rcases samplingLoop_turn h with ⟨rfl, hgone⟩ |
      ⟨hnow, hstat, hstatus, cpu, rss, s', line, hline, h⟩
    · refine iff_of_false (by simp) ?_
      rintro ⟨first, rest, hturns, hnow, hstat, hstatus⟩
      obtain ⟨rfl, rfl⟩ := List.cons.inj hturns
      exact (hgone hnow).elim hstat hstatus
    · refine iff_of_true ?_ ⟨turn, turns, rfl, hnow, hstat, hstatus⟩
      obtain ⟨members, hmembers⟩ := hevent turn cpu rss
      rw [hmembers] at hline
      obtain ⟨more, hmore⟩ := samplingLoop_prefix h
      have hbrace : 123 ∈ log := by
        rw [← hmore, List.append_assoc, List.append_assoc]
        exact List.mem_append_right _ (List.mem_append_left _ (brace_mem_encode hline))
      exact words_pos hbrace (by rfl)

/-- The sampler has returned: there is a line in its file exactly when it has found the process. -/
theorem sampleToJsonl_found {run : SamplerRun} {runId scenario : Text} {isAttack : Bool}
    {duration : PyFloat} {interval : ℚ} {count : ℕ} {log : Text}
    (h : sampleToJsonl rt run runId scenario isAttack duration interval = (.ok count, log)) :
    0 < (words isLineBreak log).length ↔
      FoundFirst (beforeDeadline run.start duration 0) run.turns := by
  rw [sampleToJsonl] at h
  split_ifs at h
  · cases h
  · cases h
  · split at h
    · cases h
    · exact samplingLoop_found (fun _ _ _ => ⟨_, rfl⟩) h

theorem raised_eq_ok {α : Type} {r : Except Exc α} {a : α} : raised r = .ok a ↔ r = .ok a := by
  cases r with
  | error e => simp [raised, Except.mapError]
  | ok b => simp [raised, Except.mapError]

@[simp] theorem raised_ok {α : Type} (a : α) : raised (.ok a) = .ok a := rfl

theorem raiseIf_eq_ok {c : Bool} {e : Failure} {a : Unit} : raiseIf c e = .ok a ↔ c = false := by
  cases c with
  | false => simp [raiseIf]
  | true => simp [raiseIf]

theorem awaitStop_deadline {start : ℚ} {containerId : Text}
    {turns : List (ℚ × Except Exc (Option Dict))}
    (h : awaitStop (beforeDeadline start .nan 15) containerId turns = .ok ()) : False := by
  cases turns with
  | nil => cases h
  | cons turn turns => cases h

variable (lib : Library) {p : Run} {o : Outcome} {files : Evidence}

/-- What a run that returned has found and written. -/
structure Recorded (rt : Runtime) (p : Run) (o : Outcome) (files : Evidence)
    (runId resourceLog : Text)
    (requestCount : ℕ) : Prop where
  runId_eq : p.runId rt = .ok runId
  duration_ne : p.duration ≠ .nan
  sampled : ∃ count,
    sampleToJsonl rt o.sampler runId p.scenario p.attack p.duration 1 = (.ok count, resourceLog)
  counted : countJsonl o.requestLog = .ok requestCount
  requests_ne : requestCount ≠ 0
  files_eq : files = ⟨.value (resultOf p runId o.elapsed requestCount
    (words isLineBreak resourceLog).length), o.finalRequestLog, some (.ok resourceLog)⟩

theorem executeRun_recorded (h : executeRun rt lib p o = .ok files) :
    ∃ runId resourceLog requestCount, Recorded rt p o files runId resourceLog requestCount := by
  obtain ⟨runId, hrun, h⟩ := bind_eq_ok.mp h
  obtain ⟨containerId, -, h⟩ := bind_eq_ok.mp h
  obtain ⟨-, -, h⟩ := bind_eq_ok.mp h
  obtain ⟨-, -, h⟩ := bind_eq_ok.mp h
  obtain ⟨-, -, h⟩ := bind_eq_ok.mp h
  obtain ⟨-, -, h⟩ := bind_eq_ok.mp h
  obtain ⟨state, -, h⟩ := bind_eq_ok.mp h
  obtain ⟨-, -, h⟩ := bind_eq_ok.mp h
  obtain ⟨-, -, h⟩ := bind_eq_ok.mp h
  rcases hsampled : sampleToJsonl rt o.sampler runId p.scenario p.attack p.duration 1 with ⟨out, log⟩
  rw [hsampled] at h
  obtain ⟨_, hstop, h⟩ := bind_eq_ok.mp h
  obtain ⟨-, -, h⟩ := bind_eq_ok.mp h
  cases out with
  | error e => cases h
  | ok count =>
    obtain ⟨requestCount, hcounted, h⟩ := bind_eq_ok.mp h
    obtain ⟨resourceCount, hresources, h⟩ := bind_eq_ok.mp h
    obtain ⟨_, hne, h⟩ := bind_eq_ok.mp h
    obtain ⟨-, -, h⟩ := bind_eq_ok.mp h
    obtain rfl : (words isLineBreak log).length = resourceCount :=
      Except.ok.inj (raised_eq_ok.mp hresources)
    have hduration : p.duration ≠ .nan := fun hnan => by
      rw [hnan] at hstop
      exact awaitStop_deadline hstop
    exact ⟨runId, log, requestCount, raised_eq_ok.mp hrun, hduration, ⟨count, hsampled⟩,
      raised_eq_ok.mp hcounted, by simpa using raiseIf_eq_ok.mp hne, (Except.ok.inj h).symm⟩

theorem eqText_str (t : Text) : (Json.str t).eqText t = true := by simp [Json.eqText]

theorem floatEq_self {f : PyFloat} (h : f ≠ .nan) : floatEq f f = true := by
  cases f with
  | finite negative magnitude => simp [floatEq]
  | infinity negative => simp [floatEq]
  | nan => exact absurd rfl h

theorem countMatches_int {d : Dict} {name : String} {recorded : ℕ}
    (h : getOrMinusOne d name = .int recorded) (count : ℕ) :
    countMatches rt d name count = .ok (decide (0 < count) && decide (recorded = count)) := by
  rw [countMatches]
  split_ifs with hpos
  · rw [h, Runtime.int, ok_bind]
    simp [hpos, pure, Except.pure]
  · simp [hpos]

variable {lib}

/-- The checks of a result that was written by the recorder. -/
theorem checks_result {runId : Text} {elapsed : PyFloat}
    {recorded sampled requestCount resourceCount : ℕ}
    {d : Dict} (hd : (resultOf p runId elapsed recorded sampled).dict = .ok d)
    (hduration : p.duration ≠ .nan) :
    checks rt lib p runId d requestCount resourceCount = .ok
      [("status", true), ("run_id", true), ("scenario", true), ("is_attack", true), ("seed", true),
        ("duration", true),
        ("request_events", decide (0 < requestCount) && decide (recorded = requestCount)),
        ("resource_events", decide (0 < resourceCount) && decide (sampled = resourceCount))] := by
  obtain rfl := Except.ok.inj hd
  have hseed : rt.int (.int p.seed) = .ok p.seed := rfl
  rw [checks, countMatches_int rfl, countMatches_int rfl]
  change (do
    let seed ← rt.int (.int p.seed)
    let duration ← lib.toFloat (.float p.duration)
    let requestEvents ← Except.ok (decide (0 < requestCount) && decide (recorded = requestCount))
    let resourceEvents ← Except.ok (decide (0 < resourceCount) && decide (sampled = resourceCount))
    return [("status", (Json.str (text "PASS")).eqText (text "PASS")),
      ("run_id", (Json.str runId).eqText runId),
      ("scenario", (Json.str p.scenario).eqText p.scenario),
      ("is_attack", decide (p.attack = p.attack)), ("seed", decide (seed = p.seed)),
      ("duration", floatEq duration p.duration), ("request_events", requestEvents),
      ("resource_events", resourceEvents)]) = _
  simp only [hseed, lib.toFloat_float, ok_bind, eqText_str, floatEq_self hduration, decide_true]
  rfl

/-- All checks are passed. -/
theorem validated_iff {results : List (String × Bool)} {e : Failure} :
    (do
      raiseIf (((results.filter fun check => !check.2).map fun check => text check.1) ≠ []) e
      return true) = (.ok true : Except Failure Bool) ↔ ∀ check ∈ results, check.2 = true := by
  have hfailures : ((results.filter fun check => !check.2).map fun check => text check.1) = [] ↔
      ∀ check ∈ results, check.2 = true := by
    simp [List.filter_eq_nil_iff]
  rw [← hfailures]
  by_cases hnil : ((results.filter fun check => !check.2).map fun check => text check.1) = []
  · exact iff_of_true (by rw [hnil]; rfl) hnil
  · refine iff_of_false ?_ hnil
    rw [raiseIf, if_pos (by simpa using hnil)]
    exact nofun

theorem reusable_recorded {runId resourceLog : Text} {recorded : ℕ}
    (h : Recorded rt p o files runId resourceLog recorded) :
    reusablePassedRun rt lib p files = .ok true ↔
      0 < (words isLineBreak resourceLog).length ∧ countJsonl o.finalRequestLog = .ok recorded := by
  obtain ⟨hrun, hduration, -, -, hne, rfl⟩ := h
  have hresources : countJsonl (some (.ok resourceLog)) =
      .ok (words isLineBreak resourceLog).length :=
    rfl
  rw [reusablePassedRun, hrun, raised_ok, ok_bind]
  dsimp only
  rw [hresources, raised_ok]
  cases hfinal : countJsonl o.finalRequestLog with
  | error e => exact iff_of_false nofun fun h => nomatch h.2
  | ok requestCount =>
    have hcount : (Except.ok requestCount : Except Exc ℕ) = .ok recorded ↔
        0 < requestCount ∧ recorded = requestCount := by
      rw [Except.ok.injEq]
      omega
    rw [raised_ok, ok_bind, ok_bind, resultOf, Json.dict, ok_bind, checks_result rfl hduration,
      raised_ok, ok_bind, hcount]
    rw [validated_iff]
    simp [and_comm]

variable (rt lib p o) in
/-- **Resuming what was recorded.**  A run that was recorded as passed is accepted, exactly when the
sampler has found the process in its first turn and no request was logged between the count and the
result. -/
theorem resume_iff (h : executeRun rt lib p o = .ok files) :
    reusablePassedRun rt lib p files = .ok true ↔
      FoundFirst (beforeDeadline o.sampler.start p.duration 0) o.sampler.turns ∧
        countJsonl o.finalRequestLog = countJsonl o.requestLog := by
  obtain ⟨runId, resourceLog, requestCount, hrecorded⟩ := executeRun_recorded lib h
  obtain ⟨count, hsampled⟩ := hrecorded.sampled
  rw [reusable_recorded hrecorded, sampleToJsonl_found hsampled, hrecorded.counted]

def secondsRuntime : Runtime :=
  { plainRuntime with floatRepr := fun _ seconds => decimal ⌊seconds⌋₊ ++ text ".0" }

def floatLibrary : Library where
  toFloat
    | .float f => .ok f
    | _ => .error .typeError
  toFloat_float _ := rfl
  reprExc _ := text "OverflowError()"

def steadyRun : Run := ⟨text "steady", false, 0, .finite false 60, 42, text "stage3"⟩

/-- One request is logged, and the container has exited after a second. -/
def earlyExit (reading : Reading) : Outcome where
  prepared := .ok ()
  socketStart := 0
  socketTurns := [(0, true, false)]
  containerRun := .ok ()
  containerState := .ok (some [(text "pid", .int 7)])
  sampler := ⟨100, .ok (), 0, [⟨0, reading, 0⟩]⟩
  waitStart := 0
  stateTurns := [(1, .ok none)]
  joined := true
  requestLog := some (.ok (text "\x7b\x7d\n"))
  elapsed := .finite false 1
  finalRequestLog := some (.ok (text "\x7b\x7d\n"))
  cleaned := .ok ()

/-- Without a sample the run is recorded as passed and cannot be resumed. -/
theorem resume_unsampled : ∃ files,
    executeRun secondsRuntime floatLibrary steadyRun (earlyExit ⟨none, 0, none⟩) = .ok files ∧
      reusablePassedRun secondsRuntime floatLibrary steadyRun files =
        .error (.runtimeError (text
          ("existing PASS evidence for steady-00 failed resume validation " ++
          "(resource_events); refusing to overwrite it"))) := by
  have hpassed : (executeRun secondsRuntime floatLibrary steadyRun
      (earlyExit ⟨none, 0, none⟩)).isOk := by decide +kernel
  have hresume : (executeRun secondsRuntime floatLibrary steadyRun (earlyExit ⟨none, 0, none⟩) >>=
      reusablePassedRun secondsRuntime floatLibrary steadyRun) =
        .error (.runtimeError (text
          ("existing PASS evidence for steady-00 failed resume validation " ++
          "(resource_events); refusing to overwrite it"))) := by decide +kernel
  cases hrun : executeRun secondsRuntime floatLibrary steadyRun (earlyExit ⟨none, 0, none⟩) with
  | error e =>
    rw [hrun] at hpassed
    cases hpassed
  | ok files =>
    rw [hrun, ok_bind] at hresume
    exact ⟨files, rfl, hresume⟩

/-- The same run with one sample. -/
theorem resume_iff_sampled : ∃ files, executeRun secondsRuntime floatLibrary steadyRun
      (earlyExit (spaced 50 0).reading) = .ok files ∧
    (reusablePassedRun secondsRuntime floatLibrary steadyRun files = .ok true ↔
      FoundFirst (beforeDeadline 0 (.finite false 60) 0) [⟨0, (spaced 50 0).reading, 0⟩] ∧
        countJsonl (some (.ok (text "\x7b\x7d\n"))) =
            countJsonl (some (.ok (text "\x7b\x7d\n")))) := by
  have hpassed : (executeRun secondsRuntime floatLibrary steadyRun
      (earlyExit (spaced 50 0).reading)).isOk := by decide +kernel
  cases hrun : executeRun secondsRuntime floatLibrary steadyRun
      (earlyExit (spaced 50 0).reading) with
  | error e =>
    rw [hrun] at hpassed
    cases hpassed
  | ok files => exact ⟨files, rfl, resume_iff secondsRuntime floatLibrary steadyRun _ hrun⟩

end Cote3Mon.Collection
