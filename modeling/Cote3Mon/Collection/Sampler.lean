import Cote3Mon.Lib.Words
import Cote3Mon.Python.Values

namespace Cote3Mon.Collection
open ByteText Python Words

-- `ProcessSampler` of `cote3mon/resource.py`. A reading is what `/proc` and the clock give to one
-- call of `sample`; the percentage is an exact rational.

/-- `read_text(encoding="ascii")` of a file that may be missing.  The translation of the line ends
changes neither the words nor the lines of a text. -/
def readAscii : Option Bytes → Except Exc Text
  | none => .error .osError
  | some bs => if ∀ b ∈ bs, b.toNat < 128 then .ok (bs.map UInt8.toNat) else .error .valueError

/-- White space of `str.split`, in ASCII. -/
def isSplitSpace (c : ℕ) : Bool := isSpace c || 28 ≤ c && c ≤ 31

/-- `t.split()`. -/
def split (t : Text) : List Text := words isSplitSpace t

/-- `fields[i]`. -/
def item (i : ℕ) (fields : List Text) : Except Exc Text :=
  match fields[i]? with
  | some field => .ok field
  | none => .error .indexError

/-- A line boundary of `str.splitlines`. -/
def isLineBreak (c : ℕ) : Bool :=
  10 ≤ c && c ≤ 13 || 28 ≤ c && c ≤ 30 || c = 0x85 || c = 0x2028 || c = 0x2029

/-- `t.splitlines()`, up to empty lines. -/
def splitLines (t : Text) : List Text := t.splitOnP isLineBreak

structure Reading where
  /-- `/proc/<pid>/stat`. -/
  stat : Option Bytes
  /-- `time.monotonic_ns()`. -/
  now : ℤ
  /-- `/proc/<pid>/status`. -/
  status : Option Bytes

structure ProcessSampler where
  /-- `os.sysconf("SC_CLK_TCK")`. -/
  clockTicks : ℕ+
  previousCpu : Option ℤ
  previousTime : Option ℤ

namespace ProcessSampler

def init (clockTicks : ℕ+) : ProcessSampler := ⟨clockTicks, none, none⟩

def cpuPercent (s : ProcessSampler) (cpuTicks now : ℤ) : ℚ :=
  match s.previousCpu, s.previousTime with
  | some previousCpu, some previousTime =>
    let cpuSeconds : ℚ := (cpuTicks - previousCpu) / (s.clockTicks : ℕ)
    let wallSeconds : ℚ := (now - previousTime) / 1000000000
    if wallSeconds = 0 then 0 else 100 * cpuSeconds / wallSeconds
  | _, _ => 0

end ProcessSampler

variable (rt : Runtime)

/-- `int(stat[13]) + int(stat[14])`. -/
def cpuTicks (stat : List Text) : Except Exc ℤ := do
  return (← rt.parseInt (← item 13 stat)) + (← rt.parseInt (← item 14 stat))

/-- The number of the first line that starts with `VmRSS:`. -/
def rssKb (status : Text) : Except Exc ℤ :=
  match (splitLines status).find? fun line => (text "VmRSS:").isPrefixOf line with
  | some line => do rt.parseInt (← item 1 (split line))
  | none => .ok 0

/-- `sample`; what it has taken from `stat` is kept when `status` cannot be read. -/
def sample (r : Reading) : Method ProcessSampler (ℚ × ℤ) := do
  let stat := split (← Exec.lift (readAscii r.stat))
  let cpuTicks ← Exec.lift (cpuTicks rt stat)
  let s ← get
  let cpuPercent := s.cpuPercent cpuTicks r.now
  set { s with previousCpu := some cpuTicks, previousTime := some r.now }
  let rssKb ← Exec.lift (do rssKb rt (← readAscii r.status))
  return (cpuPercent, rssKb)

/-- The fields of `/proc/<pid>/stat`, from the sixteenth on in one list. -/
structure ProcStat where
  pid : ℕ
  comm : Bytes
  state : UInt8
  ppid : ℤ
  pgrp : ℤ
  session : ℤ
  ttyNr : ℤ
  tpgid : ℤ
  flags : ℤ
  minflt : ℤ
  cminflt : ℤ
  majflt : ℤ
  cmajflt : ℤ
  utime : UInt64
  stime : UInt64
  rest : List ℤ
  state_visible : 33 ≤ state.toNat ∧ state.toNat < 127

/-- `%d`. -/
def signed (n : ℤ) : Text := if n < 0 then 45 :: decimal n.natAbs else decimal n.natAbs

namespace ProcStat

variable (stat : ProcStat)

/-- The fields between the command name and `stime`. -/
def fieldsBefore : List Text :=
  [[stat.state.toNat], signed stat.ppid, signed stat.pgrp, signed stat.session, signed stat.ttyNr,
    signed stat.tpgid, signed stat.flags, signed stat.minflt, signed stat.cminflt,
    signed stat.majflt, signed stat.cmajflt, decimal stat.utime.toNat]

def fields : List Text := stat.fieldsBefore ++ decimal stat.stime.toNat :: stat.rest.map signed

def line : Bytes :=
  (decimal stat.pid).map UInt8.ofNat ++ 32 :: 40 :: stat.comm ++
    41 :: (stat.fields.flatMap (32 :: ·) ++ [10]).map UInt8.ofNat

def ticks : ℕ := stat.utime.toNat + stat.stime.toNat

end ProcStat

/-- The process and the clock at a call of `sample`. -/
structure Snapshot where
  stat : Option ProcStat
  now : ℤ
  status : Option Bytes

def Snapshot.reading (p : Snapshot) : Reading := ⟨p.stat.map ProcStat.line, p.now, p.status⟩

def ProcStat.name (stat : ProcStat) : Text := 40 :: stat.comm.map UInt8.toNat ++ [41]

/-- ASCII characters other than white space. -/
def Plain (comm : Bytes) : Prop := ∀ b ∈ comm, b.toNat < 128 ∧ isSplitSpace b.toNat = false

instance (comm : Bytes) : Decidable (Plain comm) := inferInstanceAs (Decidable (∀ _ ∈ _, _))

theorem isSplitSpace_visible {c : ℕ} (h : 33 ≤ c) : isSplitSpace c = false := by
  simp only [isSplitSpace, isSpace, Bool.or_eq_false_iff, Bool.and_eq_false_imp, decide_eq_true_eq,
    decide_eq_false_iff_not]
  omega

theorem decimal_visible (n : ℕ) : decimal n ≠ [] ∧ ∀ c ∈ decimal n, 33 ≤ c ∧ c < 127 := by
  refine ⟨decimal_ne_nil n, fun c hc => ?_⟩
  have hrange := decimal_digits n c hc
  omega

theorem signed_visible (n : ℤ) : signed n ≠ [] ∧ ∀ c ∈ signed n, 33 ≤ c ∧ c < 127 := by
  obtain ⟨hne, hdigits⟩ := decimal_visible n.natAbs
  unfold signed
  split_ifs
  · exact ⟨List.cons_ne_nil _ _, List.forall_mem_cons.mpr ⟨by omega, hdigits⟩⟩
  · exact ⟨hne, hdigits⟩

theorem ProcStat.fields_visible (stat : ProcStat) :
    ∀ w ∈ stat.fields, w ≠ [] ∧ ∀ c ∈ w, 33 ≤ c ∧ c < 127 := by
  intro w hw
  rcases List.mem_append.mp hw with hbefore | hafter
  · simp only [ProcStat.fieldsBefore, List.mem_cons, List.not_mem_nil, or_false] at hbefore
    rcases hbefore with rfl | rfl | rfl | rfl | rfl | rfl | rfl | rfl | rfl | rfl | rfl | rfl
    · exact ⟨List.cons_ne_nil _ _, List.forall_mem_singleton.mpr stat.state_visible⟩
    all_goals first | exact signed_visible _ | exact decimal_visible _
  · rcases List.mem_cons.mp hafter with rfl | hrest
    · exact decimal_visible _
    · obtain ⟨n, -, rfl⟩ := List.mem_map.mp hrest
      exact signed_visible n

def ProcStat.text (stat : ProcStat) : Text :=
  decimal stat.pid ++ 32 :: (stat.name ++ stat.fields.flatMap (32 :: ·) ++ [10])

theorem toNat_ofNat {t : Text} (h : ∀ c ∈ t, c < 127) : (t.map UInt8.ofNat).map UInt8.toNat = t := by
  rw [List.map_map]
  refine (List.map_congr_left fun c hc => ?_).trans (List.map_id t)
  have hlt := h c hc
  rw [Function.comp_apply, UInt8.toNat_ofNat', Nat.mod_eq_of_lt (by omega), id]

/-- What follows the command name. -/
theorem ProcStat.tail_ascii (stat : ProcStat) :
    ∀ c ∈ stat.fields.flatMap (32 :: ·) ++ [10], c < 127 := by
  intro c hc
  rcases List.mem_append.mp hc with hfield | hend
  · obtain ⟨w, hw, hcw⟩ := List.mem_flatMap.mp hfield
    rcases List.mem_cons.mp hcw with rfl | hcw
    · omega
    · exact ((stat.fields_visible w hw).2 c hcw).2
  · rw [List.mem_singleton.mp hend]
    omega

theorem ProcStat.line_toNat (stat : ProcStat) : stat.line.map UInt8.toNat = stat.text := by
  have hpid : ∀ c ∈ decimal stat.pid, c < 127 := fun c hc => ((decimal_visible _).2 c hc).2
  rw [line, List.map_append, List.map_append, List.map_cons, List.map_cons, List.map_cons,
    toNat_ofNat hpid, toNat_ofNat stat.tail_ascii]
  simp [text, name]

theorem readAscii_line (stat : ProcStat) : readAscii (some stat.line) =
    if ∀ b ∈ stat.comm, b.toNat < 128 then .ok stat.text else .error .valueError := by
  have hiff : (∀ b ∈ stat.line, b.toNat < 128) ↔ ∀ b ∈ stat.comm, b.toNat < 128 := by
    have hpid : ∀ c ∈ decimal stat.pid, c < 128 := fun c hc =>
      ((decimal_visible _).2 c hc).2.trans (by omega)
    have htail : ∀ c ∈ stat.fields.flatMap (32 :: ·) ++ [10], c < 128 := fun c hc =>
      (stat.tail_ascii c hc).trans (by omega)
    rw [← List.forall_mem_map (f := UInt8.toNat) (P := fun c => c < 128), stat.line_toNat,
      ProcStat.text, List.append_assoc, List.forall_mem_append, List.forall_mem_cons,
      List.forall_mem_append, ProcStat.name, List.forall_mem_append, List.forall_mem_cons,
      List.forall_mem_map, List.forall_mem_singleton]
    exact ⟨fun h => h.2.2.1.1.2, fun h => ⟨hpid, by omega, ⟨⟨by omega, h⟩, by omega⟩, htail⟩⟩
  rw [readAscii, stat.line_toNat]
  simp only [hiff]

theorem split_text (stat : ProcStat) :
    split stat.text = decimal stat.pid :: (split stat.name ++ stat.fields) := by
  have hpid : words isSplitSpace (decimal stat.pid) = [decimal stat.pid] :=
    words_singleton (decimal_ne_nil _) fun c hc =>
      isSplitSpace_visible ((decimal_visible _).2 c hc).1
  have hfields : ∀ w ∈ stat.fields, w ≠ [] ∧ ∀ c ∈ w, isSplitSpace c = false := fun w hw =>
    ⟨(stat.fields_visible w hw).1, fun c hc =>
      isSplitSpace_visible ((stat.fields_visible w hw).2 c hc).1⟩
  rw [split, ProcStat.text, words_append_sep (by rfl), hpid, words_fields (by rfl) (by rfl) hfields]
  rfl

variable {stat : ProcStat} {p : Snapshot}

theorem split_name_plain (h : Plain stat.comm) : split stat.name = [stat.name] := by
  refine words_singleton (List.cons_ne_nil _ _) fun c hc => ?_
  have hmem : c ∈ 40 :: (stat.comm.map UInt8.toNat ++ [41]) := hc
  rw [List.mem_cons, List.mem_append, List.mem_singleton] at hmem
  rcases hmem with rfl | hcomm | rfl
  · rfl
  · obtain ⟨b, hb, rfl⟩ := List.mem_map.mp hcomm
    exact (h b hb).2
  · rfl

theorem cpuTicks_plain (h : Plain stat.comm) : cpuTicks rt (split stat.text) = .ok stat.ticks := by
  have hutime : item 13 (split stat.text) = .ok (decimal stat.utime.toNat) := by
    rw [split_text, split_name_plain h]
    rfl
  have hstime : item 14 (split stat.text) = .ok (decimal stat.stime.toNat) := by
    rw [split_text, split_name_plain h]
    rfl
  rw [cpuTicks, hutime, hstime, ok_bind, parseInt_decimal rt (tooLong_uint64 rt _), ok_bind, ok_bind,
    parseInt_decimal rt (tooLong_uint64 rt _)]
  rfl

/-- Behind a name of several words the fifteenth word stands before `stime`. -/
theorem cpuTicks_stime {b : UInt8} (hb : b ∈ stat.comm) (hspace : isSplitSpace b.toNat)
    (x : UInt64) :
    cpuTicks rt (split { stat with stime := x }.text) = cpuTicks rt (split stat.text) := by
  have hname : 2 ≤ (split stat.name).length :=
    two_le_words (by rfl) (by rfl) (List.mem_map_of_mem hb) hspace
  have hbefore : ∀ y : UInt64, ∀ i < 15, item i (split { stat with stime := y }.text) =
      item i (decimal stat.pid :: (split stat.name ++ stat.fieldsBefore)) := by
    intro y i hi
    have hcut : split { stat with stime := y }.text =
        (decimal stat.pid :: (split stat.name ++ stat.fieldsBefore)) ++
          decimal y.toNat :: stat.rest.map signed := by
      rw [split_text, ProcStat.fields, List.cons_append, List.append_assoc]
      rfl
    have hlength : i < (decimal stat.pid :: (split stat.name ++ stat.fieldsBefore)).length := by
      have htwelve : stat.fieldsBefore.length = 12 := rfl
      rw [List.length_cons, List.length_append]
      omega
    rw [item, item, hcut, List.getElem?_append_left hlength]
  have hstat := hbefore stat.stime
  rw [cpuTicks, cpuTicks, hbefore x 13 (by omega), hbefore x 14 (by omega), ← hstat 13 (by omega),
    ← hstat 14 (by omega)]

def Reading.ticks (r : Reading) : Except Exc ℤ := do cpuTicks rt (split (← readAscii r.stat))

def Reading.rss (r : Reading) : Except Exc ℤ := do rssKb rt (← readAscii r.status)

variable {r : Reading}

theorem sample_of_ticks {ticks : ℤ} (h : r.ticks rt = .ok ticks) (s : ProcessSampler) :
    sample rt r s = (do return (s.cpuPercent ticks r.now, ← r.rss rt),
      { s with previousCpu := some ticks, previousTime := some r.now }) := by
  obtain ⟨content, hread, hticks⟩ := bind_eq_ok.mp h
  have htaken : sample rt r s =
      (Exec.lift (r.rss rt) >>= fun rssKb => pure (s.cpuPercent ticks r.now, rssKb))
        { s with previousCpu := some ticks, previousTime := some r.now } := by
    have hset : ∀ t : ProcessSampler, (set t : Method ProcessSampler Unit) s = (.ok (), t) :=
      fun _ => rfl
    simp only [sample, Exec.bind_apply, Exec.lift_apply, hread, Exec.next_ok, hticks, Exec.get_apply,
      hset]
    rfl
  rw [htaken, Exec.bind_apply, Exec.lift_apply]
  cases r.rss rt with
  | error e => rfl
  | ok rss => rfl

theorem sample_of_error {e : Exc} (h : r.ticks rt = .error e) (s : ProcessSampler) :
    sample rt r s = (.error e, s) := by
  rw [Reading.ticks] at h
  cases hread : readAscii r.stat with
  | error e' =>
    rw [hread] at h
    rw [sample, Exec.bind_apply, Exec.lift_apply, hread, Exec.next_error, ← Except.error.inj h]
  | ok content =>
    rw [hread, ok_bind] at h
    rw [sample, Exec.bind_apply, Exec.lift_apply, hread, Exec.next_ok]
    simp only [Exec.bind_apply, Exec.lift_apply, h, Exec.next_error]

theorem ticks_plain (hstat : p.stat = some stat) (h : Plain stat.comm) :
    p.reading.ticks rt = .ok (stat.ticks : ℤ) := by
  have hread : readAscii p.reading.stat = .ok stat.text := by
    rw [Snapshot.reading, hstat, Option.map_some, readAscii_line, if_pos fun b hb => (h b hb).1]
  rw [Reading.ticks, hread, ok_bind, cpuTicks_plain rt h]

theorem ticks_missing (hstat : p.stat = none) : p.reading.ticks rt = .error .osError := by
  rw [Reading.ticks, Snapshot.reading, hstat]
  rfl

def after (clockTicks : ℕ+) (past : List Snapshot) : ProcessSampler :=
  past.foldl (fun s p => (sample rt p.reading s).2) (.init clockTicks)

/-- The ticks and the time of the last call before that found the process. -/
def lastSample (past : List Snapshot) : Option (ℕ × ℤ) :=
  (past.filterMap fun p => p.stat.map fun stat => (stat.ticks, p.now)).getLast?

/-- The percentage of one processor that was used since the last sample. -/
def usage (clockTicks : ℕ+) (last : Option (ℕ × ℤ)) (ticks : ℕ) (now : ℤ) : ℚ :=
  match last with
  | none => 0
  | some (ticks', now') =>
    100 * ((ticks : ℚ) - ticks') / ((clockTicks : ℕ) * (((now : ℚ) - now') / 1000000000))

def Named (names : Set Bytes) (past : List Snapshot) : Prop :=
  ∀ p ∈ past, ∀ stat, p.stat = some stat → stat.comm ∈ names

/-- A call takes the right counters and returns the right percentage, unless `status` cannot be
read. -/
def SamplesRight (clockTicks : ℕ+) (past : List Snapshot) (p : Snapshot) : Prop :=
  ∀ stat, p.stat = some stat →
    let out := sample rt p.reading (after rt clockTicks past)
    out.2.previousCpu = some (stat.ticks : ℤ) ∧
      out.1 = (do return (usage clockTicks (lastSample past) stat.ticks p.now, ← p.reading.rss rt))

variable {rt} {clockTicks : ℕ+} {names : Set Bytes} {past : List Snapshot}

theorem lastSample_append (past : List Snapshot) (p : Snapshot) : lastSample (past ++ [p]) =
    match p.stat with
    | some stat => some (stat.ticks, p.now)
    | none => lastSample past := by
  rw [lastSample, List.filterMap_append]
  cases hstat : p.stat with
  | none => simp [hstat, lastSample]
  | some stat => simp [hstat]

/-- The sampler holds the ticks and the time of the last sample. -/
theorem after_eq (hnames : ∀ comm ∈ names, Plain comm) (hpast : Named names past) :
    after rt clockTicks past =
      ⟨clockTicks, (lastSample past).map fun last => (last.1 : ℤ),
          (lastSample past).map Prod.snd⟩ := by
  induction past using List.reverseRecOn with
  | nil => rfl
  | append_singleton past p ih =>
    have hbefore := ih fun q hq => hpast q (List.mem_append_left _ hq)
    have hstep : after rt clockTicks (past ++ [p]) =
        (sample rt p.reading (after rt clockTicks past)).2 := by
      rw [after, List.foldl_append]
      rfl
    rw [hstep, lastSample_append]
    cases hstat : p.stat with
    | none => rw [sample_of_error rt (ticks_missing rt hstat), hbefore]
    | some stat =>
      have hplain := hnames _ (hpast p (by simp) stat hstat)
      rw [sample_of_ticks rt (ticks_plain rt hstat hplain), hbefore]
      rfl

theorem cpuPercent_eq_usage (last : Option (ℕ × ℤ)) (ticks : ℕ) (now : ℤ) :
    (⟨clockTicks, last.map fun last => (last.1 : ℤ), last.map Prod.snd⟩ : ProcessSampler).cpuPercent
      ticks now = usage clockTicks last ticks now := by
  cases last with
  | none => rfl
  | some last =>
    simp only [ProcessSampler.cpuPercent, Option.map_some, usage, Int.cast_natCast]
    split_ifs with hwall
    · rw [hwall, mul_zero, div_zero]
    · rw [mul_div_assoc', div_div]

/-- A line with a command name and a value of `stime`. -/
def statOf (comm : Bytes) (stime : UInt64) : ProcStat :=
  ⟨1, comm, 83, 0, 0, 0, 0, 0, 0, 0, 0, 0, 0, 0, stime, [], by decide⟩

/-- A first sample that takes the right counters has read the line. -/
theorem ticks_of_samplesRight (h : SamplesRight rt clockTicks [] p) (hstat : p.stat = some stat) :
    (∀ b ∈ stat.comm, b.toNat < 128) ∧ cpuTicks rt (split stat.text) = .ok (stat.ticks : ℤ) := by
  obtain ⟨hticks, -⟩ := h stat hstat
  have hread : p.reading.ticks rt = .ok (stat.ticks : ℤ) := by
    cases hout : p.reading.ticks rt with
    | error e =>
      rw [sample_of_error rt hout] at hticks
      cases hticks
    | ok ticks =>
      rw [sample_of_ticks rt hout] at hticks
      rw [Option.some.inj hticks]
  rw [Reading.ticks, Snapshot.reading, hstat, Option.map_some, readAscii_line] at hread
  split_ifs at hread with hascii
  · exact ⟨hascii, hread⟩
  · cases hread

variable (rt clockTicks names) in
/-- **The sampler reads the right counters.** It does so in all runs of processes whose command
names are in a set, exactly when all of these are plain. -/
theorem samplesRight_iff : (∀ past p, Named names (past ++ [p]) →
    SamplesRight rt clockTicks past p) ↔
    ∀ comm ∈ names, Plain comm := by
  constructor
  · intro hall comm hcomm b hb
    have hright : ∀ stime, SamplesRight rt clockTicks [] ⟨some (statOf comm stime), 0, none⟩ := by
      intro stime
      apply hall
      intro p hp stat hstat
      rw [List.mem_singleton.mp hp] at hstat
      rw [← Option.some.inj hstat]
      exact hcomm
    have hzero := ticks_of_samplesRight (hright 0) rfl
    have hone := ticks_of_samplesRight (hright 1) rfl
    refine ⟨hzero.1 b hb, ?_⟩
    by_contra hspace
    -- the two lines differ in `stime` only
    have hmem : b ∈ (statOf comm 0).comm := hb
    have hsame := cpuTicks_stime rt hmem (by simpa using hspace) 1
    have hequal := hsame.symm.trans hone.2
    rw [hzero.2] at hequal
    cases hequal
  · intro hnames past p hnamed stat hstat
    have hplain := hnames _ (hnamed p (by simp) stat hstat)
    have hpast : Named names past := fun q hq => hnamed q (List.mem_append_left _ hq)
    rw [sample_of_ticks rt (ticks_plain rt hstat hplain), after_eq hnames hpast]
    exact ⟨rfl, by rw [cpuPercent_eq_usage]; rfl⟩

/-- A process named `a b`, at some time and with some system time. -/
def spaced (stime : UInt64) (now : ℤ) : Snapshot :=
  ⟨some (statOf (asciiBytes "a b") stime), now, some (asciiBytes "VmRSS:\t4 kB\n")⟩

/-- It uses half a second of the processor in a second, and the sampler returns zero percent. -/
theorem samplesRight_spaced :
    (sample plainRuntime (spaced 50 1000000000).reading (after plainRuntime 100 [spaced 0 0])).1 =
        .ok (0, 4) ∧
      usage 100 (lastSample [spaced 0 0]) 50 1000000000 = 50 ∧
      ¬ SamplesRight plainRuntime 100 [spaced 0 0] (spaced 50 1000000000) := by
  have hout : (sample plainRuntime (spaced 50 1000000000).reading
      (after plainRuntime 100 [spaced 0 0])).1 = .ok (0, 4) := by decide +kernel
  have husage : usage 100 (lastSample [spaced 0 0]) 50 1000000000 = 50 := by decide +kernel
  refine ⟨hout, husage, fun hright => ?_⟩
  obtain ⟨-, hpercent⟩ := hright _ rfl
  rw [hout] at hpercent
  obtain ⟨rss, -, hpair⟩ := bind_eq_ok.mp hpercent.symm
  have hzero : usage 100 (lastSample [spaced 0 0]) 50 1000000000 = 0 :=
    congrArg Prod.fst (Except.ok.inj hpair)
  rw [husage] at hzero
  norm_num at hzero

end Cote3Mon.Collection
