import Cote3Mon.Features.Aggregate
import Cote3Mon.Gateway.Fingerprints
import Cote3Mon.Lib.Words
import Cote3Mon.Optee.Backend
import Cote3Mon.Python.Objects

namespace Cote3Mon.Gateway
open ByteText Cote3Mon.Python Protocol Protocol.C Rounding Words

-- The `fprintf` of `log_event`, `read_jsonl` of `cote3mon/features.py`, and what `aggregate_events`
-- takes from a line. Whatever the identifiers are, a line is read as the object of its fields.

/-- `(double)(end_ns - start_ns) / 1000.0`. -/
def latencyUs (latencyNs : UInt64) : ℚ := roundDouble (roundDouble latencyNs.toNat / 1000)

/-- `%.3f` of a number that is not negative. -/
def printFixed (q : ℚ) : Text :=
  let thousandths := (roundHalfEven (q * 1000)).toNat
  decimal (thousandths / 1000) ++
    46 :: [48 + thousandths / 100 % 10, 48 + thousandths / 10 % 10, 48 + thousandths % 10]

def chars (bs : Bytes) : Text := bs.map UInt8.toNat

/-- The `fprintf` of `log_event`. -/
def eventLine (e : Event) : Text :=
  text "\x7b\"container_id\":\"" ++ chars e.containerId ++
    text "\",\"error_origin\":\"" ++ text e.errorOrigin ++
    text "\",\"event_type\":\"request\",\"input_bytes\":" ++ decimal e.inputBytes.toNat ++
    text ",\"is_attack\":" ++ (if e.isAttack then text "true" else text "false") ++
    text ",\"key_fingerprint\":\"" ++ e.keyFingerprint ++
    text "\",\"latency_us\":" ++ printFixed (latencyUs e.latencyNs) ++
    text ",\"operation\":\"" ++ text e.operation ++
    text "\",\"request_id\":" ++ decimal e.requestId.toNat ++
    text ",\"result\":\"" ++ text e.result ++
    text "\",\"run_id\":\"" ++ chars e.runId ++
    text "\",\"scenario\":\"" ++ chars e.scenario ++
    text "\",\"request_fingerprint\":\"" ++ e.requestFingerprint ++
    text "\",\"ts_unix_ns\":" ++ decimal e.tsUnixNs.toNat ++ text "\x7d\n"

def telemetryText (events : List Event) : Text := events.flatMap eventLine

/-- A character that ends a line when newlines are translated. -/
def isLineEnd (c : ℕ) : Bool := c = 10 || c = 13

variable (rt : Runtime)

/-- `read_jsonl` of one file with the text `t`.  A blank line is skipped, so it makes no difference
whether a carriage return and a line feed end one line or two. -/
def readJsonl (t : Text) : Except Exc (List Json) :=
  ((words isLineEnd t).filter fun line => Optee.strip line ≠ []).mapM (loads rt)

/-- `event.get(name)` where the collectors write a text. -/
def textMember (d : Dict) (name : String) : Option (Option Text) :=
  match d.lookup (text name) with
  | none => some none
  | some (.str t) => some (some t)
  | some _ => none

/-- `event.get(name)` where the collectors write a number. -/
def numberMember (d : Dict) (name : String) : Option (Option ℚ) :=
  match d.lookup (text name) with
  | none => some none
  | some (.int n) => some (some n)
  | some (.float f) => f.value?.map some
  | some _ => none

def flagMember (d : Dict) (name : String) : Option (Option Bool) :=
  match d.lookup (text name) with
  | none => some none
  | some (.bool b) => some (some b)
  | some _ => none

/-- What `aggregate_events` takes from a line; `none` where a member has a type that the collectors
do not write. -/
def eventOf (line : Json) : Option Features.Event := do
  let .obj d := line | none
  let some (.int tsUnixNs) := d.lookup (text "ts_unix_ns") | none
  return {
    eventType := ← textMember d "event_type"
    runId := ← textMember d "run_id"
    tsUnixNs := tsUnixNs
    scenario := ← textMember d "scenario"
    isAttack := ← flagMember d "is_attack"
    operation := ← textMember d "operation"
    result := ← textMember d "result"
    latencyUs := ← numberMember d "latency_us"
    inputBytes := ← numberMember d "input_bytes"
    cpuPercent := ← numberMember d "cpu_percent"
    rssKb := ← numberMember d "rss_kb"
    keyFingerprint := ← textMember d "key_fingerprint"
    requestFingerprint := ← textMember d "request_fingerprint" }

/-- A letter, a digit, or one of `-`, `_` and `.`. -/
def IsWord (c : ℕ) : Prop :=
  97 ≤ c ∧ c ≤ 122 ∨ 65 ≤ c ∧ c ≤ 90 ∨ 48 ≤ c ∧ c ≤ 57 ∨ c = 45 ∨ c = 95 ∨ c = 46

instance (c : ℕ) : Decidable (IsWord c) := inferInstanceAs (Decidable (_ ∨ _))

variable {e : Event} {c : ℕ}

theorem IsWord.plain (h : IsWord c) : IsPlain c := by
  unfold IsWord at h
  unfold IsPlain
  omega

theorem isWord_of_isSafe {value : UInt8} (h : isSafe value) : IsWord value.toNat := by
  simp only [isSafe, Bool.or_eq_true, Bool.and_eq_true, decide_eq_true_eq, UInt8.le_iff_toNat_le,
    ← UInt8.toNat_inj, UInt8.reduceToNat] at h
  unfold IsWord
  omega

/-- A safe identifier is not empty and holds nothing but words, whatever the variable holds. -/
theorem safeIdentifier_words {targetSize : ℕ} (h : 2 ≤ targetSize) (source : Option Bytes) :
    chars (safeIdentifier targetSize source) ≠ [] ∧
      ∀ c ∈ chars (safeIdentifier targetSize source), IsWord c := by
  unfold safeIdentifier
  dsimp only
  generalize hsource : (if (source.getD []).takeWhile (· ≠ 0) = [] then unknownIdentifier
    else (source.getD []).takeWhile (· ≠ 0)) = name
  have hname : name ≠ [] := by
    rw [← hsource]
    split_ifs with hempty
    · exact List.cons_ne_nil _ _
    · exact hempty
  constructor
  · intro hnil
    have htake : name.take (targetSize - 1) = [] :=
      List.map_eq_nil_iff.mp (List.map_eq_nil_iff.mp hnil)
    rcases List.take_eq_nil_iff.mp htake with hzero | hnil
    · omega
    · exact hname hnil
  · intro c hc
    obtain ⟨b, hb, rfl⟩ := List.mem_map.mp hc
    obtain ⟨value, -, rfl⟩ := List.mem_map.mp hb
    split_ifs with hsafe
    · exact isWord_of_isSafe hsafe
    · decide

def eventTexts (e : Event) : List Text :=
  [chars e.containerId, text e.errorOrigin, e.keyFingerprint, text e.operation, text e.result,
    chars e.runId, chars e.scenario, e.requestFingerprint]

/-- All texts of an event consist of words. -/
def Printable (e : Event) : Prop := ∀ t ∈ eventTexts e, ∀ c ∈ t, IsWord c

theorem isWord_of_isHex (h : IsHex c) : IsWord c := by
  unfold IsHex at h
  unfold IsWord
  omega

theorem hex16_words (value : UInt64) : ∀ c ∈ hex16 value, IsWord c := fun c hc =>
  isWord_of_isHex (hexEncode_isHex _ c hc)

theorem operationName_words (operation : UInt16) :
    ∀ c ∈ text (c3mOperationName operation), IsWord c := by
  unfold c3mOperationName
  split_ifs <;> decide

theorem statusName_words (status : UInt16) : ∀ c ∈ text (c3mStatusName status), IsWord c := by
  unfold c3mStatusName
  split_ifs <;> decide

theorem printable_logEvent (order : ByteOrder) (secret : UInt64) (telemetry : Bool)
    (env : Environment) (parsed : Option Request) (status : UInt16) (latencyNs tsUnixNs : UInt64) :
    Printable (logEvent (mainConfig order secret telemetry env) parsed status latencyNs
        tsUnixNs) := by
  have hidentifier : ∀ source, ∀ c ∈ chars (safeIdentifier 65 source), IsWord c := fun source =>
    (safeIdentifier_words (by decide) source).2
  have hstatus := statusName_words status
  intro t ht
  simp only [eventTexts, List.mem_cons, List.not_mem_nil, or_false] at ht
  rcases ht with rfl | rfl | rfl | rfl | rfl | rfl | rfl | rfl
  · exact hidentifier env.containerId
  · unfold logEvent
    dsimp only
    split_ifs <;> decide
  · cases parsed with
    | none => exact fun c hc => absurd hc List.not_mem_nil
    | some request => exact hex16_words _
  · cases parsed with
    | none => exact (by decide : ∀ c ∈ text "REJECT", IsWord c)
    | some request => exact operationName_words request.operation
  · exact hstatus
  · exact hidentifier env.runId
  · exact hidentifier env.scenario
  · cases parsed with
    | none => exact fun c hc => absurd hc List.not_mem_nil
    | some request => exact hex16_words _

def lineMembers (e : Event) : List (Text × Text) :=
  [(text "container_id", quoted (chars e.containerId)),
    (text "error_origin", quoted (text e.errorOrigin)),
    (text "event_type", quoted (text "request")), (text "input_bytes", decimal e.inputBytes.toNat),
    (text "is_attack", if e.isAttack then text "true" else text "false"),
    (text "key_fingerprint", quoted e.keyFingerprint),
    (text "latency_us", printFixed (latencyUs e.latencyNs)),
    (text "operation", quoted (text e.operation)),
    (text "request_id", decimal e.requestId.toNat), (text "result", quoted (text e.result)),
    (text "run_id", quoted (chars e.runId)), (text "scenario", quoted (chars e.scenario)),
    (text "request_fingerprint", quoted e.requestFingerprint),
    (text "ts_unix_ns", decimal e.tsUnixNs.toNat)]

def lineDict (e : Event) : Dict :=
  [(text "container_id", .str (chars e.containerId)),
    (text "error_origin", .str (text e.errorOrigin)),
    (text "event_type", .str (text "request")), (text "input_bytes", .int e.inputBytes.toNat),
    (text "is_attack", .bool e.isAttack), (text "key_fingerprint", .str e.keyFingerprint),
    (text "latency_us", .float (rt.parseFloat (printFixed (latencyUs e.latencyNs)))),
    (text "operation", .str (text e.operation)), (text "request_id", .int e.requestId.toNat),
    (text "result", .str (text e.result)), (text "run_id", .str (chars e.runId)),
    (text "scenario", .str (chars e.scenario)),
    (text "request_fingerprint", .str e.requestFingerprint),
    (text "ts_unix_ns", .int e.tsUnixNs.toNat)]

def lineBody (e : Event) : Text :=
  123 :: (joined [] ((lineMembers e).map (memberText [])) ++ [125])

theorem eventLine_eq (e : Event) : eventLine e = lineBody e ++ [10] := by
  unfold eventLine
  rw [show text "\x7b\"container_id\":\"" = 123 :: 34 ::
    (text "container_id" ++ [34, 58, 34]) from rfl,
    show text "\",\"error_origin\":\"" = 34 :: 44 :: 34 ::
      (text "error_origin" ++ [34, 58, 34]) from rfl,
    show text "\",\"event_type\":\"request\",\"input_bytes\":" =
      34 :: 44 :: 34 :: (text "event_type" ++ [34, 58, 34] ++ text "request" ++
        34 :: 44 :: 34 :: (text "input_bytes" ++ [34, 58])) from rfl,
    show text ",\"is_attack\":" = 44 :: 34 :: (text "is_attack" ++ [34, 58]) from rfl,
    show text ",\"key_fingerprint\":\"" = 44 :: 34 ::
      (text "key_fingerprint" ++ [34, 58, 34]) from rfl,
    show text "\",\"latency_us\":" = 34 :: 44 :: 34 :: (text "latency_us" ++ [34, 58]) from rfl,
    show text ",\"operation\":\"" = 44 :: 34 :: (text "operation" ++ [34, 58, 34]) from rfl,
    show text "\",\"request_id\":" = 34 :: 44 :: 34 :: (text "request_id" ++ [34, 58]) from rfl,
    show text ",\"result\":\"" = 44 :: 34 :: (text "result" ++ [34, 58, 34]) from rfl,
    show text "\",\"run_id\":\"" = 34 :: 44 :: 34 :: (text "run_id" ++ [34, 58, 34]) from rfl,
    show text "\",\"scenario\":\"" = 34 :: 44 :: 34 :: (text "scenario" ++ [34, 58, 34]) from rfl,
    show text "\",\"request_fingerprint\":\"" =
      34 :: 44 :: 34 :: (text "request_fingerprint" ++ [34, 58, 34]) from rfl,
    show text "\",\"ts_unix_ns\":" = 34 :: 44 :: 34 :: (text "ts_unix_ns" ++ [34, 58]) from rfl,
    show text "\x7d\n" = [125, 10] from rfl]
  simp only [lineBody, lineMembers, joined, memberText, quoted, List.map_cons, List.map_nil,
    List.cons_append, List.append_assoc, List.nil_append]

theorem lineNames_plain : ∀ name ∈ ["container_id", "error_origin", "event_type", "input_bytes",
    "is_attack", "key_fingerprint", "latency_us", "operation", "request_id", "result", "run_id",
    "scenario", "request_fingerprint", "ts_unix_ns"], ∀ c ∈ text name, IsPlain c := by
  unfold IsPlain
  decide

theorem thousandths_digits (n : ℕ) :
    ∀ c ∈ [48 + n / 100 % 10, 48 + n / 10 % 10, 48 + n % 10], isDigit c := by
  intro c hc
  simp only [List.mem_cons, List.not_mem_nil, or_false] at hc
  simp only [isDigit, Bool.and_eq_true, decide_eq_true_eq]
  omega

theorem reads_printFixed (q : ℚ) : Reads rt (printFixed q)
    (.float (rt.parseFloat (printFixed q))) := by
  have hdigits := thousandths_digits (roundHalfEven (q * 1000)).toNat
  have hfraction : IsFraction _ := Or.inr ⟨_, rfl, List.cons_ne_nil _ _, hdigits⟩
  apply reads_float
  refine ⟨false, (roundHalfEven (q * 1000)).toNat / 1000, _, [], ?_, hfraction, Or.inl rfl,
    fun h => List.cons_ne_nil _ _ h.1⟩
  rw [List.append_nil]
  rfl

theorem readable_line (h : Printable e) : Readable rt (lineMembers e) (lineDict rt e) := by
  have htext : ∀ t ∈ eventTexts e, Reads rt (quoted t) (.str t) := fun t ht =>
    reads_str (spells_plain fun c hc => (h t ht c hc).plain)
  have hinput : rt.tooLong (decimal e.inputBytes.toNat) = false := by
    have hsame : e.inputBytes.toUInt64.toNat = e.inputBytes.toNat := UInt32.toNat_toUInt64 _
    rw [← hsame]
    exact tooLong_uint64 rt _
  have hname := lineNames_plain
  simp only [eventTexts, List.forall_mem_cons] at htext hname
  obtain ⟨hcontainer, horigin, hkey, hoperation, hresult, hrun, hscenario, hrequest, -⟩ := htext
  obtain ⟨h1, h2, h3, h4, h5, h6, h7, h8, h9, h10, h11, h12, h13, h14, -⟩ := hname
  have hplain : ∀ {t : Text}, (∀ c ∈ t, IsPlain c) → Spells t t := fun h => spells_plain h
  exact .cons ⟨hplain h1, hcontainer⟩ <| .cons ⟨hplain h2, horigin⟩ <|
    .cons ⟨hplain h3, reads_str (hplain (by unfold IsPlain; decide))⟩ <|
    .cons ⟨hplain h4, reads_decimal hinput⟩ <| .cons ⟨hplain h5, reads_bool e.isAttack⟩ <|
    .cons ⟨hplain h6, hkey⟩ <| .cons ⟨hplain h7, reads_printFixed rt _⟩ <|
    .cons ⟨hplain h8, hoperation⟩ <| .cons ⟨hplain h9, reads_decimal (tooLong_uint64 rt _)⟩ <|
    .cons ⟨hplain h10, hresult⟩ <| .cons ⟨hplain h11, hrun⟩ <| .cons ⟨hplain h12, hscenario⟩ <|
    .cons ⟨hplain h13, hrequest⟩ <| .cons ⟨hplain h14, reads_decimal (tooLong_uint64 rt _)⟩ .nil

theorem lineDict_nodup (e : Event) : ((lineDict rt e).map Prod.fst).Nodup := by
  simp only [lineDict, List.map_cons, List.map_nil]
  decide

theorem loads_lineBody (h : Printable e) : loads rt (lineBody e) = .ok (.obj (lineDict rt e)) := by
  have hempty : ∀ c ∈ ([] : Text), isJsonSpace c := fun c hc => absurd hc List.not_mem_nil
  have hreads : Reads rt (lineBody e) (.obj (Dict.ofPairs (lineDict rt e))) :=
    reads_obj hempty hempty hempty hempty (readable_line rt h) (List.cons_ne_nil _ _)
  have hloads := loads_reads hreads hempty
  rwa [List.append_nil, ofPairs_nodup (lineDict_nodup rt e)] at hloads

theorem IsWord.graphic (h : IsWord c) : IsGraphic c := by
  unfold IsWord at h
  unfold IsGraphic
  omega

theorem graphic_words {t : Text} (h : ∀ c ∈ t, IsWord c) : ∀ c ∈ quoted t, IsGraphic c :=
  graphic_quoted fun c hc => (h c hc).graphic

theorem graphic_printFixed (q : ℚ) : ∀ c ∈ printFixed q, IsGraphic c := by
  rw [printFixed, List.forall_mem_append, List.forall_mem_cons]
  exact ⟨graphic_decimal _, by unfold IsGraphic; omega,
    fun c hc => graphic_digit (thousandths_digits _ c hc)⟩

theorem graphic_lineBody (h : Printable e) : ∀ c ∈ lineBody e, IsGraphic c := by
  have htext : ∀ t ∈ eventTexts e, ∀ c ∈ quoted t, IsGraphic c := fun t ht => graphic_words (h t ht)
  have hname : ∀ name ∈ (lineMembers e).map Prod.fst, ∀ c ∈ name, IsGraphic c := by
    simp only [lineMembers, List.map_cons, List.map_nil]
    unfold IsGraphic
    decide
  have hempty : ∀ c ∈ ([] : Text), IsGraphic c := fun c hc => absurd hc List.not_mem_nil
  have hmark : ∀ c ∈ [34, 44, 58, 123, 125], IsGraphic c := by
    unfold IsGraphic
    decide
  rw [lineBody, List.forall_mem_cons, List.forall_mem_append, List.forall_mem_singleton]
  refine ⟨hmark 123 (by simp), forall_mem_joined (hmark 44 (by simp)) hempty fun t ht => ?_,
    hmark 125 (by simp)⟩
  obtain ⟨member, hmember, rfl⟩ := List.mem_map.mp ht
  refine forall_mem_memberText (hmark 34 (by simp)) (hmark 58 (by simp)) hempty
    (hname _ (List.mem_map_of_mem hmember)) ?_
  simp only [eventTexts, List.forall_mem_cons] at htext
  obtain ⟨hcontainer, horigin, hkey, hoperation, hresult, hrun, hscenario, hrequest, -⟩ := htext
  simp only [lineMembers, List.mem_cons, List.not_mem_nil, or_false] at hmember
  rcases hmember with rfl | rfl | rfl | rfl | rfl | rfl | rfl | rfl | rfl | rfl | rfl | rfl |
    rfl | rfl
  · exact hcontainer
  · exact horigin
  · exact graphic_words (by decide)
  · exact graphic_decimal _
  · cases e.isAttack
    · exact fun c hc => ((by decide : ∀ c ∈ text "false", IsWord c) c hc).graphic
    · exact fun c hc => ((by decide : ∀ c ∈ text "true", IsWord c) c hc).graphic
  · exact hkey
  · exact graphic_printFixed _
  · exact hoperation
  · exact graphic_decimal _
  · exact hresult
  · exact hrun
  · exact hscenario
  · exact hrequest
  · exact graphic_decimal _

variable {events : List Event}

theorem telemetryText_eq (events : List Event) :
    telemetryText events = (events.map lineBody).flatMap (· ++ [10]) := by
  rw [telemetryText, List.flatMap_map]
  exact List.flatMap_congr fun e _ => eventLine_eq e

theorem strip_ne_nil {c : ℕ} (h : Optee.isStripSpace c = false) (t : Text) :
    Optee.strip (c :: t) ≠ [] := by
  have hfirst : (c :: t).dropWhile Optee.isStripSpace = c :: t := by
    rw [List.dropWhile_cons, h]
    rfl
  rw [Optee.strip, hfirst, Ne, List.reverse_eq_nil_iff, List.dropWhile_eq_nil_iff]
  intro hall
  have hspace := hall c (by simp)
  rw [h] at hspace
  cases hspace

structure IsLine (line : Text) : Prop where
  start : ∃ c rest, line = c :: rest ∧ Optee.isStripSpace c = false
  ends : ∀ c ∈ line, isLineEnd c = false

/-- `read_jsonl` decodes line by line. -/
theorem readJsonl_lines {lines : List Text} (h : ∀ line ∈ lines, IsLine line) :
    readJsonl rt (lines.flatMap (· ++ [10])) = lines.mapM (loads rt) := by
  have hwords : words isLineEnd (lines.flatMap (· ++ [10])) = lines := by
    apply words_lines rfl
    intro line hline
    obtain ⟨c, rest, hstart, -⟩ := (h line hline).start
    exact ⟨by rw [hstart]; exact List.cons_ne_nil _ _, (h line hline).ends⟩
  have hkeep : lines.filter (fun line => Optee.strip line ≠ []) = lines := by
    apply List.filter_eq_self.mpr
    intro line hline
    obtain ⟨c, rest, hstart, hspace⟩ := (h line hline).start
    rw [hstart]
    exact decide_eq_true (strip_ne_nil hspace rest)
  rw [readJsonl, hwords, hkeep]

theorem isLine_lineBody (h : Printable e) : IsLine (lineBody e) := by
  refine ⟨⟨123, _, rfl, rfl⟩, fun c hc => ?_⟩
  have hgraphic := (graphic_lineBody h c hc).1
  simp only [isLineEnd, Bool.or_eq_false_iff, decide_eq_false_iff_not]
  omega

/-- `read_jsonl` accepts every line and finds the fields of its event. -/
theorem readJsonl_telemetryText (h : ∀ e ∈ events, Printable e) :
    readJsonl rt (telemetryText events) = .ok (events.map fun e => .obj (lineDict rt e)) := by
  have hlines : ∀ line ∈ events.map lineBody, IsLine line := by
    intro line hline
    obtain ⟨e, he, rfl⟩ := List.mem_map.mp hline
    exact isLine_lineBody (h e he)
  rw [telemetryText_eq, readJsonl_lines rt hlines, mapM_eq_ok, List.forall₂_map_left_iff,
    List.forall₂_map_right_iff, List.forall₂_same]
  exact fun e he => loads_lineBody rt (h e he)

/-- The text is ASCII, so its bytes are its characters. -/
theorem encodeUtf8_telemetryText (h : ∀ e ∈ events, Printable e) :
    encodeUtf8 (telemetryText events) = .ok ((telemetryText events).map UInt8.ofNat) := by
  have hascii : ∀ c ∈ telemetryText events, c < 128 := by
    intro c hc
    rw [telemetryText_eq] at hc
    obtain ⟨line, hline, hc⟩ := List.mem_flatMap.mp hc
    obtain ⟨e, he, rfl⟩ := List.mem_map.mp hline
    rcases List.mem_append.mp hc with hc | hc
    · exact (graphic_lineBody (h e he) c hc).2.trans (by omega)
    · rw [List.mem_singleton.mp hc]
      omega
  generalize telemetryText events = t at hascii
  induction t with
  | nil => rfl
  | cons c t ih =>
    obtain ⟨hc, ht⟩ := List.forall_mem_cons.mp hascii
    rw [encodeUtf8, utf8Char, if_pos hc, ih ht]
    rfl

/-- An event of the gateway, as `aggregate_events` sees it. -/
def readEvent (latency : ℚ) (e : Event) : Features.Event where
  eventType := some (text "request")
  runId := some (chars e.runId)
  tsUnixNs := e.tsUnixNs.toNat
  scenario := some (chars e.scenario)
  isAttack := some e.isAttack
  operation := some (text e.operation)
  result := some (text e.result)
  latencyUs := some latency
  inputBytes := some e.inputBytes.toNat
  cpuPercent := none
  rssKb := none
  keyFingerprint := some e.keyFingerprint
  requestFingerprint := some e.requestFingerprint

theorem eventOf_lineDict {latency : ℚ}
    (h : (rt.parseFloat (printFixed (latencyUs e.latencyNs))).value? = some latency) :
    eventOf (.obj (lineDict rt e)) = some (readEvent latency e) := by
  have hlatency : numberMember (lineDict rt e) "latency_us" = some (some latency) :=
    congrArg (Option.map some) h
  have hrest : eventOf (.obj (lineDict rt e)) = (numberMember (lineDict rt e) "latency_us").bind
      fun value => some { readEvent latency e with latencyUs := value } := rfl
  rw [hrest, hlatency]
  rfl

/-- `float` of a number with three decimals below `2 ^ 64` is finite. -/
def ReadsFractions (rt : Runtime) : Prop :=
  ∀ whole : ℕ, whole < 2 ^ 64 → ∀ digits : Text, digits.length = 3 → (∀ c ∈ digits, isDigit c) →
    (rt.parseFloat (decimal whole ++ 46 :: digits)).value?.isSome

theorem latencyUs_whole (latencyNs : UInt64) :
    (roundHalfEven (latencyUs latencyNs * 1000)).toNat / 1000 < 2 ^ 64 := by
  have hns : ((latencyNs.toNat : ℕ) : ℚ) < 2 ^ 64 := by exact_mod_cast latencyNs.toNat_lt
  have hpos : (0 : ℚ) ≤ latencyNs.toNat := Nat.cast_nonneg _
  have hdouble := roundDouble_le hpos
  have hdivided : 0 ≤ roundDouble (latencyNs.toNat : ℚ) / 1000 :=
    div_nonneg (roundDouble_nonneg hpos) (by norm_num)
  have hlatency : latencyUs latencyNs ≤ _ := roundDouble_le hdivided
  have hnear := abs_le.mp (roundHalfEven_near (latencyUs latencyNs * 1000))
  have hlt : (roundHalfEven (latencyUs latencyNs * 1000) : ℚ) < (1000 * 2 ^ 64 : ℤ) := by
    push_cast
    linarith [hnear.1]
  have hint : roundHalfEven (latencyUs latencyNs * 1000) < 1000 * 2 ^ 64 := by exact_mod_cast hlt
  omega

theorem exists_latency {rt : Runtime} (h : ReadsFractions rt) (latencyNs : UInt64) :
    ∃ latency, (rt.parseFloat (printFixed (latencyUs latencyNs))).value? = some latency :=
  Option.isSome_iff_exists.mp
    (h _ (latencyUs_whole latencyNs) _ rfl (thousandths_digits _))

end Cote3Mon.Gateway
