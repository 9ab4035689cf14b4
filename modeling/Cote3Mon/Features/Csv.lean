import Cote3Mon.Lib.Csv
import Cote3Mon.Monitor.Alerts
import Cote3Mon.Python.Dumps

namespace Cote3Mon.Features
open ByteText Cote3Mon.Python

def metaNames : List Text := ["run_id", "scenario", "is_attack", "window_start_ns"].map text

variable (rt : Runtime)

/-- `row[name]`. -/
def rowValue (row : Dict) (name : Text) : Except Exc Json :=
  match row.lookup name with
  | some v => .ok v
  | none => .error .keyError

/-- What the writer makes of a value: `str(v)`, and nothing of `None`. -/
def cellText : Json → Except Exc Text
  | .null => .ok []
  | v => rt.str v

/-- `writer.writerow`: nothing of a row is written that cannot be encoded. -/
def rowLine (values : List Json) : Except Exc Text := do
  let line := Csv.excel.row (← values.mapM (cellText rt))
  let _ ← encodeUtf8 line
  return line

def writeRows (names : List Text) (rows : List Dict) (file : Text) : Except Exc Unit × Text :=
  match rows with
  | [] => (.ok (), file)
  | row :: rest =>
    match names.mapM (rowValue row) >>= rowLine rt with
    | .error e => (.error e, file)
    | .ok line => writeRows names rest (file ++ line)

/-- How `write_csv` ends, and the file it leaves. -/
def writeCsv (rows : List Dict) (features : List Text) : Except Exc Unit × Text :=
  let names := metaNames ++ features
  match rowLine rt (names.map .str) with
  | .error e => (.error e, [])
  | .ok header => writeRows rt names rows header

/-- `csv.field_size_limit()`. -/
def fieldSizeLimit : ℕ := 131072

/-- `csv.Error` is no `ValueError`. -/
inductive ReadFailure where
  | csv (e : Csv.Error)
  | raised (e : Exc)
  deriving DecidableEq, Repr

/-- A row of `csv.DictReader`: what a short row lacks is `None`. -/
def readerDict (fieldnames row : List Text) : Dict :=
  Dict.ofPairs ((fieldnames.zip row).map (fun p => (p.1, .str p.2)) ++
    (fieldnames.drop row.length).map fun name => (name, .null))

/-- `float` of a text. -/
abbrev FloatOfText := Text → Except Exc PyFloat

def floatCell (float : FloatOfText) : Json → Except Exc PyFloat
  | .str t => float t
  | _ => .error .typeError

variable (float : FloatOfText)

def convertRow (features : List Text) (row : Dict) : Except Exc Dict := do
  let converted ← features.mapM fun name => do
    return (name, Json.float (← floatCell float (← rowValue row name)))
  let runId ← rowValue row (text "run_id")
  let scenario ← rowValue row (text "scenario")
  let isAttack ← rt.int (← rowValue row (text "is_attack"))
  let windowStartNs ← rt.int (← rowValue row (text "window_start_ns"))
  return Dict.ofPairs (converted ++ [(text "run_id", runId), (text "scenario", scenario),
    (text "is_attack", .int isAttack), (text "window_start_ns", .int windowStartNs)])

def readFeatureCsv (features : List Text) (file : Text) : Except ReadFailure (List Dict) :=
  match Csv.read Csv.excel fieldSizeLimit file with
  | ([], ended) => do
    ended.mapError .csv
    return []
  | (fieldnames :: rows, ended) => do
    let converted ← ((rows.filter (· ≠ [])).mapM fun row =>
      convertRow rt float features (readerDict fieldnames row)).mapError .raised
    ended.mapError .csv
    return converted

def IsScalar (c : ℕ) : Prop := c < 0xd800 ∨ 0xe000 ≤ c ∧ c < 0x110000

instance (c : ℕ) : Decidable (IsScalar c) := inferInstanceAs (Decidable (_ ∨ _))

theorem exists_encodeUtf8 {t : Text} (h : ∀ c ∈ t, IsScalar c) : ∃ bs, encodeUtf8 t = .ok bs := by
  induction t with
  | nil => exact ⟨[], rfl⟩
  | cons c t ih =>
    obtain ⟨hc, ht⟩ := List.forall_mem_cons.mp h
    obtain ⟨rest, hrest⟩ := ih ht
    have hchar : ∃ bs, utf8Char c = .ok bs := by
      unfold IsScalar at hc
      unfold utf8Char
      split_ifs <;> first | exact ⟨_, rfl⟩ | omega
    obtain ⟨bs, hbs⟩ := hchar
    exact ⟨bs ++ rest, by rw [encodeUtf8, hbs, hrest]; rfl⟩

theorem mem_cell {field : Text} {c : ℕ} (h : c ∈ Csv.excel.cell field) : c ∈ field ∨ c = 34 := by
  unfold Csv.Dialect.cell at h
  split_ifs at h
  · have hdouble : ∀ a, c ∈ Csv.excel.double a → c = a := by
      intro a ha
      unfold Csv.Dialect.double at ha
      split_ifs at ha <;> simpa using ha
    simp only [List.cons_append, List.mem_cons, List.mem_append, List.mem_flatMap, List.mem_nil_iff,
      or_false] at h
    rcases h with h | ⟨a, ha, hc⟩ | h
    · exact .inr h
    · exact .inl (hdouble a hc ▸ ha)
    · exact .inr h
  · exact .inl h

/-- The writer adds quotes, commas and line ends, and nothing else. -/
theorem mem_row {fields : List Text} {c : ℕ} (h : c ∈ Csv.excel.row fields) :
    (∃ field ∈ fields, c ∈ field) ∨ c ∈ [34, 44, 13, 10] := by
  have hjoin : ∀ fields, c ∈ Csv.excel.join fields →
      (∃ field ∈ fields, c ∈ field) ∨ c ∈ [34, 44, 13, 10] := by
    intro fields
    induction fields with
    | nil => exact fun h => absurd h List.not_mem_nil
    | cons field rest ih =>
      intro h
      have hsplit : c ∈ Csv.excel.cell field ∨ c = 44 ∨ c ∈ Csv.excel.join rest := by
        cases rest with
        | nil => exact .inl h
        | cons next rest => simpa [Csv.join_cons, Csv.excel] using h
      rcases hsplit with hcell | rfl | hrest
      · rcases mem_cell hcell with hfield | rfl
        · exact .inl ⟨field, List.mem_cons_self, hfield⟩
        · exact .inr (by decide)
      · exact .inr (by decide)
      · exact (ih hrest).imp_left fun ⟨f, hf, hc⟩ => ⟨f, List.mem_cons_of_mem _ hf, hc⟩
  unfold Csv.Dialect.row at h
  rcases List.mem_append.mp h with h | h
  · split_ifs at h
    · exact .inr (by simp [Csv.excel] at h; simp [h])
    · exact hjoin fields h
  · exact .inr (by simp at h; rcases h with rfl | rfl <;> decide)

variable {rt float}

theorem rowLine_eq {values : List Json} {cells : List Text}
    (h : List.Forall₂ (fun v t => cellText rt v = .ok t) values cells)
    (hscalar : ∀ t ∈ cells, ∀ c ∈ t, IsScalar c) :
    rowLine rt values = .ok (Csv.excel.row cells) := by
  have hline : ∀ c ∈ Csv.excel.row cells, IsScalar c := by
    intro c hc
    rcases mem_row hc with ⟨t, ht, hc⟩ | hc
    · exact hscalar t ht c hc
    · simp only [List.mem_cons, List.mem_nil_iff, or_false] at hc
      rcases hc with rfl | rfl | rfl | rfl <;> decide
  obtain ⟨bs, hbs⟩ := exists_encodeUtf8 hline
  rw [rowLine, mapM_eq_ok.mpr h, ok_bind]
  dsimp only
  rw [hbs]
  rfl

theorem lookup_set (d : Dict) (key name : Text) (v : Json) :
    (d.set key v).lookup name = if name = key then some v else d.lookup name := by
  induction d with
  | nil => by_cases h : name = key <;> simp [Dict.set, h]
  | cons first rest ih =>
    rw [Dict.set]
    by_cases hfirst : first.1 = key
    · rw [if_pos hfirst]
      by_cases h : name = key
      · simp [h]
      · have hname : (name == first.1) = false := by simpa [hfirst] using h
        have hkey : (name == key) = false := by simpa using h
        rw [List.lookup_cons, List.lookup_cons, hname, hkey, if_neg h]
    · rw [if_neg hfirst, List.lookup_cons, List.lookup_cons, ih]
      cases hname : name == first.1 with
      | false => rfl
      | true =>
        have hkey : ¬name = key := fun hk => hfirst ((beq_iff_eq.mp hname).symm.trans hk)
        simp only [if_neg hkey]

/-- The last pair of a name is its member. -/
theorem lookup_ofPairs (pairs : List (Text × Json)) (name : Text) :
    (Dict.ofPairs pairs).lookup name = pairs.reverse.lookup name := by
  induction pairs using List.reverseRecOn with
  | nil => rfl
  | append_singleton pairs pair ih =>
    rw [Dict.ofPairs, List.foldl_append, ← Dict.ofPairs, List.reverse_concat, List.lookup_cons]
    change ((Dict.ofPairs pairs).set pair.1 pair.2).lookup name = _
    rw [lookup_set, ih]
    by_cases h : name = pair.1
    · simp [h]
    · have hname : (name == pair.1) = false := by simpa using h
      rw [if_neg h, hname]

theorem lookup_map_pair {names : List Text} {name : Text} (h : name ∈ names) (g : Text → Json) :
    (names.map fun n => (n, g n)).lookup name = some (g name) := by
  induction names with
  | nil => exact absurd h List.not_mem_nil
  | cons first rest ih =>
    rw [List.map_cons, List.lookup_cons]
    cases hname : name == first with
    | true => rw [beq_iff_eq.mp hname]
    | false =>
      have hne : name ≠ first := by simpa using hname
      exact ih ((List.mem_cons.mp h).resolve_left hne)

/-- A row that the file can hold. -/
structure Storable (rt : Runtime) (float : FloatOfText) (features : List Text) (row : Dict) :
    Prop where
  texts : ∀ name ∈ ["run_id", "scenario"].map text, ∃ t, row.lookup name = some (.str t) ∧
    ∀ c ∈ t, IsScalar c
  wholes : ∀ name ∈ ["is_attack", "window_start_ns"].map text, ∃ n t,
    row.lookup name = some (.int n) ∧ rt.intText n = .ok t
  /-- The `repr` of a float is read back as the float. -/
  floats : ∀ name ∈ features, ∃ f t, row.lookup name = some (.float f) ∧
    rt.str (.float f) = .ok t ∧ (∀ c ∈ t, IsScalar c) ∧ float t = .ok f

def featureRow (features : List Text) (row : Dict) : Dict :=
  Dict.ofPairs ((features ++ metaNames).map fun name => (name, (row.lookup name).getD .null))

def cellOf (rt : Runtime) (row : Dict) (name : Text) : Text :=
  ((rowValue row name >>= cellText rt).toOption).getD []

def Fits (rt : Runtime) (features : List Text) (row : Dict) : Prop :=
  ∀ name ∈ metaNames ++ features, (cellOf rt row name).length ≤ fieldSizeLimit

instance (rt : Runtime) (features : List Text) (row : Dict) : Decidable (Fits rt features row) :=
  inferInstanceAs (Decidable (∀ _ ∈ _, _))

theorem cellOf_eq {row : Dict} {name : Text} {v : Json} {t : Text} (hv : row.lookup name = some v)
    (ht : cellText rt v = .ok t) : cellOf rt row name = t := by
  rw [cellOf, rowValue, hv]
  dsimp only
  rw [ok_bind, ht]
  rfl

variable {features : List Text} {row : Dict}

theorem Storable.cell (h : Storable rt float features row) :
    ∀ name ∈ metaNames ++ features, ∃ v t, row.lookup name = some v ∧ cellText rt v = .ok t ∧
      ∀ c ∈ t, IsScalar c := by
  intro name hname
  rcases List.mem_append.mp hname with hmeta | hfeature
  · rcases List.mem_append.mp (show name ∈ ["run_id", "scenario"].map text ++
      ["is_attack", "window_start_ns"].map text from hmeta) with htext | hwhole
    · obtain ⟨t, hlookup, hscalar⟩ := h.texts name htext
      exact ⟨.str t, t, hlookup, rfl, hscalar⟩
    · obtain ⟨n, t, hlookup, ht⟩ := h.wholes name hwhole
      exact ⟨.int n, t, hlookup, ht, fun c hc =>
        .inl ((graphic_intText rt ht c hc).2.trans (by omega))⟩
  · obtain ⟨f, t, hlookup, ht, hscalar, -⟩ := h.floats name hfeature
    exact ⟨.float f, t, hlookup, ht, hscalar⟩

theorem Storable.rowLine (h : Storable rt float features row) :
    ((metaNames ++ features).mapM (rowValue row) >>= Features.rowLine rt) =
      .ok (Csv.excel.row ((metaNames ++ features).map (cellOf rt row))) := by
  have hvalues : (metaNames ++ features).mapM (rowValue row) =
      .ok ((metaNames ++ features).map fun name => (row.lookup name).getD .null) := by
    rw [mapM_eq_ok, List.forall₂_map_right_iff, List.forall₂_same]
    intro name hname
    obtain ⟨v, t, hlookup, -⟩ := h.cell name hname
    rw [rowValue, hlookup]
    rfl
  rw [hvalues, ok_bind]
  apply rowLine_eq
  · rw [List.forall₂_map_left_iff, List.forall₂_map_right_iff, List.forall₂_same]
    intro name hname
    obtain ⟨v, t, hlookup, ht, -⟩ := h.cell name hname
    rw [cellOf_eq hlookup ht, hlookup]
    exact ht
  · intro t ht
    obtain ⟨name, hname, rfl⟩ := List.mem_map.mp ht
    obtain ⟨v, t, hlookup, ht, hscalar⟩ := h.cell name hname
    rw [cellOf_eq hlookup ht]
    exact hscalar

theorem writeRows_eq {rows : List Dict} (h : ∀ row ∈ rows, Storable rt float features row)
    (file : Text) :
    writeRows rt (metaNames ++ features) rows file = (.ok (), file ++
      (rows.map fun row => (metaNames ++ features).map (cellOf rt row)).flatMap Csv.excel.row) := by
  induction rows generalizing file with
  | nil => rw [List.map_nil, List.flatMap_nil, List.append_nil, writeRows]
  | cons row rest ih =>
    obtain ⟨hrow, hrest⟩ := List.forall_mem_cons.mp h
    rw [writeRows, hrow.rowLine]
    dsimp only
    rw [ih hrest, List.map_cons, List.flatMap_cons, List.append_assoc]

/-- The reader's dict of a row has the texts of its cells. -/
theorem lookup_readerDict {names : List Text} {name : Text} (h : name ∈ names) (g : Text → Text) :
    (readerDict names (names.map g)).lookup name = some (.str (g name)) := by
  have hpairs : (names.zip (names.map g)).map (fun p => (p.1, Json.str p.2)) =
      names.map fun n => (n, .str (g n)) := by
    clear h
    induction names with
    | nil => rfl
    | cons n rest ih => rw [List.map_cons, List.zip_cons_cons, List.map_cons, ih, List.map_cons]
  rw [readerDict, lookup_ofPairs, hpairs, List.length_map, List.drop_length, List.map_nil,
    List.append_nil, ← List.map_reverse]
  exact lookup_map_pair (List.mem_reverse.mpr h) fun n => .str (g n)

theorem rowValue_readerDict {names : List Text} {name : Text} (h : name ∈ names) (g : Text → Text) :
    rowValue (readerDict names (names.map g)) name = .ok (.str (g name)) := by
  rw [rowValue, lookup_readerDict h]

theorem Storable.convertRow (h : Storable rt float features row) {chosen : List Text}
    (hchosen : chosen ⊆ features) :
    Features.convertRow rt float chosen
      (readerDict (metaNames ++ features) ((metaNames ++ features).map (cellOf rt row))) =
      .ok (featureRow chosen row) := by
  have hconverted : (chosen.mapM fun name => do
      return (name, Json.float (← floatCell float (← rowValue (readerDict (metaNames ++ features)
        ((metaNames ++ features).map (cellOf rt row))) name)))) =
      .ok (chosen.map fun name => (name, (row.lookup name).getD .null)) := by
    rw [mapM_eq_ok, List.forall₂_map_right_iff, List.forall₂_same]
    intro name hname
    have hfeature := hchosen hname
    obtain ⟨f, t, hlookup, ht, -, hfloat⟩ := h.floats name hfeature
    rw [rowValue_readerDict (List.mem_append_right _ hfeature),
      cellOf_eq hlookup (v := .float f) (t := t) ht, hlookup]
    change (do return (name, Json.float (← float t))) = _
    rw [hfloat]
    rfl
  have hmeta : ∀ name ∈ metaNames, rowValue (readerDict (metaNames ++ features)
      ((metaNames ++ features).map (cellOf rt row))) name = .ok (.str (cellOf rt row name)) :=
    fun name hname => rowValue_readerDict (List.mem_append_left _ hname) _
  have htext : ∀ name ∈ ["run_id", "scenario"].map text,
      .str (cellOf rt row name) = (row.lookup name).getD .null := by
    intro name hname
    obtain ⟨t, hlookup, -⟩ := h.texts name hname
    rw [cellOf_eq hlookup (v := .str t) (t := t) rfl, hlookup]
    rfl
  have hwhole : ∀ name ∈ ["is_attack", "window_start_ns"].map text, ∃ n,
      rt.int (.str (cellOf rt row name)) = .ok n ∧ .int n = (row.lookup name).getD .null := by
    intro name hname
    obtain ⟨n, t, hlookup, ht⟩ := h.wholes name hname
    rw [cellOf_eq hlookup (v := .int n) (t := t) ht, hlookup]
    exact ⟨n, parseInt_intText rt ht, rfl⟩
  obtain ⟨attack, hattack, hattackValue⟩ := hwhole (text "is_attack") (by decide)
  obtain ⟨start, hstart, hstartValue⟩ := hwhole (text "window_start_ns") (by decide)
  rw [Features.convertRow, hconverted, ok_bind, hmeta (text "run_id") (by decide), ok_bind,
    hmeta (text "scenario") (by decide), ok_bind, hmeta (text "is_attack") (by decide), ok_bind,
    hattack, ok_bind, hmeta (text "window_start_ns") (by decide), ok_bind, hstart, ok_bind,
    htext (text "run_id") (by decide), htext (text "scenario") (by decide), hattackValue,
    hstartValue, featureRow, List.map_append]
  rfl

theorem fits_iff {row : Dict} : Fits rt features row ↔
    ∀ t ∈ (metaNames ++ features).map (cellOf rt row), t.length ≤ fieldSizeLimit := by
  rw [Fits, List.forall_mem_map]

theorem mapM_convertRow {rows : List Dict} (hrows : ∀ row ∈ rows, Storable rt float features row)
    {chosen : List Text} (hchosen : chosen ⊆ features) :
    (((rows.map fun row => (metaNames ++ features).map (cellOf rt row)).filter (· ≠ [])).mapM
      fun cells => convertRow rt float chosen (readerDict (metaNames ++ features) cells)) =
      .ok (rows.map (featureRow chosen)) := by
  have hfilter : (rows.map fun row => (metaNames ++ features).map (cellOf rt row)).filter (· ≠ []) =
      rows.map fun row => (metaNames ++ features).map (cellOf rt row) := by
    apply List.filter_eq_self.mpr
    intro cells hcells
    obtain ⟨row, -, rfl⟩ := List.mem_map.mp hcells
    rfl
  rw [hfilter, mapM_eq_ok, List.forall₂_map_left_iff, List.forall₂_map_right_iff, List.forall₂_same]
  exact fun row hrow => (hrows row hrow).convertRow hchosen

def fileRows (rt : Runtime) (features : List Text) (rows : List Dict) : List (List Text) :=
  (metaNames ++ features) :: rows.map fun row => (metaNames ++ features).map (cellOf rt row)

def IsColumn (name : Text) : Prop := name.length ≤ fieldSizeLimit ∧ ∀ c ∈ name, IsScalar c

theorem isColumn_header (hnames : ∀ name ∈ features, IsColumn name) :
    ∀ name ∈ metaNames ++ features, IsColumn name := by
  have hmeta : ∀ name ∈ metaNames, name.length ≤ fieldSizeLimit ∧ ∀ c ∈ name, IsScalar c := by
    decide
  intro name hname
  exact (List.mem_append.mp hname).elim (hmeta name) (hnames name)

theorem writeCsv_eq {rows : List Dict} (hnames : ∀ name ∈ features, IsColumn name)
    (hrows : ∀ row ∈ rows, Storable rt float features row) :
    writeCsv rt rows features = (.ok (), (fileRows rt features rows).flatMap Csv.excel.row) := by
  have hline : rowLine rt ((metaNames ++ features).map .str) =
      .ok (Csv.excel.row (metaNames ++ features)) := by
    apply rowLine_eq
    · rw [List.forall₂_map_left_iff, List.forall₂_same]
      exact fun name _ => rfl
    · exact fun name hname => (isColumn_header hnames name hname).2
  rw [writeCsv, hline]
  exact writeRows_eq hrows _

/-- A file without a text over the limit is read back. -/
theorem readFeatureCsv_fileRows {rows : List Dict} {chosen : List Text}
    (hnames : ∀ name ∈ features, IsColumn name)
    (hrows : ∀ row ∈ rows, Storable rt float features row) (hchosen : chosen ⊆ features)
    (hfits : ∀ row ∈ rows, Fits rt features row) :
    readFeatureCsv rt float chosen ((fileRows rt features rows).flatMap Csv.excel.row) =
      .ok (rows.map (featureRow chosen)) := by
  have hall : ∀ row ∈ fileRows rt features rows, ∀ field ∈ row, field.length ≤ fieldSizeLimit := by
    rw [fileRows, List.forall_mem_cons, List.forall_mem_map]
    exact ⟨fun name hname => (isColumn_header hnames name hname).1,
      fun row hrow => fits_iff.mp (hfits row hrow)⟩
  have htake : (fileRows rt features rows).takeWhile
      (fun row => row.all fun field => field.length ≤ fieldSizeLimit) =
          fileRows rt features rows := by
    apply List.takeWhile_eq_self_iff.mpr
    exact fun row hrow => by simpa using hall row hrow
  rw [readFeatureCsv, Csv.read_rows, htake, if_pos hall, fileRows]
  dsimp only
  rw [mapM_convertRow hrows hchosen]
  rfl

/-- What is written is read back, with any of the features that were written; the file of a row
with a text over the limit of `csv` is written, and refused by the reader. -/
theorem csv_round_trip {rows : List Dict} {features chosen : List Text}
    (hnames : ∀ name ∈ features, name.length ≤ fieldSizeLimit ∧ ∀ c ∈ name, IsScalar c)
    (hrows : ∀ row ∈ rows, Storable rt float features row) (hchosen : chosen ⊆ features) :
    ∃ file, writeCsv rt rows features = (.ok (), file) ∧
      ((∀ row ∈ rows, Fits rt features row) →
        readFeatureCsv rt float chosen file = .ok (rows.map (featureRow chosen))) ∧
      ((∃ row ∈ rows, ¬ Fits rt features row) →
        readFeatureCsv rt float chosen file = .error (.csv .fieldTooLarge)) := by
  refine ⟨_, writeCsv_eq hnames hrows, readFeatureCsv_fileRows hnames hrows hchosen, fun hlong => ?_⟩
  obtain ⟨row, hrow, hlong⟩ := hlong
  have hnot : ¬∀ row ∈ fileRows rt features rows, ∀ field ∈ row,
      field.length ≤ fieldSizeLimit := fun hall =>
    hlong (fits_iff.mpr (hall _ (List.mem_cons_of_mem _ (List.mem_map_of_mem hrow))))
  let cells := fun row => (metaNames ++ features).map (cellOf rt row)
  let kept := rows.takeWhile fun row => (cells row).all fun field => field.length ≤ fieldSizeLimit
  have hfirst : ((metaNames ++ features).all fun field => field.length ≤ fieldSizeLimit) = true :=
    List.all_eq_true.mpr fun name hname => decide_eq_true (isColumn_header hnames name hname).1
  have htake : (fileRows rt features rows).takeWhile
      (fun row => row.all fun field => field.length ≤ fieldSizeLimit) =
      (metaNames ++ features) :: kept.map cells := by
    rw [fileRows, List.takeWhile_cons, hfirst, if_pos rfl, List.takeWhile_map]
    rfl
  have hkept : ∀ row ∈ kept, Storable rt float features row :=
    fun row hrow => hrows row (List.takeWhile_subset _ hrow)
  rw [readFeatureCsv, Csv.read_rows, htake, if_neg hnot]
  dsimp only
  rw [mapM_convertRow hkept hchosen]
  rfl

def quotedRow : Dict :=
  [(text "run_id", .str (text "a,\"b\r\nc")), (text "scenario", .str (text "steady")),
    (text "is_attack", .int 0), (text "window_start_ns", .int (-5)),
    (text "request_rate", .float (.finite false 5))]

def fiveRuntime : Runtime := { plainRuntime with floatRepr := fun _ _ => text "5.0" }

def readFive : FloatOfText := fun t =>
  if t = text "5.0" then .ok (.finite false 5) else .error .valueError

theorem storable_quotedRow : Storable fiveRuntime readFive [text "request_rate"] quotedRow := by
  refine ⟨fun name hname => ?_, fun name hname => ?_, fun name hname => ?_⟩
  · fin_cases hname
    · exact ⟨text "a,\"b\r\nc", rfl, by decide⟩
    · exact ⟨text "steady", rfl, by decide⟩
  · fin_cases hname
    · exact ⟨0, text "0", rfl, by decide +kernel⟩
    · exact ⟨-5, text "-5", rfl, by decide +kernel⟩
  · rw [List.mem_singleton.mp hname]
    exact ⟨.finite false 5, text "5.0", rfl, rfl, by decide, if_pos rfl⟩

theorem csv_round_trip_quotedRow :
    ∃ file, writeCsv fiveRuntime [quotedRow] [text "request_rate"] = (.ok (), file) ∧
      readFeatureCsv fiveRuntime readFive [text "request_rate"] file =
        .ok [featureRow [text "request_rate"] quotedRow] := by
  have hstorable : ∀ row ∈ [quotedRow], Storable fiveRuntime readFive [text "request_rate"] row :=
    fun row hrow => List.mem_singleton.mp hrow ▸ storable_quotedRow
  obtain ⟨file, hwrite, hread, -⟩ := csv_round_trip (by decide)
    hstorable (List.Subset.refl [text "request_rate"])
  refine ⟨file, hwrite, hread ?_⟩
  intro row hrow name hname
  rw [List.mem_singleton.mp hrow]
  have hcells : ∀ name ∈ metaNames ++ [text "request_rate"],
      (cellOf fiveRuntime quotedRow name).length ≤ 20 := by decide +kernel
  exact (hcells name hname).trans (by decide)

def baseFeatureNames : List Text :=
  ["request_rate", "put_ratio", "get_ratio", "delete_ratio", "reject_ratio", "error_ratio",
    "latency_mean_us", "latency_p95_us", "input_mean_bytes", "input_max_bytes",
    "cpu_percent_mean", "rss_kb_mean"].map text

def repetitionFeatureNames : List Text := ["key_reuse_ratio", "request_reuse_ratio"].map text

def temporalFeatureNames : List Text :=
  ["operation_transition_ratio", "idle_mean_us", "idle_p95_us", "idle_cv"].map text

def enhancedFeatureNames : List Text :=
  baseFeatureNames ++ repetitionFeatureNames ++ temporalFeatureNames

theorem lookup_rowDict (row : Row) : ∀ name ∈ enhancedFeatureNames,
    ∃ q, (Monitor.rowDict row).lookup name = some (Monitor.floatOf q) := by
  intro name hname
  fin_cases hname <;> exact ⟨_, rfl⟩

/-- The rows of `aggregate_events` can be held, with all features of the program. -/
theorem storable_rowDict {row : Row} (hrun : ∀ c ∈ row.runId, IsScalar c)
    (hscenario : ∀ c ∈ row.scenario, IsScalar c)
    (hattack : ∃ t, rt.intText row.isAttack = .ok t)
    (hstart : ∃ t, rt.intText row.windowStartNs = .ok t)
    (hfloat : ∀ name ∈ features, ∀ q, (Monitor.rowDict row).lookup name = some (Monitor.floatOf q) →
      (∀ c ∈ rt.floatRepr (q < 0) q.nnabs, IsScalar c) ∧
        float (rt.floatRepr (q < 0) q.nnabs) = .ok (.finite (q < 0) q.nnabs))
    (hfeatures : features ⊆ enhancedFeatureNames) :
    Storable rt float features (Monitor.rowDict row) := by
  refine ⟨fun name hname => ?_, fun name hname => ?_, fun name hname => ?_⟩
  · fin_cases hname
    · exact ⟨row.runId, rfl, hrun⟩
    · exact ⟨row.scenario, rfl, hscenario⟩
  · fin_cases hname
    · exact ⟨_, hattack.choose, rfl, hattack.choose_spec⟩
    · exact ⟨_, hstart.choose, rfl, hstart.choose_spec⟩
  · obtain ⟨q, hlookup⟩ := lookup_rowDict row name (hfeatures hname)
    obtain ⟨hscalar, hread⟩ := hfloat name hname q hlookup
    exact ⟨_, _, hlookup, rfl, hscalar, hread⟩

end Cote3Mon.Features
