import Cote3Mon.Lib.Bytes

namespace Csv
open ByteText

structure Dialect where
  delimiter : ℕ
  quotechar : ℕ
  distinct : delimiter ≠ quotechar
  delimiter_inner : delimiter ≠ 10 ∧ delimiter ≠ 13
  quotechar_inner : quotechar ≠ 10 ∧ quotechar ≠ 13

def excel : Dialect := ⟨44, 34, by decide, by decide, by decide⟩

variable (d : Dialect) (limit : ℕ)

def isLineEnd (c : ℕ) : Bool := c = 10 || c = 13

def Dialect.isSpecial (c : ℕ) : Bool := c = d.delimiter || c = d.quotechar || isLineEnd c

def Dialect.double (c : ℕ) : Text := if c = d.quotechar then [c, c] else [c]

/-- Only a field with a special character is quoted. -/
def Dialect.cell (field : Text) : Text :=
  if field.any d.isSpecial then d.quotechar :: field.flatMap d.double ++ [d.quotechar] else field

def Dialect.join (d : Dialect) : List Text → Text
  | [] => []
  | [field] => d.cell field
  | field :: rest => d.cell field ++ d.delimiter :: d.join rest

def Dialect.row (fields : List Text) : Text :=
  -- the quotes tell one empty field from no field
  (if fields = [[]] then [d.quotechar, d.quotechar] else d.join fields) ++ [13, 10]

inductive Place where
  | startRecord
  | startField
  | inField
  | inQuotedField
  | quoteInQuotedField
  | eatCrnl
  deriving DecidableEq, Repr

inductive Error where
  | fieldTooLarge
  | newlineInField
  deriving DecidableEq, Repr

/-- The fields of the record so far, the field that is being read, and the state. -/
structure Parser where
  fields : List Text
  field : Text
  place : Place
  deriving DecidableEq, Repr

namespace Parser

def start : Parser := ⟨[], [], .startRecord⟩

def saveField (p : Parser) (place : Place) : Parser := ⟨p.fields ++ [p.field], [], place⟩

def addChar (p : Parser) (c : ℕ) (place : Place) : Except Error Parser :=
  if limit ≤ p.field.length then .error .fieldTooLarge
  else .ok ⟨p.fields, p.field ++ [c], place⟩

def startField (p : Parser) (c : ℕ) : Except Error Parser :=
  if isLineEnd c then .ok (p.saveField .eatCrnl)
  else if c = d.quotechar then .ok { p with place := .inQuotedField }
  else if c = d.delimiter then .ok (p.saveField .startField)
  else p.addChar limit c .inField

def processChar (p : Parser) (c : ℕ) : Except Error Parser :=
  match p.place with
  | .startRecord =>
    if isLineEnd c then .ok { p with place := .eatCrnl } else p.startField d limit c
  | .startField => p.startField d limit c
  | .inField =>
    if isLineEnd c then .ok (p.saveField .eatCrnl)
    else if c = d.delimiter then .ok (p.saveField .startField)
    else p.addChar limit c .inField
  | .inQuotedField =>
    if c = d.quotechar then .ok { p with place := .quoteInQuotedField }
    else p.addChar limit c .inQuotedField
  | .quoteInQuotedField =>
    if c = d.quotechar then p.addChar limit c .inQuotedField
    else if c = d.delimiter then .ok (p.saveField .startField)
    else if isLineEnd c then .ok (p.saveField .eatCrnl)
    else p.addChar limit c .inField
  | .eatCrnl => if isLineEnd c then .ok p else .error .newlineInField

/-- What the end of a line does. -/
def endLine (p : Parser) : Parser :=
  match p.place with
  | .startRecord | .inQuotedField => p
  | .startField | .inField | .quoteInQuotedField => p.saveField .startRecord
  | .eatCrnl => { p with place := .startRecord }

def line (p : Parser) (chars : Text) : Except Error Parser :=
  (chars.foldlM (processChar d limit) p).map endLine

end Parser

def records (p : Parser) : List Text → List (List Text) × Except Error Unit
  | [] =>
    if p.field ≠ [] ∨ p.place = .inQuotedField then ([p.fields ++ [p.field]], .ok ())
    else ([], .ok ())
  | line :: rest =>
    match p.line d limit line with
    | .error e => ([], .error e)
    | .ok p' =>
      if p'.place = .startRecord then
        let read := records .start rest
        (p'.fields :: read.1, read.2)
      else records p' rest

/-- The lines of a text, each with its own end: LF, CR, or both. -/
def lines : Text → List Text
  | [] => []
  | [c] => [[c]]
  | a :: b :: rest =>
    if a = 13 ∧ b = 10 then [13, 10] :: lines rest
    else if isLineEnd a then [a] :: lines (b :: rest)
    else
      match lines (b :: rest) with
      | [] => [[a]]
      | line :: others => (a :: line) :: others

def read (t : Text) : List (List Text) × Except Error Unit := records d limit .start (lines t)

variable {d} {limit}

theorem lines_cons (a : ℕ) (t : Text) : ∃ line rest, lines (a :: t) = (a :: line) :: rest := by
  induction t generalizing a with
  | nil => exact ⟨[], [], rfl⟩
  | cons b t ih =>
    obtain ⟨line, rest, hline⟩ := ih b
    by_cases hpair : a = 13 ∧ b = 10
    · exact ⟨[10], lines t, by rw [lines, if_pos hpair, hpair.1]⟩
    · by_cases hend : isLineEnd a
      · exact ⟨[], lines (b :: t), by rw [lines, if_neg hpair, if_pos hend]⟩
      · exact ⟨b :: line, rest, by rw [lines, if_neg hpair, if_neg hend, hline]⟩

theorem records_error {p : Parser} {c : ℕ} {e : Error} (h : p.processChar d limit c = .error e)
    (t : Text) : records d limit p (lines (c :: t)) = ([], .error e) := by
  obtain ⟨line, rest, hline⟩ := lines_cons c t
  have hread : p.line d limit (c :: line) = .error e := by
    rw [Parser.line, List.foldlM_cons, h]
    rfl
  rw [hline, records, hread]

theorem line_cons {p p' : Parser} {c : ℕ} (h : p.processChar d limit c = .ok p') (line : Text) :
    p.line d limit (c :: line) = p'.line d limit line := by
  rw [Parser.line, List.foldlM_cons, h]
  rfl

/-- A character inside a line. -/
theorem records_inner {p p' : Parser} {c : ℕ} (h : p.processChar d limit c = .ok p')
    (hinner : isLineEnd c = false) {t : Text} (ht : t ≠ []) :
    records d limit p (lines (c :: t)) = records d limit p' (lines t) := by
  cases t with
  | nil => exact absurd rfl ht
  | cons b t =>
    obtain ⟨line, rest, hline⟩ := lines_cons b t
    have hpair : ¬(c = 13 ∧ b = 10) := by
      intro hcb
      rw [hcb.1] at hinner
      exact absurd hinner (by decide)
    have hlines : lines (c :: b :: t) = (c :: b :: line) :: rest := by
      rw [lines, if_neg hpair, if_neg (by rw [hinner]; decide), hline]
    rw [hlines, hline, records, records, line_cons h]

/-- A line that ends inside a quoted field goes on with the next one. -/
theorem records_quoted_end {p p' : Parser} {line : Text} (h : p.line d limit line = .ok p')
    (hplace : p'.place = .inQuotedField) (rest : List Text) :
    records d limit p (line :: rest) = records d limit p' rest := by
  rw [records, h]
  dsimp only
  rw [if_neg (by rw [hplace]; decide)]

theorem processChar_quoted {p : Parser} (hplace : p.place = .inQuotedField) {c : ℕ}
    (hc : c ≠ d.quotechar) : p.processChar d limit c = p.addChar limit c .inQuotedField := by
  rw [Parser.processChar, hplace]
  exact if_neg hc

theorem addChar_ok {p : Parser} (h : p.field.length < limit) (c : ℕ) (place : Place) :
    p.addChar limit c place = .ok ⟨p.fields, p.field ++ [c], place⟩ :=
  if_neg (by omega)

theorem addChar_error {p : Parser} (h : limit ≤ p.field.length) (c : ℕ) (place : Place) :
    p.addChar limit c place = .error .fieldTooLarge :=
  if_pos h

/-- In a quoted field a line end is a character as any other. -/
theorem records_quoted {p : Parser} (hplace : p.place = .inQuotedField) {c : ℕ}
    (hc : c ≠ d.quotechar) (hlen : p.field.length < limit) {t : Text} (ht : t ≠ []) :
    records d limit p (lines (c :: t)) =
      records d limit ⟨p.fields, p.field ++ [c], .inQuotedField⟩ (lines t) := by
  have hchar : p.processChar d limit c = .ok ⟨p.fields, p.field ++ [c], .inQuotedField⟩ :=
    (processChar_quoted hplace hc).trans (addChar_ok hlen c _)
  by_cases hinner : isLineEnd c = false
  · exact records_inner hchar hinner ht
  · have hend : isLineEnd c = true := by simpa using hinner
    have hline : p.line d limit [c] = .ok ⟨p.fields, p.field ++ [c], .inQuotedField⟩ :=
      line_cons hchar []
    cases t with
    | nil => exact absurd rfl ht
    | cons b t =>
      by_cases hpair : c = 13 ∧ b = 10
      · -- CR and LF are one line end, but two characters
        have hlines : lines (c :: b :: t) = [c, b] :: lines t := by
          rw [lines, if_pos hpair, hpair.1, hpair.2]
        have hsingle : lines (b :: t) = [b] :: lines t := by
          cases t with
          | nil => rfl
          | cons a t => rw [lines, if_neg (by omega), if_pos (by rw [hpair.2]; decide)]
        rw [hlines, hsingle, records, records, line_cons hchar]
      · have hlines : lines (c :: b :: t) = [c] :: lines (b :: t) := by
          rw [lines, if_neg hpair, if_pos hend]
        rw [hlines, records_quoted_end hline rfl]

theorem length_snoc_le {field : Text} (h : field.length < limit) (c : ℕ) :
    (field ++ [c]).length ≤ limit := by
  rw [List.length_append, List.length_singleton]
  omega

theorem length_snoc_add (field body : Text) (c : ℕ) :
    (field ++ [c]).length + body.length = field.length + (body.length + 1) := by
  rw [List.length_append, List.length_singleton]
  omega

/-- Between two quotes the body is read as it was, up to the limit. -/
theorem records_body (body : Text) {fields : List Text} {field : Text} (hlen : field.length ≤ limit)
    {t : Text} (ht : t ≠ []) :
    records d limit ⟨fields, field, .inQuotedField⟩ (lines (body.flatMap d.double ++ t)) =
      if field.length + body.length ≤ limit then
        records d limit ⟨fields, field ++ body, .inQuotedField⟩ (lines t)
      else ([], .error .fieldTooLarge) := by
  induction body generalizing field with
  | nil => rw [List.flatMap_nil, List.nil_append, if_pos (by simpa using hlen), List.append_nil]
  | cons c body ih =>
    have hrest : body.flatMap d.double ++ t ≠ [] := List.append_ne_nil_of_right_ne_nil _ ht
    rw [List.flatMap_cons, List.append_assoc, List.length_cons]
    by_cases hquote : c = d.quotechar
    · have hinner : isLineEnd c = false := by
        rw [hquote]
        simpa [isLineEnd] using d.quotechar_inner
      have hfirst : Parser.processChar d limit ⟨fields, field, .inQuotedField⟩ c =
          .ok ⟨fields, field, .quoteInQuotedField⟩ := if_pos hquote
      have hsecond : Parser.processChar d limit ⟨fields, field, .quoteInQuotedField⟩ c =
          Parser.addChar limit ⟨fields, field, .quoteInQuotedField⟩ c .inQuotedField := if_pos hquote
      rw [Dialect.double, if_pos hquote, List.cons_append, List.singleton_append,
        records_inner hfirst hinner (List.cons_ne_nil _ _)]
      by_cases hroom : field.length < limit
      · rw [records_inner (hsecond.trans (addChar_ok hroom _ _)) hinner hrest,
          ih (length_snoc_le hroom c), length_snoc_add, List.append_assoc, List.singleton_append]
      · rw [records_error (hsecond.trans (addChar_error (Nat.le_of_not_lt hroom) _ _)),
          if_neg (by omega)]
    · rw [Dialect.double, if_neg hquote, List.singleton_append]
      by_cases hroom : field.length < limit
      · rw [records_quoted rfl hquote hroom hrest,
          ih (length_snoc_le hroom c), length_snoc_add, List.append_assoc, List.singleton_append]
      · have hchar : Parser.processChar d limit ⟨fields, field, .inQuotedField⟩ c =
            .error .fieldTooLarge :=
          (processChar_quoted rfl hquote).trans (addChar_error (Nat.le_of_not_lt hroom) _ _)
        rw [records_error hchar, if_neg (by omega)]

/-- The states behind the characters of a field. -/
def Place.endsField : Place → Bool
  | .startField | .inField | .quoteInQuotedField => true
  | _ => false

theorem records_plain (body : Text) (hplain : ∀ c ∈ body, d.isSpecial c = false)
    {fields : List Text} {field : Text} (hlen : field.length ≤ limit) {t : Text} (ht : t ≠ []) :
    records d limit ⟨fields, field, .inField⟩ (lines (body ++ t)) =
      if field.length + body.length ≤ limit then
        records d limit ⟨fields, field ++ body, .inField⟩ (lines t)
      else ([], .error .fieldTooLarge) := by
  induction body generalizing field with
  | nil => rw [List.nil_append, if_pos (by simpa using hlen), List.append_nil]
  | cons c body ih =>
    have hrest : body ++ t ≠ [] := List.append_ne_nil_of_right_ne_nil _ ht
    have hc := hplain c List.mem_cons_self
    simp only [Dialect.isSpecial, Bool.or_eq_false_iff, decide_eq_false_iff_not] at hc
    have hchar : Parser.processChar d limit ⟨fields, field, .inField⟩ c =
        Parser.addChar limit ⟨fields, field, .inField⟩ c .inField := by
      simp [Parser.processChar, hc.1.1, hc.2]
    rw [List.cons_append, List.length_cons]
    by_cases hroom : field.length < limit
    · rw [records_inner (hchar.trans (addChar_ok hroom _ _)) hc.2 hrest,
        ih (fun c hc => hplain c (List.mem_cons_of_mem _ hc)) (length_snoc_le hroom c),
        length_snoc_add, List.append_assoc, List.singleton_append]
    · rw [records_error (hchar.trans (addChar_error (Nat.le_of_not_lt hroom) _ _)),
        if_neg (by omega)]

/-- A cell is read as the field it was written for. -/
theorem records_cell (limit : ℕ) (field : Text) (fields : List Text) {place : Place}
    (hplace : place = .startRecord ∨ place = .startField) :
    ∃ after : Place, (after.endsField ∨ after = place ∧ field = []) ∧ ∀ t ≠ [],
      records d limit ⟨fields, [], place⟩ (lines (d.cell field ++ t)) =
        if field.length ≤ limit then records d limit ⟨fields, field, after⟩ (lines t)
        else ([], .error .fieldTooLarge) := by
  have hstart : ∀ c, isLineEnd c = false →
      Parser.processChar d limit ⟨fields, [], place⟩ c =
        Parser.startField d limit ⟨fields, [], place⟩ c := by
    intro c hc
    rcases hplace with rfl | rfl
    · simp [Parser.processChar, hc]
    · rfl
  have hquote : isLineEnd d.quotechar = false := by simpa [isLineEnd] using d.quotechar_inner
  by_cases hspecial : field.any d.isSpecial
  · refine ⟨.quoteInQuotedField, .inl rfl, fun t ht => ?_⟩
    have hopen : Parser.processChar d limit ⟨fields, [], place⟩ d.quotechar =
        .ok ⟨fields, [], .inQuotedField⟩ := by
      rw [hstart _ hquote, Parser.startField, if_neg (by rw [hquote]; decide), if_pos rfl]
    have hclose : Parser.processChar d limit ⟨fields, [] ++ field, .inQuotedField⟩ d.quotechar =
        .ok ⟨fields, [] ++ field, .quoteInQuotedField⟩ := if_pos rfl
    rw [Dialect.cell, if_pos hspecial, List.append_assoc, List.cons_append, List.singleton_append,
      records_inner hopen hquote (List.append_ne_nil_of_right_ne_nil _ (List.cons_ne_nil _ _)),
      records_body field (Nat.zero_le _) (List.cons_ne_nil _ _), records_inner hclose hquote ht,
      List.length_nil, Nat.zero_add, List.nil_append]
  · have hplain : ∀ c ∈ field, d.isSpecial c = false := by simpa using hspecial
    cases field with
    | nil => exact ⟨place, .inr ⟨rfl, rfl⟩, fun t _ => by simp [Dialect.cell]⟩
    | cons c field =>
      refine ⟨.inField, .inl rfl, fun t ht => ?_⟩
      have hc := hplain c List.mem_cons_self
      simp only [Dialect.isSpecial, Bool.or_eq_false_iff, decide_eq_false_iff_not] at hc
      have hchar : Parser.processChar d limit ⟨fields, [], place⟩ c =
          Parser.addChar limit ⟨fields, [], place⟩ c .inField := by
        rw [hstart c hc.2]
        simp [Parser.startField, hc.1.1, hc.1.2, hc.2]
      rw [Dialect.cell, if_neg hspecial, List.cons_append, List.length_cons]
      by_cases hroom : 0 < limit
      · rw [records_inner (hchar.trans (addChar_ok hroom _ _)) hc.2
            (List.append_ne_nil_of_right_ne_nil _ ht),
          records_plain field (fun c hc => hplain c (List.mem_cons_of_mem _ hc)) hroom ht,
          List.nil_append, List.singleton_append, List.length_singleton, Nat.add_comm 1]
      · rw [records_error (hchar.trans (addChar_error (Nat.le_of_not_lt hroom) _ _)),
          if_neg (by omega)]

theorem records_delimiter {p : Parser} (h : p.place.endsField ∨ p.place = .startRecord ∧
    p.field = [])
    {t : Text} (ht : t ≠ []) :
    records d limit p (lines (d.delimiter :: t)) =
      records d limit ⟨p.fields ++ [p.field], [], .startField⟩ (lines t) := by
  have hinner : isLineEnd d.delimiter = false := by simpa [isLineEnd] using d.delimiter_inner
  have hchar : p.processChar d limit d.delimiter = .ok (p.saveField .startField) := by
    obtain ⟨fields, field, place⟩ := p
    cases place <;> simp_all [Place.endsField, Parser.processChar, Parser.startField, d.distinct]
  exact records_inner hchar hinner ht

/-- CR and LF end the record. -/
theorem records_end {p : Parser} (h : p.place.endsField) (t : Text) :
    records d limit p (lines (13 :: 10 :: t)) =
      ((p.fields ++ [p.field]) :: (read d limit t).1, (read d limit t).2) := by
  have hline : p.line d limit [13, 10] = .ok ⟨p.fields ++ [p.field], [], .startRecord⟩ := by
    have hcr : p.processChar d limit 13 = .ok (p.saveField .eatCrnl) := by
      obtain ⟨fields, field, place⟩ := p
      have hquote := d.quotechar_inner.2.symm
      have hdelimiter := d.delimiter_inner.2.symm
      cases place <;>
        simp_all [Place.endsField, Parser.processChar, Parser.startField, isLineEnd]
    rw [line_cons hcr]
    rfl
  rw [lines, if_pos ⟨rfl, rfl⟩, records, hline]
  rfl

theorem join_cons (field next : Text) (rest : List Text) :
    d.join (field :: next :: rest) = d.cell field ++ d.delimiter :: d.join (next :: rest) := rfl

theorem join_ne_nil (fields : List Text) (t : Text) : d.join fields ++ 13 :: t ≠ [] :=
  List.append_ne_nil_of_right_ne_nil _ (List.cons_ne_nil _ _)

/-- The fields of a row are read one by one; the first one over the limit ends the reading. -/
theorem records_join (fields : List Text) (hne : fields ≠ []) {before : List Text} {place : Place}
    (hplace : place = .startRecord ∧ fields ≠ [[]] ∨ place = .startField) (t : Text) :
    records d limit ⟨before, [], place⟩ (lines (d.join fields ++ 13 :: 10 :: t)) =
      if ∀ field ∈ fields, field.length ≤ limit then
        ((before ++ fields) :: (read d limit t).1, (read d limit t).2)
      else ([], .error .fieldTooLarge) := by
  induction fields generalizing before place with
  | nil => exact absurd rfl hne
  | cons field rest ih =>
    obtain ⟨after, hafter, hcell⟩ :=
      records_cell (d := d) limit field before (hplace.imp And.left fun h => h)
    cases rest with
    | nil =>
      have hends : after.endsField := by
        rcases hafter with h | ⟨rfl, rfl⟩
        · exact h
        · rcases hplace with ⟨-, h⟩ | rfl
          · exact absurd rfl h
          · rfl
      rw [Dialect.join, hcell _ (List.cons_ne_nil _ _), records_end hends]
      simp
    | cons next rest =>
      have hends : after.endsField ∨ after = .startRecord ∧ field = [] := by
        rcases hafter with h | ⟨rfl, rfl⟩
        · exact .inl h
        · rcases hplace with ⟨rfl, -⟩ | rfl
          · exact .inr ⟨rfl, rfl⟩
          · exact .inl rfl
      rw [join_cons, List.append_assoc, List.cons_append, hcell _ (List.cons_ne_nil _ _),
        records_delimiter hends (join_ne_nil _ _), ih (List.cons_ne_nil _ _) (.inr rfl)]
      simp only [List.forall_mem_cons, ite_and, List.append_assoc, List.singleton_append]

theorem read_row_nil (t : Text) :
    read d limit (d.row [] ++ t) = ([] :: (read d limit t).1, (read d limit t).2) := by
  have hlines : lines (d.row [] ++ t) = [13, 10] :: lines t := if_pos ⟨rfl, rfl⟩
  rw [read, hlines, records]
  rfl

theorem read_row_empty (t : Text) :
    read d limit (d.row [[]] ++ t) = ([[]] :: (read d limit t).1, (read d limit t).2) := by
  have hquote : isLineEnd d.quotechar = false := by simpa [isLineEnd] using d.quotechar_inner
  have hopen : Parser.start.processChar d limit d.quotechar = .ok ⟨[], [], .inQuotedField⟩ := by
    simp [Parser.processChar, Parser.start, Parser.startField, hquote]
  have hclose : Parser.processChar d limit ⟨[], [], .inQuotedField⟩ d.quotechar =
      .ok ⟨[], [], .quoteInQuotedField⟩ := if_pos rfl
  change records d limit .start (lines (d.quotechar :: d.quotechar :: 13 :: 10 :: t)) = _
  rw [records_inner hopen hquote (List.cons_ne_nil _ _),
    records_inner hclose hquote (List.cons_ne_nil _ _), records_end rfl]
  rfl

/-- The reader yields the rows that the writer has printed, up to the first row with a field over
the limit, which it refuses. -/
theorem read_rows (rows : List (List Text)) :
    read d limit (rows.flatMap d.row) =
      (rows.takeWhile fun row => row.all fun field => field.length ≤ limit,
        if ∀ row ∈ rows, ∀ field ∈ row, field.length ≤ limit then .ok ()
        else .error .fieldTooLarge) := by
  induction rows with
  | nil => rfl
  | cons row rows ih =>
    have hrow : read d limit (d.row row ++ rows.flatMap d.row) =
        if ∀ field ∈ row, field.length ≤ limit then
          (row :: (read d limit (rows.flatMap d.row)).1, (read d limit (rows.flatMap d.row)).2)
        else ([], .error .fieldTooLarge) := by
      by_cases hnone : row = []
      · rw [hnone, read_row_nil, if_pos (by simp)]
      · by_cases hempty : row = [[]]
        · rw [hempty, read_row_empty, if_pos (by simp)]
        · rw [Dialect.row, if_neg hempty, List.append_assoc]
          exact records_join row hnone (.inl ⟨rfl, hempty⟩) _
    rw [List.flatMap_cons, hrow, ih]
    simp only [List.forall_mem_cons, ite_and, List.takeWhile_cons, List.all_eq_true,
      decide_eq_true_eq]
    split_ifs <;> rfl

end Csv
