import Cote3Mon.Python.Objects
import Cote3Mon.Python.Reload

namespace Cote3Mon.Python
open ByteText

-- The writer of Python's `json` module with the arguments that the repository passes, and what
-- `json.loads` makes of its text.

/-- The arguments of `json.dumps`. -/
structure Style where
  ensureAscii : Bool
  sortKeys : Bool
  indent : Option ℕ
  /-- The blanks behind a comma on the same line, and behind a colon. -/
  commaSpaces : ℕ
  colonSpaces : ℕ

namespace Style

/-- `canonical_json`. -/
def canonical : Style := ⟨false, true, none, 0, 0⟩

def line : Style := ⟨true, true, none, 0, 0⟩

/-- `indent=2`, the audit state and the baseline model. -/
def indented : Style := ⟨true, false, some 2, 0, 1⟩

/-- `'\\u{0:04x}'`. -/
def unicodeEscape (n : ℕ) : Text :=
  [92, 117, hexDigit (n / 4096), hexDigit (n / 256 % 16), hexDigit (n / 16 % 16), hexDigit (n % 16)]

variable (style : Style)

def char (c : ℕ) : Text :=
  if style.ensureAscii ∧ 127 ≤ c then
    if c < 0x10000 then unicodeEscape c
    else unicodeEscape (0xd800 + (c - 0x10000) / 0x400) ++
      unicodeEscape (0xdc00 + (c - 0x10000) % 0x400)
  else escapeChar c

def body (t : Text) : Text := t.flatMap style.char

def newline (level : ℕ) : Text :=
  match style.indent with
  | none => []
  | some indent => 10 :: List.replicate (indent * level) 32

/-- The separator of items, without its comma. -/
def gap (level : ℕ) : Text := List.replicate style.commaSpaces 32 ++ style.newline level

def colonGap : Text := List.replicate style.colonSpaces 32

/-- An array or an object at a level, with its items. -/
def enclosed (level opening closing : ℕ) (texts : List Text) : Text :=
  if texts = [] then [opening, closing]
  else opening :: (style.newline (level + 1) ++ (joined (style.gap (level + 1)) texts ++
    (style.newline level ++ [closing])))

def members (printed : List (Text × Text)) : List Text :=
  (if style.sortKeys then sortMembers printed else printed).map fun p =>
    memberText style.colonGap (style.body p.1, p.2)

end Style

variable (rt : Runtime) (style : Style)

mutual

/-- `json.dumps`. -/
def encode (level : ℕ) : Json → Except Exc Text
  | .null => .ok (text "null")
  | .bool b => .ok (if b then text "true" else text "false")
  | .int n => rt.intText n
  | .float (.finite negative magnitude) => .ok (rt.floatRepr negative magnitude)
  | .float (.infinity negative) => .ok (if negative then text "-Infinity" else text "Infinity")
  | .float .nan => .ok (text "NaN")
  | .str t => .ok (quoted (style.body t))
  | .arr items => do
    let texts ← encodeItems (level + 1) items
    return style.enclosed level 91 93 texts
  | .obj members => do
    let printed ← encodeMembers (level + 1) members
    return style.enclosed level 123 125 (style.members printed)

def encodeItems (level : ℕ) : List Json → Except Exc (List Text)
  | [] => .ok []
  | v :: rest => do return (← encode level v) :: (← encodeItems level rest)

def encodeMembers (level : ℕ) : List (Text × Json) → Except Exc (List (Text × Text))
  | [] => .ok []
  | (k, v) :: rest => do return (k, ← encode level v) :: (← encodeMembers level rest)

end

/-- The value that is read back: with `sort_keys` the keys of its dicts are in order. -/
def Style.reload (v : Json) : Json := if style.sortKeys then Python.reload v else v

def IsHighSurrogate (c : ℕ) : Prop := 0xd800 ≤ c ∧ c < 0xdc00

def IsLowSurrogate (c : ℕ) : Prop := 0xdc00 ≤ c ∧ c < 0xe000

/-- Code points without a surrogate pair, which `\u` escapes turn into one character. -/
structure IsReadable (t : Text) : Prop where
  points : ∀ c ∈ t, c < 0x110000
  pairs : t.IsChain fun c d => ¬ (IsHighSurrogate c ∧ IsLowSurrogate d)

theorem isReadable_of_lt {t : Text} (h : ∀ c ∈ t, c < 0xd800) : IsReadable t := by
  refine ⟨fun c hc => (h c hc).trans (by omega), ?_⟩
  apply List.Pairwise.isChain
  apply List.pairwise_of_forall_mem_list
  intro c hc d _ hpair
  have hhigh := hpair.1.1
  have hlow := h c hc
  omega

/-- A value whose floats are read back as they are, and whose dicts have distinct keys. -/
inductive Regular : Json → Prop
  | null : Regular .null
  | bool (b : Bool) : Regular (.bool b)
  | int (n : ℤ) : Regular (.int n)
  | infinity (negative : Bool) : Regular (.float (.infinity negative))
  | nan : Regular (.float .nan)
  | finite {negative magnitude} : IsFloatText (rt.floatRepr negative magnitude) →
      rt.parseFloat (rt.floatRepr negative magnitude) = .finite negative magnitude →
      Regular (.float (.finite negative magnitude))
  | str {t} : (style.ensureAscii → IsReadable t) → Regular (.str t)
  | arr {items} : (∀ v ∈ items, Regular v) → Regular (.arr items)
  | obj {members} : (∀ m ∈ members, style.ensureAscii → IsReadable m.1) →
      (∀ m ∈ members, Regular m.2) → (members.map Prod.fst).Nodup → Regular (.obj members)

variable {style}

theorem hex4_unicodeEscape {n : ℕ} (h : n < 0x10000) :
    hex4 (hexDigit (n / 4096)) (hexDigit (n / 256 % 16)) (hexDigit (n / 16 % 16))
      (hexDigit (n % 16)) =
      some n := by
  have hdigit : ∀ k, hexValue (hexDigit (k % 16)) = some (k % 16) := fun k =>
    hexValue_hexDigit (Nat.mod_lt _ (by omega))
  have hfirst : hexValue (hexDigit (n / 4096)) = some (n / 4096) := hexValue_hexDigit (by omega)
  simp only [hex4, hfirst, hdigit, Option.bind_eq_bind, Option.bind_some, Option.pure_def]
  congr 1
  omega

/-- One escape for a code unit that no low surrogate completes. -/
theorem scanString_unicodeEscape {n : ℕ} (h : n < 0x10000) {u : Text}
    (hlow : lowSurrogate n u = none) :
    scanString 0 (Style.unicodeEscape n ++ u) = consChar n (scanString 0 u) := by
  have hscan : scanEscape (117 :: hexDigit (n / 4096) :: hexDigit (n / 256 % 16) ::
      hexDigit (n / 16 % 16) :: hexDigit (n % 16) :: u) = some (n, 5) := by
    rw [scanEscape, hex4_unicodeEscape h]
    simp only [Option.bind_eq_bind, Option.bind_some, hlow]
    rfl
  change scanString 0 (92 :: 117 :: _ :: _ :: _ :: _ :: u) = _
  rw [scanString, if_neg (by decide), if_pos rfl, hscan]
  rfl

theorem lowSurrogate_eq_none {n : ℕ} (h : ¬ IsHighSurrogate n) (u : Text) :
    lowSurrogate n u = none :=
  if_neg h

theorem lowSurrogate_of_ne {n : ℕ} {u : Text} (h : ∀ rest, u ≠ 92 :: 117 :: rest) :
    lowSurrogate n u = none := by
  unfold lowSurrogate
  split_ifs
  · split
    · rename_i heq
      exact absurd rfl (h _)
    · rfl
  · rfl

/-- Two escapes for the units of one character. -/
theorem scanString_surrogates {high low : ℕ} (hhigh : IsHighSurrogate high)
    (hlow : IsLowSurrogate low)
    (u : Text) : scanString 0 (Style.unicodeEscape high ++ (Style.unicodeEscape low ++ u)) =
      consChar (0x10000 + 0x400 * (high - 0xd800) + (low - 0xdc00)) (scanString 0 u) := by
  have hpair : lowSurrogate high (92 :: 117 :: hexDigit (low / 4096) :: hexDigit (low / 256 % 16) ::
      hexDigit (low / 16 % 16) :: hexDigit (low % 16) :: u) = some low := by
    unfold lowSurrogate
    rw [if_pos (show 0xd800 ≤ high ∧ high < 0xdc00 from hhigh)]
    simp only [hex4_unicodeEscape (hlow.2.trans (by omega)), Option.filter_some]
    rw [if_pos]
    simp only [Bool.and_eq_true, decide_eq_true_eq]
    exact hlow
  change scanString 0 (92 :: 117 :: _ :: _ :: _ :: _ :: 92 :: 117 :: _ :: _ :: _ :: _ :: u) = _
  rw [scanString, if_neg (by decide), if_pos rfl, scanEscape,
    hex4_unicodeEscape (hhigh.2.trans (by omega))]
  simp only [Option.bind_eq_bind, Option.bind_some, hpair]
  rfl

theorem escape_control {c : ℕ} (h : c < 32) :
    text "\\u00" ++ [hexDigit (c / 16), hexDigit (c % 16)] = Style.unicodeEscape c := by
  rw [Style.unicodeEscape, show c / 4096 = 0 by omega, show c / 256 % 16 = 0 by omega,
    show c / 16 % 16 = c / 16 by omega]
  rfl

theorem scanString_escapeChar {c : ℕ} (u : Text) :
    scanString 0 (escapeChar c ++ u) = consChar c (scanString 0 u) := by
  unfold escapeChar
  split_ifs with h1 h2 h3 h4 h5 h6 h7 h8
  · rw [h1]
    rfl
  · rw [h2]
    rfl
  · rw [h3]
    rfl
  · rw [h4]
    rfl
  · rw [h5]
    rfl
  · rw [h6]
    rfl
  · rw [h7]
    rfl
  · rw [escape_control h8]
    exact scanString_unicodeEscape (by omega) (lowSurrogate_eq_none (fun h => by
      have hlow := h.1
      omega) u)
  · rw [List.singleton_append, scanString, if_neg h1, if_neg h2, if_neg h8]

/-- What follows a character is no escape of a low surrogate, unless it is one. -/
theorem lowSurrogate_char {n d : ℕ} (h : ¬ (IsHighSurrogate n ∧ IsLowSurrogate d))
    (hd : d < 0x110000) (u : Text) : lowSurrogate n (style.char d ++ u) = none := by
  by_cases hhigh : IsHighSurrogate n
  · have hlow : ¬ IsLowSurrogate d := fun hlow => h ⟨hhigh, hlow⟩
    have hescape : ∀ m, m < 0x10000 → ¬ IsLowSurrogate m → ∀ v,
        lowSurrogate n (Style.unicodeEscape m ++ v) = none := by
      intro m hm hnot v
      change lowSurrogate n (92 :: 117 :: _ :: _ :: _ :: _ :: v) = none
      rw [lowSurrogate, if_pos (show 0xd800 ≤ n ∧ n < 0xdc00 from hhigh)]
      simp only [hex4_unicodeEscape hm, Option.filter_some]
      rw [if_neg]
      simp only [Bool.and_eq_true, decide_eq_true_eq]
      exact hnot
    unfold Style.char
    split_ifs with hascii hplane
    · exact hescape d hplane hlow u
    · rw [List.append_assoc]
      refine hescape _ (by omega) (fun hunit => ?_) _
      have hunit := hunit.1
      omega
    · unfold escapeChar
      split_ifs with h1 h2 h3 h4 h5 h6 h7 h8
      · exact lowSurrogate_of_ne fun rest heq => by cases heq
      · exact lowSurrogate_of_ne fun rest heq => by cases heq
      · exact lowSurrogate_of_ne fun rest heq => by cases heq
      · exact lowSurrogate_of_ne fun rest heq => by cases heq
      · exact lowSurrogate_of_ne fun rest heq => by cases heq
      · exact lowSurrogate_of_ne fun rest heq => by cases heq
      · exact lowSurrogate_of_ne fun rest heq => by cases heq
      · rw [escape_control h8]
        exact hescape d (by omega) hlow u
      · exact lowSurrogate_of_ne fun rest heq => h2 (List.cons.inj heq).1
  · exact lowSurrogate_eq_none hhigh _

/-- A character is read back in front of anything that does not complete a surrogate pair. -/
theorem scanString_char {c : ℕ} (hc : style.ensureAscii → c < 0x110000) {u : Text}
    (hu : style.ensureAscii → lowSurrogate c u = none) :
    scanString 0 (style.char c ++ u) = consChar c (scanString 0 u) := by
  unfold Style.char
  split_ifs with hascii hplane
  · exact scanString_unicodeEscape hplane (hu hascii.1)
  · -- the two code units of a character beyond the first plane
    have hpoint := hc hascii.1
    obtain ⟨high, hhigh⟩ : ∃ n, n = 0xd800 + (c - 0x10000) / 0x400 := ⟨_, rfl⟩
    obtain ⟨low, hlow⟩ : ∃ n, n = 0xdc00 + (c - 0x10000) % 0x400 := ⟨_, rfl⟩
    have hsum : 0x10000 + 0x400 * (high - 0xd800) + (low - 0xdc00) = c := by omega
    have hpair : scanString 0 (Style.unicodeEscape high ++ (Style.unicodeEscape low ++ u)) =
        consChar (0x10000 + 0x400 * (high - 0xd800) + (low - 0xdc00)) (scanString 0 u) := by
      apply scanString_surrogates
      · exact ⟨by omega, by omega⟩
      · exact ⟨by omega, by omega⟩
    rw [List.append_assoc, ← hhigh, ← hlow, hpair, hsum]
  · exact scanString_escapeChar u

/-- A text between quotes is read back. -/
theorem spells_body {t : Text} (h : style.ensureAscii → IsReadable t) : Spells (style.body t) t := by
  intro rest
  induction t with
  | nil => rfl
  | cons c t ih =>
    have htail : style.ensureAscii → IsReadable t := fun hascii =>
      ⟨fun d hd => (h hascii).points d (List.mem_cons_of_mem _ hd), (h hascii).pairs.tail⟩
    have hnext : style.ensureAscii → lowSurrogate c (style.body t ++ 34 :: rest) = none := by
      intro hascii
      cases t with
      | nil => exact lowSurrogate_of_ne fun rest heq => by cases heq
      | cons d t =>
        have hpair := (List.isChain_cons_cons.mp (h hascii).pairs).1
        have hpoint := (h hascii).points d (by simp)
        have htext : style.body (d :: t) ++ 34 :: rest = style.char d ++
            (style.body t ++ 34 :: rest) := by
          rw [Style.body, List.flatMap_cons, List.append_assoc]
          rfl
        rw [htext]
        exact lowSurrogate_char hpair hpoint _
    have htext : style.body (c :: t) ++ 34 :: rest = style.char c ++
        (style.body t ++ 34 :: rest) := by
      rw [Style.body, List.flatMap_cons, List.append_assoc]
      rfl
    rw [htext, scanString_char (fun hascii => (h hascii).points c List.mem_cons_self) hnext,
      ih htail]
    rfl

theorem newline_space (level : ℕ) : ∀ c ∈ style.newline level, isJsonSpace c := by
  intro c hc
  unfold Style.newline at hc
  split at hc
  · cases hc
  · rcases List.mem_cons.mp hc with rfl | hc
    · rfl
    · rw [List.eq_of_mem_replicate hc]
      rfl

theorem gap_space (level : ℕ) : ∀ c ∈ style.gap level, isJsonSpace c := by
  intro c hc
  rcases List.mem_append.mp hc with hc | hc
  · rw [List.eq_of_mem_replicate hc]
    rfl
  · exact newline_space level c hc

theorem colonGap_space : ∀ c ∈ style.colonGap, isJsonSpace c := by
  intro c hc
  rw [List.eq_of_mem_replicate hc]
  rfl

/-- `str(n)` with its sign. -/
theorem intText_eq {n : ℤ} {t : Text} (h : rt.intText n = .ok t) :
    rt.tooLong (decimal n.natAbs) = false ∧ t = signText (decide (n < 0)) ++ decimal n.natAbs := by
  unfold Runtime.intText at h
  split_ifs at h with hlong hneg
  · obtain rfl := Except.ok.inj h
    exact ⟨by simpa using hlong, by rw [decide_eq_true hneg]; rfl⟩
  · obtain rfl := Except.ok.inj h
    exact ⟨by simpa using hlong, by rw [decide_eq_false hneg]; rfl⟩

theorem reads_intText {n : ℤ} {t : Text} (h : rt.intText n = .ok t) : Reads rt t (.int n) := by
  obtain ⟨hlong, rfl⟩ := intText_eq rt h
  have hreads := reads_int (decide (n < 0)) hlong
  have hvalue : (if decide (n < 0) then -(n.natAbs : ℤ) else n.natAbs) = n := by
    split_ifs with hneg
    · have hneg := of_decide_eq_true hneg
      omega
    · have hneg := of_decide_eq_false (Bool.eq_false_iff.mpr hneg)
      omega
  rwa [hvalue] at hreads

/-- `int(str(n))`, with a sign. -/
theorem parseInt_intText {n : ℤ} {t : Text} (h : rt.intText n = .ok t) : rt.parseInt t = .ok n := by
  obtain ⟨hlong, rfl⟩ := intText_eq rt h
  by_cases hneg : n < 0
  · have hchar : ∀ c ∈ 45 :: decimal n.natAbs, c < 127 ∧ isSpace c = false := by
      intro c hc
      rcases List.mem_cons.mp hc with rfl | hc
      · decide
      · have hrange := decimal_digits n.natAbs c hc
        simp only [isSpace, Bool.or_eq_false_iff, Bool.and_eq_false_imp, decide_eq_true_eq,
          decide_eq_false_iff_not]
        omega
    have hfolded : ((45 :: decimal n.natAbs).map fun c => if c < 127 then c else rt.foldChar c) =
        45 :: decimal n.natAbs :=
      (List.map_congr_left fun c hc => if_pos (hchar c hc).1).trans (List.map_id _)
    have hkeep : ∀ t : Text, (∀ c ∈ t, isSpace c = false) → t.dropWhile isSpace = t := by
      intro t ht
      cases t with
      | nil => rfl
      | cons c t => rw [List.dropWhile_cons_of_neg (by simp [ht c List.mem_cons_self])]
    have hrun : digitRun (decimal n.natAbs) = some (decimal n.natAbs) :=
      digitRun_digits (decimal_ne_nil _) (decimal_isDigit _)
    have htext : signText (decide (n < 0)) ++ decimal n.natAbs = 45 :: decimal n.natAbs := by
      rw [decide_eq_true hneg]
      rfl
    rw [htext, Runtime.parseInt, hfolded, hkeep _ fun c hc => (hchar c hc).2,
      hkeep _ fun c hc => (hchar c (List.mem_reverse.mp hc)).2, List.reverse_reverse]
    simp only [hrun, hlong, Bool.false_eq_true, if_false, if_true, decimalValue_decimal]
    rw [show -(n.natAbs : ℤ) = n by omega]
  · have htext : signText (decide (n < 0)) ++ decimal n.natAbs = decimal n.natAbs := by
      rw [decide_eq_false hneg]
      rfl
    rw [htext, parseInt_decimal rt hlong, show (n.natAbs : ℤ) = n by omega]

/-- The items of an array, written one by one. -/
theorem encodeItems_forall₂ {level : ℕ} {items : List Json} {texts : List Text}
    (h : encodeItems rt style level items = .ok texts) :
    List.Forall₂ (fun v t => encode rt style level v = .ok t) items texts := by
  induction items generalizing texts with
  | nil =>
    obtain rfl := Except.ok.inj h
    exact .nil
  | cons v items ih =>
    rw [encodeItems] at h
    obtain ⟨t, ht, h⟩ := bind_eq_ok.mp h
    obtain ⟨rest, hrest, h⟩ := bind_eq_ok.mp h
    obtain rfl := Except.ok.inj h
    exact .cons ht (ih hrest)

theorem encodeMembers_forall₂ {level : ℕ} {members : List (Text × Json)}
    {printed : List (Text × Text)}
    (h : encodeMembers rt style level members = .ok printed) :
    List.Forall₂ (fun m p => p.1 = m.1 ∧ encode rt style level m.2 = .ok p.2) members printed := by
  induction members generalizing printed with
  | nil =>
    obtain rfl := Except.ok.inj h
    exact .nil
  | cons m members ih =>
    rw [encodeMembers] at h
    obtain ⟨t, ht, h⟩ := bind_eq_ok.mp h
    obtain ⟨rest, hrest, h⟩ := bind_eq_ok.mp h
    obtain rfl := Except.ok.inj h
    exact .cons ⟨rfl, ht⟩ (ih hrest)

theorem exists_of_forall₂ {α β : Type*} {R : α → β → Prop} {as : List α} {bs : List β}
    (h : List.Forall₂ R as bs) {b : β} (hb : b ∈ bs) : ∃ a ∈ as, R a b := by
  induction h with
  | nil => cases hb
  | @cons a b' as bs hfirst _ ih =>
    rcases List.mem_cons.mp hb with rfl | hb
    · exact ⟨a, List.mem_cons_self, hfirst⟩
    · obtain ⟨a', ha', hab⟩ := ih hb
      exact ⟨a', List.mem_cons_of_mem _ ha', hab⟩

/-- Two lists that correspond are sorted alike by orders that correspond. -/
theorem forall₂_insertionSort {α β : Type*} {R : α → β → Prop} {r : α → α → Prop} {s : β → β → Prop}
    [DecidableRel r] [DecidableRel s] (hrs : ∀ a b a' b', R a b → R a' b' → (r a a' ↔ s b b'))
    {as : List α} {bs : List β} (h : List.Forall₂ R as bs) :
    List.Forall₂ R (as.insertionSort r) (bs.insertionSort s) := by
  have hinsert : ∀ {a b} {as : List α} {bs : List β}, R a b → List.Forall₂ R as bs →
      List.Forall₂ R (as.orderedInsert r a) (bs.orderedInsert s b) := by
    intro a b as bs hab hall
    induction hall with
    | nil => exact .cons hab .nil
    | @cons a' b' as bs hfirst hrest ih =>
      simp only [List.orderedInsert_cons]
      by_cases hle : r a a'
      · rw [if_pos hle, if_pos ((hrs a b a' b' hab hfirst).mp hle)]
        exact .cons hab (.cons hfirst hrest)
      · rw [if_neg hle, if_neg (mt (hrs a b a' b' hab hfirst).mpr hle)]
        exact .cons hfirst ih
  induction h with
  | nil => exact .nil
  | cons hfirst _ ih => exact hinsert hfirst ih

def Style.order (style : Style) (members : List (Text × Json)) : List (Text × Json) :=
  if style.sortKeys then members.insertionSort fun a b => keyLe a b else members

theorem reloadItems_eq (items : List Json) : reloadItems items = items.map Python.reload := by
  induction items with
  | nil => rfl
  | cons v items ih => rw [reloadItems, ih, List.map_cons]

theorem reloadMembers_eq (members : List (Text × Json)) :
    reloadMembers members = members.map fun m => (m.1, Python.reload m.2) := by
  induction members with
  | nil => rfl
  | cons m members ih => rw [reloadMembers, ih, List.map_cons]

theorem reload_arr (items : List Json) : style.reload (.arr items) =
    .arr (items.map style.reload) := by
  unfold Style.reload
  split_ifs
  · rw [Python.reload, reloadItems_eq]
  · rw [List.map_id']

theorem reload_obj (members : List (Text × Json)) : style.reload (.obj members) =
    .obj (style.order (members.map fun m => (m.1, style.reload m.2))) := by
  unfold Style.reload Style.order
  split_ifs
  · rw [Python.reload, reloadMembers_eq]
  · rw [List.map_id']

theorem reload_atom {v : Json} (h : Python.reload v = v) : style.reload v = v := by
  unfold Style.reload
  split_ifs
  · exact h
  · rfl

theorem order_nodup {members : List (Text × Json)} (h : (members.map Prod.fst).Nodup) :
    ((style.order members).map Prod.fst).Nodup := by
  unfold Style.order
  split_ifs
  · exact ((List.perm_insertionSort _ members).map Prod.fst).nodup_iff.mpr h
  · exact h

/-- The printed members correspond to the members that are read back. -/
theorem readable_members {members : List (Text × Json)} {printed : List (Text × Text)}
    (h : List.Forall₂ (fun m p => p.1 = m.1 ∧ (style.ensureAscii → IsReadable m.1) ∧
      Reads rt p.2 (style.reload m.2)) members printed) :
    List.Forall₂ (fun (q : Text × Text) m => Spells q.1 m.1 ∧ Reads rt q.2 m.2)
      ((if style.sortKeys then sortMembers printed else printed).map fun p => (style.body p.1, p.2))
      (style.order (members.map fun m => (m.1, style.reload m.2))) := by
  have hall : List.Forall₂ (fun (p : Text × Text) (m : Text × Json) => p.1 = m.1 ∧
      (style.ensureAscii → IsReadable m.1) ∧ Reads rt p.2 m.2) printed
        (members.map fun m => (m.1, style.reload m.2)) := by
    rw [List.forall₂_map_right_iff]
    exact h.flip
  have hsorted : List.Forall₂ (fun (p : Text × Text) (m : Text × Json) => p.1 = m.1 ∧
      (style.ensureAscii → IsReadable m.1) ∧ Reads rt p.2 m.2)
        (if style.sortKeys then sortMembers printed else printed)
        (style.order (members.map fun m => (m.1, style.reload m.2))) := by
    unfold Style.order
    split_ifs
    · apply forall₂_insertionSort _ hall
      intro p m p' m' hp hp'
      rw [hp.1, hp'.1]
      rfl
    · exact hall
  rw [List.forall₂_map_left_iff]
  refine hsorted.imp fun p m hp => ⟨?_, hp.2.2⟩
  rw [hp.1]
  exact spells_body hp.2.1

/-- What `json.dumps` writes for a regular value is read as that value. -/
theorem reads_encode {v : Json} (h : Regular rt style v) :
    ∀ level t, encode rt style level v = .ok t → Reads rt t (style.reload v) := by
  induction h with
  | null =>
    intro level t ht
    obtain rfl := Except.ok.inj ht
    rw [reload_atom rfl]
    exact reads_keyword (k := (text "null", .null)) (by simp [keywords])
  | bool b =>
    intro level t ht
    obtain rfl := Except.ok.inj ht
    rw [reload_atom rfl]
    exact reads_bool b
  | int n =>
    intro level t ht
    rw [reload_atom rfl]
    exact reads_intText rt ht
  | infinity negative =>
    intro level t ht
    obtain rfl := Except.ok.inj ht
    rw [reload_atom rfl]
    cases negative with
    | false =>
      exact reads_keyword (k := (text "Infinity", .float (.infinity false))) (by simp [keywords])
    | true =>
      exact reads_keyword (k := (text "-Infinity", .float (.infinity true))) (by simp [keywords])
  | nan =>
    intro level t ht
    obtain rfl := Except.ok.inj ht
    rw [reload_atom rfl]
    exact reads_keyword (k := (text "NaN", .float .nan)) (by simp [keywords])
  | finite htext hvalue =>
    intro level t ht
    obtain rfl := Except.ok.inj ht
    rw [reload_atom rfl, ← hvalue]
    exact reads_float htext
  | str hreadable =>
    intro level t ht
    obtain rfl := Except.ok.inj ht
    rw [reload_atom rfl]
    exact reads_str (spells_body hreadable)
  | @arr items _ ih =>
    intro level t ht
    rw [encode] at ht
    obtain ⟨texts, htexts, ht⟩ := bind_eq_ok.mp ht
    obtain rfl := Except.ok.inj ht
    have hall : List.Forall₂ (Reads rt) texts (items.map style.reload) := by
      rw [List.forall₂_map_right_iff]
      have hitems := (List.forall₂_and_left _ _).mpr ⟨ih, encodeItems_forall₂ rt htexts⟩
      exact hitems.flip.imp fun t v hv => hv.1 _ t hv.2
    rw [reload_arr, Style.enclosed]
    by_cases hnil : texts = []
    · rw [if_pos hnil]
      rw [hnil, List.forall₂_nil_left_iff] at hall
      rw [hall]
      exact reads_arr_nil
    · rw [if_neg hnil]
      apply reads_arr (newline_space _) (gap_space _) (newline_space _) hall
      rw [← List.length_pos_iff, ← hall.length_eq]
      exact List.length_pos_iff.mpr hnil
  | @obj members hkeys _ hnodup ih =>
    intro level t ht
    rw [encode] at ht
    obtain ⟨printed, hprinted, ht⟩ := bind_eq_ok.mp ht
    obtain rfl := Except.ok.inj ht
    have hmembers := (List.forall₂_and_left _ _).mpr ⟨fun m hm => And.intro (hkeys m hm) (ih m hm),
      encodeMembers_forall₂ rt hprinted⟩
    have hreadable := readable_members rt (hmembers.imp fun m p hp =>
      ⟨hp.2.1, hp.1.1, hp.1.2 _ p.2 hp.2.2⟩)
    have hdistinct : ((style.order (members.map fun m => (m.1, style.reload m.2))).map
        Prod.fst).Nodup := by
      apply order_nodup
      rwa [List.map_map]
    rw [reload_obj, Style.enclosed, Style.members, ← ofPairs_nodup hdistinct]
    rw [← Function.comp_def (memberText style.colonGap), ← List.map_map]
    generalize (if style.sortKeys then sortMembers printed else printed).map
      (fun p => (style.body p.1, p.2)) = texts at hreadable ⊢
    by_cases hnil : texts = []
    · rw [hnil, List.map_nil, if_pos rfl]
      rw [hnil, List.forall₂_nil_left_iff] at hreadable
      rw [hreadable]
      exact reads_obj_nil
    · rw [if_neg (mt List.map_eq_nil_iff.mp hnil)]
      apply reads_obj (newline_space _) (gap_space _) colonGap_space (newline_space _) hreadable
      rw [← List.length_pos_iff, ← hreadable.length_eq]
      exact List.length_pos_iff.mpr hnil

/-- The round trip, also with the new line behind the text. -/
theorem loads_encode {v : Json} (h : Regular rt style v) {level : ℕ} {t close : Text}
    (ht : encode rt style level v = .ok t) (hclose : ∀ c ∈ close, isJsonSpace c) :
    loads rt (t ++ close) = .ok (style.reload v) :=
  loads_reads (reads_encode rt h level t ht) hclose

theorem graphic_unicodeEscape {n : ℕ} (h : n < 0x10000) :
    ∀ c ∈ Style.unicodeEscape n, IsGraphic c := by
  have hdigit : ∀ d, d < 16 → IsGraphic (hexDigit d) := by
    intro d hd
    unfold hexDigit
    split_ifs
    · exact ⟨by omega, by omega⟩
    · exact ⟨by omega, by omega⟩
  intro c hc
  simp only [Style.unicodeEscape, List.mem_cons, List.not_mem_nil, or_false] at hc
  rcases hc with rfl | rfl | rfl | rfl | rfl | rfl
  · decide
  · decide
  · exact hdigit _ (by omega)
  · exact hdigit _ (by omega)
  · exact hdigit _ (by omega)
  · exact hdigit _ (by omega)

theorem graphic_escapeChar {c : ℕ} (h : c < 127) : ∀ d ∈ escapeChar c, IsGraphic d := by
  unfold escapeChar
  split_ifs with h1 h2 h3 h4 h5 h6 h7 h8
  · decide
  · decide
  · decide
  · decide
  · decide
  · decide
  · decide
  · rw [escape_control h8]
    exact graphic_unicodeEscape (by omega)
  · rw [List.forall_mem_singleton]
    exact ⟨by omega, by omega⟩

theorem graphic_body (hascii : style.ensureAscii) {t : Text} (h : IsReadable t) :
    ∀ c ∈ style.body t, IsGraphic c := by
  intro c hc
  obtain ⟨d, hd, hc⟩ := List.mem_flatMap.mp hc
  have hpoint := h.points d hd
  suffices hchar : ∀ c ∈ style.char d, IsGraphic c from hchar c hc
  unfold Style.char
  split_ifs with hwide hplane
  · exact graphic_unicodeEscape hplane
  · rw [List.forall_mem_append]
    exact ⟨graphic_unicodeEscape (by omega), graphic_unicodeEscape (by omega)⟩
  · have hlow := mt (And.intro hascii) hwide
    exact graphic_escapeChar (by omega)

theorem graphic_enclosed (hindent : style.indent = none) {level opening closing : ℕ}
    {texts : List Text}
    (hopening : IsGraphic opening) (hclosing : IsGraphic closing)
    (h : ∀ t ∈ texts, ∀ c ∈ t, IsGraphic c) :
    ∀ c ∈ style.enclosed level opening closing texts, IsGraphic c := by
  have hnewline : ∀ level, style.newline level = [] := by
    intro level
    rw [Style.newline, hindent]
  have hgap : ∀ c ∈ style.gap (level + 1), IsGraphic c := by
    intro c hc
    rw [Style.gap, hnewline, List.append_nil] at hc
    rw [List.eq_of_mem_replicate hc]
    decide
  unfold Style.enclosed
  split_ifs
  · rw [List.forall_mem_cons, List.forall_mem_singleton]
    exact ⟨hopening, hclosing⟩
  · rw [hnewline, hnewline, List.nil_append, List.nil_append, List.forall_mem_cons,
      List.forall_mem_append, List.forall_mem_singleton]
    exact ⟨hopening, forall_mem_joined (by decide) hgap h, hclosing⟩

theorem graphic_intText {n : ℤ} {t : Text} (h : rt.intText n = .ok t) : ∀ c ∈ t, IsGraphic c := by
  obtain ⟨-, rfl⟩ := intText_eq rt h
  rw [List.forall_mem_append]
  exact ⟨graphic_signText _, graphic_decimal _⟩

/-- A value on one line is printable ASCII. -/
theorem graphic_encode (hascii : style.ensureAscii) (hindent : style.indent = none) {v : Json}
    (h : Regular rt style v) :
    ∀ level t, encode rt style level v = .ok t → ∀ c ∈ t, IsGraphic c := by
  induction h with
  | null =>
    intro level t ht
    obtain rfl := Except.ok.inj ht
    decide
  | bool b =>
    intro level t ht
    obtain rfl := Except.ok.inj ht
    cases b <;> decide
  | int n =>
    intro level t ht
    exact graphic_intText rt ht
  | infinity negative =>
    intro level t ht
    obtain rfl := Except.ok.inj ht
    cases negative <;> decide
  | nan =>
    intro level t ht
    obtain rfl := Except.ok.inj ht
    decide
  | finite htext _ =>
    intro level t ht
    obtain rfl := Except.ok.inj ht
    exact graphic_floatText htext
  | str hreadable =>
    intro level t ht
    obtain rfl := Except.ok.inj ht
    exact graphic_quoted (graphic_body hascii (hreadable hascii))
  | @arr items _ ih =>
    intro level t ht
    rw [encode] at ht
    obtain ⟨texts, htexts, ht⟩ := bind_eq_ok.mp ht
    obtain rfl := Except.ok.inj ht
    have hitems := (List.forall₂_and_left _ _).mpr ⟨ih, encodeItems_forall₂ rt htexts⟩
    apply graphic_enclosed hindent (by decide) (by decide)
    intro t ht
    obtain ⟨v, -, hv⟩ := exists_of_forall₂ hitems ht
    exact hv.1 _ t hv.2
  | @obj members hkeys _ _ ih =>
    intro level t ht
    rw [encode] at ht
    obtain ⟨printed, hprinted, ht⟩ := bind_eq_ok.mp ht
    obtain rfl := Except.ok.inj ht
    have hmembers := (List.forall₂_and_left _ _).mpr ⟨fun m hm => And.intro (hkeys m hm) (ih m hm),
      encodeMembers_forall₂ rt hprinted⟩
    apply graphic_enclosed hindent (by decide) (by decide)
    intro t ht
    obtain ⟨p, hp, rfl⟩ := List.mem_map.mp ht
    have hmem : p ∈ printed := by
      split_ifs at hp
      · exact (List.mem_insertionSort _).mp hp
      · exact hp
    obtain ⟨m, -, hm, hkey, hvalue⟩ := exists_of_forall₂ hmembers hmem
    have hcolon : ∀ c ∈ style.colonGap, IsGraphic c := by
      intro c hc
      rw [List.eq_of_mem_replicate hc]
      decide
    apply forall_mem_memberText (by decide) (by decide) hcolon
    · rw [hkey]
      exact graphic_body hascii (hm.1 hascii)
    · exact hm.2 _ p.2 hvalue

theorem joined_nil (texts : List Text) : joined [] texts = (texts.intersperse [44]).flatten := by
  fun_induction joined [] texts with
  | case1 => rfl
  | case2 t => simp
  | case3 t rest hrest ih =>
    obtain ⟨u, us, rfl⟩ := List.exists_cons_of_ne_nil (hrest : rest ≠ [])
    rw [List.intersperse_cons_cons, List.flatten_cons, List.flatten_cons, ← ih]
    rfl

theorem enclosed_canonical (level opening closing : ℕ) (texts : List Text) :
    Style.canonical.enclosed level opening closing texts =
      opening :: (texts.intersperse [44]).flatten ++ [closing] := by
  unfold Style.enclosed
  split_ifs with hnil
  · rw [hnil]
    rfl
  · rw [← joined_nil]
    rfl

theorem body_canonical (t : Text) : Style.canonical.body t = t.flatMap escapeChar := by
  apply List.flatMap_congr
  intro c _
  exact if_neg fun h => Bool.false_ne_true h.1

theorem memberText_canonical (p : Text × Text) :
    memberText Style.canonical.colonGap (Style.canonical.body p.1, p.2) = quote p.1 ++ 58 ::
        p.2 := by
  rw [body_canonical]
  rfl

mutual

/-- `canonical_json` is `json.dumps` with its arguments. -/
theorem encode_canonical : ∀ (v : Json) (level : ℕ), encode rt Style.canonical level v = dumps rt v
  | .null, _ => rfl
  | .bool _, _ => rfl
  | .int _, _ => rfl
  | .float (.finite _ _), _ => rfl
  | .float (.infinity _), _ => rfl
  | .float .nan, _ => rfl
  | .str t, _ => by
    rw [encode, dumps, body_canonical]
    rfl
  | .arr items, level => by
    rw [encode, dumps, encodeItems_canonical items]
    simp only [enclosed_canonical]
  | .obj members, level => by
    rw [encode, dumps, encodeMembers_canonical members]
    simp only [enclosed_canonical, Style.members, memberText_canonical]
    rfl

theorem encodeItems_canonical : ∀ (items : List Json) (level : ℕ),
    encodeItems rt Style.canonical level items = dumpsItems rt items
  | [], _ => rfl
  | v :: items, level => by
    rw [encodeItems, dumpsItems, encode_canonical v, encodeItems_canonical items]

theorem encodeMembers_canonical : ∀ (members : List (Text × Json)) (level : ℕ),
    encodeMembers rt Style.canonical level members = dumpsMembers rt members
  | [], _ => rfl
  | (k, v) :: members, level => by
    rw [encodeMembers, dumpsMembers, encode_canonical v, encodeMembers_canonical members]

end

def utf8Head : Bytes → Option (ℕ × Bytes)
  | a :: rest =>
    if a.toNat < 0x80 then some (a.toNat, rest)
    else
      match rest with
      | b :: rest =>
        if a.toNat < 0xe0 then some (0x40 * (a.toNat - 0xc0) + (b.toNat - 0x80), rest)
        else
          match rest with
          | c :: rest =>
            if a.toNat < 0xf0 then
              some (0x1000 * (a.toNat - 0xe0) + 0x40 * (b.toNat - 0x80) + (c.toNat - 0x80), rest)
            else
              match rest with
              | d :: rest => some (0x40000 * (a.toNat - 0xf0) + 0x1000 * (b.toNat - 0x80) +
                  0x40 * (c.toNat - 0x80) + (d.toNat - 0x80), rest)
              | [] => none
          | [] => none
      | [] => none
  | [] => none

theorem utf8Head_utf8Char {c : ℕ} {bs : Bytes} (h : utf8Char c = .ok bs) (rest : Bytes) :
    utf8Head (bs ++ rest) = some (c, rest) := by
  have hbyte : ∀ n, n < 256 → (UInt8.ofNat n).toNat = n := fun n hn => UInt8.toNat_ofNat_of_lt' hn
  unfold utf8Char at h
  split_ifs at h with h1 h2 h3 h4 h5
  · obtain rfl := Except.ok.inj h
    have ha := hbyte c (by omega)
    simp only [List.cons_append, List.nil_append, utf8Head, ha]
    rw [if_pos h1]
  · obtain rfl := Except.ok.inj h
    have ha := hbyte (0xc0 + c / 0x40) (by omega)
    have hb := hbyte (0x80 + c % 0x40) (by omega)
    simp only [List.cons_append, List.nil_append, utf8Head, ha, hb]
    have hsum : 0x40 * (0xc0 + c / 0x40 - 0xc0) + (0x80 + c % 0x40 - 0x80) = c := by omega
    rw [if_neg (by omega), if_pos (by omega), hsum]
  · obtain rfl := Except.ok.inj h
    have ha := hbyte (0xe0 + c / 0x1000) (by omega)
    have hb := hbyte (0x80 + c / 0x40 % 0x40) (by omega)
    have hc := hbyte (0x80 + c % 0x40) (by omega)
    simp only [List.cons_append, List.nil_append, utf8Head, ha, hb, hc]
    have hsum : 0x1000 * (0xe0 + c / 0x1000 - 0xe0) + 0x40 * (0x80 + c / 0x40 % 0x40 - 0x80) +
        (0x80 + c % 0x40 - 0x80) = c := by omega
    rw [if_neg (by omega), if_neg (by omega), if_pos (by omega), hsum]
  · obtain rfl := Except.ok.inj h
    have ha := hbyte (0xf0 + c / 0x40000) (by omega)
    have hb := hbyte (0x80 + c / 0x1000 % 0x40) (by omega)
    have hc := hbyte (0x80 + c / 0x40 % 0x40) (by omega)
    have hd := hbyte (0x80 + c % 0x40) (by omega)
    simp only [List.cons_append, List.nil_append, utf8Head, ha, hb, hc, hd]
    have hsum : 0x40000 * (0xf0 + c / 0x40000 - 0xf0) + 0x1000 * (0x80 + c / 0x1000 % 0x40 - 0x80) +
        0x40 * (0x80 + c / 0x40 % 0x40 - 0x80) + (0x80 + c % 0x40 - 0x80) = c := by omega
    rw [if_neg (by omega), if_neg (by omega), if_neg (by omega), hsum]

/-- Two texts with the same UTF-8 are equal. -/
theorem encodeUtf8_injective {s t : Text} {bs : Bytes} (hs : encodeUtf8 s = .ok bs)
    (ht : encodeUtf8 t = .ok bs) : s = t := by
  have hhead : ∀ {c : ℕ} {t : Text} {bs : Bytes}, encodeUtf8 (c :: t) = .ok bs →
      ∃ rest, utf8Head bs = some (c, rest) ∧ encodeUtf8 t = .ok rest := by
    intro c t bs h
    obtain ⟨first, hfirst, h⟩ := bind_eq_ok.mp h
    obtain ⟨rest, hrest, h⟩ := bind_eq_ok.mp h
    obtain rfl := Except.ok.inj h
    exact ⟨rest, utf8Head_utf8Char hfirst rest, hrest⟩
  induction s generalizing t bs with
  | nil =>
    obtain rfl := Except.ok.inj hs
    cases t with
    | nil => rfl
    | cons d t =>
      obtain ⟨rest, hd, -⟩ := hhead ht
      cases hd
  | cons c s ih =>
    obtain ⟨rest, hc, hs⟩ := hhead hs
    cases t with
    | nil =>
      obtain rfl := Except.ok.inj ht
      cases hc
    | cons d t =>
      obtain ⟨rest', hd, ht⟩ := hhead ht
      rw [hc] at hd
      obtain ⟨rfl, rfl⟩ := Prod.mk.inj (Option.some.inj hd)
      rw [ih hs ht]

/-- Canonical bytes determine the value, up to the order of the keys. -/
theorem canonicalJson_injective {v w : Json} (hv : Regular rt Style.canonical v)
    (hw : Regular rt Style.canonical w) {c : Bytes} (h : canonicalJson rt v = .ok c)
    (h' : canonicalJson rt w = .ok c) : reload v = reload w := by
  obtain ⟨s, hs, hsc⟩ := bind_eq_ok.mp h
  obtain ⟨t, ht, htc⟩ := bind_eq_ok.mp h'
  obtain rfl := encodeUtf8_injective hsc htc
  rw [← encode_canonical rt v 0] at hs
  rw [← encode_canonical rt w 0] at ht
  have hempty : ∀ c ∈ ([] : Text), isJsonSpace c := fun c hc => absurd hc List.not_mem_nil
  have hload := loads_encode rt hv hs hempty
  rw [loads_encode rt hw ht hempty] at hload
  exact (Except.ok.inj hload).symm

def printedMember (style : Style) (level : ℕ) (m : Text × Json) : Text × Text :=
  (m.1, (encode rt style level m.2).toOption.getD [])

theorem encodeMembers_eq_ok {level : ℕ} {members : List (Text × Json)}
    {printed : List (Text × Text)} :
    encodeMembers rt style level members = .ok printed ↔
      (∀ m ∈ members, ∃ t, encode rt style level m.2 = .ok t) ∧
        printed = members.map (printedMember rt style level) := by
  induction members generalizing printed with
  | nil =>
    rw [encodeMembers, Except.ok.injEq, eq_comm]
    simp
  | cons m members ih =>
    rw [encodeMembers, bind_eq_ok, List.forall_mem_cons]
    constructor
    · rintro ⟨t, ht, h⟩
      obtain ⟨rest, hrest, h⟩ := bind_eq_ok.mp h
      obtain ⟨hall, rfl⟩ := ih.mp hrest
      obtain rfl := Except.ok.inj h
      refine ⟨⟨⟨t, ht⟩, hall⟩, ?_⟩
      rw [List.map_cons, printedMember, ht]
      rfl
    · rintro ⟨⟨⟨t, ht⟩, hall⟩, rfl⟩
      refine ⟨t, ht, bind_eq_ok.mpr ⟨_, ih.mpr ⟨hall, rfl⟩, ?_⟩⟩
      rw [List.map_cons, printedMember, ht]
      rfl

/-- The order of the members does not show in the text. -/
theorem encode_order (hsort : style.sortKeys) {level : ℕ} {members : List (Text × Json)} {t : Text}
    (h : encode rt style level (.obj members) = .ok t) :
    encode rt style level (.obj (members.insertionSort fun a b => keyLe a b)) = .ok t := by
  rw [encode] at h ⊢
  obtain ⟨printed, hprinted, h⟩ := bind_eq_ok.mp h
  obtain ⟨hall, rfl⟩ := (encodeMembers_eq_ok rt).mp hprinted
  refine bind_eq_ok.mpr ⟨sortMembers (members.map (printedMember rt style (level + 1))), ?_, ?_⟩
  · rw [encodeMembers_eq_ok]
    refine ⟨fun m hm => hall m ((List.mem_insertionSort _).mp hm), ?_⟩
    exact (List.map_insertionSort (fun a b => keyLe a b) (fun a b => textLe a.1 b.1)
      (printedMember rt style (level + 1)) members fun _ _ _ _ => Iff.rfl).symm
  · rw [← Except.ok.inj h, Style.members, Style.members, if_pos hsort, if_pos hsort,
      sortMembers_idem]
    rfl

mutual

theorem encode_sorted (hsort : style.sortKeys) : ∀ (v : Json) {level : ℕ} {t : Text},
    encode rt style level v = .ok t → encode rt style level (Python.reload v) = .ok t
  | .null, _, _, h => h
  | .bool _, _, _, h => h
  | .int _, _, _, h => h
  | .float _, _, _, h => h
  | .str _, _, _, h => h
  | .arr items, _, _, h => by
    rw [encode] at h
    obtain ⟨texts, htexts, h⟩ := bind_eq_ok.mp h
    rw [Python.reload, encode, encodeItems_sorted hsort items htexts]
    exact h
  | .obj members, _, _, h => by
    rw [Python.reload]
    apply encode_order rt hsort
    rw [encode] at h ⊢
    obtain ⟨printed, hprinted, h⟩ := bind_eq_ok.mp h
    rw [encodeMembers_sorted hsort members hprinted]
    exact h

theorem encodeItems_sorted (hsort : style.sortKeys) : ∀ (items : List Json) {level : ℕ}
    {texts : List Text}, encodeItems rt style level items = .ok texts →
      encodeItems rt style level (reloadItems items) = .ok texts
  | [], _, _, h => h
  | v :: items, _, _, h => by
    rw [encodeItems] at h
    obtain ⟨t, ht, h⟩ := bind_eq_ok.mp h
    obtain ⟨rest, hrest, h⟩ := bind_eq_ok.mp h
    rw [reloadItems, encodeItems, encode_sorted hsort v ht, ok_bind,
      encodeItems_sorted hsort items hrest]
    exact h

theorem encodeMembers_sorted (hsort : style.sortKeys) : ∀ (members : List (Text × Json)) {level : ℕ}
    {printed : List (Text × Text)}, encodeMembers rt style level members = .ok printed →
      encodeMembers rt style level (reloadMembers members) = .ok printed
  | [], _, _, h => h
  | (k, v) :: members, _, _, h => by
    rw [encodeMembers] at h
    obtain ⟨t, ht, h⟩ := bind_eq_ok.mp h
    obtain ⟨rest, hrest, h⟩ := bind_eq_ok.mp h
    rw [reloadMembers, encodeMembers, encode_sorted hsort v ht, ok_bind,
      encodeMembers_sorted hsort members hrest]
    exact h

end

theorem encode_reload {v : Json} {level : ℕ} {t : Text} (h : encode rt style level v = .ok t) :
    encode rt style level (style.reload v) = .ok t := by
  unfold Style.reload
  split_ifs with hsort
  · exact encode_sorted rt hsort v h
  · exact h

/-- **What is written is read back.**  In every style a regular value is read as the same value, with
the keys of its dicts in order where they were sorted, and that value is written as the same text. -/
theorem json_round_trip (rt : Runtime) (style : Style) {v : Json} (h : Regular rt style v)
    {level : ℕ}
    {t : Text} (ht : encode rt style level v = .ok t) {close : Text}
    (hclose : ∀ c ∈ close, isJsonSpace c) :
    loads rt (t ++ close) = .ok (style.reload v) ∧ encode rt style level (style.reload v) = .ok t :=
  ⟨loads_encode rt h ht hclose, encode_reload rt ht⟩

/-- A configuration with a list, an accent and a character beyond the first plane. -/
def exampleConfig : Json :=
  .obj [(text "run", .arr [.int (-3), .null, .bool true]), (text "name", .str [233, 0x1f600])]

theorem json_round_trip_config : ∃ t, encode plainRuntime Style.line 0 exampleConfig = .ok t ∧
    loads plainRuntime (t ++ [10]) = .ok (reload exampleConfig) := by
  have hreadable : IsReadable [233, 0x1f600] := ⟨by decide, by simp [IsHighSurrogate]⟩
  have hregular : Regular plainRuntime Style.line exampleConfig := by
    refine .obj (fun m hm _ => isReadable_of_lt ?_) ?_ (by decide)
    · have hnames : ∀ name ∈ ["run", "name"].map text, ∀ c ∈ name, c < 0xd800 := by decide
      exact hnames m.1 (List.mem_map_of_mem (f := Prod.fst) hm)
    · simp only [List.forall_mem_cons]
      refine ⟨.arr ?_, .str fun _ => hreadable, fun m hm => absurd hm List.not_mem_nil⟩
      simp only [List.forall_mem_cons]
      exact ⟨.int _, .null, .bool _, fun v hv => absurd hv List.not_mem_nil⟩
  have htext : (encode plainRuntime Style.line 0 exampleConfig).isOk := by decide +kernel
  cases ht : encode plainRuntime Style.line 0 exampleConfig with
  | error e =>
    rw [ht] at htext
    cases htext
  | ok t => exact ⟨t, rfl, (json_round_trip plainRuntime Style.line hregular ht (by decide)).1⟩

end Cote3Mon.Python
