import Cote3Mon.Python.Values

namespace Cote3Mon.Python
open ByteText

-- The decoder of Python's `json` module on a text. Its only errors are `JSONDecodeError` and the
-- `ValueError` for too many digits.

def isJsonSpace (c : ℕ) : Bool := c = 32 || c = 9 || c = 10 || c = 13

def skipSpace (t : Text) : Text := t.dropWhile isJsonSpace

/-- The code unit of `\uXXXX`. -/
def hex4 (a b c d : ℕ) : Option ℕ := do
  return 4096 * (← hexValue a) + 256 * (← hexValue b) + 16 * (← hexValue c) + (← hexValue d)

/-- A low surrogate in a following `\uXXXX`, for the high surrogate just read. -/
def lowSurrogate (high : ℕ) (t : Text) : Option ℕ :=
  if 0xd800 ≤ high ∧ high < 0xdc00 then
    match t with
    | 92 :: 117 :: a :: b :: c :: d :: _ =>
      (hex4 a b c d).filter fun low => 0xdc00 ≤ low && low < 0xe000
    | _ => none
  else none

def simpleEscape (c : ℕ) : Option ℕ :=
  if c = 34 ∨ c = 92 ∨ c = 47 then some c
  else if c = 98 then some 8
  else if c = 102 then some 12
  else if c = 110 then some 10
  else if c = 114 then some 13
  else if c = 116 then some 9
  else none

/-- The character that an escape stands for, and how many characters follow the backslash. -/
def scanEscape : Text → Option (ℕ × ℕ)
  | 117 :: a :: b :: c :: d :: rest => do
    let unit ← hex4 a b c d
    match lowSurrogate unit rest with
    | some low => return (0x10000 + 0x400 * (unit - 0xd800) + (low - 0xdc00), 11)
    | none => return (unit, 5)
  | e :: _ => do return (← simpleEscape e, 1)
  | [] => none

def consChar (c : ℕ) : Except Exc (Text × Text) → Except Exc (Text × Text)
  | .ok (t, rest) => .ok (c :: t, rest)
  | .error e => .error e

/-- The rest of a string after its opening quote, and what follows it; the first `skip`
characters belong to an escape that has been read. -/
def scanString : ℕ → Text → Except Exc (Text × Text)
  | _, [] => .error .valueError
  | skip + 1, _ :: rest => scanString skip rest
  | 0, c :: rest =>
    if c = 34 then .ok ([], rest)
    else if c = 92 then
      match scanEscape rest with
      | none => .error .valueError
      | some (x, used) => consChar x (scanString used rest)
    else if c < 32 then .error .valueError
    else consChar c (scanString 0 rest)

def scanDigits (t : Text) : Option (Text × Text) :=
  match t.takeWhile isDigit with
  | [] => none
  | digits => some (digits, t.dropWhile isDigit)

def scanFraction : Text → Text × Text
  | 46 :: rest =>
    match scanDigits rest with
    | some (digits, rest) => (46 :: digits, rest)
    | none => ([], 46 :: rest)
  | t => ([], t)

def scanSign (plus : Bool) : Text → Text × Text
  | 45 :: rest => ([45], rest)
  | 43 :: rest => if plus then ([43], rest) else ([], 43 :: rest)
  | t => ([], t)

def scanExponent : Text → Text × Text
  | c :: rest =>
    if c = 101 ∨ c = 69 then
      let (sign, body) := scanSign true rest
      match scanDigits body with
      | some (digits, rest) => (c :: sign ++ digits, rest)
      | none => ([], c :: rest)
    else ([], c :: rest)
  | [] => ([], [])

/-- The integer part: a zero, or digits that do not start with one. -/
def scanInteger : Text → Option (Text × Text)
  | 48 :: rest => some ([48], rest)
  | t => scanDigits t

variable (rt : Runtime)

def scanNumber (t : Text) : Except Exc (Json × Text) :=
  let (sign, body) := scanSign false t
  match scanInteger body with
  | none => .error .valueError
  | some (digits, rest) =>
    let (fraction, rest) := scanFraction rest
    let (exponent, rest) := scanExponent rest
    if fraction = [] ∧ exponent = [] then
      if rt.tooLong digits then .error .valueError
      else .ok (.int (if sign = [] then decimalValue digits else -(decimalValue digits : ℤ)), rest)
    else .ok (.float (rt.parseFloat (sign ++ digits ++ fraction ++ exponent)), rest)

def keywords : List (Text × Json) :=
  [(text "null", .null), (text "true", .bool true), (text "false", .bool false),
    (text "NaN", .float .nan), (text "Infinity", .float (.infinity false)),
    (text "-Infinity", .float (.infinity true))]

def scanKeyword (t : Text) : Option (Json × Text) :=
  keywords.findSome? fun k => if k.1.isPrefixOf t then some (k.2, t.drop k.1.length) else none

/-- `d[key] = v`. -/
def Dict.set (d : Dict) (key : Text) (v : Json) : Dict :=
  match d with
  | [] => [(key, v)]
  | (k, w) :: rest => if k = key then (key, v) :: rest else (k, w) :: Dict.set rest key v

/-- The dict of the pairs of an object: the last value of a repeated key stays. -/
def Dict.ofPairs (pairs : List (Text × Json)) : Dict :=
  pairs.foldl (fun d p => d.set p.1 p.2) []

mutual

/-- A value and what follows it.  The fuel bounds the number of values and members. -/
def decodeValue : ℕ → Text → Except Exc (Json × Text)
  | 0, _ => .error .valueError
  | _ + 1, [] => .error .valueError
  | fuel + 1, c :: rest =>
    if c = 34 then do
      let (s, rest) ← scanString 0 rest
      return (.str s, rest)
    else if c = 123 then
      match skipSpace rest with
      | 125 :: rest => .ok (.obj [], rest)
      | rest => do
        let (pairs, rest) ← decodeMembers fuel rest
        return (.obj (Dict.ofPairs pairs), rest)
    else if c = 91 then
      match skipSpace rest with
      | 93 :: rest => .ok (.arr [], rest)
      | rest => do
        let (items, rest) ← decodeItems fuel rest
        return (.arr items, rest)
    else
      match scanKeyword (c :: rest) with
      | some out => .ok out
      | none => scanNumber rt (c :: rest)

def decodeItems : ℕ → Text → Except Exc (List Json × Text)
  | 0, _ => .error .valueError
  | fuel + 1, t => do
    let (v, rest) ← decodeValue fuel t
    match skipSpace rest with
    | 93 :: rest => return ([v], rest)
    | 44 :: rest => do
      let (items, rest) ← decodeItems fuel (skipSpace rest)
      return (v :: items, rest)
    | _ => .error .valueError

def decodeMembers : ℕ → Text → Except Exc (List (Text × Json) × Text)
  | 0, _ => .error .valueError
  | fuel + 1, 34 :: rest => do
    let (key, rest) ← scanString 0 rest
    match skipSpace rest with
    | 58 :: rest => do
      let (v, rest) ← decodeValue fuel (skipSpace rest)
      match skipSpace rest with
      | 125 :: rest => return ([(key, v)], rest)
      | 44 :: rest => do
        let (pairs, rest) ← decodeMembers fuel (skipSpace rest)
        return ((key, v) :: pairs, rest)
      | _ => .error .valueError
    | _ => .error .valueError
  | _ + 1, _ => .error .valueError

end

/-- `json.loads(t)`. -/
def loads (t : Text) : Except Exc Json :=
  match t with
  | 0xfeff :: _ => .error .valueError
  | _ => do
    let (v, rest) ← decodeValue rt (t.length + 1) (skipSpace t)
    match skipSpace rest with
    | [] => return v
    | _ => .error .valueError

def IsPlain (c : ℕ) : Prop := 32 ≤ c ∧ c ≠ 34 ∧ c ≠ 92

theorem scanString_plain {t : Text} (h : ∀ c ∈ t, IsPlain c) (rest : Text) :
    scanString 0 (t ++ 34 :: rest) = .ok (t, rest) := by
  induction t with
  | nil => rfl
  | cons c t ih =>
    obtain ⟨hlow, hquote, hescape⟩ := h c List.mem_cons_self
    have ht := ih fun d hd => h d (List.mem_cons_of_mem _ hd)
    rw [List.cons_append, scanString, if_neg hquote, if_neg hescape, if_neg (by omega), ht]
    rfl

theorem takeWhile_digits {t : Text} (h : ∀ c ∈ t, isDigit c) {c : ℕ} (hc : isDigit c = false)
    (rest : Text) : (t ++ c :: rest).takeWhile isDigit = t ∧
      (t ++ c :: rest).dropWhile isDigit = c :: rest := by
  have hall : t.takeWhile isDigit = t := List.takeWhile_eq_self_iff.mpr h
  refine ⟨?_, ?_⟩
  · rw [List.takeWhile_append_of_pos h]
    simp [hc]
  · rw [List.dropWhile_append_of_pos h]
    simp [hc]

theorem decimal_isDigit (n : ℕ) : ∀ c ∈ decimal n, isDigit c := by
  intro c hc
  obtain ⟨h1, h2⟩ := decimal_digits n c hc
  simp [isDigit, h1, h2]

/-- A decimal number has no sign. -/
theorem scanSign_decimal (n : ℕ) (rest : Text) :
    scanSign false (decimal n ++ rest) = ([], decimal n ++ rest) := by
  obtain ⟨c, t, hd, hlow, hhigh, -⟩ := decimal_head n
  rw [hd, List.cons_append]
  unfold scanSign
  split
  · rename_i heq
    have h45 := (List.cons.inj heq).1
    omega
  · rename_i heq
    have h43 := (List.cons.inj heq).1
    omega
  · rfl

theorem scanInteger_decimal (n : ℕ) {c : ℕ} (hc : isDigit c = false) (rest : Text) :
    scanInteger (decimal n ++ c :: rest) = some (decimal n, c :: rest) := by
  obtain ⟨d, t, hd, -, -, hzero⟩ := decimal_head n
  have hspan := takeWhile_digits (decimal_isDigit n) hc rest
  by_cases h0 : d = 48
  · rw [hd, hzero h0, h0]
    rfl
  · have hscan : scanInteger (decimal n ++ c :: rest) = scanDigits (decimal n ++ c :: rest) := by
      rw [hd, List.cons_append]
      unfold scanInteger
      split
      · rename_i heq
        exact absurd (List.cons.inj heq).1 h0
      · rfl
    rw [hscan, scanDigits, hspan.1, hspan.2, hd]

/-- A decimal number followed by a comma. -/
theorem scanNumber_decimal {n : ℕ} (h : rt.tooLong (decimal n) = false) (rest : Text) :
    scanNumber rt (decimal n ++ 44 :: rest) = .ok (.int n, 44 :: rest) := by
  have hinteger := scanInteger_decimal n (show isDigit 44 = false from rfl) rest
  simp [scanNumber, scanSign_decimal, hinteger, scanFraction, scanExponent, h, decimalValue_decimal]

theorem skipSpace_cons {c : ℕ} (h : isJsonSpace c = false) (rest : Text) :
    skipSpace (c :: rest) = c :: rest := by
  simp [skipSpace, h]

/-- `"key":` and a value that starts with no space. -/
theorem decodeMembers_key {fuel : ℕ} {key : Text} (hkey : ∀ c ∈ key, IsPlain c) {c : ℕ}
    (hc : isJsonSpace c = false) (rest : Text) :
    decodeMembers rt (fuel + 1) (34 :: (key ++ 34 :: 58 :: c :: rest)) = (do
      let (v, rest) ← decodeValue rt fuel (c :: rest)
      match skipSpace rest with
      | 125 :: rest => return ([(key, v)], rest)
      | 44 :: rest => do
        let (pairs, rest) ← decodeMembers rt fuel (skipSpace rest)
        return ((key, v) :: pairs, rest)
      | _ => .error .valueError) := by
  rw [decodeMembers, scanString_plain hkey, ok_bind]
  simp only [skipSpace_cons (show isJsonSpace 58 = false from rfl), skipSpace_cons hc]

/-- A member with a text, followed by another member. -/
theorem decodeMembers_str {fuel : ℕ} {key t more rest : Text} {pairs : List (Text × Json)}
    (hkey : ∀ c ∈ key, IsPlain c) (ht : ∀ c ∈ t, IsPlain c)
    (h : decodeMembers rt (fuel + 1) (34 :: more) = .ok (pairs, rest)) :
    decodeMembers rt (fuel + 2) (34 :: (key ++ 34 :: 58 :: 34 :: (t ++ 34 :: 44 :: 34 :: more))) =
      .ok ((key, .str t) :: pairs, rest) := by
  rw [decodeMembers_key rt hkey (by rfl), decodeValue, if_pos rfl, scanString_plain ht]
  simp only [ok_bind, pure, Except.pure]
  rw [skipSpace_cons (by rfl)]
  simp only [skipSpace_cons (show isJsonSpace 34 = false from rfl), h, ok_bind]

/-- The last member, with a text. -/
theorem decodeMembers_last {fuel : ℕ} {key t rest : Text} (hkey : ∀ c ∈ key, IsPlain c)
    (ht : ∀ c ∈ t, IsPlain c) :
    decodeMembers rt (fuel + 2) (34 :: (key ++ 34 :: 58 :: 34 :: (t ++ 34 :: 125 :: rest))) =
      .ok ([(key, .str t)], rest) := by
  rw [decodeMembers_key rt hkey (by rfl), decodeValue, if_pos rfl, scanString_plain ht]
  simp only [ok_bind, pure, Except.pure]
  rw [skipSpace_cons (by rfl)]
  rfl

/-- No keyword starts with a digit. -/
theorem scanKeyword_digit {c : ℕ} (hlow : 48 ≤ c) (hhigh : c ≤ 57) (rest : Text) :
    scanKeyword (c :: rest) = none := by
  have hkeywords : ∀ k ∈ keywords, ∃ d t, k.1 = d :: t ∧ ¬ (48 ≤ d ∧ d ≤ 57) := by
    intro k hk
    simp only [keywords, List.mem_cons, List.not_mem_nil, or_false] at hk
    rcases hk with rfl | rfl | rfl | rfl | rfl | rfl <;> exact ⟨_, _, rfl, by decide⟩
  refine List.findSome?_eq_none_iff.mpr fun k hk => ?_
  obtain ⟨d, t, hd, hdigit⟩ := hkeywords k hk
  have hne : d ≠ c := by
    rintro rfl
    exact hdigit ⟨hlow, hhigh⟩
  simp [hd, hne]

/-- A text that starts with a digit is read as a number. -/
theorem decodeValue_decimal (fuel n : ℕ) (rest : Text) :
    decodeValue rt (fuel + 1) (decimal n ++ rest) = scanNumber rt (decimal n ++ rest) := by
  obtain ⟨c, t, hd, hlow, hhigh, -⟩ := decimal_head n
  rw [hd, List.cons_append, decodeValue, if_neg (by omega), if_neg (by omega), if_neg (by omega)]
  rw [scanKeyword_digit hlow hhigh]

theorem decimal_start (n : ℕ) (rest : Text) :
    ∃ c t, decimal n ++ rest = c :: t ∧ isJsonSpace c = false := by
  obtain ⟨c, t, hd, hlow, hhigh, -⟩ := decimal_head n
  refine ⟨c, t ++ rest, by rw [hd, List.cons_append], ?_⟩
  simp only [isJsonSpace, Bool.or_eq_false_iff, decide_eq_false_iff_not]
  omega

/-- A member with a number, followed by another member. -/
theorem decodeMembers_int {fuel n : ℕ} {key more rest : Text} {pairs : List (Text × Json)}
    (hkey : ∀ c ∈ key, IsPlain c) (hn : rt.tooLong (decimal n) = false)
    (h : decodeMembers rt (fuel + 1) (34 :: more) = .ok (pairs, rest)) :
    decodeMembers rt (fuel + 2) (34 :: (key ++ 34 :: 58 :: (decimal n ++ 44 :: 34 :: more))) =
      .ok ((key, .int n) :: pairs, rest) := by
  obtain ⟨c, t, hd, hspace⟩ := decimal_start n (44 :: 34 :: more)
  have hvalue : decodeValue rt (fuel + 1) (decimal n ++ 44 :: 34 :: more) =
      .ok (.int n, 44 :: 34 :: more) := by
    rw [decodeValue_decimal, scanNumber_decimal rt hn]
  rw [hd] at hvalue ⊢
  rw [decodeMembers_key rt hkey hspace, hvalue, ok_bind]
  simp only [skipSpace_cons (show isJsonSpace 44 = false from rfl),
    skipSpace_cons (show isJsonSpace 34 = false from rfl), h, ok_bind]
  rfl

/-- A text that is one object. -/
theorem loads_object {members : Text} {pairs : List (Text × Json)}
    (h : decodeMembers rt (members.length + 2) (34 :: members) = .ok (pairs, [])) :
    loads rt (123 :: 34 :: members) = .ok (.obj (Dict.ofPairs pairs)) := by
  unfold loads
  rw [skipSpace_cons (by rfl)]
  simp only [List.length_cons, decodeValue]
  rw [if_neg (by decide), if_true, skipSpace_cons (by rfl)]
  simp only [h, ok_bind, pure, Except.pure]
  rfl

end Cote3Mon.Python
