import Cote3Mon.Crypto
import Cote3Mon.Lib.Exec

namespace Cote3Mon.Python
open ByteText

-- The values that `json.loads` can return, and the built-in functions that the audit code applies
-- to them. What the code only passes through the interpreter (the shortest decimal text of a
-- double, the `repr` of a container, the digits of other scripts) is a parameter.

/-- The exceptions of the audit code.  `UnicodeEncodeError` and `JSONDecodeError` are
`ValueError`s; `refused` is a `raise ValueError(message)` of the repository itself. -/
inductive Exc where
  | keyError
  | typeError
  | valueError
  | refused (message : String)
  | attributeError
  | indexError
  | overflowError
  | zeroDivisionError
  | structError
  | osError
  | eofError
  | calledProcessError
  deriving DecidableEq, Repr

/-- Caught by `except (KeyError, TypeError, ValueError)`. -/
def Exc.isDataError : Exc → Bool
  | .keyError | .typeError | .valueError | .refused _ => true
  | _ => false

inductive PyFloat where
  | finite (negative : Bool) (magnitude : ℚ≥0)
  | infinity (negative : Bool)
  | nan
  deriving DecidableEq

def PyFloat.value? : PyFloat → Option ℚ
  | .finite negative magnitude => some (if negative then -(magnitude : ℚ) else magnitude)
  | _ => none

inductive Json where
  | null
  | bool (b : Bool)
  | int (n : ℤ)
  | float (f : PyFloat)
  | str (t : Text)
  | arr (items : List Json)
  | obj (members : List (Text × Json))

abbrev Dict := List (Text × Json)

/-- `v.get`: only a dict has this attribute. -/
def Json.dict : Json → Except Exc Dict
  | .obj members => .ok members
  | _ => .error .attributeError

/-- `d.get(name)`. -/
def Dict.get (d : Dict) (name : String) : Json := (d.lookup (text name)).getD .null

/-- `d[name]`. -/
def Dict.item (d : Dict) (name : String) : Except Exc Json :=
  match d.lookup (text name) with
  | some v => .ok v
  | none => .error .keyError

/-- `v[name]`: with a text only a dict can be subscripted. -/
def Json.item (v : Json) (name : String) : Except Exc Json :=
  match v with
  | .obj members => Dict.item members name
  | _ => .error .typeError

/-- `v == n`.  Numbers compare by value whatever their type. -/
def Json.eqInt (n : ℤ) : Json → Bool
  | .int m => m = n
  | .bool b => (if b then 1 else 0) = n
  | .float f => f.value? = some (n : ℚ)
  | _ => false

/-- `v == t`. -/
def Json.eqText (t : Text) : Json → Bool
  | .str s => s = t
  | _ => false

/-- `v == t` for a `t` that is a text or `None`. -/
def Json.eqTextOrNone : Option Text → Json → Bool
  | some t, v => v.eqText t
  | none, .null => true
  | none, _ => false

structure Runtime where
  /-- `repr` of a finite float. -/
  floatRepr : Bool → ℚ≥0 → Text
  /-- `float` of a JSON number. -/
  parseFloat : Text → PyFloat
  /-- `str` of a list or a dict. -/
  containerRepr : Json → Except Exc Text
  /-- What `int` makes of a character outside ASCII: a digit, a space, or `?`. -/
  foldChar : ℕ → ℕ
  /-- `sys.get_int_max_str_digits()`; zero is no limit. -/
  maxStrDigits : ℕ
  maxStrDigits_range : maxStrDigits = 0 ∨ 640 ≤ maxStrDigits

/-- An interpreter that is never asked for the text of a float or of a container. -/
def plainRuntime : Runtime :=
  ⟨fun _ _ => [], fun _ => .nan, fun _ => .error .typeError, id, 4300, by decide⟩

def isSpace (c : ℕ) : Bool := c = 32 || 9 ≤ c && c ≤ 13

def isDigit (c : ℕ) : Bool := 48 ≤ c && c ≤ 57

variable (rt : Runtime)

def Runtime.tooLong (digits : Text) : Bool :=
  rt.maxStrDigits ≠ 0 && rt.maxStrDigits < digits.length

/-- `str(n)`. -/
def Runtime.intText (n : ℤ) : Except Exc Text :=
  if rt.tooLong (decimal n.natAbs) then .error .valueError
  else .ok (if n < 0 then 45 :: decimal n.natAbs else decimal n.natAbs)

/-- `str(v)`. -/
def Runtime.str : Json → Except Exc Text
  | .null => .ok (text "None")
  | .bool b => .ok (if b then text "True" else text "False")
  | .int n => rt.intText n
  | .float (.finite negative magnitude) => .ok (rt.floatRepr negative magnitude)
  | .float (.infinity negative) => .ok (if negative then text "-inf" else text "inf")
  | .float .nan => .ok (text "nan")
  | .str t => .ok t
  | v => rt.containerRepr v

/-- Decimal digits with single underscores between them. -/
def digitRun : Text → Option Text
  | [] => none
  | [c] => if isDigit c then some [c] else none
  | c :: 95 :: rest => if isDigit c then (digitRun rest).map (c :: ·) else none
  | c :: rest => if isDigit c then (digitRun rest).map (c :: ·) else none

/-- `int(t)` for a text. -/
def Runtime.parseInt (t : Text) : Except Exc ℤ :=
  let folded := t.map fun c => if c < 127 then c else rt.foldChar c
  let stripped := ((folded.dropWhile isSpace).reverse.dropWhile isSpace).reverse
  let (negative, body) :=
    match stripped with
    | 45 :: rest => (true, rest)
    | 43 :: rest => (false, rest)
    | rest => (false, rest)
  match digitRun body with
  | none => .error .valueError
  | some digits =>
    if rt.tooLong digits then .error .valueError
    else .ok (if negative then -(decimalValue digits : ℤ) else decimalValue digits)

/-- `int(v)`. -/
def Runtime.int : Json → Except Exc ℤ
  | .int n => .ok n
  | .bool b => .ok (if b then 1 else 0)
  | .float (.finite negative magnitude) =>
    .ok (if negative then -(⌊(magnitude : ℚ)⌋) else ⌊(magnitude : ℚ)⌋)
  | .float (.infinity _) => .error .overflowError
  | .float .nan => .error .valueError
  | .str t => rt.parseInt t
  | _ => .error .typeError

/-- `bytes.fromhex(t)`: pairs of digits of either case, white space between the pairs. -/
def fromHex : Text → Except Exc Bytes
  | [] => .ok []
  | c :: rest =>
    if isSpace c then fromHex rest
    else
      match rest with
      | [] => .error .valueError
      | d :: rest =>
        match hexValue c, hexValue d with
        | some high, some low => do return UInt8.ofNat (16 * high + low) :: (← fromHex rest)
        | _, _ => .error .valueError

/-- The UTF-8 bytes of a code point; surrogates have none. -/
def utf8Char (c : ℕ) : Except Exc Bytes :=
  if c < 0x80 then .ok [UInt8.ofNat c]
  else if c < 0x800 then .ok [UInt8.ofNat (0xc0 + c / 0x40), UInt8.ofNat (0x80 + c % 0x40)]
  else if 0xd800 ≤ c ∧ c < 0xe000 then .error .valueError
  else if c < 0x10000 then
    .ok [UInt8.ofNat (0xe0 + c / 0x1000), UInt8.ofNat (0x80 + c / 0x40 % 0x40),
      UInt8.ofNat (0x80 + c % 0x40)]
  else if c < 0x110000 then
    .ok [UInt8.ofNat (0xf0 + c / 0x40000), UInt8.ofNat (0x80 + c / 0x1000 % 0x40),
      UInt8.ofNat (0x80 + c / 0x40 % 0x40), UInt8.ofNat (0x80 + c % 0x40)]
  else .error .valueError

/-- `t.encode("utf-8")`. -/
def encodeUtf8 : Text → Except Exc Bytes
  | [] => .ok []
  | c :: rest => do return (← utf8Char c) ++ (← encodeUtf8 rest)

/-- A character of a JSON string with `ensure_ascii=False`. -/
def escapeChar (c : ℕ) : Text :=
  if c = 34 then text "\\\""
  else if c = 92 then text "\\\\"
  else if c = 10 then text "\\n"
  else if c = 13 then text "\\r"
  else if c = 9 then text "\\t"
  else if c = 12 then text "\\f"
  else if c = 8 then text "\\b"
  else if c < 32 then text "\\u00" ++ [hexDigit (c / 16), hexDigit (c % 16)]
  else [c]

def quote (t : Text) : Text := 34 :: t.flatMap escapeChar ++ [34]

def textLe : Text → Text → Bool
  | [], _ => true
  | _ :: _, [] => false
  | a :: as, b :: bs => a < b || a = b && textLe as bs

/-- The order of `sorted(dct.items())`; the keys of a dict are distinct. -/
def sortMembers (members : List (Text × Text)) : List (Text × Text) :=
  members.insertionSort fun a b => textLe a.1 b.1

mutual

/-- `json.dumps(v, sort_keys=True, separators=(",", ":"), ensure_ascii=False)`. -/
def dumps : Json → Except Exc Text
  | .null => .ok (text "null")
  | .bool b => .ok (if b then text "true" else text "false")
  | .int n => rt.intText n
  | .float (.finite negative magnitude) => .ok (rt.floatRepr negative magnitude)
  | .float (.infinity negative) => .ok (if negative then text "-Infinity" else text "Infinity")
  | .float .nan => .ok (text "NaN")
  | .str t => .ok (quote t)
  | .arr items => do
    let texts ← dumpsItems items
    return 91 :: (texts.intersperse [44]).flatten ++ [93]
  | .obj members => do
    let pairs ← dumpsMembers members
    let texts := (sortMembers pairs).map fun p => quote p.1 ++ 58 :: p.2
    return 123 :: (texts.intersperse [44]).flatten ++ [125]

def dumpsItems : List Json → Except Exc (List Text)
  | [] => .ok []
  | v :: rest => do return (← dumps v) :: (← dumpsItems rest)

def dumpsMembers : List (Text × Json) → Except Exc (List (Text × Text))
  | [] => .ok []
  | (k, v) :: rest => do return (k, ← dumps v) :: (← dumpsMembers rest)

end

/-- `canonical_json` of `audit_store.py`. -/
def canonicalJson (v : Json) : Except Exc Bytes := do encodeUtf8 (← dumps rt v)

theorem hexValue_not_space {c d : ℕ} (h : hexValue c = some d) : isSpace c = false := by
  unfold hexValue at h
  simp only [isSpace, Bool.or_eq_false_iff, Bool.and_eq_false_imp, decide_eq_true_eq,
    decide_eq_false_iff_not]
  split_ifs at h <;> omega

@[simp] theorem fromHex_hexEncode (bs : Bytes) : fromHex (hexEncode bs) = .ok bs := by
  induction bs with
  | nil => rfl
  | cons b bs ih =>
    have h256 : b.toNat < 256 := b.toNat_lt
    have hhigh : hexValue (hexDigit (b.toNat / 16)) = some (b.toNat / 16) :=
      hexValue_hexDigit (by omega)
    have hlow : hexValue (hexDigit (b.toNat % 16)) = some (b.toNat % 16) :=
      hexValue_hexDigit (by omega)
    rw [hexEncode_cons, fromHex, if_neg (by simp [hexValue_not_space hhigh])]
    simp only [hhigh, hlow, ih, hexByte_value]
    rfl

theorem Runtime.int_of_eqInt {v : Json} {n : ℤ} (h : v.eqInt n) : rt.int v = .ok n := by
  cases v with
  | int m => simpa [Json.eqInt, Runtime.int] using h
  | bool b => simpa [Json.eqInt, Runtime.int] using h
  | float f =>
    cases f with
    | finite negative magnitude =>
      have hq : (if negative then -(magnitude : ℚ) else magnitude) = n := by
        simpa [Json.eqInt, PyFloat.value?] using h
      cases negative with
      | false =>
        have hm : (magnitude : ℚ) = n := by simpa using hq
        simp [Runtime.int, hm]
      | true =>
        have hm : (magnitude : ℚ) = ((-n : ℤ) : ℚ) := by
          push_cast
          linarith [show -(magnitude : ℚ) = n by simpa using hq]
        rw [Runtime.int, if_pos rfl, hm, Int.floor_intCast, neg_neg]
    | infinity negative => simp [Json.eqInt, PyFloat.value?] at h
    | nan => simp [Json.eqInt, PyFloat.value?] at h
  | null => simp [Json.eqInt] at h
  | str t => simp [Json.eqInt] at h
  | arr items => simp [Json.eqInt] at h
  | obj members => simp [Json.eqInt] at h

theorem Json.eq_of_eqText {v : Json} {t : Text} (h : v.eqText t) : v = .str t := by
  cases v with
  | str s => rw [show s = t by simpa [Json.eqText] using h]
  | _ => simp [Json.eqText] at h

theorem Dict.get_of_item {d : Dict} {name : String} {v : Json} (h : d.item name = .ok v) :
    d.get name = v := by
  unfold Dict.item at h
  unfold Dict.get
  cases hl : d.lookup (text name) with
  | none => simp [hl] at h
  | some w => simpa [hl] using h

theorem Dict.item_of_get {d : Dict} {name : String} {t : Text} (h : d.get name = .str t) :
    d.item name = .ok (.str t) := by
  unfold Dict.get at h
  unfold Dict.item
  cases hl : d.lookup (text name) with
  | none => simp [hl] at h
  | some w => simpa [hl] using h

/-- An unsigned 64-bit number has at most twenty digits. -/
theorem tooLong_uint64 (x : UInt64) : rt.tooLong (decimal x.toNat) = false := by
  have hlen : (decimal x.toNat).length ≤ 20 := by
    unfold decimal
    split_ifs
    · simp
    · have hlt : x.toNat < 10 ^ 20 := x.toNat_lt.trans (by norm_num)
      simpa using (Nat.digits_length_le_iff (by norm_num) x.toNat).mpr hlt
  have hrange := rt.maxStrDigits_range
  simp only [Runtime.tooLong, Bool.and_eq_false_imp, decide_eq_true_eq, decide_eq_false_iff_not]
  omega

theorem digitRun_digits {t : Text} (hne : t ≠ []) (h : ∀ c ∈ t, isDigit c) :
    digitRun t = some t := by
  fun_induction digitRun t with
  | case1 => exact absurd rfl hne
  | case2 c hc => rfl
  | case3 c hc => exact absurd (h c List.mem_cons_self) hc
  | case4 c rest hc ih => exact absurd (h 95 (by simp)) (by decide)
  | case5 c rest hc => exact absurd (h c List.mem_cons_self) hc
  | case6 c rest hrest hunderscore hc ih =>
    rw [ih (by simpa using hrest) fun d hd => h d (List.mem_cons_of_mem _ hd)]
    rfl
  | case7 c rest hrest hunderscore hc => exact absurd (h c List.mem_cons_self) hc

/-- `int(str(n))`. -/
theorem parseInt_decimal {n : ℕ} (h : rt.tooLong (decimal n) = false) :
    rt.parseInt (decimal n) = .ok n := by
  have hdigit := decimal_digits n
  obtain ⟨c, t, hhead, hlow, hhigh, -⟩ := decimal_head n
  have hfolded : ((decimal n).map fun c => if c < 127 then c else rt.foldChar c) = decimal n := by
    refine (List.map_congr_left fun c hc => ?_).trans (List.map_id _)
    rw [if_pos (by have := hdigit c hc; omega), id]
  have hspace : ∀ c ∈ decimal n, isSpace c = false := by
    intro c hc
    have hrange := hdigit c hc
    simp only [isSpace, Bool.or_eq_false_iff, Bool.and_eq_false_imp, decide_eq_true_eq,
      decide_eq_false_iff_not]
    omega
  have hkeep : ∀ t : Text, (∀ c ∈ t, isSpace c = false) → t.dropWhile isSpace = t := by
    intro t ht
    cases t with
    | nil => rfl
    | cons c t => rw [List.dropWhile_cons_of_neg (by simp [ht c List.mem_cons_self])]
  have hrun : digitRun (decimal n) = some (decimal n) := by
    apply digitRun_digits (decimal_ne_nil n)
    intro c hc
    have hrange := hdigit c hc
    simp [isDigit, hrange.1, hrange.2]
  rw [Runtime.parseInt, hfolded, hkeep _ hspace,
    hkeep _ fun c hc => hspace c (List.mem_reverse.mp hc), List.reverse_reverse]
  rw [hhead] at hrun h ⊢
  -- the first character is no sign
  split
  rename_i negative body hsign
  have hbody : (false, c :: t) = (negative, body) := by
    rw [← hsign]
    split
    · rename_i heq
      have h45 := (List.cons.inj heq).1
      omega
    · rename_i heq
      have h43 := (List.cons.inj heq).1
      omega
    · rfl
  obtain ⟨rfl, rfl⟩ := Prod.mk.inj hbody
  rw [hrun]
  simp only [h, Bool.false_eq_true, if_false]
  rw [← hhead, decimalValue_decimal]

/-- A method of an object with the state `σ`: what it has assigned before it raises stays. -/
abbrev Method (σ : Type) := Exec Exc σ

end Cote3Mon.Python
