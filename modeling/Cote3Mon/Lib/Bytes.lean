import Mathlib

namespace ByteText

-- Text is a list of character codes. Numbers are written with a fixed number of bytes in either
-- byte order, bytes as two lower-case hexadecimal digits and numbers in decimal.

abbrev Bytes := List UInt8
abbrev Text := List ℕ

/-- The `k` bytes of `n`, least significant first; what does not fit is dropped. -/
def leBytes : ℕ → ℕ → Bytes
  | 0, _ => []
  | k + 1, n => UInt8.ofNat n :: leBytes k (n / 256)

def beBytes (k n : ℕ) : Bytes := (leBytes k n).reverse

def leNat (bs : Bytes) : ℕ := Nat.ofDigits 256 (bs.map UInt8.toNat)

def beNat (bs : Bytes) : ℕ := leNat bs.reverse

@[simp] theorem leBytes_length (k n : ℕ) : (leBytes k n).length = k := by
  induction k generalizing n with
  | zero => rfl
  | succ k ih => simp [leBytes, ih]

@[simp] theorem beBytes_length (k n : ℕ) : (beBytes k n).length = k := by simp [beBytes]

theorem leNat_cons (b : UInt8) (bs : Bytes) : leNat (b :: bs) = b.toNat + 256 * leNat bs := by
  simp [leNat, Nat.ofDigits_cons]

theorem leNat_append (xs ys : Bytes) :
    leNat (xs ++ ys) = leNat xs + 256 ^ xs.length * leNat ys := by
  simp [leNat, Nat.ofDigits_append]

theorem leNat_lt (bs : Bytes) : leNat bs < 256 ^ bs.length := by
  have h := Nat.ofDigits_lt_base_pow_length' (b := 254) (l := bs.map UInt8.toNat) (by
    intro d hd
    obtain ⟨b, -, rfl⟩ := List.mem_map.mp hd
    exact b.toNat_lt)
  simpa [leNat] using h

theorem leNat_leBytes (k n : ℕ) : leNat (leBytes k n) = n % 256 ^ k := by
  induction k generalizing n with
  | zero => simp [leBytes, leNat, Nat.mod_one]
  | succ k ih =>
    have hb : (UInt8.ofNat n).toNat = n % 256 := UInt8.toNat_ofNat'
    rw [leBytes, leNat_cons, ih, hb, pow_succ', Nat.mod_mul]

theorem leBytes_leNat (bs : Bytes) : leBytes bs.length (leNat bs) = bs := by
  induction bs with
  | nil => rfl
  | cons b bs ih =>
    have hb : b.toNat < 256 := b.toNat_lt
    rw [List.length_cons, leBytes, leNat_cons]
    congr 1
    · rw [UInt8.ofNat_add, UInt8.ofNat_mul, UInt8.ofNat_toNat]
      simp
    · rw [Nat.add_mul_div_left _ _ (by norm_num), Nat.div_eq_of_lt hb, Nat.zero_add, ih]

theorem beNat_beBytes {k n : ℕ} (h : n < 256 ^ k) : beNat (beBytes k n) = n := by
  rw [beNat, beBytes, List.reverse_reverse, leNat_leBytes, Nat.mod_eq_of_lt h]

theorem beBytes_beNat (bs : Bytes) : beBytes bs.length (beNat bs) = bs := by
  have h := leBytes_leNat bs.reverse
  rw [List.length_reverse] at h
  rw [beBytes, beNat, h, List.reverse_reverse]

theorem beBytes_injective {k m n : ℕ} (hm : m < 256 ^ k) (hn : n < 256 ^ k)
    (h : beBytes k m = beBytes k n) : m = n := by
  simpa only [beNat_beBytes hm, beNat_beBytes hn] using congrArg beNat h

theorem beNat_lt {k : ℕ} {bs : Bytes} (h : bs.length = k) : beNat bs < 256 ^ k := by
  rw [← h, ← List.length_reverse]
  exact leNat_lt _

theorem leBytes_add (j k n : ℕ) : leBytes (j + k) n = leBytes j n ++ leBytes k (n / 256 ^ j) := by
  induction j generalizing n with
  | zero => simp [leBytes]
  | succ j ih =>
    rw [Nat.add_right_comm, leBytes, leBytes, ih, Nat.div_div_eq_div_mul, ← pow_succ']
    rfl

theorem leBytes_mod (k n : ℕ) : leBytes k (n % 256 ^ k) = leBytes k n := by
  have h := leBytes_leNat (leBytes k n)
  rwa [leBytes_length, leNat_leBytes] at h

theorem beBytes_add (j k n : ℕ) : beBytes (j + k) n = beBytes j (n / 256 ^ k) ++ beBytes k n := by
  rw [beBytes, Nat.add_comm, leBytes_add, List.reverse_append]
  rfl

theorem beBytes_mod (k n : ℕ) : beBytes k (n % 256 ^ k) = beBytes k n := by
  rw [beBytes, leBytes_mod, beBytes]

def hexDigit (d : ℕ) : ℕ := if d < 10 then 48 + d else 87 + d

def hexValue (c : ℕ) : Option ℕ :=
  if 48 ≤ c ∧ c ≤ 57 then some (c - 48)
  else if 97 ≤ c ∧ c ≤ 102 then some (c - 87)
  else if 65 ≤ c ∧ c ≤ 70 then some (c - 55)
  else none

def hexByte (b : UInt8) : Text := [hexDigit (b.toNat / 16), hexDigit (b.toNat % 16)]

def hexEncode (bs : Bytes) : Text := bs.flatMap hexByte

theorem hexValue_hexDigit {d : ℕ} (h : d < 16) : hexValue (hexDigit d) = some d := by
  unfold hexDigit hexValue
  split_ifs <;> first | omega | (congr 1; omega)

theorem hexByte_value (b : UInt8) : UInt8.ofNat (16 * (b.toNat / 16) + b.toNat % 16) = b := by
  rw [Nat.div_add_mod, UInt8.ofNat_toNat]

theorem hexDigit_range {d : ℕ} (h : d < 16) :
    48 ≤ hexDigit d ∧ hexDigit d ≤ 57 ∨ 97 ≤ hexDigit d ∧ hexDigit d ≤ 102 := by
  unfold hexDigit
  split_ifs <;> omega

def IsHex (c : ℕ) : Prop := 48 ≤ c ∧ c ≤ 57 ∨ 97 ≤ c ∧ c ≤ 102

instance (c : ℕ) : Decidable (IsHex c) := inferInstanceAs (Decidable (_ ∨ _))

theorem hexEncode_cons (b : UInt8) (bs : Bytes) :
    hexEncode (b :: bs) =
      hexDigit (b.toNat / 16) :: hexDigit (b.toNat % 16) :: hexEncode bs := rfl

theorem hexEncode_isHex (bs : Bytes) : ∀ c ∈ hexEncode bs, IsHex c := by
  intro c hc
  obtain ⟨b, -, hb⟩ := List.mem_flatMap.mp hc
  have h256 : b.toNat < 256 := b.toNat_lt
  simp only [hexByte, List.mem_cons, List.not_mem_nil, or_false] at hb
  rcases hb with rfl | rfl
  · exact hexDigit_range (by omega)
  · exact hexDigit_range (by omega)

@[simp] theorem hexEncode_length (bs : Bytes) : (hexEncode bs).length = 2 * bs.length := by
  induction bs with
  | nil => rfl
  | cons b bs ih => simp only [hexEncode_cons, List.length_cons, ih]; omega

theorem hexEncode_injective : Function.Injective hexEncode := by
  intro xs ys h
  induction xs generalizing ys with
  | nil =>
    cases ys with
    | nil => rfl
    | cons y ys => simp [hexEncode, hexByte] at h
  | cons x xs ih =>
    cases ys with
    | nil => simp [hexEncode, hexByte] at h
    | cons y ys =>
      simp only [hexEncode_cons, List.cons.injEq] at h
      obtain ⟨hhigh, hlow, htail⟩ := h
      have hx : x.toNat < 256 := x.toNat_lt
      have hy : y.toNat < 256 := y.toNat_lt
      have h1 := congrArg hexValue hhigh
      have h2 := congrArg hexValue hlow
      rw [hexValue_hexDigit (by omega), hexValue_hexDigit (by omega), Option.some.injEq] at h1 h2
      rw [ih htail, UInt8.toNat_inj.mp (show x.toNat = y.toNat by omega)]

theorem exists_hexDigit {c : ℕ} (h : IsHex c) : ∃ d < 16, hexDigit d = c := by
  unfold IsHex at h
  unfold hexDigit
  by_cases hdigit : c ≤ 57
  · exact ⟨c - 48, by omega, by rw [if_pos (by omega)]; omega⟩
  · exact ⟨c - 87, by omega, by rw [if_neg (by omega)]; omega⟩

/-- Every lower-case hexadecimal text of even length is the text of some bytes. -/
theorem exists_hexEncode (k : ℕ) {t : Text} (hlen : t.length = 2 * k) (h : ∀ c ∈ t, IsHex c) :
    ∃ bs : Bytes, bs.length = k ∧ hexEncode bs = t := by
  induction k generalizing t with
  | zero =>
    obtain rfl : t = [] := List.length_eq_zero_iff.mp hlen
    exact ⟨[], rfl, rfl⟩
  | succ k ih =>
    match t, hlen, h with
    | c :: d :: t, hlen, h =>
      obtain ⟨x, hx, rfl⟩ := exists_hexDigit (h c (by simp))
      obtain ⟨y, hy, rfl⟩ := exists_hexDigit (h d (by simp))
      obtain ⟨bs, hbs, rfl⟩ := ih (t := t) (by simp only [List.length_cons] at hlen; omega)
        fun e he => h e (by simp [he])
      have hbyte : (UInt8.ofNat (16 * x + y)).toNat = 16 * x + y := by
        rw [UInt8.toNat_ofNat', Nat.mod_eq_of_lt (by omega)]
      refine ⟨UInt8.ofNat (16 * x + y) :: bs, by rw [List.length_cons, hbs], ?_⟩
      rw [hexEncode_cons, hbyte]
      congr 2
      · omega
      · congr 1
        omega

/-- The decimal digits of `n`, most significant first and without leading zeros. -/
def decimal (n : ℕ) : Text :=
  if n = 0 then [48] else (Nat.digits 10 n).reverse.map (48 + ·)

def decimalValue (t : Text) : ℕ := t.foldl (fun acc c => 10 * acc + (c - 48)) 0

theorem decimal_digits (n : ℕ) : ∀ c ∈ decimal n, 48 ≤ c ∧ c ≤ 57 := by
  intro c hc
  unfold decimal at hc
  split_ifs at hc
  · simp only [List.mem_singleton] at hc
    omega
  · obtain ⟨d, hd, rfl⟩ := List.mem_map.mp hc
    have := Nat.digits_lt_base (b := 10) (by norm_num) (List.mem_reverse.mp hd)
    omega

theorem decimal_ne_nil (n : ℕ) : decimal n ≠ [] := by
  unfold decimal
  split_ifs with h
  · simp
  · simpa [Nat.digits_eq_nil_iff_eq_zero] using h

theorem decimalValue_append_singleton (t : Text) (c : ℕ) :
    decimalValue (t ++ [c]) = 10 * decimalValue t + (c - 48) := by
  simp [decimalValue]

theorem decimalValue_map_reverse (ds : List ℕ) :
    decimalValue (ds.reverse.map (48 + ·)) = Nat.ofDigits 10 ds := by
  induction ds with
  | nil => rfl
  | cons d ds ih =>
    rw [List.reverse_cons, List.map_append, List.map_singleton, decimalValue_append_singleton, ih,
      Nat.ofDigits_cons]
    omega

theorem decimalValue_decimal (n : ℕ) : decimalValue (decimal n) = n := by
  unfold decimal
  split_ifs with h
  · simp [decimalValue, h]
  · rw [decimalValue_map_reverse, Nat.ofDigits_digits]

/-- The first digit is a zero only for the number zero itself. -/
theorem decimal_head (n : ℕ) : ∃ c t, decimal n = c :: t ∧ 48 ≤ c ∧ c ≤ 57 ∧ (c = 48 → t = []) := by
  obtain ⟨c, t, h⟩ := List.exists_cons_of_ne_nil (decimal_ne_nil n)
  have hc := decimal_digits n c (by simp [h])
  refine ⟨c, t, h, hc.1, hc.2, ?_⟩
  intro h48
  unfold decimal at h
  split_ifs at h with hn
  · exact (List.cons.inj h).2.symm
  · exfalso
    have hlast := Nat.getLast_digit_ne_zero 10 hn
    have hhead := congrArg List.head? h
    rw [List.head?_map, List.head?_reverse, List.getLast?_eq_some_getLast 
      (by simpa [Nat.digits_eq_nil_iff_eq_zero] using hn)] at hhead
    simp only [Option.map_some, List.head?_cons, Option.some.injEq] at hhead
    omega

@[ext] structure Digest where
  bytes : Bytes
  length_eq : bytes.length = 32
  deriving DecidableEq

namespace Digest

attribute [simp] length_eq

def zero : Digest := ⟨List.replicate 32 0, rfl⟩

/-- The thirty-two bytes of a buffer from an offset on; a short buffer reads as zero. -/
def read (buffer : Bytes) (offset : ℕ) : Digest :=
  ⟨(buffer.drop offset ++ List.replicate 32 0).take 32, by simp⟩

def hex (d : Digest) : Text := hexEncode d.bytes

@[simp] theorem hex_length (d : Digest) : d.hex.length = 64 := by simp [hex]

theorem hex_injective : Function.Injective hex := by
  intro d e h
  exact Digest.ext (hexEncode_injective h)

theorem read_append (xs ys : Bytes) (d : Digest) : read (xs ++ (d.bytes ++ ys)) xs.length = d := by
  apply Digest.ext
  simp [read]

end Digest

end ByteText
