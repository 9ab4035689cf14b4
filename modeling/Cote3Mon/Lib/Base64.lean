import Cote3Mon.Lib.Bytes

namespace Base64
open ByteText

def sextetChar (v : ℕ) : ℕ :=
  if v < 26 then 65 + v
  else if v < 52 then 71 + v
  else if v < 62 then v - 4
  else if v = 62 then 43
  else 47

def sextetValue (c : ℕ) : Option ℕ :=
  if 65 ≤ c ∧ c ≤ 90 then some (c - 65)
  else if 97 ≤ c ∧ c ≤ 122 then some (c - 71)
  else if 48 ≤ c ∧ c ≤ 57 then some (c + 4)
  else if c = 43 then some 62
  else if c = 47 then some 63
  else none

def encode : Bytes → Text
  | [] => []
  | [a] => [sextetChar (a.toNat / 4), sextetChar (a.toNat % 4 * 16), 61, 61]
  | [a, b] =>
    [sextetChar (a.toNat / 4), sextetChar (a.toNat % 4 * 16 + b.toNat / 16),
      sextetChar (b.toNat % 16 * 4), 61]
  | a :: b :: c :: rest =>
    sextetChar (a.toNat / 4) :: sextetChar (a.toNat % 4 * 16 + b.toNat / 16) ::
      sextetChar (b.toNat % 16 * 4 + c.toNat / 64) :: sextetChar (c.toNat % 64) :: encode rest

/-- `place` characters of a group of four have been read, and `left` is what they have left over. -/
def decodeFrom (place pads left : ℕ) : Text → Option Bytes
  | [] => if place = 0 then some [] else none
  | c :: rest =>
    if c = 61 then
      if 2 ≤ place then
        -- behind complete padding nothing is read
        if 4 ≤ place + (pads + 1) then some [] else decodeFrom place (pads + 1) left rest
      else decodeFrom place pads left rest
    else
      match sextetValue c with
      | none => decodeFrom place pads left rest
      | some v =>
        match place with
        | 0 => decodeFrom 1 0 v rest
        | 1 => (decodeFrom 2 0 (v % 16) rest).map (UInt8.ofNat (left * 4 + v / 16) :: ·)
        | 2 => (decodeFrom 3 0 (v % 4) rest).map (UInt8.ofNat (left * 16 + v / 4) :: ·)
        | _ => (decodeFrom 0 0 0 rest).map (UInt8.ofNat (left * 64 + v) :: ·)

def decode (t : Text) : Option Bytes := decodeFrom 0 0 0 t

theorem sextetValue_sextetChar {v : ℕ} (h : v < 64) : sextetValue (sextetChar v) = some v := by
  unfold sextetChar
  split_ifs with h1 h2 h3 h4
  · rw [sextetValue, if_pos (by omega)]
    congr 1
    omega
  · rw [sextetValue, if_neg (by omega), if_pos (by omega)]
    congr 1
    omega
  · rw [sextetValue, if_neg (by omega), if_neg (by omega), if_pos (by omega)]
    congr 1
    omega
  · rw [h4]
    rfl
  · rw [show v = 63 by omega]
    rfl

/-- A letter, a digit, a plus sign or a slash. -/
theorem sextetChar_range {v : ℕ} (h : v < 64) : 43 ≤ sextetChar v ∧ sextetChar v ≤ 122 ∧
    sextetChar v ≠ 61 ∧ sextetChar v ≠ 92 := by
  unfold sextetChar
  split_ifs
  all_goals omega

section
variable {v left : ℕ} (hv : v < 64) (pads : ℕ) (rest : Text)

include hv in
theorem decodeFrom_zero : decodeFrom 0 pads left (sextetChar v :: rest) = decodeFrom 1 0 v rest := by
  rw [decodeFrom, if_neg (sextetChar_range hv).2.2.1, sextetValue_sextetChar hv]
  rfl

include hv in
theorem decodeFrom_one (a : UInt8) (ha : left * 4 + v / 16 = a.toNat) :
    decodeFrom 1 pads left (sextetChar v :: rest) = (decodeFrom 2 0 (v % 16) rest).map (a :: ·) := by
  rw [decodeFrom, if_neg (sextetChar_range hv).2.2.1, sextetValue_sextetChar hv]
  simp only [ha, UInt8.ofNat_toNat]

include hv in
theorem decodeFrom_two (b : UInt8) (hb : left * 16 + v / 4 = b.toNat) :
    decodeFrom 2 pads left (sextetChar v :: rest) = (decodeFrom 3 0 (v % 4) rest).map (b :: ·) := by
  rw [decodeFrom, if_neg (sextetChar_range hv).2.2.1, sextetValue_sextetChar hv]
  simp only [hb, UInt8.ofNat_toNat]

include hv in
theorem decodeFrom_three (c : UInt8) (hc : left * 64 + v = c.toNat) :
    decodeFrom 3 pads left (sextetChar v :: rest) = (decodeFrom 0 0 0 rest).map (c :: ·) := by
  rw [decodeFrom, if_neg (sextetChar_range hv).2.2.1, sextetValue_sextetChar hv]
  simp only [hc, UInt8.ofNat_toNat]

end

/-- What was encoded is decoded. -/
theorem decode_encode (bs : Bytes) : decode (encode bs) = some bs := by
  unfold decode
  fun_induction encode bs with
  | case1 => rfl
  | case2 a =>
    have ha := a.toNat_lt
    rw [decodeFrom_zero (by omega), decodeFrom_one (by omega) _ _ a (by omega)]
    rfl
  | case3 a b =>
    have ha := a.toNat_lt
    have hb := b.toNat_lt
    rw [decodeFrom_zero (by omega), decodeFrom_one (by omega) _ _ a (by omega),
      decodeFrom_two (by omega) _ _ b (by omega)]
    rfl
  | case4 a b c rest ih =>
    have ha := a.toNat_lt
    have hb := b.toNat_lt
    have hc := c.toNat_lt
    rw [decodeFrom_zero (by omega), decodeFrom_one (by omega) _ _ a (by omega),
      decodeFrom_two (by omega) _ _ b (by omega), decodeFrom_three (by omega) _ _ c (by omega), ih]
    rfl

theorem encode_range (bs : Bytes) : ∀ c ∈ encode bs, 43 ≤ c ∧ c ≤ 122 ∧ c ≠ 92 := by
  have hchar : ∀ v, v < 64 → 43 ≤ sextetChar v ∧ sextetChar v ≤ 122 ∧ sextetChar v ≠ 92 := by
    intro v hv
    obtain ⟨hlow, hhigh, -, hslash⟩ := sextetChar_range hv
    exact ⟨hlow, hhigh, hslash⟩
  fun_induction encode bs with
  | case1 => exact fun c hc => absurd hc List.not_mem_nil
  | case2 a =>
    have ha := a.toNat_lt
    simp only [List.forall_mem_cons]
    exact ⟨hchar _ (by omega), hchar _ (by omega), by omega, by omega,
      fun c hc => absurd hc List.not_mem_nil⟩
  | case3 a b =>
    have ha := a.toNat_lt
    have hb := b.toNat_lt
    simp only [List.forall_mem_cons]
    exact ⟨hchar _ (by omega), hchar _ (by omega), hchar _ (by omega), by omega,
      fun c hc => absurd hc List.not_mem_nil⟩
  | case4 a b c rest ih =>
    have ha := a.toNat_lt
    have hb := b.toNat_lt
    have hc := c.toNat_lt
    simp only [List.forall_mem_cons]
    exact ⟨hchar _ (by omega), hchar _ (by omega), hchar _ (by omega), hchar _ (by omega), ih⟩

end Base64
