import Cote3Mon.Optee.Backend

namespace Cote3Mon.Optee
open ByteText Python AuditTa

def IsAscii (c : ℕ) : Prop := 0 < c ∧ c < 128

def ascii (t : Text) : Bytes := t.map UInt8.ofNat

theorem toNat_ascii {t : Text} (h : ∀ c ∈ t, IsAscii c) : (ascii t).map UInt8.toNat = t := by
  rw [ascii, List.map_map]
  refine (List.map_congr_left fun c hc => ?_).trans (List.map_id t)
  have hlt := (h c hc).2
  rw [Function.comp_apply, UInt8.toNat_ofNat', Nat.mod_eq_of_lt (by omega), id]

theorem fsencode_ascii {t : Text} (h : ∀ c ∈ t, IsAscii c) : fsencode t = .ok (ascii t) := by
  induction t with
  | nil => rfl
  | cons c t ih =>
    obtain ⟨hpos, hlt⟩ := h c List.mem_cons_self
    have hchar : fsencodeChar c = .ok [UInt8.ofNat c] := by
      rw [fsencodeChar, if_neg (by omega), if_neg (by omega), utf8Char, if_pos (by omega)]
    rw [fsencode, hchar, ok_bind, ih fun d hd => h d (List.mem_cons_of_mem _ hd)]
    rfl

theorem isHex_ascii {c : ℕ} (h : IsHex c) : IsAscii c := by
  unfold IsHex at h
  unfold IsAscii
  omega

theorem hexPairs_hexEncode (bs : Bytes) : hexPairs (ascii (hexEncode bs)) = some bs := by
  induction bs with
  | nil => rfl
  | cons b bs ih =>
    have h256 : b.toNat < 256 := b.toNat_lt
    have hdigit : ∀ d, d < 16 → hexValue (UInt8.ofNat (hexDigit d)).toNat = some d := by
      intro d hd
      have hrange := hexDigit_range hd
      rw [UInt8.toNat_ofNat', Nat.mod_eq_of_lt (by omega), hexValue_hexDigit hd]
    have hcons : ascii (hexEncode (b :: bs)) = UInt8.ofNat (hexDigit (b.toNat / 16)) ::
        UInt8.ofNat (hexDigit (b.toNat % 16)) :: ascii (hexEncode bs) := rfl
    rw [hcons, hexPairs, hdigit _ (by omega), hdigit _ (by omega), ih]
    exact congrArg (fun x => some (x :: bs)) (hexByte_value b)

/-- `decode_hash` undoes `print_hash` and `hexdigest`. -/
theorem decodeHash_hex (d : Digest) : decodeHash (ascii d.hex) = some d := by
  rw [decodeHash, if_neg (by simp [ascii])]
  rw [Digest.hex, hexPairs_hexEncode]
  simp

theorem printHash_eq (d : Digest) : printHash d = d.hex := rfl

theorem hex_isHex (d : Digest) : ∀ c ∈ d.hex, IsHex c := hexEncode_isHex d.bytes

theorem fsencode_hex (d : Digest) : fsencode d.hex = .ok (ascii d.hex) :=
  fsencode_ascii fun c hc => isHex_ascii (hex_isHex d c hc)

/-- A text that passes the checks of `verify_chain` is the text of a digest. -/
theorem eq_hex_of_isHash {t : Text} (h : isHash t) : ∃ d : Digest, t = d.hex := by
  simp only [isHash, Bool.and_eq_true, decide_eq_true_eq, List.all_eq_true] at h
  obtain ⟨bs, hlen, rfl⟩ := exists_hexEncode 32 h.1 h.2
  exact ⟨⟨bs, hlen⟩, rfl⟩

theorem isHash_hex (d : Digest) : isHash d.hex := by
  simp only [isHash, Bool.and_eq_true, decide_eq_true_eq, List.all_eq_true]
  exact ⟨d.hex_length, hex_isHex d⟩

theorem decimal_ascii (n : ℕ) : ∀ c ∈ decimal n, IsAscii c := by
  intro c hc
  obtain ⟨hlow, hhigh⟩ := decimal_digits n c hc
  exact ⟨by omega, by omega⟩

theorem decimal_isDigit (n : ℕ) : ∀ b ∈ ascii (decimal n), isDigit b := by
  intro b hb
  obtain ⟨c, hc, rfl⟩ := List.mem_map.mp hb
  obtain ⟨hlow, hhigh⟩ := decimal_digits n c hc
  have hc' : (UInt8.ofNat c).toNat = c := by
    rw [UInt8.toNat_ofNat', Nat.mod_eq_of_lt (by omega)]
  simp only [isDigit, Bool.and_eq_true, decide_eq_true_eq, UInt8.le_iff_toNat_le, hc']
  exact ⟨hlow, hhigh⟩

/-- What `strtoull` makes of a decimal text after an optional sign. -/
theorem strtoull_decimal {text : Bytes} {negative : Bool} {n : ℕ}
    (h : optionalSign (text.dropWhile isSpace) = (negative, ascii (decimal n))) :
    strtoull text = if 2 ^ 64 ≤ n then ⟨2 ^ 64 - 1, [], true⟩
      else ⟨if negative then (2 ^ 64 - n) % 2 ^ 64 else n, [], false⟩ := by
  have hdigits := decimal_isDigit n
  have htake : (ascii (decimal n)).takeWhile isDigit = ascii (decimal n) :=
    List.takeWhile_eq_self_iff.mpr hdigits
  have hdrop : (ascii (decimal n)).dropWhile isDigit = [] := List.dropWhile_eq_nil_iff.mpr hdigits
  have hvalue : decimalValue ((ascii (decimal n)).map UInt8.toNat) = n := by
    rw [toNat_ascii (decimal_ascii n), decimalValue_decimal]
  obtain ⟨b, bs, hb⟩ : ∃ b bs, ascii (decimal n) = b :: bs := by
    refine List.exists_cons_of_ne_nil fun h => decimal_ne_nil n ?_
    simpa [ascii] using h
  unfold strtoull
  simp only [h, htake, hdrop]
  rw [hb] at hvalue ⊢
  simp only [hvalue]

/-- `decode_sequence` undoes the decimal text of a number that fits, and refuses any other. -/
theorem decodeSequence_decimal (n : ℕ) :
    decodeSequence (ascii (decimal n)) = if n < 2 ^ 64 then some (UInt64.ofNat n) else none := by
  obtain ⟨b, bs, hb⟩ : ∃ b bs, ascii (decimal n) = b :: bs := by
    refine List.exists_cons_of_ne_nil fun h => decimal_ne_nil n ?_
    simpa [ascii] using h
  have hbdigit := decimal_isDigit n b (by simp [hb])
  simp only [isDigit, Bool.and_eq_true, decide_eq_true_eq, UInt8.le_iff_toNat_le] at hbdigit
  have hlow : 48 ≤ b.toNat := hbdigit.1
  have hspace : (ascii (decimal n)).dropWhile isSpace = ascii (decimal n) := by
    have hfirst : isSpace b = false := by
      simp only [isSpace, Bool.or_eq_false_iff, Bool.and_eq_false_imp, decide_eq_false_iff_not,
        decide_eq_true_eq, UInt8.le_iff_toNat_le, ← UInt8.toNat_inj]
      exact ⟨fun h => by change b.toNat = 32 at h; omega, fun _ h => by
        change b.toNat ≤ 13 at h; omega⟩
    rw [hb, List.dropWhile_cons, hfirst]
    rfl
  have hsign : optionalSign (ascii (decimal n)) = (false, ascii (decimal n)) := by
    rw [hb]
    unfold optionalSign
    split
    · rename_i heq
      have h45 := congrArg UInt8.toNat (List.cons.inj heq).1
      change b.toNat = 45 at h45
      omega
    · rename_i heq
      have h43 := congrArg UInt8.toNat (List.cons.inj heq).1
      change b.toNat = 43 at h43
      omega
    · rfl
  have hparsed := strtoull_decimal ((congrArg optionalSign hspace).trans hsign)
  have hne : ascii (decimal n) ≠ [] := by simp [hb]
  by_cases hn : n < 2 ^ 64
  · rw [if_neg (not_le.mpr hn)] at hparsed
    rw [if_pos hn]
    simp [decodeSequence, hparsed, hne]
  · rw [if_pos (not_lt.mp hn)] at hparsed
    rw [if_neg hn]
    simp [decodeSequence, hparsed]

/-- A minus sign is not refused: the number is taken modulo `2 ^ 64`. -/
theorem decodeSequence_minus (n : ℕ) : decodeSequence (ascii (45 :: decimal n)) =
    if n < 2 ^ 64 then some (UInt64.ofNat ((2 ^ 64 - n) % 2 ^ 64)) else none := by
  have hsign : optionalSign ((ascii (45 :: decimal n)).dropWhile isSpace) =
      (true, ascii (decimal n)) := rfl
  have hparsed := strtoull_decimal hsign
  have hne : ascii (45 :: decimal n) ≠ [] := List.cons_ne_nil _ _
  by_cases hn : n < 2 ^ 64
  · rw [if_neg (not_le.mpr hn)] at hparsed
    rw [if_pos hn]
    simp only [decodeSequence, hparsed, hne]
    rfl
  · rw [if_pos (not_lt.mp hn)] at hparsed
    rw [if_neg hn]
    simp [decodeSequence, hparsed]

theorem hex_plain (d : Digest) : ∀ c ∈ d.hex, IsPlain c := by
  intro c hc
  have h := hex_isHex d c hc
  unfold IsHex at h
  unfold IsPlain
  omega

/-- A line is stripped of its end and of nothing else. -/
theorem strip_line {t : Text} {c : ℕ} (hc : isStripSpace c = false) {d : ℕ}
    (hd : isStripSpace d = false) : strip (c :: (t ++ [d, 10])) = c :: (t ++ [d]) := by
  have hfirst : (c :: (t ++ [d, 10])).dropWhile isStripSpace = c :: (t ++ [d, 10]) := by
    rw [List.dropWhile_cons, hc]
    rfl
  have hreverse : (c :: (t ++ [d, 10])).reverse = 10 :: d :: (c :: t).reverse := by simp
  have hlast : (10 :: d :: (c :: t).reverse).dropWhile isStripSpace = d :: (c :: t).reverse := by
    rw [List.dropWhile_cons, if_pos (by rfl), List.dropWhile_cons, hd]
    rfl
  rw [strip, hfirst, hreverse, hlast]
  simp

variable (rt : Runtime)

def receiptDict (r : AuditTa.Receipt) : Dict :=
  [(text "sequence", .int r.sequence.toNat), (text "previous_head", .str r.previousHead.hex),
    (text "alert_hash", .str r.alertHash.hex), (text "model_hash", .str r.modelHash.hex),
    (text "head", .str r.head.hex)]

def headDict (h : AuditHead) : Dict :=
  [(text "sequence", .int h.sequence.toNat), (text "model_hash", .str h.modelHash.hex),
    (text "head", .str h.head.hex)]

def strMember (key t more : Text) : Text := key ++ 34 :: 58 :: 34 :: (t ++ 34 :: 44 :: 34 :: more)

def lastMember (key t rest : Text) : Text := key ++ 34 :: 58 :: 34 :: (t ++ 34 :: rest)

def intMember (key : Text) (n : ℕ) (more : Text) : Text :=
  key ++ 34 :: 58 :: (decimal n ++ 44 :: 34 :: more)

def receiptMembers (r : AuditTa.Receipt) (rest : Text) : Text :=
  intMember (text "sequence") r.sequence.toNat (strMember (text "previous_head")
    r.previousHead.hex (strMember (text "alert_hash") r.alertHash.hex (strMember (text "model_hash")
      r.modelHash.hex (lastMember (text "head") r.head.hex rest))))

def headMembers (h : AuditHead) (rest : Text) : Text :=
  intMember (text "sequence") h.sequence.toNat (strMember (text "model_hash") h.modelHash.hex
    (lastMember (text "head") h.head.hex rest))

theorem printReceipt_eq (r : AuditTa.Receipt) :
    printReceipt r = 123 :: (34 :: receiptMembers r [] ++ [125, 10]) := by
  simp only [printReceipt, receiptMembers, intMember, strMember, lastMember, printHash_eq]
  rw [show text "\x7b\"sequence\":" = 123 :: 34 :: (text "sequence" ++ [34, 58]) from rfl,
    show text ",\"previous_head\":\"" = 44 :: 34 :: (text "previous_head" ++ [34, 58, 34]) from rfl,
    show text "\",\"alert_hash\":\"" = 34 :: 44 :: 34 ::
      (text "alert_hash" ++ [34, 58, 34]) from rfl,
    show text "\",\"model_hash\":\"" = 34 :: 44 :: 34 ::
      (text "model_hash" ++ [34, 58, 34]) from rfl,
    show text "\",\"head\":\"" = 34 :: 44 :: 34 :: (text "head" ++ [34, 58, 34]) from rfl,
    show text "\"\x7d\n" = [34, 125, 10] from rfl]
  simp only [List.cons_append, List.append_assoc, List.nil_append]

theorem printHead_eq (h : AuditHead) :
    printHead h = 123 :: (34 :: headMembers h [] ++ [125, 10]) := by
  simp only [printHead, headMembers, intMember, strMember, lastMember, printHash_eq]
  rw [show text "\x7b\"sequence\":" = 123 :: 34 :: (text "sequence" ++ [34, 58]) from rfl,
    show text ",\"model_hash\":\"" = 44 :: 34 :: (text "model_hash" ++ [34, 58, 34]) from rfl,
    show text "\",\"head\":\"" = 34 :: 44 :: 34 :: (text "head" ++ [34, 58, 34]) from rfl,
    show text "\"\x7d\n" = [34, 125, 10] from rfl]
  simp only [List.cons_append, List.append_assoc, List.nil_append]

theorem receiptMembers_append (r : AuditTa.Receipt) (rest : Text) :
    receiptMembers r [] ++ rest = receiptMembers r rest := by
  simp [receiptMembers, intMember, strMember, lastMember]

theorem headMembers_append (h : AuditHead) (rest : Text) :
    headMembers h [] ++ rest = headMembers h rest := by
  simp [headMembers, intMember, strMember, lastMember]

theorem names_plain : ∀ name ∈ ["sequence", "previous_head", "alert_hash", "model_hash", "head"],
    ∀ c ∈ text name, IsPlain c := by
  unfold IsPlain
  decide

theorem decode_receiptMembers (r : AuditTa.Receipt) (fuel : ℕ) :
    decodeMembers rt (fuel + 6) (34 :: receiptMembers r [125]) = .ok (receiptDict r, []) := by
  refine decodeMembers_int rt (names_plain "sequence" (by simp)) (tooLong_uint64 rt _) ?_
  refine decodeMembers_str rt (names_plain "previous_head" (by simp)) (hex_plain _) ?_
  refine decodeMembers_str rt (names_plain "alert_hash" (by simp)) (hex_plain _) ?_
  refine decodeMembers_str rt (names_plain "model_hash" (by simp)) (hex_plain _) ?_
  exact decodeMembers_last rt (names_plain "head" (by simp)) (hex_plain _)

theorem decode_headMembers (h : AuditHead) (fuel : ℕ) :
    decodeMembers rt (fuel + 4) (34 :: headMembers h [125]) = .ok (headDict h, []) := by
  refine decodeMembers_int rt (names_plain "sequence" (by simp)) (tooLong_uint64 rt _) ?_
  refine decodeMembers_str rt (names_plain "model_hash" (by simp)) (hex_plain _) ?_
  exact decodeMembers_last rt (names_plain "head" (by simp)) (hex_plain _)

/-- What the client prints for a receipt, stripped and parsed. -/
theorem loads_printReceipt (r : AuditTa.Receipt) :
    loads rt (strip (printReceipt r)) = .ok (.obj (receiptDict r)) := by
  have hlen : (receiptMembers r [125]).length + 2 =
      ((receiptMembers r [125]).length - 4) + 6 := by
    simp only [receiptMembers, intMember, List.length_append, List.length_cons]
    omega
  have hmembers := decode_receiptMembers rt r ((receiptMembers r [125]).length - 4)
  rw [← hlen] at hmembers
  rw [printReceipt_eq, strip_line rfl rfl, List.cons_append, receiptMembers_append,
    loads_object rt hmembers]
  rfl

theorem loads_printHead (h : AuditHead) :
    loads rt (strip (printHead h)) = .ok (.obj (headDict h)) := by
  have hlen : (headMembers h [125]).length + 2 = ((headMembers h [125]).length - 2) + 4 := by
    simp only [headMembers, intMember, List.length_append, List.length_cons]
    omega
  have hmembers := decode_headMembers rt h ((headMembers h [125]).length - 2)
  rw [← hlen] at hmembers
  rw [printHead_eq, strip_line rfl rfl, List.cons_append, headMembers_append,
    loads_object rt hmembers]
  rfl

end Cote3Mon.Optee
