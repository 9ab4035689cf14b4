import Cote3Mon.Python.Loads

namespace Cote3Mon.Python
open ByteText

variable {rt : Runtime}

/-- What may follow a number. -/
def Stops (rest : Text) : Prop := ∀ c ∈ rest.head?, isDigit c = false ∧ c ≠ 46 ∧ c ≠ 101 ∧ c ≠ 69

def IsStart (c : ℕ) : Prop := isJsonSpace c = false ∧ c < 128 ∧ c ≠ 93

/-- The text of a value. -/
structure Reads (rt : Runtime) (t : Text) (v : Json) : Prop where
  start : ∃ c rest, t = c :: rest ∧ IsStart c
  value : ∀ fuel rest, t.length ≤ fuel → Stops rest →
    decodeValue rt fuel (t ++ rest) = .ok (v, rest)

theorem stops_nil : Stops [] := fun _ hc => by cases hc

theorem stops_cons {c : ℕ} (h : isDigit c = false ∧ c ≠ 46 ∧ c ≠ 101 ∧ c ≠ 69) (rest : Text) :
    Stops (c :: rest) := by
  intro d hd
  rw [← Option.some.inj hd]
  exact h

theorem stops_space {c : ℕ} (h : isJsonSpace c) (rest : Text) : Stops (c :: rest) := by
  apply stops_cons
  simp only [isJsonSpace, Bool.or_eq_true, decide_eq_true_eq] at h
  simp only [isDigit, Bool.and_eq_false_imp, decide_eq_true_eq, decide_eq_false_iff_not]
  omega

/-- White space in front of something else. -/
theorem skipSpace_append {gap : Text} (hgap : ∀ c ∈ gap, isJsonSpace c) {c : ℕ}
    (hc : isJsonSpace c = false) (rest : Text) : skipSpace (gap ++ c :: rest) = c :: rest := by
  rw [skipSpace, List.dropWhile_append_of_pos hgap]
  exact skipSpace_cons hc rest

theorem stops_gap {gap : Text} (hgap : ∀ c ∈ gap, isJsonSpace c) {c : ℕ}
    (hc : isDigit c = false ∧ c ≠ 46 ∧ c ≠ 101 ∧ c ≠ 69) (rest : Text) :
    Stops (gap ++ c :: rest) := by
  cases gap with
  | nil => exact stops_cons hc rest
  | cons d gap => exact stops_space (hgap d List.mem_cons_self) _

/-- What stands between the quotes of a string. -/
def Spells (body t : Text) : Prop := ∀ rest, scanString 0 (body ++ 34 :: rest) = .ok (t, rest)

theorem spells_plain {t : Text} (h : ∀ c ∈ t, IsPlain c) : Spells t t := scanString_plain h

def quoted (t : Text) : Text := 34 :: (t ++ [34])

theorem reads_str {body t : Text} (h : Spells body t) : Reads rt (quoted body) (.str t) := by
  refine ⟨⟨34, _, rfl, by unfold IsStart; decide⟩, fun fuel rest hfuel _ => ?_⟩
  obtain ⟨fuel, rfl⟩ : ∃ n, fuel = n + 1 := Nat.exists_eq_add_one.mpr (by
    rw [quoted, List.length_cons] at hfuel
    omega)
  have hquoted : quoted body ++ rest = 34 :: (body ++ 34 :: rest) := by simp [quoted]
  rw [hquoted, decodeValue, if_pos rfl, h]
  rfl

theorem reads_keyword {k : Text × Json} (h : k ∈ keywords) : Reads rt k.1 k.2 := by
  simp only [keywords, List.mem_cons, List.not_mem_nil, or_false] at h
  rcases h with rfl | rfl | rfl | rfl | rfl | rfl
  · exact ⟨⟨110, _, rfl, by unfold IsStart; decide⟩, fun fuel _ hfuel _ => by
      cases fuel with
      | zero => cases hfuel
      | succ fuel => rfl⟩
  · exact ⟨⟨116, _, rfl, by unfold IsStart; decide⟩, fun fuel _ hfuel _ => by
      cases fuel with
      | zero => cases hfuel
      | succ fuel => rfl⟩
  · exact ⟨⟨102, _, rfl, by unfold IsStart; decide⟩, fun fuel _ hfuel _ => by
      cases fuel with
      | zero => cases hfuel
      | succ fuel => rfl⟩
  · exact ⟨⟨78, _, rfl, by unfold IsStart; decide⟩, fun fuel _ hfuel _ => by
      cases fuel with
      | zero => cases hfuel
      | succ fuel => rfl⟩
  · exact ⟨⟨73, _, rfl, by unfold IsStart; decide⟩, fun fuel _ hfuel _ => by
      cases fuel with
      | zero => cases hfuel
      | succ fuel => rfl⟩
  · exact ⟨⟨45, _, rfl, by unfold IsStart; decide⟩, fun fuel _ hfuel _ => by
      cases fuel with
      | zero => cases hfuel
      | succ fuel => rfl⟩

theorem reads_bool (b : Bool) : Reads rt (if b then text "true" else text "false") (.bool b) := by
  cases b
  · exact reads_keyword (k := (text "false", .bool false)) (by simp [keywords])
  · exact reads_keyword (k := (text "true", .bool true)) (by simp [keywords])

def signText (negative : Bool) : Text := if negative then [45] else []

def IsFraction (t : Text) : Prop := t = [] ∨ ∃ digits, t = 46 :: digits ∧ digits ≠ [] ∧
    ∀ c ∈ digits, isDigit c

/-- An `e`, a sign and digits, or nothing. -/
def IsExponent (t : Text) : Prop :=
  t = [] ∨ ∃ c sign digits, t = c :: (sign ++ digits) ∧ (c = 101 ∨ c = 69) ∧
    sign ∈ [[], [43], [45]] ∧ digits ≠ [] ∧ ∀ c ∈ digits, isDigit c

theorem scanSign_signText (negative : Bool) (n : ℕ) (rest : Text) :
    scanSign false (signText negative ++ (decimal n ++ rest)) =
        (signText negative, decimal n ++ rest) := by
  cases negative with
  | false => exact scanSign_decimal n rest
  | true => rfl

theorem digits_stop {digits rest : Text} (h : ∀ c ∈ digits, isDigit c)
    (hrest : ∀ c ∈ rest.head?, isDigit c = false) : (digits ++ rest).takeWhile isDigit = digits ∧
      (digits ++ rest).dropWhile isDigit = rest := by
  cases rest with
  | nil =>
    rw [List.append_nil]
    exact ⟨List.takeWhile_eq_self_iff.mpr h, List.dropWhile_eq_nil_iff.mpr h⟩
  | cons c rest => exact takeWhile_digits h (hrest c rfl) rest

theorem scanDigits_append {digits rest : Text} (hne : digits ≠ []) (h : ∀ c ∈ digits, isDigit c)
    (hrest : ∀ c ∈ rest.head?, isDigit c = false) : scanDigits (digits ++ rest) =
        some (digits, rest) := by
  obtain ⟨htake, hdrop⟩ := digits_stop h hrest
  obtain ⟨d, ds, rfl⟩ := List.exists_cons_of_ne_nil hne
  rw [scanDigits, htake, hdrop]

theorem scanExponent_append {exponent rest : Text} (h : IsExponent exponent) (hrest : Stops rest) :
    scanExponent (exponent ++ rest) = (exponent, rest) := by
  rcases h with rfl | ⟨c, sign, digits, rfl, hc, hsign, hne, hdigits⟩
  · cases rest with
    | nil => rfl
    | cons c rest =>
      obtain ⟨-, -, he, hE⟩ := hrest c rfl
      rw [List.nil_append, scanExponent, if_neg (by omega)]
  · have hscan := scanDigits_append hne hdigits fun d hd => (hrest d hd).1
    have hscanSign : scanSign true (sign ++ (digits ++ rest)) = (sign, digits ++ rest) := by
      simp only [List.mem_cons, List.not_mem_nil, or_false] at hsign
      rcases hsign with rfl | rfl | rfl
      · obtain ⟨d, ds, rfl⟩ := List.exists_cons_of_ne_nil hne
        have hd := hdigits d List.mem_cons_self
        simp only [isDigit, Bool.and_eq_true, decide_eq_true_eq] at hd
        rw [List.nil_append, List.cons_append]
        unfold scanSign
        split
        · rename_i heq
          have h45 := (List.cons.inj heq).1
          omega
        · rename_i heq
          have h43 := (List.cons.inj heq).1
          omega
        · rfl
      · rfl
      · rfl
    rw [List.cons_append, List.append_assoc, scanExponent, if_pos hc, hscanSign]
    simp only [hscan, List.cons_append]

theorem scanFraction_append {fraction rest : Text} (h : IsFraction fraction)
    (hrest : ∀ c ∈ rest.head?, isDigit c = false ∧ c ≠ 46) :
    scanFraction (fraction ++ rest) = (fraction, rest) := by
  rcases h with rfl | ⟨digits, rfl, hne, hdigits⟩
  · cases rest with
    | nil => rfl
    | cons c rest =>
      obtain ⟨-, hpoint⟩ := hrest c rfl
      rw [List.nil_append]
      unfold scanFraction
      split
      · rename_i heq
        exact absurd (List.cons.inj heq).1 hpoint
      · rfl
  · rw [List.cons_append, scanFraction, scanDigits_append hne hdigits fun d hd => (hrest d hd).1]

/-- What an exponent starts with ends the digits before it. -/
theorem exponent_head {exponent rest : Text} (h : IsExponent exponent) (hrest : Stops rest) :
    ∀ c ∈ (exponent ++ rest).head?, isDigit c = false ∧ c ≠ 46 := by
  rcases h with rfl | ⟨c, sign, digits, rfl, hc, -, -, -⟩
  · exact fun c hc => ⟨(hrest c hc).1, (hrest c hc).2.1⟩
  · intro d hd
    obtain rfl : c = d := Option.some.inj hd
    rcases hc with rfl | rfl <;> decide

theorem fraction_head {fraction rest : Text} (h : IsFraction fraction)
    (hrest : ∀ c ∈ rest.head?, isDigit c = false) : ∀ c ∈ (fraction ++ rest).head?, isDigit c =
        false := by
  rcases h with rfl | ⟨digits, rfl, -, -⟩
  · exact hrest
  · intro d hd
    obtain rfl : 46 = d := Option.some.inj hd
    rfl

theorem scanInteger_append (n : ℕ) {rest : Text} (hrest : ∀ c ∈ rest.head?, isDigit c = false) :
    scanInteger (decimal n ++ rest) = some (decimal n, rest) := by
  cases rest with
  | nil =>
    obtain ⟨d, t, hd, -, -, hzero⟩ := decimal_head n
    by_cases h0 : d = 48
    · rw [hd, hzero h0, h0]
      rfl
    · have hdigits := scanDigits_append (decimal_ne_nil n) (decimal_isDigit n) hrest
      rw [hd, List.cons_append] at hdigits ⊢
      unfold scanInteger
      split
      · rename_i heq
        exact absurd (List.cons.inj heq).1 h0
      · exact hdigits
  | cons c rest => exact scanInteger_decimal n (hrest c rfl) rest

/-- A number starts neither a string, nor an array, an object or a word. -/
theorem decodeValue_signText (fuel : ℕ) (negative : Bool) (n : ℕ) (rest : Text) :
    decodeValue rt (fuel + 1) (signText negative ++ (decimal n ++ rest)) =
      scanNumber rt (signText negative ++ (decimal n ++ rest)) := by
  cases negative with
  | false => exact decodeValue_decimal rt fuel n rest
  | true =>
    obtain ⟨c, t, hd, hlow, hhigh, -⟩ := decimal_head n
    have hkeyword : scanKeyword (45 :: (c :: t ++ rest)) = none := by
      have hne : 73 ≠ c := by omega
      simp [scanKeyword, keywords, text, hne]
    change decodeValue rt (fuel + 1) (45 :: (decimal n ++ rest)) =
      scanNumber rt (45 :: (decimal n ++ rest))
    rw [hd, decodeValue, if_neg (by decide), if_neg (by decide), if_neg (by decide), hkeyword]

theorem signText_start (negative : Bool) (n : ℕ) (rest : Text) :
    ∃ c t, signText negative ++ (decimal n ++ rest) = c :: t ∧ IsStart c := by
  cases negative with
  | true => exact ⟨45, _, rfl, by unfold IsStart; decide⟩
  | false =>
    obtain ⟨c, t, hd, hlow, hhigh, -⟩ := decimal_head n
    refine ⟨c, t ++ rest, by rw [hd]; rfl, ?_, by omega, by omega⟩
    simp only [isJsonSpace, Bool.or_eq_false_iff, decide_eq_false_iff_not]
    omega

theorem length_signText (negative : Bool) (n : ℕ) (rest : Text) :
    0 < (signText negative ++ (decimal n ++ rest)).length := by
  obtain ⟨c, t, h, -⟩ := signText_start negative n rest
  rw [h]
  exact Nat.succ_pos _

theorem reads_int (negative : Bool) {n : ℕ} (h : rt.tooLong (decimal n) = false) :
    Reads rt (signText negative ++ decimal n) (.int (if negative then -n else n)) := by
  have hstart := signText_start negative n []
  have hlength := length_signText negative n []
  rw [List.append_nil] at hstart hlength
  refine ⟨hstart, fun fuel rest hfuel hrest => ?_⟩
  obtain ⟨fuel, rfl⟩ : ∃ k, fuel = k + 1 := Nat.exists_eq_add_one.mpr (by omega)
  have hfraction := scanFraction_append (Or.inl rfl) fun c hc => ⟨(hrest c hc).1, (hrest c hc).2.1⟩
  have hexponent := scanExponent_append (Or.inl rfl) hrest
  rw [List.nil_append] at hfraction hexponent
  rw [List.append_assoc, decodeValue_signText, scanNumber, scanSign_signText]
  simp only [scanInteger_append n fun c hc => (hrest c hc).1, hfraction, hexponent, h,
    decimalValue_decimal]
  cases negative <;> simp [signText]

theorem reads_decimal {n : ℕ} (h : rt.tooLong (decimal n) = false) : Reads rt (decimal n) (.int n) :=
  reads_int false h

structure IsFloatText (t : Text) : Prop where
  parts : ∃ negative n fraction exponent,
    t = signText negative ++ (decimal n ++ (fraction ++ exponent)) ∧ IsFraction fraction ∧
      IsExponent exponent ∧ ¬ (fraction = [] ∧ exponent = [])

theorem reads_float {t : Text} (h : IsFloatText t) : Reads rt t (.float (rt.parseFloat t)) := by
  obtain ⟨negative, n, fraction, exponent, rfl, hfraction, hexponent, hne⟩ := h.parts
  refine ⟨signText_start negative n _, fun fuel rest hfuel hrest => ?_⟩
  have hlength := length_signText negative n (fraction ++ exponent)
  obtain ⟨fuel, rfl⟩ : ∃ k, fuel = k + 1 := Nat.exists_eq_add_one.mpr (by omega)
  have hhead := exponent_head hexponent hrest
  have hfull := fraction_head hfraction fun c hc => (hhead c hc).1
  rw [List.append_assoc, List.append_assoc, List.append_assoc, decodeValue_signText, scanNumber,
    scanSign_signText]
  simp only [scanInteger_append n hfull, scanFraction_append hfraction hhead,
    scanExponent_append hexponent hrest]
  rw [if_neg hne, List.append_assoc, List.append_assoc]

/-- The items of an array or the members of an object: after a comma stands `gap`. -/
def joined (gap : Text) : List Text → Text
  | [] => []
  | [t] => t
  | t :: rest => t ++ 44 :: (gap ++ joined gap rest)

/-- `"key":value`, with what stands between the quotes of the key. -/
def memberText (gap : Text) (m : Text × Text) : Text := quoted m.1 ++ 58 :: (gap ++ m.2)

/-- The members of an object as they are printed, and as they are read. -/
abbrev Readable (rt : Runtime) : List (Text × Text) → List (Text × Json) → Prop :=
  List.Forall₂ fun printed pair => Spells printed.1 pair.1 ∧ Reads rt printed.2 pair.2

theorem joined_cons (gap t : Text) {rest : List Text} (h : rest ≠ []) :
    joined gap (t :: rest) = t ++ 44 :: (gap ++ joined gap rest) := by
  rw [joined]
  exact h

theorem joined_start (gap : Text) {ts : List Text} {vs : List Json}
    (h : List.Forall₂ (Reads rt) ts vs) (hne : vs ≠ []) :
    ∃ c rest, joined gap ts = c :: rest ∧ IsStart c := by
  cases h with
  | nil => exact absurd rfl hne
  | @cons t v ts vs ht hts =>
    obtain ⟨c, rest, rfl, hc⟩ := ht.start
    cases hts with
    | nil => exact ⟨c, rest, rfl, hc⟩
    | cons => exact ⟨c, _, rfl, hc⟩

theorem decodeItems_joined {gap close : Text} (hgap : ∀ c ∈ gap, isJsonSpace c)
    (hclose : ∀ c ∈ close, isJsonSpace c) {ts : List Text} {vs : List Json}
    (h : List.Forall₂ (Reads rt) ts vs) (hne : vs ≠ []) {fuel : ℕ}
    (hfuel : (joined gap ts).length < fuel) (rest : Text) :
    decodeItems rt fuel (joined gap ts ++ (close ++ 93 :: rest)) = .ok (vs, rest) := by
  induction h generalizing fuel with
  | nil => exact absurd rfl hne
  | @cons t v ts vs ht hts ih =>
    obtain ⟨fuel, rfl⟩ : ∃ k, fuel = k + 1 := Nat.exists_eq_add_one.mpr (by omega)
    cases hts with
    | nil =>
      have hlast := ht.value fuel (close ++ 93 :: rest) (Nat.lt_succ_iff.mp hfuel)
        (stops_gap hclose (by decide) rest)
      rw [joined, decodeItems, hlast, ok_bind]
      simp only [skipSpace_append hclose (show isJsonSpace 93 = false from rfl)]
      rfl
    | @cons t' v' ts vs ht' hts =>
      have hmore : t' :: ts ≠ [] := List.cons_ne_nil _ _
      obtain ⟨c, tail, hstart, hc, -⟩ := joined_start gap (.cons ht' hts) (List.cons_ne_nil _ _)
      rw [joined_cons gap t hmore, List.length_append, List.length_cons, List.length_append] at hfuel
      have hlt : (joined gap (t' :: ts)).length < fuel := by omega
      have hrest := ih (List.cons_ne_nil _ _) hlt
      have hfirst := ht.value fuel (44 :: (gap ++ (joined gap (t' :: ts) ++ (close ++ 93 :: rest))))
        (by omega) (stops_cons (by decide) _)
      have hskip : skipSpace (gap ++ (joined gap (t' :: ts) ++ (close ++ 93 :: rest))) =
          joined gap (t' :: ts) ++ (close ++ 93 :: rest) := by
        rw [hstart, List.cons_append]
        exact skipSpace_append hgap hc _
      rw [joined_cons gap t hmore, List.append_assoc, List.cons_append, List.append_assoc,
        decodeItems, hfirst, ok_bind]
      simp only [skipSpace_cons (show isJsonSpace 44 = false from rfl), hskip, hrest, ok_bind]
      rfl

/-- A list in brackets. -/
theorem reads_arr {opening gap close : Text} (hopening : ∀ c ∈ opening, isJsonSpace c)
    (hgap : ∀ c ∈ gap, isJsonSpace c) (hclose : ∀ c ∈ close, isJsonSpace c) {ts : List Text}
    {vs : List Json} (h : List.Forall₂ (Reads rt) ts vs) (hne : vs ≠ []) :
    Reads rt (91 :: (opening ++ (joined gap ts ++ (close ++ [93])))) (.arr vs) := by
  refine ⟨⟨91, _, rfl, by unfold IsStart; decide⟩, fun fuel rest hfuel _ => ?_⟩
  obtain ⟨fuel, rfl⟩ : ∃ k, fuel = k + 1 := Nat.exists_eq_add_one.mpr (by
    rw [List.length_cons] at hfuel
    omega)
  obtain ⟨c, tail, hstart, hc, -, hbracket⟩ := joined_start gap h hne
  have hlt : (joined gap ts).length < fuel := by
    simp only [List.length_cons, List.length_append, List.length_nil] at hfuel
    omega
  have hitems := decodeItems_joined hgap hclose h hne hlt rest
  have hskip : skipSpace (opening ++ (joined gap ts ++ (close ++ 93 :: rest))) =
      joined gap ts ++ (close ++ 93 :: rest) := by
    rw [hstart, List.cons_append]
    exact skipSpace_append hopening hc _
  have htext : 91 :: (opening ++ (joined gap ts ++ (close ++ [93]))) ++ rest =
      91 :: (opening ++ (joined gap ts ++ (close ++ 93 :: rest))) := by simp
  rw [htext, decodeValue, if_neg (by decide), if_neg (by decide), if_pos rfl, hskip]
  split
  · rename_i heq
    rw [hstart] at heq
    exact absurd (List.cons.inj heq).1 hbracket
  · rw [hitems]
    rfl

theorem reads_arr_nil : Reads rt [91, 93] (.arr []) := by
  refine ⟨⟨91, _, rfl, by unfold IsStart; decide⟩, fun fuel rest hfuel _ => ?_⟩
  cases fuel with
  | zero => cases hfuel
  | succ fuel => rfl

theorem memberText_append (keyGap : Text) (m : Text × Text) (rest : Text) :
    memberText keyGap m ++ rest = 34 :: (m.1 ++ 34 :: 58 :: (keyGap ++ (m.2 ++ rest))) := by
  simp [memberText, quoted]

/-- The key of a member, and the value behind it. -/
theorem decodeMembers_member {keyGap key t rest : Text} {name : Text} {v : Json}
    (hkeyGap : ∀ c ∈ keyGap, isJsonSpace c) (hkey : Spells key name) (ht : Reads rt t v)
    {fuel : ℕ} (hfuel : t.length ≤ fuel) (hrest : Stops rest) :
    decodeMembers rt (fuel + 1) (memberText keyGap (key, t) ++ rest) =
      match skipSpace rest with
      | 125 :: rest => .ok ([(name, v)], rest)
      | 44 :: rest => do
        let (pairs, rest) ← decodeMembers rt fuel (skipSpace rest)
        return ((name, v) :: pairs, rest)
      | _ => .error .valueError := by
  obtain ⟨c, tail, rfl, hc, -⟩ := ht.start
  have hvalue := ht.value fuel rest hfuel hrest
  rw [List.cons_append] at hvalue
  rw [memberText_append, decodeMembers, hkey, ok_bind]
  simp only [skipSpace_cons (show isJsonSpace 58 = false from rfl), List.cons_append,
    skipSpace_append hkeyGap hc, hvalue, ok_bind]
  rfl

theorem joined_memberText_start (gap keyGap : Text) {printed : List (Text × Text)}
    (h : printed ≠ []) :
    ∃ rest, joined gap (printed.map (memberText keyGap)) = 34 :: rest := by
  cases printed with
  | nil => exact absurd rfl h
  | cons first printed =>
    cases printed with
    | nil => exact ⟨_, rfl⟩
    | cons => exact ⟨_, rfl⟩

theorem decodeMembers_joined {gap keyGap close : Text} (hgap : ∀ c ∈ gap, isJsonSpace c)
    (hkeyGap : ∀ c ∈ keyGap, isJsonSpace c) (hclose : ∀ c ∈ close, isJsonSpace c)
    {printed : List (Text × Text)} {pairs : List (Text × Json)} (h : Readable rt printed pairs)
    (hne : pairs ≠ []) {fuel : ℕ}
    (hfuel : (joined gap (printed.map (memberText keyGap))).length < fuel) (rest : Text) :
    decodeMembers rt fuel (joined gap (printed.map (memberText keyGap)) ++ (close ++ 125 :: rest)) =
      .ok (pairs, rest) := by
  induction h generalizing fuel with
  | nil => exact absurd rfl hne
  | @cons first pair printed pairs hfirst hothers ih =>
    obtain ⟨key, t⟩ := first
    obtain ⟨name, v⟩ := pair
    obtain ⟨hkey, ht⟩ : Spells key name ∧ Reads rt t v := hfirst
    have hlength : t.length < (memberText keyGap (key, t)).length := by
      simp only [memberText, quoted, List.length_append, List.length_cons]
      omega
    obtain ⟨fuel, rfl⟩ : ∃ k, fuel = k + 1 := Nat.exists_eq_add_one.mpr (by omega)
    cases hothers with
    | nil =>
      rw [List.map_singleton, joined] at hfuel ⊢
      rw [decodeMembers_member hkeyGap hkey ht (by omega) (stops_gap hclose (by decide) rest)]
      simp only [skipSpace_append hclose (show isJsonSpace 125 = false from rfl)]
    | @cons second pair' printed pairs hsecond hothers =>
      have hmore : (second :: printed).map (memberText keyGap) ≠ [] := List.cons_ne_nil _ _
      obtain ⟨tail, hstart⟩ := joined_memberText_start gap keyGap
        (List.cons_ne_nil second printed)
      rw [List.map_cons, joined_cons gap _ hmore] at hfuel ⊢
      rw [List.length_append, List.length_cons, List.length_append] at hfuel
      have hlt : (joined gap ((second :: printed).map (memberText keyGap))).length < fuel := by omega
      have hrest := ih (List.cons_ne_nil _ _) hlt
      have hskip : skipSpace (gap ++ (joined gap ((second :: printed).map (memberText keyGap)) ++
          (close ++ 125 :: rest))) = joined gap ((second :: printed).map (memberText keyGap)) ++
            (close ++ 125 :: rest) := by
        rw [hstart, List.cons_append]
        exact skipSpace_append hgap (by rfl) _
      rw [List.append_assoc, List.cons_append, List.append_assoc,
        decodeMembers_member hkeyGap hkey ht (by omega) (stops_cons (by decide) _)]
      simp only [skipSpace_cons (show isJsonSpace 44 = false from rfl), hskip, hrest, ok_bind]
      rfl

/-- An object with members. -/
theorem reads_obj {opening gap keyGap close : Text} (hopening : ∀ c ∈ opening, isJsonSpace c)
    (hgap : ∀ c ∈ gap, isJsonSpace c) (hkeyGap : ∀ c ∈ keyGap, isJsonSpace c)
    (hclose : ∀ c ∈ close, isJsonSpace c) {printed : List (Text × Text)}
    {pairs : List (Text × Json)} (h : Readable rt printed pairs) (hne : pairs ≠ []) :
    Reads rt (123 :: (opening ++ (joined gap (printed.map (memberText keyGap)) ++ (close ++ [125]))))
      (.obj (Dict.ofPairs pairs)) := by
  refine ⟨⟨123, _, rfl, by unfold IsStart; decide⟩, fun fuel rest hfuel _ => ?_⟩
  obtain ⟨fuel, rfl⟩ : ∃ k, fuel = k + 1 := Nat.exists_eq_add_one.mpr (by
    rw [List.length_cons] at hfuel
    omega)
  have hprinted : printed ≠ [] := by
    rw [← List.length_pos_iff, h.length_eq]
    exact List.length_pos_iff.mpr hne
  obtain ⟨tail, hstart⟩ := joined_memberText_start gap keyGap hprinted
  have hlt : (joined gap (printed.map (memberText keyGap))).length < fuel := by
    simp only [List.length_cons, List.length_append, List.length_nil] at hfuel
    omega
  have hmembers := decodeMembers_joined hgap hkeyGap hclose h hne hlt rest
  have hskip : skipSpace (opening ++ (joined gap (printed.map (memberText keyGap)) ++
      (close ++ 125 :: rest))) = joined gap (printed.map (memberText keyGap)) ++
        (close ++ 125 :: rest) := by
    rw [hstart, List.cons_append]
    exact skipSpace_append hopening (by rfl) _
  have htext : 123 :: (opening ++ (joined gap (printed.map (memberText keyGap)) ++
    (close ++ [125]))) ++
      rest = 123 :: (opening ++ (joined gap (printed.map (memberText keyGap)) ++
        (close ++ 125 :: rest))) := by simp
  rw [htext, decodeValue, if_neg (by decide), if_pos rfl, hskip]
  split
  · rename_i heq
    rw [hstart] at heq
    exact absurd (List.cons.inj heq).1 (by decide)
  · rw [hmembers]
    rfl

theorem reads_obj_nil : Reads rt [123, 125] (.obj []) := by
  refine ⟨⟨123, _, rfl, by unfold IsStart; decide⟩, fun fuel rest hfuel _ => ?_⟩
  cases fuel with
  | zero => cases hfuel
  | succ fuel => rfl

/-- Distinct keys stay as they are. -/
theorem ofPairs_nodup {pairs : List (Text × Json)} (h : (pairs.map Prod.fst).Nodup) :
    Dict.ofPairs pairs = pairs := by
  have hset : ∀ (d : Dict) (key : Text) (v : Json), key ∉ d.map Prod.fst →
      d.set key v = d ++ [(key, v)] := by
    intro d key v hkey
    induction d with
    | nil => rfl
    | cons first rest ih =>
      obtain ⟨hfirst, hrest⟩ := not_or.mp (mt List.mem_cons.mpr hkey)
      rw [Dict.set, if_neg (Ne.symm hfirst), ih hrest, List.cons_append]
  induction pairs using List.reverseRecOn with
  | nil => rfl
  | append_singleton pairs pair ih =>
    rw [List.map_append, List.map_singleton, ← List.concat_eq_append, List.nodup_concat] at h
    rw [Dict.ofPairs, List.foldl_append, ← Dict.ofPairs, ih h.2]
    exact hset pairs pair.1 pair.2 h.1

def IsGraphic (c : ℕ) : Prop := 32 ≤ c ∧ c < 127

instance (c : ℕ) : Decidable (IsGraphic c) := inferInstanceAs (Decidable (_ ∧ _))

theorem graphic_digit {c : ℕ} (h : isDigit c) : IsGraphic c := by
  simp only [isDigit, Bool.and_eq_true, decide_eq_true_eq] at h
  exact ⟨by omega, by omega⟩

theorem graphic_decimal (n : ℕ) : ∀ c ∈ decimal n, IsGraphic c := fun c hc =>
  graphic_digit (decimal_isDigit n c hc)

theorem graphic_signText (negative : Bool) : ∀ c ∈ signText negative, IsGraphic c := by
  cases negative <;> decide

theorem graphic_floatText {t : Text} (h : IsFloatText t) : ∀ c ∈ t, IsGraphic c := by
  obtain ⟨negative, n, fraction, exponent, rfl, hfraction, hexponent, -⟩ := h.parts
  simp only [List.forall_mem_append]
  refine ⟨graphic_signText negative, graphic_decimal n, ?_, ?_⟩
  · rcases hfraction with rfl | ⟨digits, rfl, -, hdigits⟩
    · exact fun c hc => absurd hc List.not_mem_nil
    · rw [List.forall_mem_cons]
      exact ⟨by decide, fun c hc => graphic_digit (hdigits c hc)⟩
  · rcases hexponent with rfl | ⟨c, sign, digits, rfl, hc, hsign, -, hdigits⟩
    · exact fun c hc => absurd hc List.not_mem_nil
    · rw [List.forall_mem_cons, List.forall_mem_append]
      refine ⟨⟨by omega, by omega⟩, ?_, fun d hd => graphic_digit (hdigits d hd)⟩
      simp only [List.mem_cons, List.not_mem_nil, or_false] at hsign
      rcases hsign with rfl | rfl | rfl
      · exact fun d hd => absurd hd List.not_mem_nil
      · decide
      · decide

theorem graphic_quoted {t : Text} (h : ∀ c ∈ t, IsGraphic c) : ∀ c ∈ quoted t, IsGraphic c := by
  rw [quoted, List.forall_mem_cons, List.forall_mem_append, List.forall_mem_singleton]
  exact ⟨by decide, h, by decide⟩

/-- A text that is one value, with white space behind it. -/
theorem loads_reads {t : Text} {v : Json} (h : Reads rt t v) {close : Text}
    (hclose : ∀ c ∈ close, isJsonSpace c) : loads rt (t ++ close) = .ok v := by
  obtain ⟨c, rest, hstart, hspace, hascii, -⟩ := h.start
  have hstops : Stops close := by
    cases close with
    | nil => exact stops_nil
    | cons d close => exact stops_space (hclose d List.mem_cons_self) close
  have hvalue := h.value ((t ++ close).length + 1) close (by
    rw [List.length_append]
    omega) hstops
  have hall : skipSpace close = [] := List.dropWhile_eq_nil_iff.mpr hclose
  have hskip : skipSpace (t ++ close) = t ++ close := by
    rw [hstart, List.cons_append]
    exact skipSpace_cons hspace _
  unfold loads
  split
  · rename_i heq
    rw [hstart] at heq
    have hbom := (List.cons.inj heq).1
    omega
  · rw [hskip, hvalue, ok_bind]
    simp only [hall]
    rfl

/-- A property of the characters of all items and of the punctuation. -/
theorem forall_mem_joined {P : ℕ → Prop} (hcomma : P 44) {gap : Text} (hgap : ∀ c ∈ gap, P c)
    {ts : List Text} (h : ∀ t ∈ ts, ∀ c ∈ t, P c) : ∀ c ∈ joined gap ts, P c := by
  fun_induction joined gap ts with
  | case1 => exact fun c hc => absurd hc List.not_mem_nil
  | case2 t => exact h t List.mem_cons_self
  | case3 t rest _ ih =>
    obtain ⟨ht, hrest⟩ := List.forall_mem_cons.mp h
    rw [List.forall_mem_append, List.forall_mem_cons, List.forall_mem_append]
    exact ⟨ht, hcomma, hgap, ih hrest⟩

theorem forall_mem_memberText {P : ℕ → Prop} (hquote : P 34) (hcolon : P 58) {gap : Text}
    (hgap : ∀ c ∈ gap, P c) {m : Text × Text} (hkey : ∀ c ∈ m.1, P c) (hvalue : ∀ c ∈ m.2, P c) :
    ∀ c ∈ memberText gap m, P c := by
  rw [memberText, quoted, List.forall_mem_append, List.forall_mem_cons, List.forall_mem_append,
    List.forall_mem_singleton, List.forall_mem_cons, List.forall_mem_append]
  exact ⟨⟨hquote, hkey, hquote⟩, hcolon, hgap, hvalue⟩

end Cote3Mon.Python
