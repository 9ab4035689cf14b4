import Cote3Mon.Python.Values

namespace Cote3Mon.Python
open ByteText

/-- `except (KeyError, TypeError, ValueError)` catches whatever is raised. -/
abbrev Caught {α : Type} (r : Except Exc α) : Prop := FailsWith (fun e => e.isDataError) r

/-- `str` of a container raises nothing but a `ValueError`, for an integer with too many digits. -/
def Runtime.ReprCaught (rt : Runtime) : Prop := ∀ v, Caught (rt.containerRepr v)

variable (rt : Runtime)

theorem caught_item (v : Json) (name : String) : Caught (v.item name) := by
  cases v with
  | obj d =>
    simp only [Json.item, Dict.item]
    cases d.lookup (text name) with
    | none => exact failsWith_error rfl
    | some w => exact failsWith_ok w
  | _ => exact failsWith_error rfl

theorem caught_intText (n : ℤ) : Caught (rt.intText n) := by
  unfold Runtime.intText
  split_ifs
  · exact failsWith_error rfl
  · exact failsWith_ok _
  · exact failsWith_ok _

variable {rt} in
theorem caught_str (h : rt.ReprCaught) (v : Json) : Caught (rt.str v) := by
  cases v with
  | int n => exact caught_intText rt n
  | float f =>
    cases f with
    | _ => exact failsWith_ok _
  | arr items => exact h _
  | obj d => exact h _
  | _ => exact failsWith_ok _

theorem caught_parseInt (t : Text) : Caught (rt.parseInt t) := by
  unfold Runtime.parseInt
  dsimp only
  split
  · exact failsWith_error rfl
  · split
    · exact failsWith_error rfl
    · exact failsWith_ok _

/-- `float("inf")` and `float("-inf")`. -/
def Json.Infinite (v : Json) : Prop := ∃ negative, v = .float (.infinity negative)

theorem caught_int {v : Json} (h : ¬ v.Infinite) : Caught (rt.int v) := by
  cases v with
  | float f =>
    cases f with
    | finite negative magnitude => exact failsWith_ok _
    | infinity negative => exact absurd ⟨negative, rfl⟩ h
    | nan => exact failsWith_error rfl
  | int n => exact failsWith_ok _
  | bool b => exact failsWith_ok _
  | str t => exact caught_parseInt rt t
  | null => exact failsWith_error rfl
  | arr items => exact failsWith_error rfl
  | obj d => exact failsWith_error rfl

theorem int_infinite {v : Json} (h : v.Infinite) : rt.int v = .error .overflowError := by
  obtain ⟨negative, rfl⟩ := h
  rfl

theorem caught_fromHex (t : Text) : Caught (fromHex t) := by
  fun_induction fromHex t with
  | case1 => exact failsWith_ok _
  | case2 c rest hspace ih => exact ih
  | case3 c hspace => exact failsWith_error rfl
  | case4 c hspace d rest high low hhigh hlow ih => exact ih.bind fun _ _ => failsWith_ok _
  | case5 => exact failsWith_error rfl

theorem caught_utf8Char (c : ℕ) : Caught (utf8Char c) := by
  unfold utf8Char
  split_ifs
  all_goals first | exact failsWith_ok _ | exact failsWith_error rfl

theorem caught_encodeUtf8 (t : Text) : Caught (encodeUtf8 t) := by
  induction t with
  | nil => exact failsWith_ok _
  | cons c rest ih => exact (caught_utf8Char c).bind fun _ _ => ih.bind fun _ _ => failsWith_ok _

mutual

theorem caught_dumps (v : Json) : Caught (dumps rt v) := by
  cases v with
  | int n => exact caught_intText rt n
  | float f =>
    cases f with
    | _ => exact failsWith_ok _
  | arr items => exact (caught_dumpsItems items).bind fun _ _ => failsWith_ok _
  | obj d => exact (caught_dumpsMembers d).bind fun _ _ => failsWith_ok _
  | _ => exact failsWith_ok _

theorem caught_dumpsItems (items : List Json) : Caught (dumpsItems rt items) := by
  cases items with
  | nil => exact failsWith_ok _
  | cons v rest =>
    exact (caught_dumps v).bind fun _ _ => (caught_dumpsItems rest).bind fun _ _ => failsWith_ok _

theorem caught_dumpsMembers (d : List (Text × Json)) : Caught (dumpsMembers rt d) := by
  cases d with
  | nil => exact failsWith_ok _
  | cons m rest =>
    exact (caught_dumps m.2).bind fun _ _ => (caught_dumpsMembers rest).bind fun _ _ =>
      failsWith_ok _

end

theorem caught_canonicalJson (v : Json) : Caught (canonicalJson rt v) :=
  (caught_dumps rt v).bind fun t _ => caught_encodeUtf8 t

end Cote3Mon.Python
