import Mathlib

namespace Words

variable {α : Type} (isSep : α → Bool)

def words (t : List α) : List (List α) := (t.splitOnP isSep).filter (· ≠ [])

@[simp] theorem words_nil : words isSep [] = [] := by simp [words]

variable {isSep} {t w : List α} {c : α}

theorem words_append_sep (h : isSep c) (t u : List α) :
    words isSep (t ++ c :: u) = words isSep t ++ words isSep u := by
  rw [words, List.splitOnP_append_cons t u h, List.filter_append]
  rfl

theorem words_singleton (hne : w ≠ []) (h : ∀ c ∈ w, isSep c = false) : words isSep w = [w] := by
  have hwhole : w.splitOnP isSep = [w] := List.splitOnP_eq_singleton fun c hc => by simp [h c hc]
  rw [words, hwhole, List.filter_singleton]
  simp [hne]

/-- A list of words, each of them behind a separator, and a separator at the end. -/
theorem words_fields {d : α} (hc : isSep c) (hd : isSep d) {fields : List (List α)}
    (hfields : ∀ w ∈ fields, w ≠ [] ∧ ∀ x ∈ w, isSep x = false) (t : List α) :
    words isSep (t ++ fields.flatMap (c :: ·) ++ [d]) = words isSep t ++ fields := by
  induction fields generalizing t with
  | nil => rw [List.flatMap_nil, List.append_nil, words_append_sep hd, words_nil]
  | cons w fields ih =>
    obtain ⟨hw, hrest⟩ := List.forall_mem_cons.mp hfields
    have hsplit : t ++ (w :: fields).flatMap (c :: ·) ++ [d] =
        t ++ c :: (w ++ fields.flatMap (c :: ·) ++ [d]) := by simp
    rw [hsplit, words_append_sep hc, ih hrest, words_singleton hw.1 hw.2, List.singleton_append]

/-- A list of words, each of them in front of a separator. -/
theorem words_lines (hc : isSep c) {lines : List (List α)}
    (h : ∀ w ∈ lines, w ≠ [] ∧ ∀ x ∈ w, isSep x = false) :
    words isSep (lines.flatMap (· ++ [c])) = lines := by
  induction lines with
  | nil => exact words_nil isSep
  | cons w lines ih =>
    obtain ⟨hw, hrest⟩ := List.forall_mem_cons.mp h
    have hsplit : (w :: lines).flatMap (· ++ [c]) = w ++ c :: lines.flatMap (· ++ [c]) := by simp
    rw [hsplit, words_append_sep hc, words_singleton hw.1 hw.2, ih hrest, List.singleton_append]

theorem flatten_words (t : List α) : (words isSep t).flatten = t.filter fun c => ¬ isSep c := by
  have hdrop : ∀ pieces : List (List α), (pieces.filter (· ≠ [])).flatten = pieces.flatten := by
    intro pieces
    induction pieces with
    | nil => rfl
    | cons piece pieces ih => by_cases hpiece : piece = [] <;> simp_all
  rw [words, hdrop]
  induction t with
  | nil => rfl
  | cons c t ih =>
    rw [List.splitOnP_cons_eq_if_modifyHead]
    by_cases hc : isSep c
    · rw [if_pos hc, List.flatten_cons, ih, List.nil_append, List.filter_cons_of_neg (by simp [hc])]
    · obtain ⟨piece, pieces, hpieces⟩ := List.exists_cons_of_ne_nil (List.splitOnP_ne_nil isSep t)
      rw [hpieces] at ih
      rw [if_neg hc, hpieces, List.modifyHead_cons, List.flatten_cons, List.cons_append,
        ← List.flatten_cons, ih, List.filter_cons_of_pos (by simp [hc])]

/-- There is a word where some character is no separator. -/
theorem words_pos (hc : c ∈ t) (h : isSep c = false) : 0 < (words isSep t).length := by
  apply List.length_pos_iff.mpr
  intro hnil
  have hnone : t.filter (fun c => ¬ isSep c) = [] := by rw [← flatten_words, hnil, List.flatten_nil]
  exact absurd (List.filter_eq_nil_iff.mp hnone c hc) (by simp [h])

/-- Between two characters that are none, a separator makes two words. -/
theorem two_le_words {a b : α} {t : List α} (ha : isSep a = false) (hb : isSep b = false)
    (hc : c ∈ t) (h : isSep c) : 2 ≤ (words isSep (a :: t ++ [b])).length := by
  obtain ⟨left, right, hsplit⟩ := List.append_of_mem hc
  have hcut : a :: t ++ [b] = (a :: left) ++ c :: (right ++ [b]) := by simp [hsplit]
  have hleft : 0 < (words isSep (a :: left)).length := words_pos List.mem_cons_self ha
  have hright : 0 < (words isSep (right ++ [b])).length := words_pos (by simp) hb
  rw [hcut, words_append_sep h, List.length_append]
  omega

end Words
