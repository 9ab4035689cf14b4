import Mathlib

namespace MacChain

-- Entry `n + 1` of a chain carries a body and the tag of a message that is built from the number `n
-- + 1`, the tag of entry `n` and the body. If a message determines the previous tag and the body,
-- then the last tag commits to the whole chain: two chains of one length that end in the same tag
-- are equal, or their messages exhibit a collision of the tagging function.

/-- `f` takes two different arguments, one from each list, to the same value. -/
def Collision {α β : Type*} (f : α → β) (xs ys : List α) : Prop :=
  ∃ x ∈ xs, ∃ y ∈ ys, x ≠ y ∧ f x = f y

theorem Collision.mono {α β : Type*} {f : α → β} {xs xs' ys ys' : List α}
    (h : Collision f xs ys) (hx : xs ⊆ xs') (hy : ys ⊆ ys') : Collision f xs' ys' := by
  obtain ⟨x, hxs, y, hys, hne, he⟩ := h
  exact ⟨x, hx hxs, y, hy hys, hne, he⟩

theorem collision_or_eq {α β : Type*} {f : α → β} {xs ys : List α} {x y : α}
    (hx : x ∈ xs) (hy : y ∈ ys) (h : f x = f y) : x = y ∨ Collision f xs ys := by
  by_cases he : x = y
  · exact Or.inl he
  · exact Or.inr ⟨x, hx, y, hy, he, h⟩

structure Entry (Body Tag : Type*) where
  body : Body
  tag : Tag

variable {Body Tag Msg : Type*} (message : ℕ → Tag → Body → Msg) (mac : Msg → Tag)

/-- The entries continue a chain of `n` entries whose last tag is `p`. -/
def Linked : ℕ → Tag → List (Entry Body Tag) → Prop
  | _, _, [] => True
  | n, p, e :: es => e.tag = mac (message (n + 1) p e.body) ∧ Linked (n + 1) e.tag es

/-- The messages tagged along the chain. -/
def messages : ℕ → Tag → List (Entry Body Tag) → List Msg
  | _, _, [] => []
  | n, p, e :: es => message (n + 1) p e.body :: messages (n + 1) e.tag es

def lastTag : Tag → List (Entry Body Tag) → Tag
  | p, [] => p
  | _, e :: es => lastTag e.tag es

variable {message mac}

/-- The message determines the previous tag and the body, for every number. -/
def Determines (message : ℕ → Tag → Body → Msg) : Prop :=
  ∀ n p b p' b', message n p b = message n p' b' → p = p' ∧ b = b'

/-- **Commitment.**  The induction runs from the last entry back to the first:
the tails agree first, so the two tags of the entry before them are equal. -/
theorem eq_or_collision (hdet : Determines message) {n : ℕ} {p p' : Tag}
    {es es' : List (Entry Body Tag)} (h : Linked message mac n p es)
    (h' : Linked message mac n p' es') (hlen : es.length = es'.length)
    (hlast : lastTag p es = lastTag p' es') :
    (p = p' ∧ es = es') ∨ Collision mac (messages message n p es) (messages message n p' es') := by
  induction es generalizing n p p' es' with
  | nil =>
    obtain rfl : es' = [] := List.length_eq_zero_iff.mp hlen.symm
    exact Or.inl ⟨hlast, rfl⟩
  | cons e es ih =>
    cases es' with
    | nil => simp at hlen
    | cons e' es' =>
      obtain ⟨hhead, htail⟩ := h
      obtain ⟨hhead', htail'⟩ := h'
      rcases ih htail htail' (by simpa using hlen) hlast with ⟨htag, rfl⟩ | hcol
      · have hmac := hhead.symm.trans (htag.trans hhead')
        rcases collision_or_eq List.mem_cons_self List.mem_cons_self hmac with hmsg | hcol
        · obtain ⟨rfl, hbody⟩ := hdet _ _ _ _ _ hmsg
          left
          refine ⟨rfl, ?_⟩
          cases e
          cases e'
          simp_all
        · exact Or.inr hcol
      · exact Or.inr (hcol.mono (List.subset_cons_self _ _) (List.subset_cons_self _ _))

end MacChain
