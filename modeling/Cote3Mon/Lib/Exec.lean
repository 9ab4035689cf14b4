import Mathlib

theorem bind_eq_ok {ε α β : Type} {x : Except ε α} {f : α → Except ε β} {b : β} :
    (x >>= f) = .ok b ↔ ∃ a, x = .ok a ∧ f a = .ok b := by
  cases x with
  | error e => simp [bind, Except.bind]
  | ok a => simp [bind, Except.bind]

@[simp] theorem ok_bind {ε α β : Type} (a : α) (f : α → Except ε β) :
    (Except.ok a >>= f) = f a := rfl

/-- Whatever the result raises satisfies `p`. -/
def FailsWith {ε α : Type} (p : ε → Prop) (r : Except ε α) : Prop := ∀ e, r = .error e → p e

section

variable {ε α β : Type} {p : ε → Prop} {r : Except ε α} {f : α → Except ε β}

theorem failsWith_ok (a : α) : FailsWith p (.ok a : Except ε α) := fun _ h => by cases h

theorem failsWith_error {e : ε} (he : p e) : FailsWith p (.error e : Except ε α) := fun _ h => by
  rw [← Except.error.inj h]
  exact he

theorem FailsWith.bind (hr : FailsWith p r) (hf : ∀ a, r = .ok a → FailsWith p (f a)) :
    FailsWith p (r >>= f) := by
  cases r with
  | error e =>
    intro e' h
    rw [← Except.error.inj (show (Except.error e : Except ε β) = .error e' from h)]
    exact hr e rfl
  | ok a => exact hf a rfl

end

section

variable {α β ε : Type} {f : α → Except ε β} {xs : List α} {ys : List β}

theorem mapM_eq_ok : xs.mapM f = .ok ys ↔ List.Forall₂ (fun x y => f x = .ok y) xs ys := by
  induction xs generalizing ys with
  | nil =>
    rw [List.forall₂_nil_left_iff]
    exact ⟨fun h => (Except.ok.inj h).symm, fun h => h ▸ rfl⟩
  | cons x xs ih =>
    rw [List.mapM_cons, List.forall₂_cons_left_iff]
    constructor
    · intro h
      obtain ⟨y, hy, h⟩ := bind_eq_ok.mp h
      obtain ⟨rest, hrest, h⟩ := bind_eq_ok.mp h
      exact ⟨y, rest, hy, ih.mp hrest, (Except.ok.inj h).symm⟩
    · rintro ⟨y, rest, hy, hrest, rfl⟩
      rw [hy, ok_bind, ih.mpr hrest]
      rfl

theorem exists_mapM (h : ∀ x ∈ xs, ∃ y, f x = .ok y) : ∃ ys, xs.mapM f = .ok ys := by
  induction xs with
  | nil => exact ⟨[], rfl⟩
  | cons x xs ih =>
    obtain ⟨hx, hxs⟩ := List.forall_mem_cons.mp h
    obtain ⟨y, hy⟩ := hx
    obtain ⟨ys, hys⟩ := ih hxs
    exact ⟨y :: ys, mapM_eq_ok.mpr (List.Forall₂.cons hy (mapM_eq_ok.mp hys))⟩

/-- A function of the result of each call is applied to the list of results. -/
theorem mapM_map {γ : Type} (g : β → γ) (h : List.Forall₂ (fun x y => f x = .ok y) xs ys) :
    xs.mapM (fun x => do return g (← f x)) = .ok (ys.map g) := by
  induction h with
  | nil => rfl
  | cons hx _ ih =>
    rw [List.mapM_cons, hx, ok_bind, ih]
    rfl

end

abbrev Exec (ε σ : Type) := ExceptT ε (StateM σ)

namespace Exec

variable {ε σ α β : Type}

def lift (r : Except ε α) : Exec ε σ α := fun s => (r, s)

/-- `try: x except ...: return a`. -/
def orElse (x : Exec ε σ α) (caught : ε → Bool) (a : α) : Exec ε σ α := fun s =>
  match x s with
  | (.error e, s') => if caught e then (.ok a, s') else (.error e, s')
  | out => out

def next (f : α → Exec ε σ β) : Except ε α × σ → Except ε β × σ
  | (.ok a, s) => f a s
  | (.error e, s) => (.error e, s)

theorem bind_apply (x : Exec ε σ α) (f : α → Exec ε σ β) (s : σ) : (x >>= f) s = next f (x s) := by
  change (do let r ← x; ExceptT.bindCont f r : StateM σ _) s = _
  rcases h : x s with ⟨_ | a, t⟩
  · simp [bind, StateT.bind, h, ExceptT.bindCont, next, pure, StateT.pure]
  · simp [bind, StateT.bind, h, ExceptT.bindCont, next]

section

variable (f : α → Exec ε σ β) (a : α) (e : ε) (s : σ)

@[simp] theorem next_ok : next f (.ok a, s) = f a s := (rfl)

@[simp] theorem next_error : next f (.error e, s) = (.error e, s) := (rfl)

@[simp] theorem pure_apply : (pure a : Exec ε σ α) s = (.ok a, s) := (rfl)

@[simp] theorem throw_apply : (throw e : Exec ε σ α) s = (.error e, s) := (rfl)

@[simp] theorem get_apply : (get : Exec ε σ σ) s = (.ok s, s) := (rfl)

@[simp] theorem lift_apply (r : Except ε α) : (lift r : Exec ε σ α) s = (r, s) := (rfl)

end

variable {x : Exec ε σ α} {f : α → Exec ε σ β} {r : Except ε α} {s s' : σ} {a : α} {b : β}

/-- A call that returned, and what followed it. -/
theorem bind_ok (h : (x >>= f) s = (.ok b, s')) : ∃ a t, x s = (.ok a, t) ∧ f a t = (.ok b, s') := by
  rw [bind_apply] at h
  rcases hx : x s with ⟨_ | a, t⟩
  · rw [hx] at h
    cases h
  · rw [hx] at h
    exact ⟨a, t, rfl, h⟩

theorem lift_ok (h : (lift r : Exec ε σ α) s = (.ok a, s')) : r = .ok a ∧ s' = s := by
  obtain ⟨hr, hs⟩ := Prod.mk.inj h
  exact ⟨hr, hs.symm⟩

theorem lift_bind_ok (h : (lift r >>= f) s = (.ok b, s')) :
    ∃ a, r = .ok a ∧ f a s = (.ok b, s') := by
  obtain ⟨a, t, hlift, hafter⟩ := bind_ok h
  obtain ⟨hr, rfl⟩ := lift_ok hlift
  exact ⟨a, hr, hafter⟩

theorem bind_of_ok (h : x s = (.ok a, s')) : (x >>= f) s = f a s' := by
  rw [bind_apply, h, next_ok]

/-- A check was passed that returns another value early. -/
theorem passed {c : Prop} [Decidable c] {a b : α} (h : (if c then pure a else x) s = (.ok b, s'))
    (hne : a ≠ b) : ¬ c ∧ x s = (.ok b, s') := by
  by_cases hc : c
  · rw [if_pos hc] at h
    exact absurd (Except.ok.inj (Prod.mk.inj h).1) hne
  · rw [if_neg hc] at h
    exact ⟨hc, h⟩

/-- What failed after a call, if the failures of the call are of another kind. -/
theorem lift_bind_error {p : ε → Prop} {e : ε} (h : (lift r >>= f) s = (.error e, s'))
    (hr : FailsWith p r) (he : ¬ p e) : ∃ a, r = .ok a ∧ f a s = (.error e, s') := by
  rw [bind_apply, lift_apply] at h
  cases r with
  | error e' =>
    obtain rfl : e' = e := Except.error.inj (Prod.mk.inj h).1
    exact absurd (hr e' rfl) he
  | ok a => exact ⟨a, rfl, h⟩

/-- A check that returns early does not fail. -/
theorem passed_error {c : Prop} [Decidable c] {e : ε}
    (h : (if c then pure a else x) s = (.error e, s')) :
    ¬ c ∧ x s = (.error e, s') := by
  by_cases hc : c
  · rw [if_pos hc] at h
    cases h
  · rw [if_neg hc] at h
    exact ⟨hc, h⟩

/-- A check was passed that fails. -/
theorem not_thrown {c : Prop} [Decidable c] {e : ε}
    (h : (if c then throw e else x) s = (.ok a, s')) :
    ¬ c ∧ x s = (.ok a, s') := by
  by_cases hc : c
  · rw [if_pos hc] at h
    cases h
  · rw [if_neg hc] at h
    exact ⟨hc, h⟩

/-- The value that stands for a caught exception is told from a returned one. -/
theorem orElse_ok {caught : ε → Bool} {a b : α} (h : x.orElse caught a s = (.ok b, s'))
    (hne : b ≠ a) : x s = (.ok b, s') := by
  rcases hx : x s with ⟨e | c, t⟩
  · simp only [orElse, hx] at h
    split_ifs at h
    · exact absurd (Except.ok.inj (Prod.mk.inj h).1).symm hne
    · cases h
  · simpa only [orElse, hx] using h

theorem orElse_of_ok (caught : ε → Bool) (a : α) {b : α} (h : x s = (.ok b, s')) :
    x.orElse caught a s = (.ok b, s') := by
  simp only [orElse, h]

/-- Whatever the function raises satisfies `p`. -/
def Raises (p : ε → Prop) (x : Exec ε σ α) : Prop := ∀ s e s', x s = (.error e, s') → p e

variable {p : ε → Prop}

theorem raises_pure (a : α) : Raises p (pure a : Exec ε σ α) := fun _ _ _ h => by cases h

theorem raises_throw {e : ε} (he : p e) : Raises p (throw e : Exec ε σ α) := fun _ _ _ h => by
  rw [← Except.error.inj (Prod.mk.inj h).1]
  exact he

theorem raises_lift (h : ∀ e, r = .error e → p e) : Raises p (lift r : Exec ε σ α) :=
  fun _ e _ hr => h e (Prod.mk.inj hr).1

theorem Raises.bind (hx : Raises p x) (hf : ∀ a, Raises p (f a)) : Raises p (x >>= f) := by
  intro s e s' h
  rw [bind_apply] at h
  rcases hr : x s with ⟨e' | a, t⟩
  · rw [hr, next_error] at h
    rw [← Except.error.inj (Prod.mk.inj h).1]
    exact hx s e' t hr
  · rw [hr, next_ok] at h
    exact hf a t e s' h

/-- An exception that escapes was not caught. -/
theorem orElse_error {caught : ε → Bool} {e : ε} (h : x.orElse caught a s = (.error e, s')) :
    x s = (.error e, s') ∧ ¬ caught e := by
  rcases hx : x s with ⟨e' | c, t⟩
  · simp only [orElse, hx] at h
    split_ifs at h with hcaught
    · cases h
    · obtain rfl : e' = e := Except.error.inj (Prod.mk.inj h).1
      obtain rfl : t = s' := (Prod.mk.inj h).2
      exact ⟨rfl, hcaught⟩
  · simp only [orElse, hx] at h
    cases h

/-- The function keeps `I`, whether it returns or fails. -/
def Keeps (I : σ → Prop) (x : Exec ε σ α) : Prop := ∀ s, I s → I (x s).2

variable {I : σ → Prop}

theorem keeps_pure (a : α) : Keeps I (pure a : Exec ε σ α) := fun _ h => h

theorem keeps_lift (r : Except ε α) : Keeps I (lift r : Exec ε σ α) := fun _ h => h

theorem Keeps.bind (hx : Keeps I x) (hf : ∀ a, Keeps I (f a)) : Keeps I (x >>= f) := by
  intro s h
  have hs := hx s h
  rw [bind_apply]
  rcases hr : x s with ⟨e | a, t⟩
  · rw [hr] at hs
    exact hs
  · rw [hr] at hs
    exact hf a t hs

theorem Keeps.orElse (hx : Keeps I x) (caught : ε → Bool) (a : α) : Keeps I (x.orElse caught a) := by
  intro s h
  have hs := hx s h
  rcases hr : x s with ⟨e | b, t⟩
  · rw [hr] at hs
    simp only [Exec.orElse, hr]
    split_ifs
    · exact hs
    · exact hs
  · rw [hr] at hs
    simp only [Exec.orElse, hr]
    exact hs

end Exec
