import Mathlib

inductive CallProg (Call : Type) (Reply : Call → Type) (α : Type) where
  | done (a : α)
  | call (c : Call) (next : Reply c → CallProg Call Reply α)

namespace CallProg

-- A `CallProg` is a program written against an interface of calls. What a call does is left to
-- whoever runs the program: a handler answers every call and moves a state (`run`), or a scheduler
-- performs one call of one program at a time and mixes several programs (`advance`). `Always` is
-- the program logic. What the program has learnt so far is a ghost value `v`; `learns v c r v'`
-- says that a call `c` made knowing `v` may be answered `r`, and that `v'` is known then. `may v c`
-- is an obligation on every call made and `post` one on the result.

variable {Call : Type} {Reply : Call → Type} {α β γ σ V : Type}

def bind : CallProg Call Reply α → (α → CallProg Call Reply β) → CallProg Call Reply β
  | done a, f => f a
  | call c next, f => call c fun r => (next r).bind f

instance : Monad (CallProg Call Reply) where
  pure := done
  bind := bind

def perform (c : Call) : CallProg Call Reply (Reply c) := call c done

@[simp] theorem pure_eq_done (a : α) : (pure a : CallProg Call Reply α) = done a := rfl

@[simp] theorem done_bind (a : α) (f : α → CallProg Call Reply β) : (done a >>= f) = f a := rfl

@[simp] theorem call_bind (c : Call) (next : Reply c → CallProg Call Reply α)
    (f : α → CallProg Call Reply β) : (call c next >>= f) = call c fun r => next r >>= f := rfl

@[simp] theorem perform_bind (c : Call) (f : Reply c → CallProg Call Reply β) :
    (perform c >>= f) = call c f := rfl

theorem bind_assoc (p : CallProg Call Reply α) (f : α → CallProg Call Reply β)
    (g : β → CallProg Call Reply γ) : (p >>= f) >>= g = p >>= fun a => f a >>= g := by
  induction p with
  | done a => rfl
  | call c next ih =>
    simp only [call_bind]
    congr 1
    funext r
    exact ih r

theorem bind_pure (p : CallProg Call Reply α) : p >>= pure = p := by
  induction p with
  | done a => rfl
  | call c next ih =>
    simp only [call_bind]
    congr 1
    funext r
    exact ih r

instance : LawfulMonad (CallProg Call Reply) :=
    LawfulMonad.mk' _ bind_pure (fun _ _ => rfl) bind_assoc

/-- Runs to the end, every call answered by the handler. -/
def run (handle : (c : Call) → σ → Reply c × σ) : CallProg Call Reply α → σ → α × σ
  | done a, s => (a, s)
  | call c next, s => (next (handle c s).1).run handle (handle c s).2

@[simp] theorem run_done (handle : (c : Call) → σ → Reply c × σ) (a : α) (s : σ) :
    (done a : CallProg Call Reply α).run handle s = (a, s) := rfl

@[simp] theorem run_call (handle : (c : Call) → σ → Reply c × σ) (c : Call)
    (next : Reply c → CallProg Call Reply α) (s : σ) :
    (call c next).run handle s = (next (handle c s).1).run handle (handle c s).2 := rfl

theorem run_bind (handle : (c : Call) → σ → Reply c × σ) (p : CallProg Call Reply α)
    (f : α → CallProg Call Reply β) (s : σ) :
    (p >>= f).run handle s = (f (p.run handle s).1).run handle (p.run handle s).2 := by
  induction p generalizing s with
  | done a => rfl
  | call c next ih => exact ih _ _

/-- One call of the program, answered by the handler; a finished program has none to make. -/
def advance (handle : (c : Call) → σ → Reply c × σ) :
    CallProg Call Reply α → σ → Option (CallProg Call Reply α × σ)
  | done _, _ => none
  | call c next, s => some (next (handle c s).1, (handle c s).2)

def Always (may : V → Call → Prop) (learns : V → (c : Call) → Reply c → V → Prop)
    (post : α → V → Prop) : CallProg Call Reply α → V → Prop
  | done a, v => post a v
  | call c next, v => may v c ∧ ∀ r v', learns v c r v' → (next r).Always may learns post v'

variable {may : V → Call → Prop} {learns : V → (c : Call) → Reply c → V → Prop}

@[simp] theorem always_done (post : α → V → Prop) (a : α) (v : V) :
    (done a : CallProg Call Reply α).Always may learns post v ↔ post a v := Iff.rfl

@[simp] theorem always_call (post : α → V → Prop) (c : Call)
    (next : Reply c → CallProg Call Reply α) (v : V) :
    (call c next).Always may learns post v ↔
      may v c ∧ ∀ r v', learns v c r v' → (next r).Always may learns post v' := Iff.rfl

theorem Always.mono {post post' : α → V → Prop} {p : CallProg Call Reply α} {v : V}
    (h : p.Always may learns post v) (hpost : ∀ a v, post a v → post' a v) :
    p.Always may learns post' v := by
  induction p generalizing v with
  | done a => exact hpost a v h
  | call c next ih => exact ⟨h.1, fun r v' hr => ih r (h.2 r v' hr)⟩

/-- Sequencing: the first program's result and what it learnt are handed on. -/
theorem always_bind (post : β → V → Prop) (p : CallProg Call Reply α)
    (f : α → CallProg Call Reply β) (v : V) :
    (p >>= f).Always may learns post v ↔
      p.Always may learns (fun a v' => (f a).Always may learns post v') v := by
  induction p generalizing v with
  | done a => rfl
  | call c next ih =>
    simp only [call_bind, always_call]
    exact and_congr_right fun _ => forall_congr' fun r => forall_congr' fun v' =>
      imp_congr_right fun _ => ih r v'

/-- A handler whose answers teach what `learns` says keeps the relation between the
real state and the ghost value through a whole run. -/
theorem Always.run {post : α → V → Prop} {p : CallProg Call Reply α} {v : V} {s : σ}
    (handle : (c : Call) → σ → Reply c × σ) (agrees : σ → V → Prop)
    (hstep : ∀ c s v, agrees s v → may v c →
      ∃ v', learns v c (handle c s).1 v' ∧ agrees (handle c s).2 v')
    (h : p.Always may learns post v) (hs : agrees s v) :
    ∃ v', post (p.run handle s).1 v' ∧ agrees (p.run handle s).2 v' := by
  induction p generalizing v s with
  | done a => exact ⟨v, h, hs⟩
  | call c next ih =>
    obtain ⟨v', hlearn, hs'⟩ := hstep c s v hs h.1
    exact ih _ (h.2 _ v' hlearn) hs'

/-- One call of a scheduled program: its obligation held, and the rest of the program
is still correct from what the reply teaches. -/
theorem Always.advance {post : α → V → Prop} {p q : CallProg Call Reply α} {v : V} {s s' : σ}
    (handle : (c : Call) → σ → Reply c × σ) (h : p.Always may learns post v)
    (hq : p.advance handle s = some (q, s')) :
    ∃ c next, p = call c next ∧ may v c ∧ q = next (handle c s).1 ∧ s' = (handle c s).2 ∧
      ∀ v', learns v c (handle c s).1 v' → q.Always may learns post v' := by
  cases p with
  | done a => cases hq
  | call c next =>
    obtain ⟨rfl, rfl⟩ := Prod.mk.inj (Option.some.inj hq)
    exact ⟨c, next, rfl, h.1, rfl, rfl, fun v' hv => h.2 _ v' hv⟩

section Except

variable {ε : Type}

def settle (ok : α → V → Prop) (error : ε → V → Prop) : Except ε α → V → Prop
  | .ok a => ok a
  | .error e => error e

/-- `Always` for a program that may return early with an error. -/
def Ensures (may : V → Call → Prop) (learns : V → (c : Call) → Reply c → V → Prop)
    (ok : α → V → Prop) (error : ε → V → Prop) (p : ExceptT ε (CallProg Call Reply) α) (v : V) :
    Prop :=
  p.run.Always may learns (settle ok error) v

variable {ok : α → V → Prop} {error : ε → V → Prop}

@[simp] theorem ensures_pure (a : α) (v : V) :
    Ensures may learns ok error (pure a) v ↔ ok a v := Iff.rfl

@[simp] theorem ensures_throw (e : ε) (v : V) :
    Ensures may learns ok error (throw e) v ↔ error e v := Iff.rfl

@[simp] theorem ensures_perform (c : Call) (ok : Reply c → V → Prop) (v : V) :
    Ensures may learns ok error (ExceptT.lift (perform c)) v ↔
      may v c ∧ ∀ r v', learns v c r v' → ok r v' := Iff.rfl

@[simp] theorem ensures_bind (ok : β → V → Prop) (p : ExceptT ε (CallProg Call Reply) α)
    (f : α → ExceptT ε (CallProg Call Reply) β) (v : V) :
    Ensures may learns ok error (p >>= f) v ↔
      Ensures may learns (fun a v' => Ensures may learns ok error (f a) v') error p v := by
  unfold Ensures
  rw [ExceptT.run_bind, always_bind]
  refine ⟨fun h => h.mono ?_, fun h => h.mono ?_⟩
  · intro r v' hr
    cases r with
    | ok a => exact hr
    | error e => exact hr
  · intro r v' hr
    cases r with
    | ok a => exact hr
    | error e => exact hr

theorem Ensures.mono {ok' : α → V → Prop} {error' : ε → V → Prop}
    {p : ExceptT ε (CallProg Call Reply) α} {v : V} (h : Ensures may learns ok error p v)
    (hok : ∀ a v, ok a v → ok' a v) (herror : ∀ e v, error e v → error' e v) :
    Ensures may learns ok' error' p v := by
  apply Always.mono h
  intro r v' hr
  cases r with
  | ok a => exact hok a v' hr
  | error e => exact herror e v' hr

end Except

end CallProg
