import Cote3Mon.AuditStore.Store

namespace Cote3Mon.AuditStore
open ByteText Python MacChain

structure State.Holds (st : State) (model : Option Digest) (head : Digest) : Prop where
  modelHash : st.modelHash = model.map Digest.hex
  head : st.head = head.hex

def tag (crypto : Crypto) (key : Digest) (message : Bytes) : Digest := crypto.hmac key.bytes message

/-- The receipt for an alert with the canonical bytes `c` after `n` receipts with last
head `p`. -/
def issue (crypto : Crypto) (key model : Digest) (n : ℕ) (p : Digest) (c : Bytes) : Receipt where
  sequence := n + 1
  previousHead := p.hex
  alertHash := (crypto.sha256 c).hex
  modelHash := model.hex
  head := (tag crypto key (chainMessage (n + 1) p ⟨crypto.sha256 c, model⟩)).hex

def State.advance (st : State) (r : Receipt) : State :=
  { st with sequence := r.sequence, head := r.head }

/-- What a call did, given the state it meant to save: nothing, or the assignment in memory
without the file, or both. -/
inductive Saved {α : Type} (s : AuditStore) (state : State) (value : α) :
    Except Exc α × AuditStore → Prop
  | unsaved (e : Exc) : Saved s state value (.error e, { s with state := state })
  | saved : Saved s state value (.ok value, ⟨state, some state⟩)

variable {rt : Runtime} {crypto : Crypto} {files : Files} {s : AuditStore}

theorem hex_ne_nil (d : Digest) : ∃ c t, d.hex = c :: t :=
  List.exists_cons_of_length_pos (by simp)

theorem packQ_of_lt {n : ℕ} (h : n < 2 ^ 64) : packQ n = .ok (beBytes 8 n) := by
  rw [packQ, if_pos ⟨by omega, by omega⟩, Int.toNat_natCast]

theorem packQ_of_le {n : ℕ} (h : 2 ^ 64 ≤ n) : packQ n = .error .structError := by
  rw [packQ, if_neg (by omega)]

theorem message_eq (n : ℕ) (p a m : Digest) :
    domain ++ beBytes 8 n ++ p.bytes ++ a.bytes ++ m.bytes = chainMessage n p ⟨a, m⟩ := rfl

/-- The end of both operations: assign, then `_persist`. -/
theorem saved_persist {α : Type} (state : State) (value : α) :
    Saved s state value
      ((do setState state; persist files; return value : Method α) s) := by
  simp only [Exec.bind_apply, setState, Exec.next_ok, persist]
  cases files.persistFault with
  | none => exact .saved
  | some e => exact .unsaved e

variable (crypto files s) in
theorem registerModel_spec (model : Model) :
    (∃ e, registerModel crypto files model s = (.error e, s)) ∨
      ∃ payload, (s.state.sequence = 0 ∨ s.state.modelHash = some (crypto.sha256 payload).hex) ∧
        Saved s { s.state with modelHash := some (crypto.sha256 payload).hex }
          (crypto.sha256 payload).hex (registerModel crypto files model s) := by
  unfold registerModel
  rw [Exec.bind_apply, Exec.lift_apply]
  cases model.payload files with
  | error e => exact Or.inl ⟨e, rfl⟩
  | ok payload =>
    simp only [Exec.next_ok, Exec.bind_apply, Exec.get_apply]
    split_ifs with h
    · exact Or.inl ⟨_, rfl⟩
    · right
      refine ⟨payload, ?_, saved_persist _ _⟩
      by_cases hseq : s.state.sequence = 0
      · exact Or.inl hseq
      · exact Or.inr (not_not.mp fun hmodel => h ⟨hseq, hmodel⟩)

variable (rt crypto files) in
theorem append_spec {model : Option Digest} {p : Digest} (h : s.state.Holds model p)
    (alert : Json) :
    (∃ e, append rt crypto files alert s = (.error e, s)) ∨
      ∃ m c, model = some m ∧ canonicalJson rt alert = .ok c ∧ s.state.sequence + 1 < 2 ^ 64 ∧
        Saved s (s.state.advance (issue crypto s.state.key m s.state.sequence p c))
          (issue crypto s.state.key m s.state.sequence p c) (append rt crypto files alert s) := by
  unfold append
  rw [Exec.bind_apply, Exec.get_apply, Exec.next_ok]
  cases model with
  | none =>
    have hnone : s.state.registered? = none := by simp [State.registered?, h.modelHash]
    rw [hnone]
    exact Or.inl ⟨_, rfl⟩
  | some m =>
    obtain ⟨x, t, hm⟩ := hex_ne_nil m
    have hsome : s.state.registered? = some m.hex := by
      simp [State.registered?, h.modelHash, hm]
    rw [hsome]
    simp only [Exec.bind_apply, Exec.lift_apply, h.head, Digest.hex, fromHex_hexEncode,
      Exec.next_ok]
    cases hc : canonicalJson rt alert with
    | error e => exact Or.inl ⟨e, rfl⟩
    | ok c =>
      simp only [Exec.next_ok]
      by_cases hlt : s.state.sequence + 1 < 2 ^ 64
      · right
        refine ⟨m, c, rfl, rfl, hlt, ?_⟩
        rw [packQ_of_lt hlt, Exec.bind_apply, Exec.lift_apply, Exec.next_ok,
          Exec.bind_apply, Exec.lift_apply, Exec.next_ok]
        exact saved_persist _ _
      · left
        refine ⟨.structError, ?_⟩
        rw [packQ_of_le (not_lt.mp hlt), Exec.bind_apply, Exec.lift_apply, Exec.next_ok,
          Exec.bind_apply, Exec.lift_apply, Exec.next_error]

theorem Saved.map {α β : Type} {state : State} {value : α} {x : Method α} (f : α → β)
    (h : Saved s state value (x s)) : Saved s state (f value)
        ((do return f (← x) : Method β) s) := by
  rw [Exec.bind_apply]
  generalize x s = out at h
  cases h with
  | unsaved e => exact .unsaved e
  | saved => exact .saved

/-- What one call does to a store whose texts stand for `model` and the head `p`. -/
inductive CallStep (rt : Runtime) (crypto : Crypto) (model : Option Digest) (p : Digest)
    (s : AuditStore) : Call → Except Exc Returned × AuditStore → Prop
  | raised (c : Call) (e : Exc) : CallStep rt crypto model p s c (.error e, s)
  | registered {m out} (d : Digest) : (s.state.sequence = 0 ∨ model = some d) →
      Saved s { s.state with modelHash := some d.hex } (.digest d.hex) out →
      CallStep rt crypto model p s (.registerModel m) out
  | appended {alert out} (m : Digest) (c : Bytes) : model = some m →
      canonicalJson rt alert = .ok c → s.state.sequence + 1 < 2 ^ 64 →
      Saved s (s.state.advance (issue crypto s.state.key m s.state.sequence p c))
        (.receipt (issue crypto s.state.key m s.state.sequence p c)) out →
      CallStep rt crypto model p s (.append alert) out

variable (rt crypto files) in
theorem call_step {model : Option Digest} {p : Digest} (h : s.state.Holds model p) (c : Call) :
    CallStep rt crypto model p s c (call rt crypto files c s) := by
  cases c with
  | registerModel m =>
    rcases registerModel_spec crypto files s m with ⟨e, he⟩ | ⟨payload, hmodel, hsaved⟩
    · have hcall : call rt crypto files (.registerModel m) s = (.error e, s) := by
        rw [call, Exec.bind_apply, he, Exec.next_error]
      exact hcall ▸ .raised _ e
    · refine .registered (crypto.sha256 payload) (hmodel.imp_right fun heq => ?_) (hsaved.map _)
      rw [h.modelHash] at heq
      exact Option.map_injective Digest.hex_injective heq
  | append alert =>
    rcases append_spec rt crypto files h alert with ⟨e, he⟩ | ⟨m, c, hm, hc, hlt, hsaved⟩
    · have hcall : call rt crypto files (.append alert) s = (.error e, s) := by
        rw [call, Exec.bind_apply, he, Exec.next_error]
      exact hcall ▸ .raised _ e
    · exact .appended m c hm hc hlt (hsaved.map _)

theorem run_append_singleton (s : AuditStore) (calls : List (Call × Files)) (c : Call × Files) :
    run rt crypto s (calls ++ [c]) = (run rt crypto s calls).step rt crypto c := by
  simp [run]

theorem issued_step (r : Run) (c : Call × Files) :
    (r.step rt crypto c).issued =
      r.issued ++ (issue? (c.1, (call rt crypto c.2 c.1 r.store).1)).toList := by
  rw [Run.issued, Run.step, List.filterMap_append, Run.issued, List.filterMap_cons]
  cases issue? (c.1, (call rt crypto c.2 c.1 r.store).1) with
  | none => rfl
  | some entry => rfl

/-- The receipts of a store that has raised no exception: `entries` is the chain under one
key and one model that ends in the head `p`. -/
inductive IssuedChain (rt : Runtime) (crypto : Crypto) (key model : Digest) :
    List (Json × Receipt) → Digest → Prop
  | nil : IssuedChain rt crypto key model [] .zero
  | snoc {entries p alert c} : IssuedChain rt crypto key model entries p →
      canonicalJson rt alert = .ok c → entries.length + 1 < 2 ^ 64 →
      IssuedChain rt crypto key model
        (entries ++ [(alert, issue crypto key model entries.length p c)])
        (tag crypto key (chainMessage (entries.length + 1) p ⟨crypto.sha256 c, model⟩))

structure Tracks (rt : Runtime) (crypto : Crypto) (key : Digest) (s : AuditStore)
    (entries : List (Json × Receipt)) (model : Option Digest) (p : Digest) : Prop where
  holds : s.state.Holds model p
  sameKey : s.state.key = key
  sequence : s.state.sequence = entries.length
  chain : (model = none ∧ entries = [] ∧ p = .zero) ∨
    ∃ m, model = some m ∧ IssuedChain rt crypto key m entries p

theorem tracks_fresh (rt : Runtime) (crypto : Crypto) (key : Digest) (file : Option State) :
    Tracks rt crypto key ⟨freshState key, file⟩ [] none .zero :=
  ⟨⟨rfl, rfl⟩, rfl, rfl, Or.inl ⟨rfl, rfl, rfl⟩⟩

/-- One call that returns keeps the store at the end of its chain. -/
theorem Tracks.step {key : Digest} {entries : List (Json × Receipt)} {model : Option Digest}
    {p : Digest} {c : Call} {v : Returned} {s' : AuditStore}
    (h : Tracks rt crypto key s entries model p)
    (hstep : CallStep rt crypto model p s c (.ok v, s')) :
    ∃ model' p', Tracks rt crypto key s' (entries ++ (issue? (c, .ok v)).toList) model' p' := by
  cases hstep with
  | @registered m _ d hd hsaved =>
    cases hsaved
    refine ⟨some d, p, ⟨rfl, h.holds.head⟩, h.sameKey, ?_, ?_⟩
    · simpa [issue?] using h.sequence
    · right
      refine ⟨d, rfl, ?_⟩
      have hentries : entries ++ (issue? (.registerModel m, .ok (.digest d.hex))).toList =
          entries := by
        simp [issue?]
      rw [hentries]
      rcases h.chain with ⟨-, rfl, rfl⟩ | ⟨m, rfl, hchain⟩
      · exact .nil
      · rcases hd with hzero | hm
        · -- a model may still change while the chain is empty
          have hnil : entries = [] := List.length_eq_zero_iff.mp (h.sequence.symm.trans hzero)
          subst hnil
          generalize hempty : ([] : List (Json × Receipt)) = entries at hchain
          cases hchain with
          | nil => exact .nil
          | snoc => simp at hempty
        · exact Option.some.inj hm ▸ hchain
  | appended m c hm hc hlt hsaved =>
    cases hsaved
    rcases h.chain with ⟨hnone, -⟩ | ⟨m', hm', hchain⟩
    · cases hnone.symm.trans hm
    · obtain rfl : m' = m := Option.some.inj (hm'.symm.trans hm)
      have hlen : entries.length + 1 < 2 ^ 64 := h.sequence ▸ hlt
      refine ⟨some m', _, ⟨h.holds.modelHash.trans (by rw [hm]), rfl⟩, h.sameKey, ?_, ?_⟩
      · simp [State.advance, issue, issue?, h.sequence]
      · right
        refine ⟨m', rfl, ?_⟩
        rw [h.sameKey, h.sequence]
        exact hchain.snoc hc hlen

theorem open?_fresh {urandom : Digest} (h : open? files urandom none = .ok s) :
    ∃ file, s = ⟨freshState urandom, file⟩ := by
  unfold open? persist at h
  cases hfault : files.persistFault with
  | some e => simp [hfault] at h
  | none =>
    simp only [hfault, Except.ok.injEq] at h
    exact ⟨some (freshState urandom), h.symm⟩

def Run.allReturned (r : Run) : Bool := r.history.all fun entry => entry.2.isOk

theorem Run.allReturned_step (r : Run) (c : Call × Files) :
    (r.step rt crypto c).allReturned =
      (r.allReturned && (call rt crypto c.2 c.1 r.store).1.isOk) := by
  simp [Run.allReturned, Run.step]

theorem run_tracks (key : Digest) (file : Option State) (calls : List (Call × Files))
    (hok : (run rt crypto ⟨freshState key, file⟩ calls).allReturned) :
    ∃ model p, Tracks rt crypto key (run rt crypto ⟨freshState key, file⟩ calls).store
      (run rt crypto ⟨freshState key, file⟩ calls).issued model p := by
  induction calls using List.reverseRecOn with
  | nil => exact ⟨none, .zero, tracks_fresh rt crypto key file⟩
  | append_singleton calls c ih =>
    rw [run_append_singleton] at hok ⊢
    rw [Run.allReturned_step, Bool.and_eq_true] at hok
    obtain ⟨model, p, h⟩ := ih hok.1
    have hstep := call_step rt crypto c.2 h.holds c.1
    rw [issued_step]
    generalize run rt crypto ⟨freshState key, file⟩ calls = r at *
    cases hout : call rt crypto c.2 c.1 r.store with
    | mk result store =>
      have hstore : (r.step rt crypto c).store = store := by simp [Run.step, hout]
      rw [hstore]
      rw [hout] at hstep hok
      cases result with
      | error e => simp [Except.isOk, Except.toBool] at hok
      | ok v => exact h.step hstep

end Cote3Mon.AuditStore
