import Cote3Mon.AuditStore.Failures
import Cote3Mon.Lib.Base64
import Cote3Mon.Python.Dumps

namespace Cote3Mon.AuditStore
open ByteText Python MacChain

-- A process that ends, because a call of it has raised or because it is killed, leaves the text of
-- its state file, and the next one goes on from there. However often this happens, there is one
-- chain.

/-- The dict of `self.state`. -/
def State.toDict (state : State) : Dict :=
  [(text "schema", .str (text "cote3-mon-audit-state-v1")),
    (text "key", .str (Base64.encode state.key.bytes)),
    (text "model_hash", state.modelHash.elim .null .str), (text "sequence", .int state.sequence),
    (text "head", .str state.head)]

/-- The state that a dict stands for; `none` where `__init__` and `_persist` write no such dict. -/
def stateOf (d : Dict) : Option State := do
  let .str key := d.get "key" | none
  let bytes ← Base64.decode key
  let .int sequence := d.get "sequence" | none
  let .str head := d.get "head" | none
  let modelHash ← match d.get "model_hash" with
    | .null => some none
    | .str t => some (some t)
    | _ => none
  if h : bytes.length = 32 then return ⟨⟨bytes, h⟩, modelHash, sequence.toNat, head⟩ else none

variable (rt : Runtime)

/-- The text that `_persist` writes. -/
def stateText (state : State) : Except Exc Text := encode rt Style.indented 0 (.obj state.toDict)

/-- The constructor for a file with the text `t`. -/
def reopen (t : Text) : Option AuditStore := do
  let .obj d ← (loads rt t).toOption | none
  let state ← stateOf d
  return ⟨state, some state⟩

variable {rt} {crypto : Crypto}

theorem stateOf_toDict (state : State) : stateOf state.toDict = some state := by
  have hkey : state.toDict.get "key" = .str (Base64.encode state.key.bytes) := rfl
  have hsequence : state.toDict.get "sequence" = .int state.sequence := rfl
  have hhead : state.toDict.get "head" = .str state.head := rfl
  have hmodel : state.toDict.get "model_hash" = state.modelHash.elim .null .str := rfl
  unfold stateOf
  simp only [hkey, hsequence, hhead, hmodel, Base64.decode_encode, Option.bind_eq_bind,
    Option.bind_some]
  obtain ⟨⟨bytes, hlength⟩, modelHash, sequence, head⟩ := state
  cases modelHash with
  | none => simp [hlength]
  | some t => simp [hlength]

theorem isReadable_hex (d : Digest) : IsReadable d.hex := by
  apply isReadable_of_lt
  intro c hc
  have hhex := hexEncode_isHex _ c hc
  unfold IsHex at hhex
  omega

theorem regular_state {state : State} {model : Option Digest} {p : Digest}
    (h : state.Holds model p) :
    Regular rt Style.indented (.obj state.toDict) := by
  have hbase : IsReadable (Base64.encode state.key.bytes) := by
    apply isReadable_of_lt
    intro c hc
    have hrange := Base64.encode_range _ c hc
    omega
  have hhead : IsReadable state.head := by
    rw [h.head]
    exact isReadable_hex p
  have hmodel : Regular rt Style.indented (state.modelHash.elim .null .str) := by
    rw [h.modelHash]
    cases model with
    | none => exact .null
    | some m => exact .str fun _ => isReadable_hex m
  refine .obj (fun m hm _ => isReadable_of_lt ?_) ?_ (by
    simp only [State.toDict, List.map_cons, List.map_nil]
    decide)
  · have hnames : ∀ name ∈ ["schema", "key", "model_hash", "sequence", "head"].map text,
        ∀ c ∈ name, c < 0xd800 := by decide
    exact hnames m.1 (List.mem_map_of_mem (f := Prod.fst) hm)
  · simp only [State.toDict, List.forall_mem_cons]
    exact ⟨.str fun _ => isReadable_of_lt (by decide), .str fun _ => hbase, hmodel, .int _,
      .str fun _ => hhead, fun m hm => absurd hm List.not_mem_nil⟩

/-- What `_persist` has written is opened as it was. -/
theorem reopen_stateText {state : State} {model : Option Digest} {p : Digest}
    (h : state.Holds model p) (hlt : state.sequence < 2 ^ 64) :
    ∃ t, stateText rt state = .ok t ∧ reopen rt t = some ⟨state, some state⟩ := by
  have hint : rt.intText state.sequence = .ok (decimal state.sequence) := by
    have hshort := tooLong_uint64 rt (UInt64.ofNat state.sequence)
    rw [UInt64.toNat_ofNat_of_lt' hlt] at hshort
    simp [Runtime.intText, hshort]
  have htext : ∃ t, stateText rt state = .ok t := by
    cases hmodel : state.modelHash with
    | none => simp [stateText, encode, encodeMembers, State.toDict, hint, hmodel, pure, Except.pure]
    | some m =>
      simp [stateText, encode, encodeMembers, State.toDict, hint, hmodel, pure, Except.pure]
  obtain ⟨t, ht⟩ := htext
  have hempty : ∀ c ∈ ([] : Text), isJsonSpace c := fun c hc => absurd hc List.not_mem_nil
  have hloads := loads_encode rt (regular_state h) ht hempty
  rw [List.append_nil] at hloads
  refine ⟨t, ht, ?_⟩
  have hsame : Style.indented.reload (.obj state.toDict) = .obj state.toDict := rfl
  rw [reopen, hloads, hsame]
  simp [Except.toOption, stateOf_toDict]

/-- What happens to a store: a call, which ends its process if it raises, a call in which the process
is killed, or a restart between two calls.  A process that goes on after a failed `_persist` would
use a memory that is ahead of the file. -/
inductive Event where
  | call (c : Call) (files : Files)
  | killed (c : Call) (files : Files)
  | restart

/-- The store of the present process, the receipts that all processes have made, and those of them
that `append` has returned. -/
structure Life where
  store : AuditStore
  made : List (Json × Receipt)
  returned : List (Json × Receipt)

variable (rt crypto) in
/-- The next process, with the file that the last one has left. -/
def nextProcess (s : AuditStore) : Option AuditStore := do
  let state ← s.file
  let t ← (stateText rt state).toOption
  reopen rt t

variable (rt crypto) in
def Life.step (life : Life) : Event → Option Life
  | .restart => do return { life with store := ← nextProcess rt life.store }
  | .call c files =>
    match call rt crypto files c life.store with
    | (.ok v, s) =>
      let receipts := (issue? (c, .ok v)).toList
      some ⟨s, life.made ++ receipts, life.returned ++ receipts⟩
    | (.error _, s) => do return { life with store := ← nextProcess rt s }
  | .killed c files =>
    match call rt crypto files c life.store with
    | (.ok v, s) => do
      return ⟨← nextProcess rt s, life.made ++ (issue? (c, .ok v)).toList, life.returned⟩
    | (.error _, s) => do return { life with store := ← nextProcess rt s }

variable (rt crypto) in
/-- The life of a store that was created with the key `key`. -/
def live (key : Digest) (events : List Event) : Option Life :=
  events.foldlM (Life.step rt crypto) ⟨⟨freshState key, some (freshState key)⟩, [], []⟩

/-- What holds between two events. -/
structure Alive (rt : Runtime) (crypto : Crypto) (key : Digest) (life : Life) : Prop where
  tracks : ∃ model p, Tracks rt crypto key life.store life.made model p
  file : life.store.file = some life.store.state
  sequence : life.store.state.sequence < 2 ^ 64
  returned : life.returned.Sublist life.made

theorem nextProcess_eq {s : AuditStore} {state : State} {model : Option Digest} {p : Digest}
    (hfile : s.file = some state) (h : state.Holds model p) (hlt : state.sequence < 2 ^ 64) :
    nextProcess rt s = some ⟨state, some state⟩ := by
  obtain ⟨t, (ht : stateText rt state = .ok t), hopen⟩ := reopen_stateText h hlt
  simp [nextProcess, hfile, ht, Except.toOption, hopen]

/-- A call that raises leaves the file, a call that returns has written the memory to it. -/
theorem call_file {model : Option Digest} {p : Digest} {s : AuditStore} (h : s.state.Holds model p)
    (hlt : s.state.sequence < 2 ^ 64) (c : Call) (files : Files) :
    (∃ e, (call rt crypto files c s).1 = .error e ∧ (call rt crypto files c s).2.file = s.file) ∨
      ∃ v, (call rt crypto files c s).1 = .ok v ∧
        (call rt crypto files c s).2.file = some (call rt crypto files c s).2.state ∧
        (call rt crypto files c s).2.state.sequence < 2 ^ 64 := by
  have hstep := call_step rt crypto files h c
  generalize call rt crypto files c s = out at hstep
  cases hstep with
  | raised c e => exact Or.inl ⟨e, rfl, rfl⟩
  | registered d hd hsaved =>
    cases hsaved with
    | unsaved e => exact Or.inl ⟨e, rfl, rfl⟩
    | saved => exact Or.inr ⟨_, rfl, rfl, hlt⟩
  | appended m c hm hc hnext hsaved =>
    cases hsaved with
    | unsaved e => exact Or.inl ⟨e, rfl, rfl⟩
    | saved => exact Or.inr ⟨_, rfl, rfl, hnext⟩

theorem Tracks.reopened {key : Digest} {s : AuditStore} {entries : List (Json × Receipt)}
    {model : Option Digest} {p : Digest} (h : Tracks rt crypto key s entries model p)
    (file : Option State) : Tracks rt crypto key ⟨s.state, file⟩ entries model p :=
  ⟨h.holds, h.sameKey, h.sequence, h.chain⟩

/-- A call that returns leads to the end of the longer chain, in memory and in the file. -/
theorem Tracks.returned {key : Digest} {s : AuditStore} {entries : List (Json × Receipt)}
    {model : Option Digest} {p : Digest} (h : Tracks rt crypto key s entries model p)
    (hlt : s.state.sequence < 2 ^ 64) {c : Call} {files : Files} {v : Returned}
    (hv : (call rt crypto files c s).1 = .ok v) :
    ∃ state model' p', call rt crypto files c s = (.ok v, ⟨state, some state⟩) ∧
      state.sequence < 2 ^ 64 ∧ state.Holds model' p' ∧
      Tracks rt crypto key ⟨state, some state⟩
          (entries ++ (issue? (c, .ok v)).toList) model' p' := by
  have hstep := call_step rt crypto files h.holds c
  rcases call_file h.holds hlt c files with ⟨e, he, -⟩ | ⟨w, -, hwritten, hnext⟩
  · cases he.symm.trans hv
  · generalize call rt crypto files c s = out at hstep hv hwritten hnext
    obtain ⟨result, state, file⟩ := out
    obtain rfl : result = .ok v := hv
    obtain rfl : file = some state := hwritten
    obtain ⟨model', p', htracks⟩ := h.step hstep
    exact ⟨state, model', p', rfl, hnext, htracks.holds, htracks⟩

/-- Every event leads to a next process that is alive. -/
theorem Alive.step {key : Digest} {life : Life} (h : Alive rt crypto key life) (event : Event) :
    ∃ life', life.step rt crypto event = some life' ∧ Alive rt crypto key life' := by
  obtain ⟨⟨model, p, htracks⟩, hfile, hlt, hreturned⟩ := h
  -- the next process after a call that has left the file as it was
  have hreopen : ∀ s : AuditStore, s.file = life.store.file →
      nextProcess rt s = some ⟨life.store.state, some life.store.state⟩ := fun s hs =>
    nextProcess_eq (hs.trans hfile) htracks.holds hlt
  have hsame : Alive rt crypto key { life with store :=
      ⟨life.store.state, some life.store.state⟩ } :=
    ⟨⟨model, p, htracks.reopened _⟩, rfl, hlt, hreturned⟩
  cases event with
  | restart =>
    refine ⟨_, ?_, hsame⟩
    simp [Life.step, hreopen life.store rfl]
  | call c files =>
    rcases call_file htracks.holds hlt c files with ⟨e, he, hkept⟩ | ⟨v, hv, -⟩
    · refine ⟨_, ?_, hsame⟩
      rw [Life.step, ← Prod.mk.eta (p := call rt crypto files c life.store), he]
      simp [hreopen _ hkept]
    · obtain ⟨state, model', p', hcall, hnext, -, htracks'⟩ := htracks.returned hlt hv
      refine ⟨_, by rw [Life.step, hcall], ⟨model', p', htracks'⟩, rfl, hnext, ?_⟩
      exact hreturned.append (List.Sublist.refl _)
  | killed c files =>
    rcases call_file htracks.holds hlt c files with ⟨e, he, hkept⟩ | ⟨v, hv, -⟩
    · refine ⟨_, ?_, hsame⟩
      rw [Life.step, ← Prod.mk.eta (p := call rt crypto files c life.store), he]
      simp [hreopen _ hkept]
    · obtain ⟨state, model', p', hcall, hnext, hholds, htracks'⟩ := htracks.returned hlt hv
      have hnextProcess : nextProcess rt ⟨state, some state⟩ = some ⟨state, some state⟩ :=
        nextProcess_eq rfl hholds hnext
      refine ⟨⟨⟨state, some state⟩, life.made ++ (issue? (c, .ok v)).toList, life.returned⟩, ?_,
        ⟨model', p', htracks'⟩, rfl, hnext, ?_⟩
      · rw [Life.step, hcall]
        simp [hnextProcess]
      · exact hreturned.trans (List.sublist_append_left _ _)

theorem Alive.run {key : Digest} {life : Life} (h : Alive rt crypto key life) (events : List Event) :
    ∃ life', events.foldlM (Life.step rt crypto) life = some life' ∧ Alive rt crypto key life' := by
  induction events generalizing life with
  | nil => exact ⟨life, rfl, h⟩
  | cons event events ih =>
    obtain ⟨next, hnext, halive⟩ := h.step event
    obtain ⟨life', hlife, hlast⟩ := ih halive
    exact ⟨life', by rw [List.foldlM_cons, hnext]; exact hlife, hlast⟩

/-- Without a kill every receipt is returned. -/
theorem returned_eq_made {events : List Event} {life life' : Life}
    (hkilled : ∀ c files, Event.killed c files ∉ events) (hsame : life.returned = life.made)
    (h : events.foldlM (Life.step rt crypto) life = some life') : life'.returned = life'.made := by
  induction events generalizing life with
  | nil =>
    obtain rfl := Option.some.inj h
    exact hsame
  | cons event events ih =>
    rw [List.foldlM_cons] at h
    obtain ⟨next, hnext, h⟩ := Option.bind_eq_some_iff.mp h
    refine ih (fun c files hmem => hkilled c files (List.mem_cons_of_mem _ hmem)) ?_ h
    cases event with
    | restart =>
      obtain ⟨s, -, hs⟩ := Option.bind_eq_some_iff.mp hnext
      obtain rfl := Option.some.inj hs
      exact hsame
    | killed c files => exact absurd List.mem_cons_self (hkilled c files)
    | call c files =>
      rw [Life.step] at hnext
      split at hnext
      · obtain rfl := Option.some.inj hnext
        exact congrArg (· ++ _) hsame
      · obtain ⟨s, -, hs⟩ := Option.bind_eq_some_iff.mp hnext
        obtain rfl := Option.some.inj hs
        exact hsame

theorem IssuedChain.sequences {key m : Digest} {entries : List (Json × Receipt)} {p : Digest}
    (h : IssuedChain rt crypto key m entries p) :
    entries.map (fun entry => entry.2.sequence) = List.range' 1 entries.length := by
  induction h with
  | nil => rfl
  | @snoc entries p alert c _ _ _ ih =>
    rw [List.map_append, ih, List.length_append, List.length_singleton, List.range'_concat,
      List.map_singleton]
    simp [issue, Nat.add_comm]

theorem Tracks.sequences {key : Digest} {s : AuditStore} {entries : List (Json × Receipt)}
    {model : Option Digest} {p : Digest} (h : Tracks rt crypto key s entries model p) :
    entries.map (fun entry => entry.2.sequence) = List.range' 1 entries.length := by
  rcases h.chain with ⟨-, rfl, -⟩ | ⟨m, -, hchain⟩
  · rfl
  · exact hchain.sequences

def HoldsAlert (rt : Runtime) (v : Json) (entry : Json × Receipt) : Prop :=
  ∃ d, v = .obj d ∧ (Regular rt Style.canonical (getOrEmpty d "alert") →
    Regular rt Style.canonical entry.1 → reload (getOrEmpty d "alert") = reload entry.1)

theorem Carries.holdsAlert {v : Json} {entry : Json × Receipt} (h : Carries rt v entry) :
    HoldsAlert rt v entry := by
  obtain ⟨s, hv, hcanonical, -⟩ := h
  obtain ⟨d, hd, hs⟩ := bind_eq_ok.mp (readRecord_of_shows hv)
  obtain ⟨receipt, -, hs⟩ := bind_eq_ok.mp hs
  obtain ⟨c, hc, hs⟩ := bind_eq_ok.mp hs
  refine ⟨d, eq_obj_of_dict hd, fun halert hentry => canonicalJson_injective rt halert hentry hc ?_⟩
  rw [hcanonical]
  obtain ⟨item, -, hs⟩ := bind_eq_ok.mp hs
  obtain ⟨sequence, -, hs⟩ := bind_eq_ok.mp hs
  obtain ⟨previousHead, -, hs⟩ := bind_eq_ok.mp hs
  obtain ⟨alertHash, -, hs⟩ := bind_eq_ok.mp hs
  obtain ⟨modelHash, -, hs⟩ := bind_eq_ok.mp hs
  obtain ⟨head, -, hs⟩ := bind_eq_ok.mp hs
  rw [← Except.ok.inj hs]

/-- **Restarts keep the chain.** Where every call that raises ends its process, whatever calls fail
and wherever processes are killed, the next process opens the file, and the receipts of all
processes are one chain with consecutive numbers: it verifies, and what verifies against the current
head holds the same alerts, up to a collision. Only a kill makes a receipt that no one has received.
-/
theorem restarts_keep_chain (rt : Runtime) (crypto : Crypto) (key : Digest) (events : List Event) :
    ∃ life, live rt crypto key events = some life ∧ life.returned.Sublist life.made ∧
      ((∀ c files, Event.killed c files ∉ events) → life.returned = life.made) ∧
      life.made.map (fun entry => entry.2.sequence) = List.range' 1 life.made.length ∧
      verifyChain rt crypto life.store (life.made.map record) true = .ok true ∧
      ∀ records, verifyChain rt crypto life.store records true = .ok true →
        List.Forall₂ (fun v entry => Carries rt v entry ∧ HoldsAlert rt v entry) records life.made ∨
          Collision (tag crypto life.store.state.key) (messagesOf (shows rt) records)
            (messagesOf (shows rt) (life.made.map record)) ∨
          Collision crypto.sha256 (canonicalOf (shows rt) records)
            (canonicalOf (shows rt) (life.made.map record)) := by
  have hfresh : Alive rt crypto key ⟨⟨freshState key, some (freshState key)⟩, [], []⟩ :=
    ⟨⟨none, .zero, tracks_fresh rt crypto key _⟩, rfl, Nat.two_pow_pos 64, List.Sublist.refl _⟩
  obtain ⟨life, hlife, ⟨model, p, htracks⟩, -, -, hreturned⟩ := hfresh.run events
  refine ⟨life, hlife, hreturned, fun hkilled => returned_eq_made hkilled rfl hlife,
    htracks.sequences, htracks.accepts.1, fun records hrecords => ?_⟩
  exact (htracks.sound hrecords).imp_left fun hcarries =>
    hcarries.imp fun v entry hentry => ⟨hentry, hentry.holdsAlert⟩

end Cote3Mon.AuditStore
