import Cote3Mon.Lib.Bytes
import Cote3Mon.Lib.Exec

namespace Stream
open ByteText

-- A stream socket as one side of it sees it. The bytes of the peer arrive in fragments, a call can
-- be interrupted, and what is written is taken in pieces until the peer has gone.

/-- What will arrive, up to the end of input or to an error that stays. -/
inductive Input where
  | eof
  | failed
  | interrupted (rest : Input)
  | fragment (first : UInt8) (more : Bytes) (rest : Input)

inductive ReadResult where
  | data (bs : Bytes)
  | interrupted
  | failed

namespace Input

def bytes : Input → Bytes
  | eof => []
  | failed => []
  | interrupted rest => rest.bytes
  | fragment first more rest => first :: more ++ rest.bytes

def interruptions : Input → ℕ
  | eof => 0
  | failed => 0
  | interrupted rest => rest.interruptions + 1
  | fragment _ _ rest => rest.interruptions

/-- What is left of a fragment, and then the rest. -/
def push : Bytes → Input → Input
  | [], rest => rest
  | first :: more, rest => fragment first more rest

/-- `read` of at most `length` bytes; no data means the end of input. -/
def read (length : ℕ) : Input → ReadResult × Input
  | eof => (.data [], eof)
  | failed => (.failed, failed)
  | interrupted rest => (.interrupted, rest)
  | fragment first more rest =>
    (.data ((first :: more).take length), push ((first :: more).drop length) rest)

@[simp] theorem bytes_push (bs : Bytes) (rest : Input) :
    (push bs rest).bytes = bs ++ rest.bytes := by
  cases bs with
  | nil => rfl
  | cons => rfl

@[simp] theorem interruptions_push (bs : Bytes) (rest : Input) :
    (push bs rest).interruptions = rest.interruptions := by
  cases bs with
  | nil => rfl
  | cons => rfl

variable {length : ℕ} {input input' : Input} {bs : Bytes}

theorem read_data (h : input.read length = (.data bs, input')) :
    input.bytes = bs ++ input'.bytes ∧ bs.length ≤ length ∧
      input'.interruptions = input.interruptions := by
  cases input with
  | fragment first more rest =>
    obtain ⟨hbs, hrest⟩ := Prod.mk.inj h
    rw [← ReadResult.data.inj hbs, ← hrest]
    refine ⟨?_, List.length_take_le _ _, interruptions_push _ _⟩
    rw [bytes_push, ← List.append_assoc, List.take_append_drop]
    rfl
  | eof =>
    obtain ⟨hbs, hrest⟩ := Prod.mk.inj h
    rw [← ReadResult.data.inj hbs, ← hrest]
    exact ⟨rfl, Nat.zero_le _, rfl⟩
  | failed => cases h
  | interrupted rest => cases h

/-- Only at the end of input does a read return no data. -/
theorem read_nil (h : input.read length = (.data [], input')) (hpos : 0 < length) :
    input.bytes = [] := by
  cases input with
  | fragment first more rest =>
    have htake := ReadResult.data.inj (Prod.mk.inj h).1
    rw [List.take_eq_nil_iff] at htake
    rcases htake with hzero | hnil
    · omega
    · cases hnil
  | eof => rfl
  | failed => cases h
  | interrupted rest => cases h

theorem read_interrupted (h : input.read length = (.interrupted, input')) :
    input.bytes = input'.bytes ∧ input.interruptions = input'.interruptions + 1 := by
  cases input with
  | interrupted rest =>
    rw [← (Prod.mk.inj h).2]
    exact ⟨rfl, rfl⟩
  | fragment first more rest => cases h
  | eof => cases h
  | failed => cases h

theorem read_failed (h : input.read length = (.failed, input')) : input.bytes = [] := by
  cases input with
  | failed => rfl
  | fragment first more rest => cases h
  | eof => cases h
  | interrupted rest => cases h

end Input

/-- The function reads exactly as many bytes as it is asked for, or fails where there are
fewer. -/
structure ReadsExactly {ε : Type} (read : ℕ → Exec ε Input Bytes) : Prop where
  enough : ∀ length input, length ≤ input.bytes.length →
    ∃ input', read length input = (.ok (input.bytes.take length), input') ∧
      input'.bytes = input.bytes.drop length
  short : ∀ length input, input.bytes.length < length →
    ∃ e input', read length input = (.error e, input')

variable {ε : Type} {read : ℕ → Exec ε Input Bytes}

theorem ReadsExactly.ok (h : ReadsExactly read) {length : ℕ} {input input' : Input} {bs : Bytes}
    (hread : read length input = (.ok bs, input')) :
    bs.length = length ∧ input.bytes = bs ++ input'.bytes := by
  by_cases hlen : length ≤ input.bytes.length
  · obtain ⟨rest, htake, hrest⟩ := h.enough length input hlen
    obtain ⟨hbs, hinput⟩ := Prod.mk.inj (htake.symm.trans hread)
    rw [← Except.ok.inj hbs, ← hinput, hrest, List.take_append_drop, List.length_take]
    exact ⟨Nat.min_eq_left hlen, rfl⟩
  · obtain ⟨e, rest, herror⟩ := h.short length input (by omega)
    cases (Prod.mk.inj (herror.symm.trans hread)).1

/-- What comes first on the stream is what is read. -/
theorem ReadsExactly.append (h : ReadsExactly read) {length : ℕ} {input : Input} {bs rest : Bytes}
    (hinput : input.bytes = bs ++ rest) (hlen : bs.length = length) :
    ∃ input', read length input = (.ok bs, input') ∧ input'.bytes = rest := by
  subst hlen
  have hle : bs.length ≤ input.bytes.length := by
    rw [hinput, List.length_append]
    omega
  have henough := h.enough bs.length input hle
  rwa [hinput, List.take_left, List.drop_left] at henough

/-- How the next call is answered: interrupted, or at most `more + 1` bytes are taken. -/
inductive Acceptance where
  | interrupted
  | takes (more : ℕ)

/-- The way to the peer.  `room` is what it takes before it has gone; `none` is no limit.  After
the listed answers every call is answered in full. -/
structure Output where
  answers : List Acceptance
  room : Option ℕ
  written : Bytes

inductive WriteResult where
  | count (n : ℕ)
  | interrupted
  | brokenPipe

namespace Output

/-- `bs` is taken from the caller. -/
def take (out : Output) (answers : List Acceptance) (bs : Bytes) : WriteResult × Output :=
  (.count bs.length, ⟨answers, out.room.map (· - bs.length), out.written ++ bs⟩)

/-- `write`, to a peer that may have gone. -/
def write (bs : Bytes) (out : Output) : WriteResult × Output :=
  match out.answers with
  | .interrupted :: rest => (.interrupted, { out with answers := rest })
  | answers =>
    if out.room = some 0 then (.brokenPipe, out)
    else
      let limit := out.room.getD bs.length
      match answers with
      | .takes more :: rest => out.take rest (bs.take (min limit (more + 1)))
      | _ => out.take [] (bs.take limit)

/-- The peer takes all of `n` bytes more. -/
def HasRoom (out : Output) (n : ℕ) : Prop := ∀ k, out.room = some k → n ≤ k

instance (out : Output) (n : ℕ) : Decidable (out.HasRoom n) :=
  match h : out.room with
  | none => isTrue fun k hk => by rw [h] at hk; cases hk
  | some k =>
    if hk : n ≤ k then isTrue fun j hj => by rw [h] at hj; rwa [← Option.some.inj hj]
    else isFalse fun hroom => hk (hroom k h)

variable {bs : Bytes} {out out' : Output} {n : ℕ}

theorem hasRoom_add (hroom : out'.room = out.room.map (· - n)) (hn : out.HasRoom n) (m : ℕ) :
    out.HasRoom (n + m) ↔ out'.HasRoom m := by
  unfold HasRoom at *
  rw [hroom]
  cases hout : out.room with
  | none => simp
  | some k =>
    have hk := hn k hout
    simp only [Option.some.injEq, forall_eq', Option.map_some]
    omega

theorem take_count {answers : List Acceptance}
    (h : out.take answers bs = (.count n, out')) :
    n = bs.length ∧ out'.answers = answers ∧ out'.written = out.written ++ bs ∧
      out'.room = out.room.map (· - n) := by
  obtain ⟨hn, hout⟩ := Prod.mk.inj h
  rw [← WriteResult.count.inj hn, ← hout]
  exact ⟨rfl, rfl, rfl, rfl⟩

theorem write_count (h : out.write bs = (.count n, out')) (hbs : bs ≠ []) :
    0 < n ∧ n ≤ bs.length ∧ out.HasRoom n ∧ out'.written = out.written ++ bs.take n ∧
      out'.room = out.room.map (· - n) ∧ out'.answers.length ≤ out.answers.length := by
  have hpos : 0 < bs.length := List.length_pos_iff.mpr hbs
  -- in every answered case a positive part of `bs` within the room is taken
  have htaken : ∀ m answers, 0 < m → out.HasRoom (min m bs.length) →
      answers.length ≤ out.answers.length → out.take answers (bs.take m) = (.count n, out') →
      0 < n ∧ n ≤ bs.length ∧ out.HasRoom n ∧ out'.written = out.written ++ bs.take n ∧
        out'.room = out.room.map (· - n) ∧ out'.answers.length ≤ out.answers.length := by
    intro m answers hm hroom hanswers htake
    obtain ⟨hn, hrest, hwritten, hleft⟩ := take_count htake
    rw [List.length_take] at hn
    have hsame : bs.take m = bs.take n := by
      rw [hn, ← List.take_take, List.take_length]
    rw [hsame] at hwritten
    exact ⟨by omega, by omega, hn ▸ hroom, hwritten, hleft, hrest ▸ hanswers⟩
  have hlimit : out.room ≠ some 0 → 0 < out.room.getD bs.length ∧
      ∀ m, m ≤ out.room.getD bs.length → out.HasRoom (min m bs.length) := by
    unfold HasRoom
    cases out.room with
    | none => exact fun _ => ⟨hpos, fun _ _ => nofun⟩
    | some k =>
      intro hk
      have hk : k ≠ 0 := fun hzero => hk (by rw [hzero])
      refine ⟨by simpa using Nat.pos_of_ne_zero hk, fun m hm j hj => ?_⟩
      rw [Option.getD_some] at hm
      have hjk := Option.some.inj hj
      omega
  unfold write at h
  split at h
  · cases h
  · split_ifs at h with hzero
    · cases h
    · obtain ⟨hleft, hroom⟩ := hlimit hzero
      split at h
      · rename_i more rest hanswers
        refine htaken _ _ (by omega) (hroom _ (by omega)) ?_ h
        rw [hanswers, List.length_cons]
        omega
      · exact htaken _ _ hleft (hroom _ le_rfl) (Nat.zero_le _) h

theorem write_interrupted (h : out.write bs = (.interrupted, out')) :
    out'.written = out.written ∧ out'.room = out.room ∧
      out.answers.length = out'.answers.length + 1 := by
  unfold write at h
  split at h
  · rename_i rest hanswers
    rw [← (Prod.mk.inj h).2, hanswers]
    exact ⟨rfl, rfl, rfl⟩
  · split_ifs at h
    · cases h
    · split at h
      · cases h
      · cases h

theorem write_brokenPipe (h : out.write bs = (.brokenPipe, out')) : out.room = some 0 := by
  unfold write at h
  split at h
  · cases h
  · split_ifs at h with hzero
    · exact hzero
    · split at h
      · cases h
      · cases h

end Output

/-- What the signal of a broken pipe does to the process. -/
inductive Disposition where
  | terminate
  | ignore
  deriving DecidableEq

/-- How a function that writes ends; `killed` is the end of the process. -/
inductive Outcome where
  | done
  | failed
  | killed
  deriving DecidableEq

def Disposition.brokenPipe : Disposition → Outcome
  | terminate => .killed
  | ignore => .failed

/-- The function writes `bs`, or meets a broken pipe where the peer does not take all of it. -/
structure Writes (sigpipe : Disposition) (bs : Bytes) (f : Output → Outcome × Output) : Prop where
  enough : ∀ out, out.HasRoom bs.length →
    (f out).1 = .done ∧ (f out).2.written = out.written ++ bs ∧
      (f out).2.room = out.room.map (· - bs.length)
  gone : ∀ out, ¬ out.HasRoom bs.length → (f out).1 = sigpipe.brokenPipe

def Outcome.andThen (next : Output → Outcome × Output) : Outcome × Output → Outcome × Output
  | (.done, out) => next out
  | result => result

theorem writes_nil (sigpipe : Disposition) : Writes sigpipe [] fun out => (.done, out) := by
  refine ⟨fun out _ => ⟨rfl, (List.append_nil _).symm, ?_⟩, fun out hroom => ?_⟩
  · cases out.room <;> rfl
  · exact absurd (fun _ _ => Nat.zero_le _) hroom

/-- Two writes in turn are one write. -/
theorem Writes.andThen {sigpipe : Disposition} {first second : Bytes}
    {f g : Output → Outcome × Output} (hf : Writes sigpipe first f) (hg : Writes sigpipe second g) :
    Writes sigpipe (first ++ second) fun out => Outcome.andThen g (f out) := by
  have hnext : ∀ out, (f out).1 = .done → Outcome.andThen g (f out) = g (f out).2 := by
    intro out hdone
    rw [show f out = (.done, (f out).2) from Prod.ext hdone rfl]
    rfl
  refine ⟨fun out hroom => ?_, fun out hroom => ?_⟩
  · rw [List.length_append] at hroom
    have hfirst : out.HasRoom first.length := fun k hk => le_trans (by omega) (hroom k hk)
    obtain ⟨hdone, hwritten, hleft⟩ := hf.enough out hfirst
    rw [Output.hasRoom_add hleft hfirst] at hroom
    obtain ⟨hdone', hwritten', hleft'⟩ := hg.enough (f out).2 hroom
    rw [hnext out hdone]
    refine ⟨hdone', by rw [hwritten', hwritten, List.append_assoc], ?_⟩
    rw [hleft', hleft, Option.map_map, List.length_append]
    congr 1
    funext k
    exact Nat.sub_sub k _ _
  · rw [List.length_append] at hroom
    by_cases hfirst : out.HasRoom first.length
    · obtain ⟨hdone, -, hleft⟩ := hf.enough out hfirst
      rw [Output.hasRoom_add hleft hfirst] at hroom
      rw [hnext out hdone]
      exact hg.gone _ hroom
    · have hgone := hf.gone out hfirst
      have hstop : Outcome.andThen g (f out) = f out := by
        rcases hout : f out with ⟨outcome, out'⟩
        rw [hout] at hgone
        cases sigpipe with
        | terminate => rw [show outcome = .killed from hgone]; rfl
        | ignore => rw [show outcome = .failed from hgone]; rfl
      rw [hstop, hgone]

end Stream
