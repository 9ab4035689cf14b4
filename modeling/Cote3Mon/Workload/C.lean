import Cote3Mon.Gateway.Client
import Cote3Mon.Optee.Client
import Cote3Mon.Workload.Traffic

namespace Cote3Mon.Workload.C
open ByteText Stream Protocol Protocol.C Gateway

-- `client/workload.c` as a machine that takes one step for each reading of the clock.

structure Arguments where
  scenario : Bytes
  socketPath : Bytes
  /-- The nanoseconds until the deadline. -/
  durationNs : UInt64
  seed : UInt32

/-- `strtod` and the product with 10^9; there is nothing for a duration that is not positive. -/
abbrev Strtod := Bytes → Option UInt64

def usage (argv : List Bytes) : Exit :=
  ⟨2, [], asciiBytes "usage: " ++ argv.headD [] ++
    asciiBytes " SCENARIO [--socket PATH] [--duration SECONDS] [--seed N]\n"⟩

/-- The options in turn; a duration that is not positive is only seen behind the last one. -/
def parseOptions (strtod : Strtod) (socketPath : Bytes) (durationNs : Option UInt64)
    (seed : UInt32) :
    List Bytes → Except Exit (Bytes × Option UInt64 × UInt32)
  | [] => .ok (socketPath, durationNs, seed)
  | option :: argument :: rest =>
    if option = asciiBytes "--socket" then parseOptions strtod argument durationNs seed rest
    else if option = asciiBytes "--duration" then
      parseOptions strtod socketPath (strtod argument) seed rest
    else if option = asciiBytes "--seed" then
      parseOptions strtod socketPath durationNs (UInt32.ofNat (Optee.strtoull argument).value) rest
    else .error (complain 2 "invalid argument\n")
  | [_] => .error (complain 2 "invalid argument\n")

def parseArguments (strtod : Strtod) (argv : List Bytes) : Except Exit Arguments :=
  match argv with
  | _ :: scenario :: options => do
    let (socketPath, durationNs, seed) ← parseOptions strtod
      (asciiBytes "/run/cote3-mon/gateway.sock") (some 60000000000) 42 options
    match durationNs with
    | none => .error ⟨2, [], []⟩
    | some durationNs => return ⟨scenario, socketPath, durationNs, seed⟩
  | _ => .error (usage argv)

def randomU32 (state : UInt32) : UInt32 :=
  let value := state ^^^ (state <<< 13)
  let value := value ^^^ (value >>> 17)
  value ^^^ (value <<< 5)

/-- `"key-%02u"`. -/
def keyText (n : ℕ) : Bytes :=
  asciiBytes "key-" ++ (if n < 10 then [48] else []) ++ (decimal n).map UInt8.ofNat

def fillRequest (id : UInt64) (operation : UInt16) (keyNumber : UInt32) (valueSize : ℕ)
    (fill : UInt8) : Request :=
  let key := keyText (keyNumber % 32).toNat
  ⟨id, operation, UInt32.ofNat key.length, UInt32.ofNat valueSize, key,
    List.replicate valueSize fill⟩

/-- `memcpy(request.key, key, ...)` with the new length. -/
def withKey (request : Request) (key : Bytes) : Request :=
  { request with keyLen := UInt32.ofNat key.length, key := key }

/-- What is written on a connection: a request, or the two parts of `malformed`. -/
inductive Sending where
  | request (r : Request)
  | malformed
  deriving DecidableEq

def malformedHeader (order : ByteOrder) : Bytes :=
  putU32 order c3mMagic ++ putU16 order c3mVersion ++ putU16 order c3mOpPut ++
    List.replicate 8 0 ++ putU32 order 1 ++ putU32 order (c3mMaxValueBytes + 1)

def sending (s : Scenario) (requestId : UInt64) (random : UInt32) : Sending :=
  match s with
  | .steady =>
    let operation := if requestId % 4 = 0 then c3mOpDelete
      else if requestId % 4 = 1 then c3mOpPut else c3mOpGet
    .request (fillRequest requestId operation random (if operation = c3mOpPut then 64 else 0) 0x53)
  | .bursty => .request (fillRequest requestId c3mOpPut random 96 0x42)
  | .largeValue => .request (fillRequest requestId c3mOpPut random 3072 0x4c)
  | .flood => .request (fillRequest requestId c3mOpPut random 32 0x46)
  | .malformed => .malformed
  | .errorStorm => .request (withKey (fillRequest requestId c3mOpGet 31 0 0) neverCreated)
  | .replay => .request (withKey (fillRequest requestId c3mOpPut 0 128 0x52) replayedKey)

/-- How a connection goes: whether it is made, how the writes are answered, and how much the
gateway takes before it has closed its end. -/
structure Link where
  connected : Bool
  answers : List Acceptance
  room : Option ℕ

/-- A connection that was tried; the outcome of the writes and what was written, once it is made. -/
structure Attempt where
  /-- The clock when it was read last. -/
  now : UInt64
  sending : Sending
  written : Option (Outcome × Bytes)

/-- `invoke` and `malformed`.  What is received after a request is ignored. -/
def transmit (order : ByteOrder) (link : Link) (sending : Sending) : Option (Outcome × Bytes) :=
  if link.connected then
    let (outcome, out) := match sending with
      | .request r => sendRequest order .terminate r ⟨link.answers, link.room, []⟩
      | .malformed => writeParts .terminate [malformedHeader order, asciiBytes "k"]
          ⟨link.answers, link.room, []⟩
    some (outcome, out.written)
  else none

/-- Where the process is when it reads the clock next, or how it has ended. -/
inductive Phase where
  | turn
  | burst (k : ℕ) (random : UInt32)
  | finished
  | unknownScenario
  | killed
  deriving DecidableEq

structure Generator where
  seed : UInt32
  requestId : UInt64
  phase : Phase

/-- A reading of the clock, and the connection that may follow. -/
structure Turn where
  now : UInt64
  link : Link

variable (order : ByteOrder)

/-- A connection; the loop goes on with `next`, unless a signal has ended the process. -/
def Generator.attempt (g : Generator) (t : Turn) (sending : Sending) (next : Phase) :
    List Attempt × Generator :=
  let written := transmit order t.link sending
  let killed := written.map Prod.fst = some .killed
  ([⟨t.now, sending, written⟩],
    { g with requestId := g.requestId + 1, phase := if killed then .killed else next })

def Generator.step (deadline : UInt64) (s : Option Scenario) (t : Turn) (g : Generator) :
    List Attempt × Generator :=
  match g.phase with
  | .turn =>
    if t.now < deadline then
      let random := randomU32 g.seed
      let g := { g with seed := random }
      match s with
      | none => ([], { g with phase := .unknownScenario })
      -- nothing is sent before the clock is read again
      | some .bursty => ([], { g with phase := .burst 0 random })
      | some s => g.attempt order t (sending s g.requestId random) .turn
    else ([], { g with phase := .finished })
  | .burst k random =>
    if t.now < deadline then
      g.attempt order t (sending .bursty g.requestId (random + UInt32.ofNat k))
        (if k + 1 < 8 then .burst (k + 1) random else .turn)
    else ([], { g with phase := .turn })
  | _ => ([], g)

def run (deadline : UInt64) (s : Option Scenario) : List Turn → Generator → List Attempt × Generator
  | [], g => ([], g)
  | t :: rest, g =>
    let (first, g) := g.step order deadline s t
    let (others, g) := run deadline s rest g
    (first ++ others, g)

def Scenario.ofName? (name : Bytes) : Option Scenario :=
  Scenario.all.find? fun s => asciiBytes s.name = name

/-- How the process has ended, with the exit of `main`; there is none while it runs, and for a
signal. -/
def Generator.exit (scenario : Bytes) (g : Generator) : Option Exit :=
  match g.phase with
  | .finished => some ⟨0, asciiBytes "sent " ++ (decimal (g.requestId - 1).toNat).map UInt8.ofNat ++
      asciiBytes " requests\n", []⟩
  | .unknownScenario => some ⟨2, [], asciiBytes "unknown scenario: " ++ scenario ++ [10]⟩
  | _ => none

/-- `main`: the first reading of the clock sets the deadline. -/
def main (strtod : Strtod) (argv : List Bytes) (start : UInt64) (turns : List Turn) :
    List Attempt × Option Exit :=
  match parseArguments strtod argv with
  | .error exit => ([], some exit)
  | .ok arguments =>
    let (attempts, g) := run order (start + arguments.durationNs)
      (Scenario.ofName? arguments.scenario) turns ⟨arguments.seed, 1, .turn⟩
    (attempts, g.exit arguments.scenario)

def Sending.Carries : Sending → Message → Prop
  | .request r, .request f => r = .ofFrame f
  | .malformed, .oversized requestId => requestId = 0
  | _, _ => False

theorem keyText_eq : ∀ n < 32, keyText n = poolKey n := by decide

theorem keyText_inPool (random : UInt32) : InPool (keyText (random % 32).toNat) := by
  have hlt : (random % 32).toNat < 32 := by
    rw [UInt32.toNat_mod]
    exact Nat.mod_lt _ (by decide)
  exact ⟨_, hlt, keyText_eq _ hlt⟩

theorem exists_frame (requestId : UInt64) (operation : Operation) (key value : Bytes)
    (hpos : 0 < key.length) (hkey : key.length ≤ maxKeyBytes) (hvalue : value.length ≤ maxValueBytes)
    (hput : operation ≠ .put → value = []) :
    ∃ f : RequestFrame, ⟨requestId, UInt16.ofNat operation.code, UInt32.ofNat key.length,
        UInt32.ofNat value.length, key, value⟩ = Request.ofFrame f ∧ f.requestId = requestId ∧
      f.operation = operation ∧ f.key = key ∧ f.value = value :=
  ⟨⟨requestId, operation, key, value, hpos, hkey, hvalue, hput⟩, rfl, rfl, rfl, rfl, rfl⟩

/-- A request of `fill_request` with a key of the pool. -/
theorem fillRequest_frame (requestId : UInt64) (operation : Operation) (random : UInt32) {size : ℕ}
    (fill : UInt8) (hsize : size ≤ maxValueBytes) (hput : operation ≠ .put → size = 0) :
    ∃ f : RequestFrame, fillRequest requestId (UInt16.ofNat operation.code) random size fill =
        .ofFrame f ∧ f.requestId = requestId ∧ f.operation = operation ∧ InPool f.key ∧
      f.value = List.replicate size fill := by
  have hpool := keyText_inPool random
  have hlength := hpool.length
  obtain ⟨f, hf, hid, hop, hkey, hvalue⟩ := exists_frame requestId operation
    (keyText (random % 32).toNat) (List.replicate size fill) (by omega)
    (by rw [hlength]; decide) (by rwa [List.length_replicate])
    (fun h => by rw [hput h, List.replicate_zero])
  refine ⟨f, ?_, hid, hop, hkey ▸ hpool, hvalue⟩
  rw [← hf, List.length_replicate]
  rfl

/-- Every turn of a scenario sends one of its messages. -/
theorem sending_sends (s : Scenario) (requestId : UInt64) (random : UInt32) :
    ∃ message, s.Sends message ∧ (sending s requestId random).Carries message ∧
      (s ≠ .malformed → message.requestId = requestId) := by
  cases s with
  | steady =>
    by_cases hdelete : requestId % 4 = 0
    · obtain ⟨f, hf, hid, hop, hpool, hvalue⟩ := fillRequest_frame requestId .delete random 0x53
        (Nat.zero_le _) fun _ => rfl
      refine ⟨.request f, ⟨hpool, fun hput => by cases hop.symm.trans hput⟩, ?_, fun _ => hid⟩
      rw [sending, if_pos hdelete]
      exact hf
    · by_cases hput : requestId % 4 = 1
      · obtain ⟨f, hf, hid, hop, hpool, hvalue⟩ := fillRequest_frame requestId .put random 0x53
          (show 64 ≤ maxValueBytes by decide) fun h => absurd rfl h
        refine ⟨.request f, ⟨hpool, fun _ => ?_⟩, ?_, fun _ => hid⟩
        · rw [hvalue, List.length_replicate]
        · rw [sending, if_neg hdelete, if_pos hput]
          exact hf
      · obtain ⟨f, hf, hid, hop, hpool, hvalue⟩ := fillRequest_frame requestId .get random 0x53
          (Nat.zero_le _) fun _ => rfl
        refine ⟨.request f, ⟨hpool, fun hput => by cases hop.symm.trans hput⟩, ?_, fun _ => hid⟩
        rw [sending, if_neg hdelete, if_neg hput]
        exact hf
  | bursty =>
    obtain ⟨f, hf, hid, hop, hpool, hvalue⟩ := fillRequest_frame requestId .put random 0x42
      (show 96 ≤ maxValueBytes by decide) fun h => absurd rfl h
    exact ⟨.request f, ⟨hop, hpool, by rw [hvalue, List.length_replicate]⟩, hf, fun _ => hid⟩
  | largeValue =>
    obtain ⟨f, hf, hid, hop, hpool, hvalue⟩ := fillRequest_frame requestId .put random 0x4c
      (show 3072 ≤ maxValueBytes by decide) fun h => absurd rfl h
    exact ⟨.request f, ⟨hop, hpool, by rw [hvalue, List.length_replicate]⟩, hf, fun _ => hid⟩
  | flood =>
    obtain ⟨f, hf, hid, hop, hpool, hvalue⟩ := fillRequest_frame requestId .put random 0x46
      (show 32 ≤ maxValueBytes by decide) fun h => absurd rfl h
    exact ⟨.request f, ⟨hop, hpool, hvalue⟩, hf, fun _ => hid⟩
  | malformed => exact ⟨.oversized 0, trivial, rfl, fun h => absurd rfl h⟩
  | errorStorm =>
    obtain ⟨f, hf, hid, hop, hkey, -⟩ := exists_frame requestId .get neverCreated []
      neverCreated_pos neverCreated_le (by decide) fun _ => rfl
    exact ⟨.request f, ⟨hop, hkey⟩, hf, fun _ => hid⟩
  | replay =>
    obtain ⟨f, hf, hid, hop, hkey, hvalue⟩ := exists_frame requestId .put replayedKey
      (List.replicate 128 0x52) (by decide) (by decide)
      (by rw [List.length_replicate]; decide) fun h => absurd rfl h
    exact ⟨.request f, ⟨hop, hkey, hvalue⟩, hf, fun _ => hid⟩

variable {order}

theorem malformedHeader_eq : malformedHeader order ++ asciiBytes "k" =
    (Message.oversized 0).bytes := by
  rw [malformedHeader, putU32_eq, putU16_eq, putU16_eq, putU32_eq, putU32_eq]
  rfl

/-- A connection that is made takes the whole message, or ends the process by a signal. -/
theorem transmit_carries (link : Link) {sending : Sending} {message : Message}
    (h : sending.Carries message) {outcome : Outcome} {bs : Bytes}
    (hwritten : transmit order link sending = some (outcome, bs)) :
    outcome = .done ∧ bs = message.bytes ∨ outcome = .killed := by
  have hwrites : ∃ write, Writes .terminate message.bytes write ∧
      (outcome, bs) = ((write ⟨link.answers, link.room, []⟩).1,
        (write ⟨link.answers, link.room, []⟩).2.written) := by
    unfold transmit at hwritten
    split_ifs at hwritten
    cases sending with
    | request r =>
      cases message with
      | request f =>
        rw [show r = .ofFrame f from h] at hwritten
        exact ⟨_, sendRequest_writes order .terminate f, (Option.some.inj hwritten).symm⟩
      | oversized requestId => exact h.elim
    | malformed =>
      cases message with
      | request f => exact h.elim
      | oversized requestId =>
        have hparts := writeParts_writes .terminate [malformedHeader order, asciiBytes "k"]
        rw [List.flatten_cons, List.flatten_singleton, malformedHeader_eq] at hparts
        rw [show requestId = 0 from h]
        exact ⟨_, hparts, (Option.some.inj hwritten).symm⟩
  obtain ⟨write, hwrite, hsame⟩ := hwrites
  obtain ⟨rfl, rfl⟩ := Prod.mk.inj hsame
  by_cases hroom : (⟨link.answers, link.room, []⟩ : Output).HasRoom message.bytes.length
  · obtain ⟨hdone, hbytes, -⟩ := hwrite.enough _ hroom
    exact Or.inl ⟨hdone, hbytes⟩
  · exact Or.inr (hwrite.gone _ hroom)

def Attempt.IsOf (a : Attempt) (s : Scenario) (requestId : UInt64) : Prop :=
  ∃ message, s.Sends message ∧ a.sending.Carries message ∧
    (s ≠ .malformed → message.requestId = requestId) ∧
    ∀ outcome bs, a.written = some (outcome, bs) →
      outcome = .done ∧ bs = message.bytes ∨ outcome = .killed

def Attempt.Killed (a : Attempt) : Prop := a.written.map Prod.fst = some .killed

instance (a : Attempt) : Decidable a.Killed := inferInstanceAs (Decidable (_ = _))

/-- What a step does: nothing is sent, or one message of the scenario before the deadline. -/
inductive Stepped (deadline : UInt64) (s : Scenario) (t : Turn) (g : Generator) :
    List Attempt × Generator → Prop where
  | silent {g'} : g'.requestId = g.requestId → (g'.phase = .killed ↔ g.phase = .killed) →
      Stepped deadline s t g ([], g')
  | sent {a g'} : a.now = t.now → t.now < deadline → a.IsOf s g.requestId → g.phase ≠ .killed →
      g'.requestId = g.requestId + 1 → (g'.phase = .killed ↔ a.Killed) →
      Stepped deadline s t g ([a], g')

theorem stepped_attempt {deadline : UInt64} {s : Scenario} {t : Turn} {g : Generator} {next : Phase}
    {random : UInt32} (hnow : t.now < deadline) (hphase : g.phase ≠ .killed)
    (hnext : next ≠ .killed) :
    Stepped deadline s t g (g.attempt order t (sending s g.requestId random) next) := by
  obtain ⟨message, hsends, hcarries, hid⟩ := sending_sends s g.requestId random
  refine .sent rfl hnow ⟨message, hsends, hcarries, hid, fun outcome bs hwritten =>
    transmit_carries t.link hcarries hwritten⟩ hphase rfl ?_
  dsimp only
  rw [ite_eq_left_iff]
  exact ⟨fun h => by_contra fun hnot => hnext (h hnot), fun h hnot => absurd h hnot⟩

theorem Stepped.ofSeed {deadline : UInt64} {s : Scenario} {t : Turn} {g : Generator} {seed : UInt32}
    {out : List Attempt × Generator} (h : Stepped deadline s t { g with seed := seed } out) :
    Stepped deadline s t g out := by
  cases h with
  | silent hid hphase => exact .silent hid hphase
  | sent htime hnow ha hg hid hphase => exact .sent htime hnow ha hg hid hphase

/-- The phases of a known scenario: only the bursty one is ever inside a burst. -/
def Phase.Of (s : Scenario) : Phase → Prop
  | .burst _ _ => s = .bursty
  | .unknownScenario => False
  | _ => True

/-- One reading of the clock. -/
theorem step_stepped (deadline : UInt64) {s : Scenario} (t : Turn) {g : Generator}
    (hg : g.phase.Of s) : Stepped deadline s t g (g.step order deadline (some s) t) := by
  unfold Generator.step
  have hsilent : g.phase ≠ .killed → ∀ (seed : UInt32) (phase : Phase), phase ≠ .killed →
      Stepped deadline s t g ([], { g with seed := seed, phase := phase }) :=
    fun hg seed phase hne => .silent rfl (iff_of_false hne hg)
  cases hphase : g.phase with
  | turn =>
    have hlive : g.phase ≠ .killed := by rw [hphase]; decide
    by_cases hnow : t.now < deadline
    · have hsent : ∀ random, Stepped deadline s t g (({ g with seed := random } : Generator).attempt
          order t (sending s g.requestId random) .turn) := fun random =>
        (stepped_attempt (g := { g with seed := random }) hnow hlive (by decide)).ofSeed
      simp only [if_pos hnow]
      cases s with
      | bursty => exact hsilent hlive _ _ (by simp)
      | steady => exact hsent _
      | largeValue => exact hsent _
      | flood => exact hsent _
      | malformed => exact hsent _
      | errorStorm => exact hsent _
      | replay => exact hsent _
    · simp only [if_neg hnow]
      exact hsilent hlive g.seed .finished (by decide)
  | burst k random =>
    have hlive : g.phase ≠ .killed := by rw [hphase]; simp
    by_cases hnow : t.now < deadline
    · simp only [if_pos hnow]
      rw [hphase] at hg
      rw [← show s = .bursty from hg]
      exact stepped_attempt hnow hlive (by split_ifs <;> simp)
    · simp only [if_neg hnow]
      exact hsilent hlive g.seed .turn (by decide)
  | finished => exact .silent rfl Iff.rfl
  | unknownScenario => exact .silent rfl Iff.rfl
  | killed => exact .silent rfl Iff.rfl

variable (order) in
theorem step_phase (deadline : UInt64) {s : Scenario} (t : Turn) {g : Generator}
    (hg : g.phase.Of s) : (g.step order deadline (some s) t).2.phase.Of s := by
  have hattempt : ∀ (g : Generator) (t : Turn) (sending : Sending) (next : Phase), next.Of s →
      (g.attempt order t sending next).2.phase.Of s := by
    intro g t sending next hnext
    dsimp only [Generator.attempt]
    split_ifs
    · trivial
    · exact hnext
  unfold Generator.step
  cases hphase : g.phase with
  | turn =>
    by_cases hnow : t.now < deadline
    · simp only [if_pos hnow]
      cases s with
      | bursty => exact rfl
      | steady => exact hattempt _ _ _ .turn trivial
      | largeValue => exact hattempt _ _ _ .turn trivial
      | flood => exact hattempt _ _ _ .turn trivial
      | malformed => exact hattempt _ _ _ .turn trivial
      | errorStorm => exact hattempt _ _ _ .turn trivial
      | replay => exact hattempt _ _ _ .turn trivial
    · simp only [if_neg hnow]
      trivial
  | burst k random =>
    rw [hphase] at hg
    by_cases hnow : t.now < deadline
    · simp only [if_pos hnow]
      apply hattempt
      split_ifs
      · exact hg
      · trivial
    · simp only [if_neg hnow]
      trivial
  | finished => exact hg
  | unknownScenario => exact hg
  | killed => exact hg

/-- What holds of the connections of a run. -/
structure Ran (deadline : UInt64) (s : Scenario) (turns : List Turn) (g : Generator)
    (out : List Attempt × Generator) : Prop where
  isOf : ∀ (i : ℕ) (a : Attempt), out.1[i]? = some a → a.IsOf s (g.requestId + UInt64.ofNat i)
  requestId : out.2.requestId = g.requestId + UInt64.ofNat out.1.length
  before : (out.1.map Attempt.now).Sublist ((turns.map Turn.now).filter (· < deadline))
  killed : out.2.phase = .killed ↔ g.phase = .killed ∨ ∃ a ∈ out.1, a.Killed
  phase : out.2.phase.Of s

theorem add_succ (x : UInt64) (i : ℕ) : x + 1 + UInt64.ofNat i = x + UInt64.ofNat (i + 1) := by
  rw [UInt64.ofNat_add, UInt64.add_assoc, UInt64.add_comm 1]
  rfl

theorem run_ran (deadline : UInt64) {s : Scenario} (turns : List Turn) {g : Generator}
    (hg : g.phase.Of s) : Ran deadline s turns g (run order deadline (some s) turns g) := by
  induction turns generalizing g with
  | nil =>
    refine ⟨fun i a h => by simp [run] at h, ?_, List.Sublist.slnil, ?_, hg⟩
    · exact (UInt64.add_zero _).symm
    · simp [run]
  | cons t rest ih =>
    have hstep : Stepped deadline s t g (g.step order deadline (some s) t) :=
      step_stepped deadline t hg
    have hrest := ih (step_phase order deadline t hg)
    rw [run]
    generalize g.step order deadline (some s) t = out at hstep hrest
    cases hstep with
    | @silent g' hid hphase =>
      refine ⟨fun i a h => ?_, ?_, ?_, ?_, hrest.phase⟩
      · rw [← hid]
        exact hrest.isOf i a h
      · rw [← hid]
        exact hrest.requestId
      · exact hrest.before.trans ((List.sublist_cons_self _ _).filter _)
      · rw [← hphase]
        exact hrest.killed
    | @sent a g' htime hnow ha hlive hid hphase =>
      refine ⟨fun i b h => ?_, ?_, ?_, ?_, hrest.phase⟩
      · cases i with
        | zero =>
          rw [← Option.some.inj (h : some a = some b)]
          exact (UInt64.add_zero g.requestId).symm ▸ ha
        | succ i =>
          have hb := hrest.isOf i b h
          rw [hid, add_succ] at hb
          exact hb
      · dsimp only
        rw [hrest.requestId, hid, add_succ]
        rfl
      · rw [List.map_cons, List.filter_cons_of_pos (by simpa using hnow), ← htime]
        exact hrest.before.cons_cons a.now
      · dsimp only
        rw [hrest.killed, hphase, List.singleton_append, List.exists_mem_cons_iff]
        exact ⟨Or.inr, fun h => h.resolve_left hlive⟩

/-- The four operations of the steady scenario, and a minute later the deadline. -/
def steadyTurns : List Turn :=
  [⟨0, true, [], none⟩, ⟨10000000, true, [], none⟩, ⟨20000000, false, [], none⟩,
    ⟨30000000, true, [], none⟩, ⟨60000000000, true, [], none⟩]

end Cote3Mon.Workload.C
