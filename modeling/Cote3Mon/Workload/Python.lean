import Cote3Mon.Collection.Experiments
import Cote3Mon.Gateway.Client
import Cote3Mon.Gateway.Interchange
import Cote3Mon.Workload.C

namespace Cote3Mon.Workload.Python
open ByteText Stream Protocol Cote3Mon.Python Protocol.Python Gateway.Python

-- `run_workload` of `cote3mon/workload.py` with `call` of `cote3mon/protocol.py`, beside the thread
-- of the Python gateway. The two take their steps in any order; a connection waits in the backlog
-- until the gateway accepts it.

/-- What the clock, `rng` and the machine have ready for the next step of the client. -/
structure Turn where
  /-- `time.monotonic()`. -/
  now : ℚ
  /-- `rng.randrange(32)`. -/
  draw : Fin 32
  randbytes : ℕ → Bytes
  randbytes_length : ∀ n, (randbytes n).length = n
  connected : Bool
  /-- How `sendall` is answered, and how much the gateway takes before it closes the connection. -/
  answers : List Acceptance
  room : Option ℕ

inductive Place where
  | turn
  | burst (k : ℕ) (key : Bytes)

inductive Phase where
  /-- The clock is read next. -/
  | reads (place : Place)
  /-- `call` waits for the response. -/
  | calls (next : Place)
  /-- `_malformed` waits until the connection is closed. -/
  | closes (next : Place)
  | returned
  | raised (e : Exc)

/-- The client, the connections that are not accepted yet, what was written on the last one that
was, and the gateway with whether its thread is alive. -/
structure System where
  requestId : ℕ
  phase : Phase
  backlog : List Bytes
  reply : Bytes
  gateway : MockGateway
  alive : Bool

def System.raise (e : Exc) (sys : System) : System := { sys with phase := .raised e }

/-- `client.sendall`. -/
def System.transmit (bs : Bytes) (t : Turn) (phase : Phase) (sys : System) : System :=
  match sendall bs ⟨t.answers, t.room, []⟩ with
  | (.ok _, output) => { sys with backlog := sys.backlog ++ [output.written], phase := phase }
  | (.error e, output) =>
    { sys with backlog := sys.backlog ++ [output.written], phase := .raised e }

/-- `call`, up to the response; the connection is made before the request is encoded. -/
def System.call (request : Request) (t : Turn) (next : Place) (sys : System) : System :=
  if t.connected then
    match request.encode with
    | .ok bs => sys.transmit bs t (.calls next)
    | .error e => System.raise e { sys with backlog := sys.backlog ++ [[]] }
  else sys.raise .osError

def malformedHeader (requestId : ℕ) : Except Exc Bytes :=
  structPack [(4, magic), (2, version), (2, Operation.put.code), (8, requestId), (4, 1),
    (4, maxValueBytes + 1)]

/-- `_malformed` with its header, up to `client.recv`. -/
def System.sendHeader (t : Turn) (next : Place) (sys : System) : Except Exc Bytes → System
  | .ok header =>
    if t.connected then sys.transmit (header ++ asciiBytes "k") t (.closes next)
    else sys.raise .osError
  | .error e => sys.raise e

def System.malformed (t : Turn) (next : Place) (sys : System) : System :=
  sys.sendHeader t next (malformedHeader sys.requestId)

/-- `(Operation.PUT, Operation.GET, Operation.GET, Operation.DELETE)[request_id % 4]`. -/
def steadyOperation (requestId : ℕ) : Operation :=
  match requestId % 4 with
  | 0 => .put
  | 3 => .delete
  | _ => .get

def request (s : Scenario) (requestId : ℕ) (key : Bytes) (t : Turn) : Request :=
  match s with
  | .steady =>
    let operation := steadyOperation requestId
    ⟨requestId, operation, key, if operation = .put then t.randbytes 64 else []⟩
  | .largeValue => ⟨requestId, .put, key, t.randbytes 3072⟩
  | .flood => ⟨requestId, .put, key, List.replicate 32 0x46⟩
  | .errorStorm => ⟨requestId, .get, neverCreated, []⟩
  | .replay => ⟨requestId, .put, replayedKey, List.replicate 128 0x52⟩
  | .bursty | .malformed => ⟨requestId, .put, key, t.randbytes 96⟩

/-- From one reading of the clock to the next point where the client waits. -/
def System.turn (before : ℚ → Bool) (s : Scenario) (t : Turn) (sys : System) : System :=
  match sys.phase with
  | .reads .turn =>
    if before t.now then
      let key := C.keyText t.draw
      match s with
      | .bursty => { sys with phase := .reads (.burst 0 key) }
      | .malformed => sys.malformed t .turn
      | _ => sys.call (request s sys.requestId key t) t .turn
    else { sys with phase := .returned }
  | .reads (.burst k key) =>
    if before t.now then
      sys.call (request .bursty sys.requestId key t) t
        (if k + 1 < 8 then .burst (k + 1) key else .turn)
    else { sys with phase := .reads .turn }
  | _ => sys

/-- What `client.recv` comes to. -/
inductive Answer where
  | received (channel : Gateway.Channel)
  /-- The time is over, or the connection was reset. -/
  | broken

/-- The client gets what it waits for; without that it goes on waiting. -/
def System.resume (answer : Answer) (sys : System) : System :=
  match sys.phase, answer with
  | .calls next, .received channel =>
    if sys.backlog = [] then
      match recvResponse (channel.deliver sys.reply) with
      | (.ok response, _) =>
        if response.requestId ≠ sys.requestId then
          sys.raise (.refused "gateway returned a mismatched request identifier")
        else { sys with requestId := sys.requestId + 1, phase := .reads next }
      | (.error e, _) => sys.raise e
    else sys
  | .calls _, .broken => sys.raise .osError
  | .closes next, .received _ =>
    if sys.backlog = [] then { sys with requestId := sys.requestId + 1, phase := .reads next }
      else sys
  | .closes next, .broken => { sys with requestId := sys.requestId + 1, phase := .reads next }
  | _, _ => sys

structure Service where
  channel : Gateway.Channel
  answers : List Acceptance
  /-- What a client takes that has raised. -/
  room : Option ℕ
  latencyNs : UInt64
  tsUnixNs : UInt64

def System.connection (sv : Service) (bs : Bytes) (sys : System) : Connection :=
  { input := sv.channel.deliver bs
    answers := sv.answers
    room := match sys.phase with
      | .raised _ => sv.room
      | _ => none
    latencyNs := sv.latencyNs.toNat
    tsUnixNs := sv.tsUnixNs.toNat }

inductive Move where
  | turn (t : Turn)
  | resume (answer : Answer)
  | serve (sv : Service)

variable (cfg : Config)

/-- The gateway accepts a connection and handles it. -/
def System.serve (sv : Service) (sys : System) : System :=
  match sys.backlog, sys.alive with
  | bs :: backlog, true =>
    let (result, gateway, output) := handle cfg (sys.connection sv bs) sys.gateway
    { sys with backlog := backlog, reply := output.written, gateway := gateway, alive :=
      result.isOk }
  | _, _ => sys

def System.step (before : ℚ → Bool) (s : Scenario) (sys : System) : Move → System
  | .turn t => sys.turn before s t
  | .resume answer => sys.resume answer
  | .serve sv => sys.serve cfg sv

def run (before : ℚ → Bool) (s : Scenario) : List Move → System → System
  | [], sys => sys
  | move :: moves, sys => run before s moves (sys.step cfg before s move)

def Scenario.ofName? (name : String) : Option Scenario := Scenario.all.find? fun s => s.name = name

/-- `run_workload` against a gateway, after some moves of both. -/
def runWorkload (scenario : String) (duration : PyFloat) (start : ℚ) (moves : List Move)
    (gateway : MockGateway) : Except Exc System :=
  match Scenario.ofName? scenario with
  | none => .error (.refused ("unknown scenario: " ++ scenario))
  | some s =>
    if Collection.notPositive duration then .error (.refused "duration_seconds must be positive")
    else .ok (run cfg (Collection.beforeDeadline start duration 0) s moves
      ⟨1, .reads .turn, [], [], gateway, true⟩)

/-- Message number `i` of the scenario. -/
def IsNth (s : Scenario) (i : ℕ) (message : Message) : Prop :=
  s.Sends message ∧ message.requestId.toNat = i + 1

/-- The telemetry of message number `i`. -/
def IsEvent (cfg : Config) (s : Scenario) (i : ℕ) (e : Event) : Prop :=
  ∃ message x c, IsNth s i message ∧ s.Expects message x ∧ c.tsUnixNs < 2 ^ 64 ∧
    c.latencyNs < 2 ^ 64 ∧ e = emit cfg c (handled cfg x)

def Phase.waits : Phase → Bool
  | .calls _ | .closes _ => true
  | _ => false

def Phase.place? : Phase → Option Place
  | .reads place | .calls place | .closes place => some place
  | _ => none

/-- The places of a scenario: only the bursty one is ever inside a burst. -/
def Place.Of (s : Scenario) : Place → Prop
  | .turn => True
  | .burst _ key => s = .bursty ∧ InPool key

/-- What holds while nothing was raised. -/
structure Going (cfg : Config) (s : Scenario) (sys : System) : Prop where
  alive : sys.alive = true
  stores : ∃ m, Stores sys.gateway.storage m ∧ m neverCreated = none
  events : ∀ i e, sys.gateway.events[i]? = some e → IsEvent cfg s i e
  backlog : ∀ i bs, sys.backlog[i]? = some bs →
    ∃ message, IsNth s (sys.gateway.events.length + i) message ∧ bs = message.bytes
  live : ∀ e, sys.phase ≠ .raised e
  place : ∀ place, sys.phase.place? = some place → place.Of s
  count : sys.requestId + sys.phase.waits.toNat =
    sys.gateway.events.length + sys.backlog.length + 1
  /-- Every scenario but one waits for the response before it goes on. -/
  synchronous : s ≠ .malformed → sys.backlog.length ≤ sys.phase.waits.toNat
  answered : ∀ next, sys.phase = .calls next → s ≠ .malformed ∧ (sys.backlog = [] →
    ∃ x : Gateway.Exchange, sys.reply = x.response.encode ∧ x.request.requestId.toNat =
      sys.requestId)
  closing : ∀ next, sys.phase = .closes next → s = .malformed

/-- Only the machine, or a request identifier of more than 64 bits, makes the client raise. -/
def Expected (sys : System) (e : Exc) : Prop :=
  e = .osError ∨ e = .structError ∧ 2 ^ 64 ≤ sys.requestId

def Fine (cfg : Config) (s : Scenario) (sys : System) : Prop :=
  Going cfg s sys ∨ ∃ e, sys.phase = .raised e ∧ Expected sys e

variable {cfg} {s : Scenario} {sys : System} {t : Turn} {next : Place}

theorem fine_raise {e : Exc} (h : Expected sys e) : Fine cfg s (sys.raise e) :=
  .inr ⟨e, rfl, h⟩

/-- A connection takes the whole message, or `sendall` raises. -/
theorem sendall_whole (bs : Bytes) (output : Output) : ∃ output',
    sendall bs output = (.ok (), output') ∧ output'.written = output.written ++ bs ∨
      sendall bs output = (.error .osError, output') := by
  have hwrites := Protocol.C.writeFull_writes .ignore bs
  -- the gateway takes it all, or has closed the connection before
  by_cases hroom : output.HasRoom bs.length
  · obtain ⟨hdone, hwritten, -⟩ := hwrites.enough output hroom
    refine ⟨_, .inl ⟨?_, hwritten⟩⟩
    rw [sendall, show Protocol.C.writeFull .ignore bs output = (.done, _) from Prod.ext hdone rfl]
  · have hfailed := hwrites.gone output hroom
    refine ⟨(Protocol.C.writeFull .ignore bs output).2, .inr ?_⟩
    rw [sendall, show Protocol.C.writeFull .ignore bs output = (.failed, _) from
      Prod.ext hfailed rfl]

/-- A message of the scenario joins the backlog, and the client waits. -/
theorem fine_transmit (h : Going cfg s sys) (hidle : sys.phase.waits = false) {message : Message}
    (hmessage : s.Sends message) (hid : message.requestId.toNat = sys.requestId) {phase : Phase}
    (hphase : s = .malformed ∧ phase = .closes next ∨ s ≠ .malformed ∧ phase = .calls next)
    (hnext : next.Of s) : Fine cfg s (sys.transmit message.bytes t phase) := by
  have hwaits : phase.waits = true := by
    rcases hphase with ⟨-, rfl⟩ | ⟨-, rfl⟩ <;> rfl
  have hcount := h.count
  rw [hidle, Bool.toNat_false, Nat.add_zero] at hcount
  obtain ⟨output, ⟨hsend, hwritten⟩ | hsend⟩ :=
    sendall_whole message.bytes ⟨t.answers, t.room, []⟩
  · rw [System.transmit, hsend]
    dsimp only
    rw [hwritten, List.nil_append]
    refine .inl ⟨h.alive, h.stores, h.events, fun i bs hbs => ?_, fun e he => ?_,
      fun place hplace => ?_, ?_, fun hs => ?_, fun place hplace => ?_, fun place hplace => ?_⟩
    · rw [List.getElem?_append] at hbs
      split_ifs at hbs with hi
      · exact h.backlog i bs hbs
      · have hlast : i = sys.backlog.length := by
          have hlt := (List.getElem?_eq_some_iff.mp hbs).1
          rw [List.length_singleton] at hlt
          omega
        rw [hlast, Nat.sub_self] at hbs
        refine ⟨message, ⟨hmessage, ?_⟩, (Option.some.inj hbs).symm⟩
        rw [hid, hlast]
        exact hcount
    · rw [show phase = .raised e from he] at hwaits
      cases hwaits
    · have hsame : phase.place? = some next := by
        rcases hphase with ⟨-, rfl⟩ | ⟨-, rfl⟩ <;> rfl
      rw [← Option.some.inj (hsame.symm.trans hplace)]
      exact hnext
    · dsimp only
      rw [hwaits, List.length_append, List.length_singleton, Bool.toNat_true]
      omega
    · have hempty := h.synchronous hs
      rw [hidle] at hempty
      dsimp only
      rw [hwaits, List.length_append]
      exact Nat.succ_le_succ hempty
    · rcases hphase with ⟨-, rfl⟩ | ⟨hs, -⟩
      · cases hplace
      · exact ⟨hs, fun hnil => absurd hnil (by simp)⟩
    · rcases hphase with ⟨hs, -⟩ | ⟨-, rfl⟩
      · exact hs
      · cases hplace
  · rw [System.transmit, hsend]
    exact .inr ⟨.osError, rfl, .inl rfl⟩

/-- A request that is within the bounds is encoded, up to an identifier of 64 bits. -/
theorem encode_cases {q : Request} {requestId : ℕ} (hid : q.requestId = requestId)
    (hvalid : validateRequest q.operation q.key q.value = .ok ()) :
    (∃ f, q = .ofFrame f ∧ f.requestId.toNat = requestId ∧ q.encode = .ok f.encode) ∨
      2 ^ 64 ≤ requestId ∧ q.encode = .error .structError := by
  by_cases hlt : requestId < 2 ^ 64
  · obtain ⟨f, rfl⟩ := Request.exists_ofFrame hvalid (by rw [hid]; omega)
    exact .inl ⟨f, rfl, Int.ofNat.inj hid, Request.encode_ofFrame f⟩
  · refine .inr ⟨not_lt.mp hlt, ?_⟩
    have hpack : structPack [(4, magic), (2, version), (2, q.operation.code), (8, q.requestId),
        (4, q.key.length), (4, q.value.length)] = .error .structError := by
      apply if_neg
      intro h
      have hfits : q.requestId < 256 ^ 8 := (h (8, q.requestId) (by simp)).2
      rw [hid] at hfits
      omega
    rw [Request.encode, hvalid, ok_bind, hpack]
    rfl

/-- The requests of a scenario. -/
theorem request_sends (hs : s ≠ .malformed) {key : Bytes} (hkey : InPool key) (requestId : ℕ)
    (t : Turn) :
    validateRequest (request s requestId key t).operation (request s requestId key t).key
        (request s requestId key t).value = .ok () ∧
      ∀ f, request s requestId key t = .ofFrame f → s.Sends (.request f) := by
  have hlength := hkey.length
  have hpool : 0 < key.length ∧ key.length ≤ maxKeyBytes := by
    rw [hlength]
    decide
  have hparts : ∀ {operation key value} {f : RequestFrame},
      (⟨requestId, operation, key, value⟩ : Request) = .ofFrame f →
        f.operation = operation ∧ f.key = key ∧ f.value = value := fun h =>
    ⟨congrArg Request.operation h.symm, congrArg Request.key h.symm, congrArg Request.value h.symm⟩
  cases s with
  | malformed => exact absurd rfl hs
  | steady =>
    constructor
    · refine validateRequest_ok.mpr ⟨hpool.1, hpool.2, ?_, fun hput => if_neg hput⟩
      dsimp only [request]
      split_ifs
      · rw [t.randbytes_length]
        decide
      · exact Nat.zero_le _
    · intro f hf
      obtain ⟨hop, hk, hvalue⟩ := hparts hf
      refine ⟨hk ▸ hkey, fun hput => ?_⟩
      rw [hvalue, if_pos (hop.symm.trans hput), t.randbytes_length]
  | bursty =>
    constructor
    · refine validateRequest_ok.mpr ⟨hpool.1, hpool.2, ?_, fun hput => absurd rfl hput⟩
      exact (t.randbytes_length 96).trans_le (by decide)
    · intro f hf
      obtain ⟨hop, hk, hvalue⟩ := hparts hf
      exact ⟨hop, hk ▸ hkey, hvalue ▸ t.randbytes_length 96⟩
  | largeValue =>
    constructor
    · refine validateRequest_ok.mpr ⟨hpool.1, hpool.2, ?_, fun hput => absurd rfl hput⟩
      exact (t.randbytes_length 3072).trans_le (by decide)
    · intro f hf
      obtain ⟨hop, hk, hvalue⟩ := hparts hf
      exact ⟨hop, hk ▸ hkey, hvalue ▸ t.randbytes_length 3072⟩
  | flood =>
    constructor
    · refine validateRequest_ok.mpr ⟨hpool.1, hpool.2, ?_, fun hput => absurd rfl hput⟩
      exact (List.length_replicate (n := 32)).trans_le (by decide)
    · intro f hf
      obtain ⟨hop, hk, hvalue⟩ := hparts hf
      exact ⟨hop, hk ▸ hkey, hvalue⟩
  | errorStorm =>
    constructor
    · exact validateRequest_ok.mpr ⟨neverCreated_pos, neverCreated_le, Nat.zero_le _, fun _ => rfl⟩
    · intro f hf
      obtain ⟨hop, hk, -⟩ := hparts hf
      exact ⟨hop, hk⟩
  | replay =>
    constructor
    · have hlength : 0 < replayedKey.length ∧ replayedKey.length ≤ maxKeyBytes := by decide
      refine validateRequest_ok.mpr ⟨hlength.1, hlength.2, ?_, fun hput => absurd rfl hput⟩
      exact (List.length_replicate (n := 128)).trans_le (by decide)
    · intro f hf
      exact hparts hf

theorem request_id (s : Scenario) (requestId : ℕ) (key : Bytes) (t : Turn) :
    (request s requestId key t).requestId = requestId := by
  cases s <;> rfl

/-- `call` up to the response. -/
theorem fine_call (h : Going cfg s sys) (hidle : sys.phase.waits = false) (hs : s ≠ .malformed)
    {key : Bytes} (hkey : InPool key) (hnext : next.Of s) :
    Fine cfg s (sys.call (request s sys.requestId key t) t next) := by
  obtain ⟨hvalid, hsends⟩ := request_sends hs hkey sys.requestId t
  unfold System.call
  split_ifs
  · rcases encode_cases (request_id s sys.requestId key t) hvalid with ⟨f, hf, hid, hencode⟩ |
      ⟨hlarge, hencode⟩
    · rw [hencode]
      exact fine_transmit h hidle (hsends f hf) hid (.inr ⟨hs, rfl⟩) hnext
    · rw [hencode]
      exact fine_raise (.inr ⟨rfl, hlarge⟩)
  · exact fine_raise (.inl rfl)

theorem malformedHeader_ok {requestId : ℕ} (hlt : requestId < 2 ^ 64) :
    ∃ id : UInt64, id.toNat = requestId ∧ malformedHeader requestId =
        .ok (pack (oversizedHeader id)) := by
  have hid : (UInt64.ofNat requestId).toNat = requestId := UInt64.toNat_ofNat_of_lt' hlt
  have hfits : ∀ field ∈ oversizedHeader (UInt64.ofNat requestId), field.2 < 256 ^ field.1 := by
    have hlt : (UInt64.ofNat requestId).toNat < 256 ^ 8 := UInt64.toNat_lt _
    simp only [oversizedHeader, List.mem_cons, List.not_mem_nil, or_false, forall_eq_or_imp,
      forall_eq]
    exact ⟨by decide, by decide, by decide, hlt, by decide, by decide⟩
  refine ⟨UInt64.ofNat requestId, hid, ?_⟩
  rw [← structPack_ok hfits, malformedHeader]
  congr 1
  simp [oversizedHeader, hid]

theorem malformedHeader_error {requestId : ℕ} (hle : 2 ^ 64 ≤ requestId) :
    malformedHeader requestId = .error .structError := by
  rw [malformedHeader, structPack, if_neg]
  intro h
  have hfits := (h (8, (requestId : ℤ)) (by simp)).2
  dsimp only at hfits
  omega

/-- `_malformed` up to `client.recv`. -/
theorem fine_malformed (h : Going cfg .malformed sys) (hidle : sys.phase.waits = false)
    (hnext : next.Of .malformed) : Fine cfg .malformed (sys.malformed t next) := by
  unfold System.malformed
  by_cases hlt : sys.requestId < 2 ^ 64
  · obtain ⟨id, hid, hheader⟩ := malformedHeader_ok hlt
    rw [hheader, System.sendHeader]
    split_ifs
    · exact fine_transmit h hidle (show Scenario.malformed.Sends (.oversized id) from trivial) hid
        (.inl ⟨rfl, rfl⟩) hnext
    · exact fine_raise (.inl rfl)
  · rw [malformedHeader_error (not_lt.mp hlt)]
    exact fine_raise (.inr ⟨rfl, not_lt.mp hlt⟩)

theorem fine_turn (h : Going cfg s sys) (before : ℚ → Bool) :
    Fine cfg s (sys.turn before s t) := by
  have hkey : InPool (C.keyText t.draw) := ⟨t.draw, t.draw.isLt, C.keyText_eq _ t.draw.isLt⟩
  -- a step that sends nothing leaves the counts as they are
  have hsilent : ∀ phase : Phase, sys.phase.waits = false → phase.waits = false →
      (∀ e, phase ≠ .raised e) → (∀ place, phase.place? = some place → place.Of s) →
      Fine cfg s { sys with phase := phase } := by
    intro phase hidle hwaits hlive hplace
    have hcount := h.count
    have hsync := h.synchronous
    rw [hidle, ← hwaits] at hcount hsync
    refine .inl ⟨h.alive, h.stores, h.events, h.backlog, hlive, hplace, hcount, hsync,
      fun place hcalls => ?_, fun place hcloses => ?_⟩
    · rw [show phase = .calls place from hcalls] at hwaits
      cases hwaits
    · rw [show phase = .closes place from hcloses] at hwaits
      cases hwaits
  unfold System.turn
  split
  · rename_i hphase
    have hidle : sys.phase.waits = false := by rw [hphase]; rfl
    split_ifs
    · dsimp only
      split
      · refine hsilent _ hidle rfl (fun e he => by cases he) fun place hplace => ?_
        obtain rfl := Option.some.inj hplace
        exact ⟨rfl, hkey⟩
      · exact fine_malformed h hidle trivial
      · rename_i hother
        exact fine_call h hidle (fun hs => hother hs) hkey trivial
    · exact hsilent _ hidle rfl (fun e he => by cases he) fun place hplace => by cases hplace
  · rename_i k key hphase
    have hidle : sys.phase.waits = false := by rw [hphase]; rfl
    obtain ⟨rfl, hpool⟩ := h.place (.burst k key) (by rw [hphase]; rfl)
    split_ifs
    · exact fine_call h hidle (by decide) hpool ⟨rfl, hpool⟩
    · exact fine_call h hidle (by decide) hpool trivial
    · refine hsilent _ hidle rfl (fun e he => by cases he) fun place hplace => ?_
      obtain rfl := Option.some.inj hplace
      trivial
  · exact .inl h

/-- The client goes on with its loop. -/
theorem going_next (h : Going cfg s sys) (hplace : sys.phase.place? = some next)
    (hwaits : sys.phase.waits = true) (hbacklog : s ≠ .malformed → sys.backlog = []) :
    Going cfg s { sys with requestId := sys.requestId + 1, phase := .reads next } := by
  have hcount := h.count
  rw [hwaits] at hcount
  refine ⟨h.alive, h.stores, h.events, h.backlog, fun e he => (by cases he), fun place hsome => ?_,
    hcount, fun hs => ?_, fun place hcalls => (by cases hcalls), fun place hcloses =>
      (by cases hcloses)⟩
  · rw [← Option.some.inj hsome]
    exact h.place next hplace
  · dsimp only
    rw [hbacklog hs]
    exact Nat.zero_le _

/-- The response that the gateway has written is the one that `call` waits for. -/
theorem resume_answered (h : Going cfg s sys) (hphase : sys.phase = .calls next)
    (hbacklog : sys.backlog = []) (channel : Gateway.Channel) :
    sys.resume (.received channel) =
      { sys with requestId := sys.requestId + 1, phase := .reads next } := by
  obtain ⟨-, hanswered⟩ := h.answered next hphase
  obtain ⟨x, hreply, hid⟩ := hanswered hbacklog
  have hbytes : (channel.deliver sys.reply).bytes = x.response.encode ++ [] := by
    rw [channel.deliver_bytes, hreply, List.append_nil]
  obtain ⟨rest, hrecv, -⟩ := recvResponse_encode hbytes
  have hsame : (Response.ofFrame x.response).requestId = sys.requestId := congrArg Nat.cast hid
  unfold System.resume
  rw [hphase]
  dsimp only
  rw [if_pos hbacklog, hrecv]
  dsimp only
  rw [if_neg (not_not.mpr hsame)]

theorem fine_resume (h : Going cfg s sys) (answer : Answer) : Fine cfg s (sys.resume answer) := by
  cases hphase : sys.phase with
  | calls next =>
    cases answer with
    | received channel =>
      by_cases hbacklog : sys.backlog = []
      · rw [resume_answered h hphase hbacklog]
        exact .inl (going_next h (by rw [hphase]; rfl) (by rw [hphase]; rfl) fun _ => hbacklog)
      · unfold System.resume
        rw [hphase]
        dsimp only
        rw [if_neg hbacklog]
        exact .inl h
    | broken =>
      unfold System.resume
      rw [hphase]
      exact fine_raise (.inl rfl)
  | closes next =>
    have hgone : Fine cfg s { sys with requestId := sys.requestId + 1, phase := .reads next } :=
      .inl (going_next h (by rw [hphase]; rfl) (by rw [hphase]; rfl) fun hs =>
        absurd (h.closing next hphase) hs)
    cases answer with
    | received channel =>
      unfold System.resume
      rw [hphase]
      dsimp only
      split_ifs
      · exact hgone
      · exact .inl h
    | broken =>
      unfold System.resume
      rw [hphase]
      exact hgone
  | reads place =>
    unfold System.resume
    rw [hphase]
    exact .inl h
  | returned =>
    unfold System.resume
    rw [hphase]
    exact .inl h
  | raised e => exact absurd hphase (h.live e)

/-- The gateway accepts the next connection of the backlog. -/
theorem fine_serve (h : Going cfg s sys) (sv : Service) : Fine cfg s (sys.serve cfg sv) := by
  unfold System.serve
  cases hbacklog : sys.backlog with
  | nil => exact .inl h
  | cons bs rest =>
    obtain ⟨message, ⟨hsends, hid⟩, rfl⟩ := h.backlog 0 bs (by rw [hbacklog]; rfl)
    obtain ⟨m, hstores, hmissing⟩ := h.stores
    have hroom : (sys.connection sv message.bytes).room = none := by
      unfold System.connection
      cases hphase : sys.phase with
      | raised e => exact absurd hphase (h.live e)
      | _ => rfl
    obtain ⟨storage, output, hleft, hhandle, hwritten⟩ :=
      handle_exchange cfg List.not_mem_nil hroom hstores
    rw [show (sys.connection sv message.bytes).input.bytes = message.bytes from
      sv.channel.deliver_bytes _] at hleft hhandle hwritten
    obtain ⟨hexpects, hmissing⟩ := exchange_expects hsends hmissing List.not_mem_nil
    have hcount := h.count
    rw [hbacklog, List.length_cons] at hcount
    rw [h.alive]
    dsimp only
    rw [hhandle]
    refine .inl ⟨rfl, ⟨_, hleft, hmissing⟩, fun i e he => ?_, fun i bs hbs => ?_, h.live,
      h.place, ?_, fun hs => ?_, fun next hcalls => ?_, h.closing⟩
    · rw [List.getElem?_append] at he
      split_ifs at he with hi
      · exact h.events i e he
      · have hlast : i = sys.gateway.events.length := by
          have hlt := (List.getElem?_eq_some_iff.mp he).1
          rw [List.length_singleton] at hlt
          omega
        rw [hlast, Nat.sub_self] at he
        refine ⟨message, _, sys.connection sv message.bytes, ⟨hsends, ?_⟩, hexpects,
          sv.tsUnixNs.toNat_lt, sv.latencyNs.toNat_lt, (Option.some.inj he).symm⟩
        rw [hid, hlast, Nat.add_zero]
    · obtain ⟨next, ⟨hnext, hnextId⟩, hbytes⟩ := h.backlog (i + 1) bs (by rw [hbacklog]; exact hbs)
      refine ⟨next, ⟨hnext, ?_⟩, hbytes⟩
      rw [hnextId, List.length_append, List.length_singleton]
      omega
    · dsimp only
      rw [List.length_append, List.length_singleton]
      omega
    · have hsync := h.synchronous hs
      rw [hbacklog, List.length_cons] at hsync
      dsimp only
      omega
    · obtain ⟨hs, -⟩ := h.answered next hcalls
      refine ⟨hs, fun hrest => ?_⟩
      dsimp only at hrest hcalls
      rw [hcalls, hrest] at hcount
      cases message with
      | request f =>
        obtain ⟨x, hx, rfl, -⟩ := hexpects
        rw [hx] at hwritten
        refine ⟨x, hwritten, ?_⟩
        change x.request.requestId.toNat = sys.gateway.events.length + 0 + 1 at hid
        change sys.requestId + 1 = sys.gateway.events.length + (0 + 1) + 1 at hcount
        dsimp only
        omega
      | oversized requestId =>
        cases s with
        | malformed => exact absurd rfl hs
        | _ => exact hsends.elim

theorem serve_phase (sv : Service) (sys : System) : (sys.serve cfg sv).phase = sys.phase := by
  unfold System.serve
  split <;> rfl

theorem serve_requestId (sv : Service) (sys : System) :
    (sys.serve cfg sv).requestId = sys.requestId := by
  unfold System.serve
  split <;> rfl

/-- Nothing happens to a client that has raised. -/
theorem raised_step (cfg : Config) (s : Scenario) {e : Exc} (h : sys.phase = .raised e)
    (before : ℚ → Bool) (move : Move) :
    (sys.step cfg before s move).phase = .raised e ∧
      (sys.step cfg before s move).requestId = sys.requestId := by
  cases move with
  | turn t =>
    have hsame : sys.turn before s t = sys := by
      unfold System.turn
      rw [h]
    exact ⟨(congrArg System.phase hsame).trans h, congrArg System.requestId hsame⟩
  | resume answer =>
    have hsame : sys.resume answer = sys := by
      unfold System.resume
      rw [h]
    exact ⟨(congrArg System.phase hsame).trans h, congrArg System.requestId hsame⟩
  | serve sv => exact ⟨(serve_phase sv sys).trans h, serve_requestId sv sys⟩

theorem fine_step (h : Fine cfg s sys) (before : ℚ → Bool) (move : Move) :
    Fine cfg s (sys.step cfg before s move) := by
  rcases h with h | ⟨e, hraised, hexpected⟩
  · cases move with
    | turn t => exact fine_turn h before
    | resume answer => exact fine_resume h answer
    | serve sv => exact fine_serve h sv
  · obtain ⟨hphase, hid⟩ := raised_step cfg s hraised before move
    refine .inr ⟨e, hphase, ?_⟩
    unfold Expected
    rw [hid]
    exact hexpected

theorem fine_run (before : ℚ → Bool) (moves : List Move) (h : Fine cfg s sys) :
    Fine cfg s (run cfg before s moves sys) := by
  induction moves generalizing sys with
  | nil => exact h
  | cons move moves ih => exact ih (fine_step h before move)

/-- A call that waits goes on when the gateway has served the backlog and the response arrives. -/
theorem serve_resume (h : Going cfg s sys) (hphase : sys.phase = .calls next) (sv : Service)
    (channel : Gateway.Channel) :
    ((sys.serve cfg sv).resume (.received channel)).phase = .reads next := by
  have hserved : (sys.serve cfg sv).phase = .calls next := (serve_phase sv sys).trans hphase
  have hgoing : Going cfg s (sys.serve cfg sv) := by
    rcases fine_serve h sv with hgoing | ⟨e, hraised, -⟩
    · exact hgoing
    · rw [hserved] at hraised
      cases hraised
  have hbacklog : (sys.serve cfg sv).backlog = [] := by
    have hsync := h.synchronous (h.answered next hphase).1
    rw [hphase] at hsync
    unfold System.serve
    cases hlist : sys.backlog with
    | nil => exact hlist
    | cons bs rest =>
      rw [hlist] at hsync
      have hlength : rest.length + 1 ≤ 1 := hsync
      have hrest : rest = [] := List.eq_nil_of_length_eq_zero (by omega)
      rw [h.alive]
      exact hrest
  rw [resume_answered hgoing hserved hbacklog]

theorem fine_runWorkload {scenario : String} {duration : PyFloat} {start : ℚ} {moves : List Move}
    (hrun : runWorkload cfg scenario duration start moves .initial = .ok sys) :
    ∃ s, Scenario.ofName? scenario = some s ∧ Fine cfg s sys := by
  unfold runWorkload at hrun
  split at hrun
  · cases hrun
  · rename_i s hscenario
    split_ifs at hrun
    obtain rfl := Except.ok.inj hrun
    have hstart : Going cfg s ⟨1, .reads .turn, [], [], .initial, true⟩ := by
      refine ⟨rfl, ⟨Gateway.noKeys, stores_empty, rfl⟩, fun i e he => (by cases he),
        fun i bs hbs => (by cases hbs), fun e he => (by cases he), fun place hplace => ?_, rfl,
        fun _ => Nat.zero_le _, fun place hcalls => (by cases hcalls),
        fun place hcloses => (by cases hcloses)⟩
      rw [← Option.some.inj hplace]
      trivial
    exact ⟨s, hscenario, fine_run (Collection.beforeDeadline start duration 0) moves (.inl hstart)⟩

/-- What has returned has an event for every request. -/
theorem Going.returned (h : Going cfg s sys) (hreturned : sys.phase = .returned)
    (hs : s ≠ .malformed) :
    sys.requestId = sys.gateway.events.length + 1 := by
  have hsync := h.synchronous hs
  have hcount := h.count
  rw [hreturned] at hsync hcount
  rw [Nat.le_zero.mp hsync] at hcount
  exact hcount

def easyTurn (now : ℚ) : Move :=
  .turn ⟨now, 0, fun n => List.replicate n 0, fun _ => List.length_replicate, true, [], none⟩

/-- A message that is answered in a second of its own, a millisecond after it came. -/
def messageMoves (second : ℕ) : List Move :=
  [easyTurn (Rat.ofInt 0),
    .serve ⟨Gateway.directChannel, [], none, 1000000, UInt64.ofNat (second * 1000000000)⟩,
    .resume (.received Gateway.directChannel)]

/-- So many messages, and a clock that is past the deadline. -/
def easyMoves (messages : ℕ) : List Move :=
  (List.range messages).flatMap messageMoves ++ [easyTurn (Rat.ofInt 60)]

end Cote3Mon.Workload.Python
