import Cote3Mon.Crypto
import Cote3Mon.Gateway.Contract

namespace Cote3Mon.Gateway
open ByteText Stream Protocol Protocol.C

-- `client/client.c`: each process makes one request. Whatever the arguments are and however the
-- bytes travel, a session with the gateway reads like one with a map.

/-- The exit code, and what the process has printed. -/
structure Exit where
  code : ℕ
  stdout : Bytes
  stderr : Bytes
  deriving DecidableEq

def complain (code : ℕ) (message : String) : Exit := ⟨code, [], asciiBytes message⟩

/-- What `main` takes from the command line. -/
structure Command where
  socketPath : Bytes
  operation : Operation
  key : Bytes
  value : Bytes

def socketArgument : List Bytes → Bytes × List Bytes
  | _ :: flag :: path :: argument :: rest =>
    if flag = asciiBytes "--socket" then (path, argument :: rest)
    else (asciiBytes "/run/cote3-mon/gateway.sock", flag :: path :: argument :: rest)
  | argv => (asciiBytes "/run/cote3-mon/gateway.sock", argv.tail)

def usage (argv : List Bytes) : Exit :=
  ⟨2, [], asciiBytes "usage: " ++ argv.headD [] ++
    asciiBytes " [--socket PATH] put|get|delete KEY [VALUE]\n"⟩

def parseCommand (argv : List Bytes) : Except Exit Command :=
  let (socketPath, arguments) := socketArgument argv
  match arguments with
  | operationName :: key :: rest =>
    if operationName = asciiBytes "put" then
      match rest with
      | value :: _ => .ok ⟨socketPath, .put, key, value⟩
      | [] => .error (complain 2 "put requires VALUE\n")
    else if operationName = asciiBytes "get" then .ok ⟨socketPath, .get, key, []⟩
    else if operationName = asciiBytes "delete" then .ok ⟨socketPath, .delete, key, []⟩
    else .error (complain 2 "unknown operation\n")
  | _ => .error (usage argv)

def Command.request (requestId : UInt64) (command : Command) : Except Exit Request :=
  let keyLen := UInt32.ofNat command.key.length
  let valueLen := UInt32.ofNat command.value.length
  if keyLen = 0 ∨ c3mMaxKeyBytes < keyLen ∨ c3mMaxValueBytes < valueLen then
    .error (complain 2 "key or value outside protocol bounds\n")
  else .ok ⟨requestId, UInt16.ofNat command.operation.code, keyLen, valueLen,
    command.key.take keyLen.toNat, command.value.take valueLen.toNat⟩

/-- What is printed about a response.  `%.*s` stops at a NUL. -/
def report (response : Response) : Exit where
  code := if response.status = c3mStatusOk then 0 else 1
  stdout := asciiBytes (c3mStatusName response.status) ++
    (if response.valueLen ≠ 0 then
      32 :: (response.value.take response.valueLen.toNat).takeWhile (· ≠ 0) else []) ++ [10]
  stderr := []

/-- A way from one process to the other: the bytes arrive in some fragments, and calls may be
interrupted. -/
structure Channel where
  deliver : Bytes → Input
  deliver_bytes : ∀ bs, (deliver bs).bytes = bs

structure Visit where
  argv : List Bytes
  /-- `time(NULL)` and `getpid()`. -/
  time : UInt64
  pid : UInt64
  /-- Why `connect` fails, if it does. -/
  refused : Option Bytes
  /-- How the writes of the client are answered. -/
  answers : List Acceptance
  toGateway : Channel
  toClient : Channel
  /-- The other side of the connection; the client stays until it has the response. -/
  server : Connection

def Visit.requestId (v : Visit) : UInt64 := (v.time <<< 32) ^^^ v.pid

def Visit.connection (v : Visit) (bs : Bytes) : Connection :=
  { v.server with input := v.toGateway.deliver bs, room := none }

/-- `sizeof(address.sun_path)`. -/
def sunPathSize : ℕ := 108

def protocolFailure : Exit := complain 1 "gateway protocol failure\n"

def connectFailure (message : Bytes) : Exit := ⟨1, [], asciiBytes "connect: " ++ message ++ [10]⟩

variable (cfg : Config)

/-- From `c3m_send_request` on, with what the gateway does meanwhile. -/
def converse (v : Visit) (request : Request) (g : State) : Exit × Place × State :=
  match sendRequest cfg.order .terminate request ⟨v.answers, none, []⟩ with
  | (.done, out) =>
    let (place, g, output) := serveConnection cfg (v.connection out.written) g
    match recvResponse cfg.order (v.toClient.deliver output.written) with
    | (.ok response, _) => (report response, place, g)
    | (.error _, _) => (protocolFailure, place, g)
  | (_, out) =>
    let (place, g, _) := serveConnection cfg (v.connection out.written) g
    (protocolFailure, place, g)

/-- `main`. -/
def visit (v : Visit) (g : State) : Exit × Place × State :=
  match parseCommand v.argv with
  | .error exit => (exit, .accepting, g)
  | .ok command =>
    match command.request v.requestId with
    | .error exit => (exit, .accepting, g)
    | .ok request =>
      if sunPathSize ≤ command.socketPath.length then
        (connectFailure (asciiBytes "File name too long"), .accepting, g)
      else
        match v.refused with
        | some message => (connectFailure message, .accepting, g)
        | none => converse cfg v request g

def session : List Visit → State → List Exit × State
  | [], g => ([], g)
  | v :: rest, g =>
    match visit cfg v g with
    | (exit, .accepting, g) =>
      let (exits, g) := session rest g
      (exit :: exits, g)
    | (exit, _, g) => ([exit], g)

/-- What a user sees of a status and a value. -/
def say (status : Status) (value : Bytes) : Exit where
  code := if status = .ok then 0 else 1
  stdout := asciiBytes (statusName status) ++ (if value ≠ [] then 32 :: value else []) ++ [10]
  stderr := []

/-- A command to a map; `allocated` says whether there is memory for a value. -/
def Command.run (allocated : Bool) (command : Command) (m : Bytes → Option Bytes) :
    Exit × (Bytes → Option Bytes) :=
  match command.operation with
  | .put =>
    if allocated then (say .ok [], Function.update m command.key (some command.value))
    else (say .backendError [], m)
  | .get =>
    match m command.key with
    | some value => (say .ok value, m)
    | none => (say .notFound [], m)
  | .delete =>
    if (m command.key).isSome then (say .ok [], Function.update m command.key none)
    else (say .notFound [], m)

/-- A PUT needs three allocations for a new key, and one otherwise. -/
def Visit.allocated (v : Visit) (command : Command) (m : Bytes → Option Bytes) : Bool :=
  false ∉ v.server.mallocs.take (if (m command.key).isSome then 1 else 3)

def Command.OutOfBounds (command : Command) : Prop :=
  command.key = [] ∨ maxKeyBytes < command.key.length ∨ maxValueBytes < command.value.length

instance (command : Command) : Decidable command.OutOfBounds := inferInstanceAs (Decidable (_ ∨ _))

def Visit.run (v : Visit) (m : Bytes → Option Bytes) : Exit × (Bytes → Option Bytes) :=
  match parseCommand v.argv with
  | .error exit => (exit, m)
  | .ok command =>
    if command.OutOfBounds then
      (complain 2 "key or value outside protocol bounds\n", m)
    else if sunPathSize ≤ command.socketPath.length then
      (connectFailure (asciiBytes "File name too long"), m)
    else
      match v.refused with
      | some message => (connectFailure message, m)
      | none => command.run (v.allocated command m) m

def transcript : List Visit → (Bytes → Option Bytes) → List Exit × (Bytes → Option Bytes)
  | [], m => ([], m)
  | v :: rest, m =>
    let (exit, m) := v.run m
    let (exits, m) := transcript rest m
    (exit :: exits, m)

structure IsArgument (bs : Bytes) : Prop where
  noNul : 0 ∉ bs
  length_lt : bs.length < 2 ^ 32

variable {cfg} {v : Visit} {g : State} {m : KeyValues} {command : Command}

/-- The parts of a command are arguments, and only a PUT has a value. -/
theorem parseCommand_ok {argv : List Bytes} (h : parseCommand argv = .ok command) :
    command.key ∈ argv ∧ (command.value ∈ argv ∨ command.value = []) ∧
      (command.operation ≠ .put → command.value = []) := by
  have hsub : ∀ a ∈ (socketArgument argv).2, a ∈ argv := by
    intro a ha
    unfold socketArgument at ha
    split at ha
    · split_ifs at ha
      · exact List.mem_cons_of_mem _ (List.mem_cons_of_mem _ (List.mem_cons_of_mem _ ha))
      · exact List.mem_cons_of_mem _ ha
    · exact List.mem_of_mem_tail ha
  unfold parseCommand at h
  dsimp only at h
  split at h
  · rename_i name key rest hrest
    have hkey : key ∈ argv := hsub key (by rw [hrest]; simp)
    split_ifs at h
    · split at h
      · obtain rfl := Except.ok.inj h
        exact ⟨hkey, Or.inl (hsub _ (by rw [hrest]; simp)), fun hput => absurd rfl hput⟩
      · cases h
    · obtain rfl := Except.ok.inj h
      exact ⟨hkey, Or.inr rfl, fun _ => rfl⟩
    · obtain rfl := Except.ok.inj h
      exact ⟨hkey, Or.inr rfl, fun _ => rfl⟩
  · cases h

theorem request_refused_iff (hkey : command.key.length < 2 ^ 32)
    (hvalue : command.value.length < 2 ^ 32) :
    (UInt32.ofNat command.key.length = 0 ∨ c3mMaxKeyBytes < UInt32.ofNat command.key.length ∨
      c3mMaxValueBytes < UInt32.ofNat command.value.length) ↔ command.OutOfBounds := by
  have hkeyLen : (UInt32.ofNat command.key.length).toNat = command.key.length :=
    UInt32.toNat_ofNat_of_lt' hkey
  have hvalueLen : (UInt32.ofNat command.value.length).toNat = command.value.length :=
    UInt32.toNat_ofNat_of_lt' hvalue
  rw [← UInt32.toNat_inj, UInt32.lt_iff_toNat_lt, UInt32.lt_iff_toNat_lt, hkeyLen, hvalueLen,
    Command.OutOfBounds, ← List.length_eq_zero_iff]
  rfl

/-- The struct of a command within the bounds carries a frame. -/
theorem request_frame (requestId : UInt64) (hkey : command.key.length < 2 ^ 32)
    (hvalue : command.value.length < 2 ^ 32) (hput : command.operation ≠ .put → command.value = [])
    (hbounds : ¬ command.OutOfBounds) :
    ∃ f : RequestFrame, command.request requestId = .ok (.ofFrame f) ∧
      f.operation = command.operation ∧ f.key = command.key ∧ f.value = command.value := by
  obtain ⟨hne, hkeyLe, hvalueLe⟩ : command.key ≠ [] ∧ command.key.length ≤ maxKeyBytes ∧
      command.value.length ≤ maxValueBytes := by
    unfold Command.OutOfBounds at hbounds
    push Not at hbounds
    exact hbounds
  refine ⟨⟨requestId, command.operation, command.key, command.value, List.length_pos_iff.mpr hne,
    hkeyLe, hvalueLe, hput⟩, ?_, rfl, rfl, rfl⟩
  have hkeyLen : (UInt32.ofNat command.key.length).toNat = command.key.length :=
    UInt32.toNat_ofNat_of_lt' hkey
  have hvalueLen : (UInt32.ofNat command.value.length).toNat = command.value.length :=
    UInt32.toNat_ofNat_of_lt' hvalue
  unfold Command.request
  dsimp only
  rw [if_neg (mt (request_refused_iff hkey hvalue).mp hbounds), hkeyLen, hvalueLen, List.take_length,
    List.take_length]
  rfl

/-- What is printed about a frame whose value has no NUL. -/
theorem report_ofFrame (f : ResponseFrame) (h : 0 ∉ f.value) :
    report (.ofFrame f) = say f.status f.value := by
  have hlength := responseValueLen_ofFrame f
  have hok : (Response.ofFrame f).status = c3mStatusOk ↔ f.status = .ok := statusCode_ok f.status
  have hne : (Response.ofFrame f).valueLen ≠ 0 ↔ f.value ≠ [] := by
    rw [Ne, ← UInt32.toNat_inj, hlength]
    exact not_congr List.length_eq_zero_iff
  have hwhole : (f.value.take (Response.ofFrame f).valueLen.toNat).takeWhile (· ≠ 0) = f.value := by
    rw [hlength, List.take_length, List.takeWhile_eq_self_iff]
    intro b hb
    have hb : b ≠ 0 := fun hzero => h (hzero ▸ hb)
    simpa using hb
  unfold report say
  congr 1
  · exact if_congr hok rfl rfl
  · change asciiBytes (c3mStatusName (statusCode f.status)) ++
      (if (Response.ofFrame f).valueLen ≠ 0 then
      32 :: (f.value.take (Response.ofFrame f).valueLen.toNat).takeWhile (· ≠ 0) else []) ++ [10] = _
    rw [c3mStatusName_code, hwhole]
    congr 2
    exact if_congr hne rfl rfl

variable (cfg) in
/-- The client gets the answer to its request. -/
theorem converse_answer (f : RequestFrame) (hg : Represents g.objects m) :
    ∃ g', converse cfg v (.ofFrame f) g =
        (report (.ofFrame (answer v.server.mallocs f m).1.response), .accepting, g') ∧
      Represents g'.objects (answer v.server.mallocs f m).2 := by
  have hsent : ∀ n : ℕ, (⟨v.answers, none, []⟩ : Output).HasRoom n := fun n k hk => by cases hk
  obtain ⟨hdone, hwritten, -⟩ := (sendRequest_writes cfg.order .terminate f).enough
    ⟨v.answers, none, []⟩ (hsent _)
  rw [List.nil_append] at hwritten
  obtain ⟨out, hout⟩ : ∃ out, sendRequest cfg.order .terminate (.ofFrame f) ⟨v.answers, none, []⟩ =
      (.done, out) := ⟨_, Prod.ext hdone rfl⟩
  rw [hout] at hwritten
  have hbytes : request? (v.connection out.written).input.bytes = some f := by
    rw [hwritten]
    change request? (v.toGateway.deliver f.encode).bytes = some f
    rw [v.toGateway.deliver_bytes]
    exact request?_eq_some.mpr ⟨[], (List.append_nil _).symm⟩
  have hexchange : exchange (v.connection out.written).client m =
      (some (answer v.server.mallocs f m).1, (answer v.server.mallocs f m).2) := by
    rw [exchange, show request? (v.connection out.written).client.bytes = some f from hbytes]
    rfl
  obtain ⟨objects, hleft, hserved, -⟩ := serveConnection_exchange cfg (v.connection out.written) hg
  rw [hexchange] at hleft hserved
  obtain ⟨output, hserve, hreply⟩ := hserved fun k hk => by cases hk
  have hdelivered : (v.toClient.deliver output.written).bytes =
      (answer v.server.mallocs f m).1.response.encode ++ [] := by
    rw [v.toClient.deliver_bytes, List.append_nil]
    exact hreply
  obtain ⟨input, hrecv, -⟩ := recvResponse_encode cfg.order hdelivered
  refine ⟨settle cfg (v.connection out.written) (some (answer v.server.mallocs f m).1)
    { g with objects := objects }, ?_, hleft⟩
  rw [converse, hout]
  dsimp only
  rw [hserve]
  dsimp only
  rw [hrecv]

/-- The map of a user, who does not see the bound on the values. -/
def KeyValues.plain (m : KeyValues) : Bytes → Option Bytes := fun key => (m key).map Subtype.val

/-- No stored value holds a NUL. -/
def NoNul (m : KeyValues) : Prop := ∀ key value, m key = some value → 0 ∉ value.val

theorem plain_update (m : KeyValues) (key : Bytes) (value : Option Value) :
    KeyValues.plain (Function.update m key value) =
      Function.update m.plain key (value.map Subtype.val) := by
  funext k
  unfold KeyValues.plain
  by_cases hk : k = key
  · rw [hk, Function.update_self, Function.update_self]
  · rw [Function.update_of_ne hk, Function.update_of_ne hk]

theorem NoNul.update {key : Bytes} {value : Option Value} (h : NoNul m)
    (hvalue : ∀ bs ∈ value, 0 ∉ bs.val) : NoNul (Function.update m key value) := by
  intro k bs hbs
  by_cases hk : k = key
  · rw [hk, Function.update_self] at hbs
    exact hvalue bs hbs
  · rw [Function.update_of_ne hk] at hbs
    exact h k bs hbs

/-- A frame is answered as its command. -/
theorem answer_command {f : RequestFrame} (hoperation : f.operation = command.operation)
    (hkey : f.key = command.key) (hvalue : f.value = command.value) (hnul : NoNul m)
    (hargument : 0 ∉ command.value) :
    say (answer v.server.mallocs f m).1.response.status
      (answer v.server.mallocs f m).1.response.value =
        (command.run (v.allocated command m.plain) m.plain).1 ∧
      (answer v.server.mallocs f m).2.plain = (command.run (v.allocated command m.plain) m.plain).2 ∧
      0 ∉ (answer v.server.mallocs f m).1.response.value ∧
          NoNul (answer v.server.mallocs f m).2 := by
  have hallocated : v.allocated command m.plain =
      decide (false ∉ v.server.mallocs.take (allocations f m)) := by
    unfold Visit.allocated allocations
    rw [hkey, KeyValues.plain, Option.isSome_map]
  have hempty : (0 : UInt8) ∉ noValue.val := List.not_mem_nil
  unfold answer Command.run
  rw [← hoperation, ← hkey, hallocated]
  cases f.operation with
  | put =>
    by_cases hfails : false ∈ v.server.mallocs.take (allocations f m)
    · simp only [hfails, not_true, decide_false, if_true]
      exact ⟨rfl, rfl, hempty, hnul⟩
    · simp only [hfails, not_false_iff, decide_true, if_true, if_false]
      rw [← hvalue] at hargument ⊢
      refine ⟨rfl, plain_update m f.key _, hempty, hnul.update fun bs hbs => ?_⟩
      rw [← Option.some.inj hbs]
      exact hargument
  | get =>
    dsimp only [KeyValues.plain]
    cases hm : m f.key with
    | none => exact ⟨rfl, rfl, hempty, hnul⟩
    | some value => exact ⟨rfl, rfl, hnul f.key value hm, hnul⟩
  | delete =>
    dsimp only
    have hsome : (m.plain f.key).isSome = (m f.key).isSome := Option.isSome_map
    rw [hsome]
    by_cases hfound : (m f.key).isSome
    · simp only [hfound, if_true]
      refine ⟨rfl, plain_update m f.key none, hempty, hnul.update fun bs hbs => by cases hbs⟩
    · simp only [hfound]
      exact ⟨rfl, rfl, hempty, hnul⟩

variable (cfg) in
/-- **One visit.**  The user sees what the map says, and the objects are the map afterwards. -/
theorem visit_run (hg : Represents g.objects m) (hnul : NoNul m)
    (hargv : ∀ a ∈ v.argv, IsArgument a) :
    ∃ g' m', visit cfg v g = ((v.run m.plain).1, .accepting, g') ∧ Represents g'.objects m' ∧
      NoNul m' ∧ m'.plain = (v.run m.plain).2 := by
  unfold visit Visit.run
  cases hparse : parseCommand v.argv with
  | error exit => exact ⟨g, m, rfl, hg, hnul, rfl⟩
  | ok command =>
    obtain ⟨hkeyMem, hvalueMem, hput⟩ := parseCommand_ok hparse
    have hkey := hargv command.key hkeyMem
    have hvalue : IsArgument command.value := by
      rcases hvalueMem with hmem | hnil
      · exact hargv command.value hmem
      · rw [hnil]
        exact ⟨List.not_mem_nil, Nat.two_pow_pos 32⟩
    dsimp only
    by_cases hbounds : command.OutOfBounds
    · have hrefused : command.request v.requestId =
          .error (complain 2 "key or value outside protocol bounds\n") :=
        if_pos ((request_refused_iff hkey.length_lt hvalue.length_lt).mpr hbounds)
      rw [hrefused, if_pos hbounds]
      exact ⟨g, m, rfl, hg, hnul, rfl⟩
    · obtain ⟨f, hrequest, hoperation, hfkey, hfvalue⟩ := request_frame v.requestId hkey.length_lt
        hvalue.length_lt hput hbounds
      rw [hrequest, if_neg hbounds]
      dsimp only
      by_cases hpath : sunPathSize ≤ command.socketPath.length
      · rw [if_pos hpath, if_pos hpath]
        exact ⟨g, m, rfl, hg, hnul, rfl⟩
      · rw [if_neg hpath, if_neg hpath]
        cases v.refused with
        | some message => exact ⟨g, m, rfl, hg, hnul, rfl⟩
        | none =>
          obtain ⟨hsay, hmap, hresponse, hnul'⟩ := answer_command (v := v) hoperation hfkey hfvalue
            hnul hvalue.noNul
          obtain ⟨g', hconverse, hg'⟩ := converse_answer cfg (v := v) f hg
          refine ⟨g', _, ?_, hg', hnul', hmap⟩
          rw [hconverse, report_ofFrame _ hresponse, hsay]

theorem session_transcript {visits : List Visit} (hg : Represents g.objects m) (hnul : NoNul m)
    (hargv : ∀ v ∈ visits, ∀ a ∈ v.argv, IsArgument a) :
    (session cfg visits g).1 = (transcript visits m.plain).1 ∧
      lookup (session cfg visits g).2.objects = (transcript visits m.plain).2 := by
  induction visits generalizing g m with
  | nil => exact ⟨rfl, funext hg.lookup⟩
  | cons v rest ih =>
    obtain ⟨hfirst, hrest⟩ := List.forall_mem_cons.mp hargv
    obtain ⟨g', m', hvisit, hg', hnul', hmap⟩ := visit_run cfg hg hnul hfirst
    obtain ⟨hexits, hlookup⟩ := ih hg' hnul' hrest
    rw [hmap] at hexits hlookup
    rw [session, hvisit, transcript]
    exact ⟨congrArg ((v.run m.plain).1 :: ·) hexits, hlookup⟩

/-- **A session.**  Whatever the clients are called with, however their bytes and the answers travel
and whatever allocations fail, they print what a map would say to their commands, and the gateway
holds that map. -/
theorem client_session (cfg : Config) (visits : List Visit)
    (hargv : ∀ v ∈ visits, ∀ a ∈ v.argv, IsArgument a) :
    (session cfg visits .initial).1 = (transcript visits fun _ => none).1 ∧
      lookup (session cfg visits .initial).2.objects = (transcript visits fun _ => none).2 :=
  session_transcript (m := noKeys) represents_empty (fun _ _ hnone => by cases hnone) hargv

def directChannel : Channel := ⟨fun bs => .push bs .eof, fun bs => by simp [Input.bytes]⟩

def visitOf (arguments : List String) : Visit :=
  ⟨arguments.map asciiBytes, 0, 1, none, [], directChannel, directChannel, connectionOf [] none⟩

theorem client_session_put_get :
    (session plainConfig [visitOf ["client", "put", "k", "v"], visitOf ["client", "get", "k"]]
      .initial).1 = [⟨0, asciiBytes "OK\n", []⟩, ⟨0, asciiBytes "OK v\n", []⟩] := by
  have hargv : ∀ v ∈ [visitOf ["client", "put", "k", "v"], visitOf ["client", "get", "k"]],
      ∀ a ∈ v.argv, IsArgument a := by
    intro v hv a ha
    have hall : ∀ v ∈ [visitOf ["client", "put", "k", "v"], visitOf ["client", "get", "k"]],
        ∀ a ∈ v.argv, 0 ∉ a ∧ a.length < 2 ^ 32 := by
      simp only [List.forall_mem_cons, visitOf]
      decide
    exact ⟨(hall v hv a ha).1, (hall v hv a ha).2⟩
  rw [(client_session plainConfig _ hargv).1]
  decide +kernel

end Cote3Mon.Gateway
