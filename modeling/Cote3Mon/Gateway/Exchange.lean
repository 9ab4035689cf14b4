import Cote3Mon.Protocol.Wire

namespace Cote3Mon.Gateway
open ByteText Protocol

-- A key-value map and the requests that arrive for it, apart from the two gateways. The stored
-- values carry the bound of the protocol, so every answer fits in a response.

abbrev Value := { bs : Bytes // bs.length ≤ maxValueBytes }

abbrev KeyValues := Bytes → Option Value

def noKeys : KeyValues := fun _ => none

structure Exchange where
  request : RequestFrame
  status : Status
  value : Value

def Exchange.response (x : Exchange) : ResponseFrame :=
  ⟨x.request.requestId, x.status, x.value.val, x.value.property⟩

def noValue : Value := ⟨[], Nat.zero_le _⟩

noncomputable def request? (bs : Bytes) : Option RequestFrame :=
  open Classical in
  if h : ∃ f : RequestFrame, ∃ rest, bs = f.encode ++ rest then some h.choose else none

/-- A PUT allocates a value, and for a new key also an object and its key. -/
def allocations (f : RequestFrame) (m : KeyValues) : ℕ :=
  if (m f.key).isSome then 1 else 3

/-- What a request does to the map and how it is answered.  Where an allocation of a PUT fails
the map stays as it was. -/
def answer (mallocs : List Bool) (f : RequestFrame) (m : KeyValues) : Exchange × KeyValues :=
  match f.operation with
  | .put =>
    if false ∈ mallocs.take (allocations f m) then (⟨f, .backendError, noValue⟩, m)
    else (⟨f, .ok, noValue⟩, Function.update m f.key (some ⟨f.value, f.value_le⟩))
  | .get =>
    match m f.key with
    | some value => (⟨f, .ok, value⟩, m)
    | none => (⟨f, .notFound, noValue⟩, m)
  | .delete =>
    if (m f.key).isSome then (⟨f, .ok, noValue⟩, Function.update m f.key none)
    else (⟨f, .notFound, noValue⟩, m)

/-- What a client sent, and how the allocations are answered that it causes. -/
structure Client where
  bytes : Bytes
  mallocs : List Bool

noncomputable def exchange (client : Client) (m : KeyValues) : Option Exchange × KeyValues :=
  match request? client.bytes with
  | none => (none, m)
  | some f =>
    let out := answer client.mallocs f m
    (some out.1, out.2)

/-- The exchanges with the clients that come in turn; one without a well-formed request has
none. -/
noncomputable def exchanges : List Client → KeyValues → List (Option Exchange)
  | [], _ => []
  | client :: rest, m => (exchange client m).1 :: exchanges rest (exchange client m).2

noncomputable def fold (clients : List Client) (m : KeyValues) : KeyValues :=
  clients.foldl (fun m client => (exchange client m).2) m

def operationName : Operation → String
  | .put => "PUT"
  | .get => "GET"
  | .delete => "DELETE"

def statusName : Status → String
  | .ok => "OK"
  | .invalid => "INVALID"
  | .notFound => "NOT_FOUND"
  | .backendError => "BACKEND_ERROR"
  | .tooLarge => "TOO_LARGE"
  | .protocolError => "PROTOCOL_ERROR"

/-- What an event says about a request. -/
@[ext] structure Recorded where
  operation : String
  inputBytes : ℕ
  requestId : ℕ
  result : String
  errorOrigin : String
  deriving DecidableEq

def exchangeStatus : Option Exchange → Status
  | none => .protocolError
  | some x => x.status

def recorded : Option Exchange → Recorded
  | none => ⟨"REJECT", 0, 0, "PROTOCOL_ERROR", "gateway"⟩
  | some x =>
    ⟨operationName x.request.operation, x.request.key.length + x.request.value.length,
      x.request.requestId.toNat, statusName x.status, if x.status = .ok then "none" else "backend"⟩

def reply : Option Exchange → Bytes
  | none => []
  | some x => x.response.encode

variable {bs : Bytes} {f : RequestFrame}

theorem request?_eq_some : request? bs = some f ↔ ∃ rest, bs = f.encode ++ rest := by
  unfold request?
  split_ifs with h
  · obtain ⟨rest, hrest⟩ := h.choose_spec
    refine ⟨fun hf => ⟨rest, ?_⟩, fun ⟨rest', hrest'⟩ => ?_⟩
    · rw [← Option.some.inj hf]
      exact hrest
    · rw [(RequestFrame.encode_append_inj (hrest.symm.trans hrest')).1]
  · exact iff_of_false nofun fun hf => h ⟨f, hf⟩

theorem request?_eq_none : request? bs = none ↔ ∀ f : RequestFrame, ∀ rest, bs ≠ f.encode ++
    rest := by
  rw [Option.eq_none_iff_forall_ne_some]
  simp only [ne_eq, request?_eq_some, not_exists]

def replyLength (f : RequestFrame) (m : KeyValues) : ℕ :=
  20 + match f.operation, m f.key with
    | .get, some value => value.val.length
    | _, _ => 0

theorem response_length (mallocs : List Bool) (f : RequestFrame) (m : KeyValues) :
    (answer mallocs f m).1.response.encode.length = replyLength f m := by
  rw [ResponseFrame.encode_length]
  unfold answer replyLength Exchange.response
  cases f.operation with
  | put => dsimp only; split_ifs <;> rfl
  | get => cases m f.key <;> rfl
  | delete => dsimp only; split_ifs <;> rfl

theorem answer_request (mallocs : List Bool) (f : RequestFrame) (m : KeyValues) :
    (answer mallocs f m).1.request = f := by
  unfold answer
  split
  · split_ifs <;> rfl
  · split <;> rfl
  · split_ifs <;> rfl

end Cote3Mon.Gateway
