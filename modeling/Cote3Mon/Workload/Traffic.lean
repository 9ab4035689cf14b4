import Cote3Mon.Crypto
import Cote3Mon.Gateway.Exchange

namespace Cote3Mon.Workload
open ByteText Protocol Gateway

inductive Scenario where
  | steady
  | bursty
  | largeValue
  | flood
  | malformed
  | errorStorm
  | replay
  deriving DecidableEq, Repr

def Scenario.all : List Scenario :=
  [.steady, .bursty, .largeValue, .flood, .malformed, .errorStorm, .replay]

def Scenario.name : Scenario → String
  | .steady => "steady"
  | .bursty => "bursty"
  | .largeValue => "large_value"
  | .flood => "flood"
  | .malformed => "malformed"
  | .errorStorm => "error_storm"
  | .replay => "replay"

/-- What a client sends on a connection: a request, or a header that declares a value over the
limit and one byte of a key. -/
inductive Message where
  | request (f : RequestFrame)
  | oversized (requestId : UInt64)

def oversizedHeader (requestId : UInt64) : List (ℕ × ℕ) :=
  [(4, magic), (2, version), (2, Operation.put.code), (8, requestId.toNat), (4, 1),
    (4, maxValueBytes + 1)]

def Message.bytes : Message → Bytes
  | .request f => f.encode
  | .oversized requestId => pack (oversizedHeader requestId) ++ asciiBytes "k"

def Message.requestId : Message → UInt64
  | .request f => f.requestId
  | .oversized requestId => requestId

/-- One of the keys from `key-00` to `key-31`. -/
def poolKey (n : ℕ) : Bytes :=
  asciiBytes "key-" ++ [UInt8.ofNat (48 + n / 10), UInt8.ofNat (48 + n % 10)]

def InPool (key : Bytes) : Prop := ∃ n < 32, key = poolKey n

def neverCreated : Bytes := asciiBytes "never-created"

def replayedKey : Bytes := asciiBytes "replayed-key"

def Scenario.Sends : Scenario → Message → Prop
  | .malformed, .oversized _ => True
  | .steady, .request f => InPool f.key ∧ (f.operation = .put → f.value.length = 64)
  | .bursty, .request f => f.operation = .put ∧ InPool f.key ∧ f.value.length = 96
  | .largeValue, .request f => f.operation = .put ∧ InPool f.key ∧ f.value.length = 3072
  | .flood, .request f =>
    f.operation = .put ∧ InPool f.key ∧ f.value = List.replicate 32 0x46
  | .errorStorm, .request f => f.operation = .get ∧ f.key = neverCreated
  | .replay, .request f =>
    f.operation = .put ∧ f.key = replayedKey ∧ f.value = List.replicate 128 0x52
  | _, _ => False

/-- What a map makes of a message. -/
def Scenario.Expects (s : Scenario) : Message → Option Exchange → Prop
  | .oversized _, x => x = none
  | .request f, x => ∃ e, x = some e ∧ e.request = f ∧ (f.operation = .put → e.status = .ok) ∧
      (s = .errorStorm → e.status = .notFound) ∧ (e.status = .ok ∨ e.status = .notFound)

variable {s : Scenario} {message : Message} {f : RequestFrame} {m : KeyValues}

theorem poolKey_length (n : ℕ) : (poolKey n).length = 6 := rfl

theorem InPool.length {key : Bytes} (h : InPool key) : key.length = 6 := by
  obtain ⟨n, -, rfl⟩ := h
  exact poolKey_length n

theorem neverCreated_pos : 0 < neverCreated.length := by decide

theorem neverCreated_le : neverCreated.length ≤ maxKeyBytes := by decide

/-- No scenario stores the key that the error storm asks for. -/
theorem put_ne_neverCreated (h : s.Sends (.request f)) (hput : f.operation = .put) :
    f.key ≠ neverCreated := by
  have hpool : InPool f.key → f.key ≠ neverCreated := by
    intro hkey heq
    have hlength := hkey.length
    rw [heq] at hlength
    exact absurd hlength (by decide)
  cases s with
  | steady => exact hpool h.1
  | bursty => exact hpool h.2.1
  | largeValue => exact hpool h.2.1
  | flood => exact hpool h.2.1
  | malformed => exact h.elim
  | errorStorm =>
    rw [h.1] at hput
    cases hput
  | replay =>
    rw [h.2.1]
    decide

/-- No frame declares a value over the limit. -/
theorem request?_oversized (requestId : UInt64) :
    request? (Message.oversized requestId).bytes = none := by
  apply request?_eq_none.mpr
  intro f rest hbytes
  have hlt : ∀ field ∈ oversizedHeader requestId, field.2 < 256 ^ field.1 := by
    have hid : requestId.toNat < 256 ^ 8 := requestId.toNat_lt
    simp only [oversizedHeader, List.mem_cons, List.not_mem_nil, or_false, forall_eq_or_imp,
      forall_eq]
    exact ⟨by decide, by decide, by decide, hid, by decide, by decide⟩
  have hdeclared := unpack_pack (oversizedHeader requestId) (asciiBytes "k") hlt
  have hframe := f.unpack_header (f.key ++ f.value ++ rest)
  have hsame : pack f.header ++ (f.key ++ f.value ++ rest) =
      pack (oversizedHeader requestId) ++ asciiBytes "k" := by
    rw [← List.append_assoc, ← List.append_assoc]
    exact hbytes.symm
  rw [hsame] at hframe
  have hfields := hframe.symm.trans hdeclared
  simp only [oversizedHeader, List.map_cons, List.map_nil, List.cons.injEq] at hfields
  have hvalue := f.value_le
  omega

theorem request?_request (f : RequestFrame) : request? (Message.request f).bytes = some f :=
  request?_eq_some.mpr ⟨[], (List.append_nil _).symm⟩

/-- A message is answered as its scenario expects, and does not store the missing key. -/
theorem exchange_expects {mallocs : List Bool} (h : s.Sends message) (hm : m neverCreated = none)
    (hmallocs : false ∉ mallocs) :
    s.Expects message (exchange ⟨message.bytes, mallocs⟩ m).1 ∧
      (exchange ⟨message.bytes, mallocs⟩ m).2 neverCreated = none := by
  cases message with
  | oversized requestId =>
    rw [exchange, request?_oversized]
    exact ⟨rfl, hm⟩
  | request f =>
    have hstorm : s = .errorStorm → f.operation = .get ∧ f.key = neverCreated := by
      intro hs
      rw [hs] at h
      exact h
    rw [exchange, request?_request]
    dsimp only
    cases hop : f.operation with
    | put =>
      have hroom : false ∉ mallocs.take (allocations f m) := fun hmem =>
        hmallocs (List.mem_of_mem_take hmem)
      have hanswer : answer mallocs f m = (⟨f, .ok, noValue⟩,
          Function.update m f.key (some ⟨f.value, f.value_le⟩)) := by
        simp only [answer, hop, if_neg hroom]
      rw [hanswer]
      refine ⟨⟨_, rfl, rfl, fun _ => rfl, fun hs => ?_, Or.inl rfl⟩, ?_⟩
      · cases hop.symm.trans (hstorm hs).1
      · exact (Function.update_of_ne (put_ne_neverCreated h hop).symm _ _).trans hm
    | get =>
      have hnoPut : f.operation = .put → False := fun hput => by cases hop.symm.trans hput
      cases hlookup : m f.key with
      | none =>
        have hanswer : answer mallocs f m = (⟨f, .notFound, noValue⟩, m) := by
          simp only [answer, hop, hlookup]
        rw [hanswer]
        exact ⟨⟨_, rfl, rfl, fun hput => (hnoPut hput).elim, fun _ => rfl, Or.inr rfl⟩, hm⟩
      | some value =>
        have hanswer : answer mallocs f m = (⟨f, .ok, value⟩, m) := by
          simp only [answer, hop, hlookup]
        rw [hanswer]
        refine ⟨⟨_, rfl, rfl, fun _ => rfl, fun hs => ?_, Or.inl rfl⟩, hm⟩
        rw [(hstorm hs).2, hm] at hlookup
        cases hlookup
    | delete =>
      have hother : s ≠ .errorStorm := fun hs => by cases hop.symm.trans (hstorm hs).1
      have hnoPut : f.operation = .put → False := fun hput => by cases hop.symm.trans hput
      by_cases hfound : (m f.key).isSome
      · have hanswer : answer mallocs f m = (⟨f, .ok, noValue⟩, Function.update m f.key none) := by
          simp only [answer, hop, if_pos hfound]
        rw [hanswer]
        refine ⟨⟨_, rfl, rfl, fun _ => rfl, fun hs => absurd hs hother, Or.inl rfl⟩, ?_⟩
        dsimp only
        by_cases hkey : neverCreated = f.key
        · rw [hkey, Function.update_self]
        · rw [Function.update_of_ne hkey, hm]
      · have hanswer : answer mallocs f m = (⟨f, .notFound, noValue⟩, m) := by
          simp only [answer, hop, if_neg hfound]
        rw [hanswer]
        exact ⟨⟨_, rfl, rfl, fun hput => (hnoPut hput).elim, fun hs => absurd hs hother, Or.inr rfl⟩,
          hm⟩

def IsClient (client : Client) : Prop :=
  (∃ (s : Scenario) (message : Message), s.Sends message ∧ client.bytes = message.bytes) ∧
    false ∉ client.mallocs

/-- What the exchanges of a client are, whichever scenario it belongs to. -/
def Met (client : Client) (x : Option Exchange) : Prop :=
  ∀ (s : Scenario) (message : Message), s.Sends message → client.bytes = message.bytes →
    s.Expects message x

theorem exchanges_met {clients : List Client} (h : ∀ client ∈ clients, IsClient client)
    (hm : m neverCreated = none) : List.Forall₂ Met clients (exchanges clients m) := by
  induction clients generalizing m with
  | nil => exact .nil
  | cons client rest ih =>
    obtain ⟨⟨⟨s, message, hsends, hbytes⟩, hmallocs⟩, hrest⟩ := List.forall_mem_cons.mp h
    have hclient : client = ⟨message.bytes, client.mallocs⟩ := by rw [← hbytes]
    rw [exchanges]
    refine .cons (fun s' message' hsends' hbytes' => ?_) (ih hrest ?_)
    · have hclient' : client = ⟨message'.bytes, client.mallocs⟩ := by rw [← hbytes']
      rw [hclient']
      exact (exchange_expects hsends' hm hmallocs).1
    · rw [hclient]
      exact (exchange_expects hsends hm hmallocs).2

end Cote3Mon.Workload
