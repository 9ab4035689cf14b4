import Cote3Mon.Gateway.Exchange
import Cote3Mon.Gateway.Server
import Cote3Mon.Protocol.CFrames

namespace Cote3Mon.Gateway
open ByteText Stream Protocol Protocol.C

structure Represents (objects : List Object) (m : KeyValues) : Prop where
  distinct : DistinctKeys objects
  lookup : ∀ key, lookup objects key = (m key).map Subtype.val

variable {objects : List Object} {m : KeyValues} {key : Bytes} {mallocs : List Bool}

theorem represents_empty : Represents [] noKeys := ⟨List.nodup_nil, fun _ => rfl⟩

namespace Represents

theorem isSome_iff (h : Represents objects m) : (m key).isSome ↔ findObject key objects ≠ none := by
  rw [← lookup_isSome, h.lookup, Option.isSome_map]

theorem none_iff (h : Represents objects m) : m key = none ↔ findObject key objects = none := by
  rw [← not_iff_not, ← ne_eq, ← ne_eq, ← h.isSome_iff, Option.isSome_iff_ne_none]

/-- The map after an assignment, for any list with the assigned lookup. -/
theorem update {left : List Object} {value : Option Value} (h : Represents objects m)
    (hkeys : DistinctKeys left)
    (hlookup : Gateway.lookup left =
      Function.update (Gateway.lookup objects) key (value.map Subtype.val)) :
    Represents left (Function.update m key value) := by
  refine ⟨hkeys, fun k => ?_⟩
  rw [hlookup]
  by_cases hk : k = key
  · rw [hk, Function.update_self, Function.update_self]
  · rw [Function.update_of_ne hk, Function.update_of_ne hk, h.lookup]

end Represents

/-- A PUT assigns the value, or changes nothing where one of its allocations fails. -/
theorem mockPut_spec {f : RequestFrame} (h : Represents objects m) :
    (mockPut f.key f.value ⟨objects, mallocs⟩).1 =
        (if false ∈ mallocs.take (allocations f m) then .failure else .ok) ∧
      Represents (mockPut f.key f.value ⟨objects, mallocs⟩).2.objects
        (if false ∈ mallocs.take (allocations f m) then m
          else Function.update m f.key (some ⟨f.value, f.value_le⟩)) := by
  have hset : findObject f.key objects ≠ none →
      Represents (setValue f.key f.value objects)
        (Function.update m f.key (some ⟨f.value, f.value_le⟩)) := by
    intro hfound
    refine h.update ?_ (lookup_setValue hfound)
    rw [DistinctKeys, setValue_keys]
    exact h.distinct
  have hinsert : findObject f.key objects = none →
      Represents (⟨f.key, f.value⟩ :: objects)
        (Function.update m f.key (some ⟨f.value, f.value_le⟩)) := by
    intro hnone
    refine h.update ?_ (lookup_cons _ _)
    exact List.nodup_cons.mpr ⟨findObject_none.mp hnone, h.distinct⟩
  unfold allocations
  by_cases hfound : findObject f.key objects = none
  · rw [if_neg (fun hsome => h.isSome_iff.mp hsome hfound)]
    rcases mallocs with _ | ⟨_ | _, _ | ⟨_ | _, _ | ⟨_ | _, rest⟩⟩⟩ <;>
      simp [mockPut, malloc, hfound, h, hinsert hfound]
  · obtain ⟨object, hobject⟩ := Option.ne_none_iff_exists'.mp hfound
    rw [if_pos (h.isSome_iff.mpr hfound)]
    rcases mallocs with _ | ⟨_ | _, rest⟩ <;>
      simp [mockPut, malloc, hobject, h, hset hfound]

theorem mockGet_spec (h : Represents objects m) :
    mockGet maxValueBytes key ⟨objects, mallocs⟩ = match m key with
      | some value => (.ok, value.val)
      | none => (.notFound, []) := by
  unfold mockGet
  cases hm : m key with
  | none =>
    rw [h.none_iff.mp hm]
  | some value =>
    have hlookup := h.lookup key
    rw [hm, Gateway.lookup, Option.map_some] at hlookup
    obtain ⟨object, hobject, hvalue⟩ := Option.map_eq_some_iff.mp hlookup
    rw [hobject]
    dsimp only
    rw [hvalue, if_neg (not_lt.mpr value.property)]

theorem mockDelete_spec (h : Represents objects m) :
    (mockDelete key ⟨objects, mallocs⟩).1 = (if (m key).isSome then .ok else .notFound) ∧
      Represents (mockDelete key ⟨objects, mallocs⟩).2.objects
        (if (m key).isSome then Function.update m key none else m) := by
  unfold mockDelete
  rcases hunlink : unlinkObject key objects with _ | left
  · have hnone : ¬ (m key).isSome := fun hsome =>
      h.isSome_iff.mp hsome (unlinkObject_none.mp hunlink)
    rw [if_neg hnone, if_neg hnone]
    exact ⟨rfl, h⟩
  · have hsome : (m key).isSome := h.isSome_iff.mpr fun hnone => by
      rw [unlinkObject_none.mpr hnone] at hunlink
      cases hunlink
    obtain ⟨hsub, hlookup⟩ := unlinkObject_some hunlink h.distinct
    rw [if_pos hsome, if_pos hsome]
    exact ⟨rfl, h.update (h.distinct.sublist (hsub.map Object.key)) hlookup⟩

def statusCode (status : Status) : UInt16 := UInt16.ofNat status.code

theorem key_ofFrame (f : RequestFrame) :
    (Request.ofFrame f).key.take (Request.ofFrame f).keyLen.toNat = f.key := by
  rw [keyLen_ofFrame]
  exact List.take_length

theorem value_ofFrame (f : RequestFrame) :
    (Request.ofFrame f).value.take (Request.ofFrame f).valueLen.toNat = f.value := by
  rw [valueLen_ofFrame]
  exact List.take_length

/-- `dispatch` answers a request as the map does. -/
theorem dispatch_answer (f : RequestFrame) (mallocs : List Bool) (h : Represents objects m) :
    ∃ backend, dispatch (.ofFrame f) ⟨objects, mallocs⟩ =
        (statusCode (answer mallocs f m).1.status, (answer mallocs f m).1.value.val, backend) ∧
      Represents backend.objects (answer mallocs f m).2 := by
  unfold dispatch answer
  simp only [key_ofFrame, value_ofFrame]
  cases hop : f.operation with
  | put =>
    have hcode : (Request.ofFrame f).operation = c3mOpPut := by rw [Request.ofFrame, hop]; rfl
    obtain ⟨hresult, hleft⟩ := mockPut_spec h
    rw [if_pos hcode]
    refine ⟨(mockPut f.key f.value ⟨objects, mallocs⟩).2, ?_, ?_⟩
    · rw [hresult]
      dsimp only
      split_ifs <;> rfl
    · dsimp only
      split_ifs at hleft ⊢ <;> exact hleft
  | get =>
    have hcode : (Request.ofFrame f).operation = c3mOpGet := by rw [Request.ofFrame, hop]; rfl
    rw [hcode, if_neg (by decide), if_pos rfl]
    refine ⟨⟨objects, mallocs⟩, ?_, ?_⟩
    · rw [show c3mMaxValueBytes.toNat = maxValueBytes from rfl, mockGet_spec h]
      cases m f.key <;> rfl
    · cases m f.key <;> exact h
  | delete =>
    have hcode : (Request.ofFrame f).operation = c3mOpDelete := by rw [Request.ofFrame, hop]; rfl
    obtain ⟨hresult, hleft⟩ := mockDelete_spec h
    rw [hcode, if_neg (by decide), if_neg (by decide), if_pos rfl]
    refine ⟨(mockDelete f.key ⟨objects, mallocs⟩).2, ?_, ?_⟩
    · rw [hresult]
      dsimp only
      split_ifs <;> rfl
    · dsimp only
      split_ifs at hleft ⊢ <;> exact hleft

variable {cfg : Config} {c : Connection} {g : State}

def Connection.client (c : Connection) : Client := ⟨c.input.bytes, c.mallocs⟩

/-- The response struct of an answer. -/
theorem serveConnection_malformed (h : request? c.input.bytes = none) :
    serveConnection cfg c g =
      (.accepting, finish cfg c none c3mStatusProtocolError g, c.output) := by
  unfold serveConnection
  rcases hrecv : recvRequest cfg.order c.input with ⟨_ | request, rest⟩
  · rfl
  · obtain ⟨f, -, hbytes⟩ := recvRequest_ok hrecv
    exact absurd hbytes (request?_eq_none.mp h f rest.bytes)

/-- A request is answered as the map answers it, and the client is sent the response as far as
it takes it. -/
theorem serveConnection_request {f : RequestFrame} (h : request? c.input.bytes = some f)
    (hg : Represents g.objects m) :
    ∃ objects, Represents objects (answer c.mallocs f m).2 ∧
      serveConnection cfg c g =
        match sendResponse cfg.order cfg.sigpipe (.ofFrame (answer c.mallocs f m).1.response)
          c.output with
        | (.killed, output) => (.killed, { g with objects := objects }, output)
        | (_, output) => (.accepting, finish cfg c (some (.ofFrame f))
            (statusCode (answer c.mallocs f m).1.status) { g with objects := objects }, output) := by
  obtain ⟨rest, hbytes⟩ := request?_eq_some.mp h
  obtain ⟨input', hrecv, -⟩ := recvRequest_encode cfg.order hbytes
  obtain ⟨backend, hdispatch, hleft⟩ := dispatch_answer f c.mallocs hg
  refine ⟨backend.objects, hleft, ?_⟩
  have hid : (Request.ofFrame f).requestId = (answer c.mallocs f m).1.request.requestId := by
    rw [answer_request]
    rfl
  unfold serveConnection
  rw [hrecv]
  dsimp only
  rw [hdispatch]
  dsimp only
  rw [hid]
  rfl

/-- The end of the loop's body for an exchange. -/
def settle (cfg : Config) (c : Connection) (x : Option Exchange) (g : State) : State :=
  finish cfg c (x.map fun x => .ofFrame x.request) (statusCode (exchangeStatus x)) g

/-- **One connection.**  The client's bytes decide the exchange; how far it takes the response
decides where the process is. -/
theorem serveConnection_exchange (cfg : Config) (c : Connection) (hg : Represents g.objects m) :
    ∃ objects, Represents objects (exchange c.client m).2 ∧
      (c.output.HasRoom (reply (exchange c.client m).1).length →
        ∃ output, serveConnection cfg c g =
            (.accepting, settle cfg c (exchange c.client m).1 { g with objects := objects },
              output) ∧
          output.written = reply (exchange c.client m).1) ∧
      (cfg.sigpipe = .terminate → ¬ c.output.HasRoom (reply (exchange c.client m).1).length →
        ∃ output, serveConnection cfg c g = (.killed, { g with objects := objects }, output)) := by
  unfold exchange
  cases hbytes : request? c.client.bytes with
  | none =>
    refine ⟨g.objects, hg, fun _ => ⟨c.output, ?_, rfl⟩, fun _ hroom => ?_⟩
    · rw [serveConnection_malformed hbytes]
      rfl
    · exact absurd (fun _ _ => Nat.zero_le _) hroom
  | some f =>
    obtain ⟨objects, hleft, hserve⟩ := serveConnection_request hbytes hg
    have hsend := sendResponse_writes cfg.order cfg.sigpipe (answer c.mallocs f m).1.response
    refine ⟨objects, hleft, fun hroom => ?_, fun hterm hroom => ?_⟩
    · obtain ⟨hdone, hwritten, -⟩ := hsend.enough c.output hroom
      refine ⟨_, ?_, hwritten⟩
      rw [hserve, show sendResponse cfg.order cfg.sigpipe
        (.ofFrame (answer c.mallocs f m).1.response) c.output = (.done, _) from Prod.ext hdone rfl]
      dsimp only [settle, Option.map_some]
      rw [show (answer c.client.mallocs f m).1.request = f from answer_request ..]
      rfl
    · have hgone := hsend.gone c.output hroom
      rcases hout : sendResponse cfg.order cfg.sigpipe
        (.ofFrame (answer c.mallocs f m).1.response) c.output with ⟨outcome, output⟩
      rw [hout, hterm] at hgone
      refine ⟨output, ?_⟩
      rw [hserve, hout, show outcome = .killed from hgone]

/-- The clients that are accepted before `accept` fails or `stopping` is set. -/
def Arrival.connection? : Arrival → Option Connection
  | .connection c => some c
  | _ => none

/-- `accept` does not fail, other than by being interrupted, and `stopping` stays clear. -/
def Serving (arrivals : List Arrival) : Prop :=
  ∀ a ∈ arrivals, a ≠ .failed ∧ a ≠ .stopping

def connections (arrivals : List Arrival) : List Connection := arrivals.filterMap Arrival.connection?

/-- Every client takes the whole answer to its request. -/
def TakeReplies : List Connection → KeyValues → Prop
  | [], _ => True
  | c :: rest, m =>
    (∀ f, request? c.input.bytes = some f → c.output.HasRoom (replyLength f m)) ∧
      TakeReplies rest (exchange c.client m).2

def settleAll (cfg : Config) : List Connection → List (Option Exchange) → State → State
  | c :: cs, x :: xs, g => settleAll cfg cs xs (settle cfg c x g)
  | _, _, g => g

theorem takes_iff (c : Connection) (m : KeyValues) :
    (∀ f, request? c.input.bytes = some f → c.output.HasRoom (replyLength f m)) ↔
      c.output.HasRoom (reply (exchange c.client m).1).length := by
  unfold exchange
  cases hbytes : request? c.client.bytes with
  | none =>
    refine iff_of_true (fun f hf => ?_) fun _ _ => Nat.zero_le _
    rw [show request? c.input.bytes = none from hbytes] at hf
    cases hf
  | some f =>
    rw [show request? c.input.bytes = some f from hbytes]
    simp only [Option.some.injEq, forall_eq', reply, response_length]

/-- The state of a run that gets through all its connections. -/
structure Settled (cfg : Config) (conns : List Connection) (m : KeyValues) (g : State) (run : Run) :
    Prop where
  place : run.place = .accepting
  objects : Represents run.state.objects (fold (conns.map Connection.client) m)
  outputs : run.outputs.map Output.written =
    (exchanges (conns.map Connection.client) m).map reply
  metrics : run.state.metrics =
    (settleAll cfg conns (exchanges (conns.map Connection.client) m) g).metrics
  events : run.state.events =
    (settleAll cfg conns (exchanges (conns.map Connection.client) m) g).events

theorem settleAll_objects (conns : List Connection) (xs : List (Option Exchange)) (g : State)
    (objects : List Object) :
    (settleAll cfg conns xs { g with objects := objects }).metrics =
        (settleAll cfg conns xs g).metrics ∧
      (settleAll cfg conns xs { g with objects := objects }).events =
        (settleAll cfg conns xs g).events := by
  induction conns generalizing xs g with
  | nil => cases xs <;> exact ⟨rfl, rfl⟩
  | cons c conns ih =>
    cases xs with
    | nil => exact ⟨rfl, rfl⟩
    | cons x xs => exact ih xs (settle cfg c x g)

theorem serve_cons (cfg : Config) (c : Connection) (rest : List Arrival) (g : State) :
    serve cfg (.connection c :: rest) g = match serveConnection cfg c g with
      | (.accepting, g', output) =>
        { serve cfg rest g' with outputs := output :: (serve cfg rest g').outputs }
      | (place, g', output) => ⟨place, g', [output]⟩ := rfl

theorem serving_cons {a : Arrival} {arrivals : List Arrival} (h : Serving (a :: arrivals)) :
    (a ≠ .failed ∧ a ≠ .stopping) ∧ Serving arrivals :=
  List.forall_mem_cons.mp h

/-- **A run.**  Where every client takes its reply, the loop does the exchanges in turn. -/
theorem serve_settled (cfg : Config) {arrivals : List Arrival} (harrivals : Serving arrivals)
    (hg : Represents g.objects m) (htake : TakeReplies (connections arrivals) m) :
    Settled cfg (connections arrivals) m g (serve cfg arrivals g) := by
  induction arrivals generalizing g m with
  | nil => exact ⟨rfl, hg, rfl, rfl, rfl⟩
  | cons a rest ih =>
    obtain ⟨⟨hfailed, hstopping⟩, hrest⟩ := serving_cons harrivals
    cases a with
    | connection c =>
      obtain ⟨objects, hleft, hserved, -⟩ := serveConnection_exchange cfg c hg
      obtain ⟨hroom, htake⟩ : _ ∧ _ := htake
      obtain ⟨output, hstep, hwritten⟩ := hserved ((takes_iff c m).mp hroom)
      have hrun := ih (g := settle cfg c (exchange c.client m).1 { g with objects := objects })
        hrest hleft htake
      obtain ⟨hmetrics, hevents⟩ := settleAll_objects (connections rest)
        (exchanges ((connections rest).map Connection.client) (exchange c.client m).2)
        (settle cfg c (exchange c.client m).1 g) objects
      rw [serve_cons, hstep]
      refine ⟨hrun.place, hrun.objects, ?_, hrun.metrics.trans hmetrics, hrun.events.trans hevents⟩
      · change output.written :: List.map _ _ = _
        rw [hrun.outputs, hwritten]
        rfl
    | interrupted => exact ih hrest hg htake
    | failed => exact absurd rfl hfailed
    | stopping => exact absurd rfl hstopping

/-- A client that goes away early ends the process, whatever came before. -/
theorem serve_killed (hterm : cfg.sigpipe = .terminate) {arrivals : List Arrival}
    (harrivals : Serving arrivals) (hg : Represents g.objects m)
    (htake : ¬ TakeReplies (connections arrivals) m) : (serve cfg arrivals g).place = .killed := by
  induction arrivals generalizing g m with
  | nil => exact absurd trivial htake
  | cons a rest ih =>
    obtain ⟨⟨hfailed, hstopping⟩, hrest⟩ := serving_cons harrivals
    cases a with
    | connection c =>
      obtain ⟨objects, hleft, hserved, hkilled⟩ := serveConnection_exchange cfg c hg
      by_cases hroom : c.output.HasRoom (reply (exchange c.client m).1).length
      · obtain ⟨output, hstep, -⟩ := hserved hroom
        have hrun := ih (g := settle cfg c (exchange c.client m).1 { g with objects := objects })
          hrest hleft fun h => htake ⟨(takes_iff c m).mpr hroom, h⟩
        rw [serve_cons, hstep]
        exact hrun
      · obtain ⟨output, hstep⟩ := hkilled hterm hroom
        rw [serve_cons, hstep]
    | interrupted => exact ih hrest hg htake
    | failed => exact absurd rfl hfailed
    | stopping => exact absurd rfl hstopping

end Cote3Mon.Gateway
