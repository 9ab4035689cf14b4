import Cote3Mon.Gateway.Contract
import Cote3Mon.Gateway.Python
import Cote3Mon.Protocol.PythonFrames

namespace Cote3Mon.Gateway.Python
open ByteText Stream Protocol Cote3Mon.Python Cote3Mon.Protocol.Python

variable {cfg : Config} {c : Connection} {g : MockGateway} {m : KeyValues} {storage : Storage}

theorem recvExact_caught (size : ℕ) : Exec.Raises (fun e => isCaught e) (recvExact size) := by
  intro input e input' h
  fun_induction recvExact size input with
  | case1 input => cases h
  | case2 size input hpos input1 hrecv =>
    rw [← Except.error.inj (Prod.mk.inj h).1]
    rfl
  | case3 size input hpos b bs input1 hrecv out ih =>
    obtain ⟨hresult, hinput⟩ := Prod.mk.inj h
    rcases hout : out with ⟨e' | rest, input2⟩
    · rw [hout] at hresult
      have herror : out = (.error e, input2) := by
        rw [hout, Except.error.inj hresult]
      exact ih (herror.trans (by rw [← hinput, hout]))
    · rw [hout] at hresult
      cases hresult
  | case4 size input hpos e' input1 hrecv =>
    rw [← Except.error.inj (Prod.mk.inj h).1]
    induction input with
    | interrupted rest ih => exact ih hrecv
    | eof => cases hrecv
    | failed =>
      rw [← Except.error.inj (Prod.mk.inj hrecv).1]
      rfl
    | fragment first more rest => cases hrecv

theorem validateRequest_caught {operation : Operation} {key value : Bytes} {e : Exc}
    (h : validateRequest operation key value = .error e) : isCaught e := by
  unfold validateRequest at h
  split_ifs at h <;> cases h <;> rfl

/-- Whatever a client sends, the exceptions of `recv_request` are caught. -/
theorem recvRequest_caught : Exec.Raises (fun e => isCaught e) recvRequest := by
  have hrefuse : ∀ message, Exec.Raises (fun e => isCaught e)
      (refuse message : Method Input Request) := fun message => Exec.raises_throw rfl
  unfold recvRequest
  refine (recvExact_caught 24).bind fun raw => ?_
  dsimp only
  split
  · exact hrefuse _
  · split
    · exact hrefuse _
    · split
      · exact hrefuse _
      · refine (recvExact_caught _).bind fun payload => ?_
        exact (Exec.raises_lift fun e he => validateRequest_caught he).bind
          fun _ => Exec.raises_pure _

/-- The storage stands for the map. -/
def Stores (storage : Storage) (m : KeyValues) : Prop :=
  ∀ key, storage.lookup key = (m key).map Subtype.val

theorem stores_empty : Stores ∅ noKeys := fun _ => rfl

theorem Stores.mem_iff {key : Bytes} (h : Stores storage m) : key ∈ storage ↔ (m key).isSome := by
  rw [← AList.lookup_isSome, h key, Option.isSome_map]

theorem Stores.insert {key : Bytes} (value : Value) (h : Stores storage m) :
    Stores (storage.insert key value.val) (Function.update m key (some value)) := by
  intro k
  by_cases hk : k = key
  · rw [hk, AList.lookup_insert, Function.update_self]
    rfl
  · rw [AList.lookup_insert_ne hk, Function.update_of_ne hk, h k]

theorem Stores.erase {key : Bytes} (h : Stores storage m) :
    Stores (storage.erase key) (Function.update m key none) := by
  intro k
  by_cases hk : k = key
  · rw [hk, AList.lookup_erase, Function.update_self]
    rfl
  · rw [AList.lookup_erase_ne hk, Function.update_of_ne hk, h k]

/-- A request does to the storage what it does to the map where no allocation fails. -/
theorem perform_answer (f : RequestFrame) {mallocs : List Bool} (hmallocs : false ∉ mallocs)
    (h : Stores storage m) :
    ∃ left, perform (.ofFrame f) storage = ((answer mallocs f m).1.status,
        (answer mallocs f m).1.value.val, left) ∧ Stores left (answer mallocs f m).2 := by
  unfold perform answer
  rw [show (Request.ofFrame f).operation = f.operation from rfl]
  cases f.operation with
  | put =>
    have hnot : false ∉ mallocs.take (allocations f m) := fun hmem =>
      hmallocs (List.mem_of_mem_take hmem)
    rw [if_neg hnot]
    exact ⟨_, rfl, h.insert ⟨f.value, f.value_le⟩⟩
  | get =>
    have hlookup : storage.lookup (Request.ofFrame f).key = (m f.key).map Subtype.val := h f.key
    dsimp only
    rw [hlookup]
    cases m f.key with
    | none => exact ⟨storage, rfl, h⟩
    | some value => exact ⟨storage, rfl, h⟩
  | delete =>
    have hmem : (Request.ofFrame f).key ∈ storage ↔ (m f.key).isSome := h.mem_iff
    dsimp only
    simp only [hmem]
    split_ifs
    · exact ⟨_, rfl, h.erase⟩
    · exact ⟨storage, rfl, h⟩

theorem sendall_room (bs : Bytes) {output : Output} (h : output.room = none) :
    ∃ output', sendall bs output = (.ok (), output') ∧ output'.written = output.written ++ bs := by
  have hroom : output.HasRoom bs.length := fun k hk => by
    rw [h] at hk
    cases hk
  obtain ⟨hdone, hwritten, -⟩ := (C.writeFull_writes .ignore bs).enough output hroom
  rcases hout : C.writeFull .ignore bs output with ⟨outcome, output'⟩
  rw [hout] at hdone hwritten
  refine ⟨output', ?_, hwritten⟩
  rw [sendall, hout, show outcome = .done from hdone]

/-- What the event of an exchange says; every failure is put down to the gateway. -/
def recordedHere (x : Option Exchange) : Recorded :=
  { recorded x with errorOrigin := if exchangeStatus x ≠ .ok then "gateway" else "none" }

def Event.recorded (e : Event) : Recorded :=
  ⟨e.operation, e.inputBytes, e.requestId.toNat, e.result, e.errorOrigin⟩

/-- The local variables of `_handle` after an exchange. -/
def handled (cfg : Config) : Option Exchange → Handled
  | none => .initial
  | some x =>
    { request := some (.ofFrame x.request)
      operation := operationName x.request.operation
      inputBytes := x.request.key.length + x.request.value.length
      status := x.status
      keyFingerprint := fingerprint cfg [x.request.key]
      requestFingerprint := fingerprint cfg
        [beBytes 2 x.request.operation.code, x.request.key, x.request.value] }

theorem emit_recorded (cfg : Config) (c : Connection) (x : Option Exchange) :
    (emit cfg c (handled cfg x)).recorded = recordedHere x := by
  cases x with
  | none => rfl
  | some x => rfl

/-- **One connection** with a client that reads its response. -/
theorem handle_exchange (cfg : Config) {mallocs : List Bool} (hmallocs : false ∉ mallocs)
    (hroom : c.room = none) (hg : Stores g.storage m) :
    ∃ storage output, Stores storage (exchange ⟨c.input.bytes, mallocs⟩ m).2 ∧
      handle cfg c g = (.ok (), ⟨storage, g.events ++
        [emit cfg c (handled cfg (exchange ⟨c.input.bytes, mallocs⟩ m).1)]⟩, output) ∧
      output.written = reply (exchange ⟨c.input.bytes, mallocs⟩ m).1 := by
  unfold exchange
  cases hbytes : request? c.input.bytes with
  | none =>
    rcases hrecv : recvRequest c.input with ⟨e | request, rest⟩
    · refine ⟨g.storage, c.output, hg, ?_, rfl⟩
      have hcaught : isCaught e := recvRequest_caught _ _ _ hrecv
      rw [handle, attempt, hrecv]
      dsimp only
      rw [if_pos hcaught]
      rfl
    · obtain ⟨f, -, hframe⟩ := recvRequest_ok hrecv
      exact absurd hframe (request?_eq_none.mp hbytes f rest.bytes)
  | some f =>
    obtain ⟨rest, hframe⟩ := request?_eq_some.mp hbytes
    obtain ⟨input', hrecv, -⟩ := recvRequest_encode hframe
    obtain ⟨left, hperform, hleft⟩ := perform_answer f hmallocs hg
    have hencode : (⟨(Request.ofFrame f).requestId, (answer mallocs f m).1.status,
        (answer mallocs f m).1.value.val⟩ : Response).encode =
          .ok (answer mallocs f m).1.response.encode := by
      rw [← Response.encode_ofFrame]
      congr 1
      rw [Response.ofFrame, Exchange.response, answer_request]
      rfl
    obtain ⟨output, hsend, hwritten⟩ :=
      sendall_room (answer mallocs f m).1.response.encode (show c.output.room = none from hroom)
    refine ⟨left, output, hleft, ?_, hwritten⟩
    rw [handle, attempt, hrecv]
    dsimp only
    rw [hperform]
    dsimp only
    rw [hencode]
    dsimp only
    rw [hsend, handled, answer_request]
    rfl

/-- Every GET and DELETE names a key that an earlier request has put. -/
def KeysPresent : List Client → KeyValues → Prop
  | [], _ => True
  | client :: rest, m =>
    (∀ f, request? client.bytes = some f → f.operation ≠ .put → (m f.key).isSome) ∧
      KeysPresent rest (exchange client m).2

def clients (conns : List Connection) : List Client := conns.map fun c => ⟨c.input.bytes, []⟩

theorem clients_cons (c : Connection) (rest : List Connection) :
    clients (c :: rest) = ⟨c.input.bytes, []⟩ :: clients rest := rfl

/-- **A run** with clients that read their responses. -/
theorem serve_exchanges (cfg : Config) {conns : List Connection} (hroom : ∀ c ∈ conns, c.room = none)
    (hg : Stores g.storage m) :
    ∃ g' outputs, serve cfg conns g = (.ok (), g', outputs) ∧
      Stores g'.storage (fold (clients conns) m) ∧
      outputs.map Output.written = (exchanges (clients conns) m).map reply ∧
      g'.events.map Event.recorded =
        g.events.map Event.recorded ++ (exchanges (clients conns) m).map recordedHere := by
  induction conns generalizing g m with
  | nil => exact ⟨g, [], rfl, hg, rfl, (List.append_nil _).symm⟩
  | cons c rest ih =>
    obtain ⟨hfirst, hrest⟩ := List.forall_mem_cons.mp hroom
    obtain ⟨storage, output, hleft, hhandle, hwritten⟩ :=
      handle_exchange cfg List.not_mem_nil hfirst hg
    obtain ⟨g', outputs, hserve, hstores, houtputs, hevents⟩ := ih (g := ⟨storage, _⟩) hrest hleft
    refine ⟨g', output :: outputs, ?_, hstores, ?_, ?_⟩
    · rw [serve, hhandle]
      dsimp only
      rw [hserve]
    · rw [List.map_cons, houtputs, hwritten]
      rfl
    · rw [hevents, List.map_append, List.append_assoc, List.map_singleton, emit_recorded]
      rfl

/-- The answers of an allocator that never fails do not matter. -/
theorem answer_allocated {mallocs : List Bool} (h : false ∉ mallocs) (f : RequestFrame)
    (m : KeyValues) : answer mallocs f m = answer [] f m := by
  have hnot : false ∉ mallocs.take (allocations f m) := fun hmem => h (List.mem_of_mem_take hmem)
  unfold answer
  rw [if_neg hnot, List.take_nil, if_neg List.not_mem_nil]

theorem exchange_allocated {client : Client} (h : false ∉ client.mallocs) (m : KeyValues) :
    exchange client m = exchange ⟨client.bytes, []⟩ m := by
  unfold exchange
  cases request? client.bytes with
  | none => rfl
  | some f =>
    dsimp only
    rw [answer_allocated h]

/-- Two runs over the same bytes have the same exchanges. -/
theorem exchanges_allocated {conns : List Gateway.Connection} {conns' : List Connection}
    (hbytes : conns.map (fun c => c.input.bytes) = conns'.map fun c => c.input.bytes)
    (hmallocs : ∀ c ∈ conns, false ∉ c.mallocs) (m : KeyValues) :
    exchanges (conns.map Gateway.Connection.client) m = exchanges (clients conns') m := by
  induction conns generalizing conns' m with
  | nil =>
    rw [List.map_eq_nil_iff.mp hbytes.symm]
    rfl
  | cons c rest ih =>
    cases conns' with
    | nil => cases hbytes
    | cons c' rest' =>
      obtain ⟨hfirst, hrest⟩ := List.forall_mem_cons.mp hmallocs
      obtain ⟨hbyte, hbytes⟩ := List.cons.inj hbytes
      have hbyte : c.client.bytes = c'.input.bytes := hbyte
      have hexchange : exchange c.client m = exchange ⟨c'.input.bytes, []⟩ m := by
        rw [exchange_allocated hfirst, hbyte]
      rw [List.map_cons, exchanges, hexchange, ih hbytes hrest]
      rfl

/-- The two events of an exchange agree where the request got what it asked for. -/
theorem recordedHere_eq (x : Option Exchange) :
    recorded x = recordedHere x ↔ ∀ y, x = some y → y.status = .ok := by
  cases x with
  | none => exact iff_of_true rfl nofun
  | some y =>
    simp only [Option.some.injEq, forall_eq']
    refine ⟨fun h => ?_, fun hok => ?_⟩
    · by_contra hstatus
      have horigin := congrArg Recorded.errorOrigin h
      simp [recorded, recordedHere, exchangeStatus, hstatus] at horigin
    · simp [recorded, recordedHere, exchangeStatus, hok]

/-- Where no allocation fails, only an absent key keeps a request from being answered `OK`. -/
theorem answer_ok (f : RequestFrame) (m : KeyValues) :
    (answer [] f m).1.status = .ok ↔ (f.operation ≠ .put → (m f.key).isSome) := by
  unfold answer
  cases f.operation with
  | put =>
    rw [List.take_nil, if_neg List.not_mem_nil]
    exact iff_of_true rfl fun h => absurd rfl h
  | get =>
    cases hm : m f.key with
    | none => exact iff_of_false nofun fun h => absurd (h nofun) Bool.false_ne_true
    | some value => exact iff_of_true rfl fun _ => rfl
  | delete =>
    dsimp only
    split_ifs with hsome
    · exact iff_of_true rfl fun _ => hsome
    · exact iff_of_false nofun fun h => hsome (h nofun)

theorem keysPresent_iff (conns : List Connection) (m : KeyValues) :
    KeysPresent (clients conns) m ↔
      (exchanges (clients conns) m).map recorded =
          (exchanges (clients conns) m).map recordedHere := by
  induction conns generalizing m with
  | nil => exact iff_of_true trivial rfl
  | cons c rest ih =>
    rw [clients_cons, KeysPresent, exchanges, List.map_cons, List.map_cons, List.cons.injEq, ← ih,
      recordedHere_eq]
    refine and_congr_left fun _ => ?_
    unfold exchange
    cases request? c.input.bytes with
    | none => exact iff_of_true (fun _ h => by cases h) fun _ h => by cases h
    | some f =>
      simp only [Option.some.injEq, forall_eq']
      exact (answer_ok f m).symm

/-- **Two gateways.**  Without failing allocations and with clients that read, the C gateway and
the Python gateway send every client the same response.  Their events always agree on the
operation, the size, the identifier and the result, and on the origin of the error exactly when
no request asks for an absent key. -/
theorem gateways_agree_iff (cfgC : Gateway.Config) (cfg : Config) (arrivals : List Arrival)
    (conns : List Connection) (hserving : Serving arrivals)
    (hbytes : (connections arrivals).map (fun c => c.input.bytes) =
      conns.map fun c => c.input.bytes)
    (hmallocs : ∀ c ∈ connections arrivals, false ∉ c.mallocs)
    (hreading : ∀ c ∈ connections arrivals, c.room = none) (hroom : ∀ c ∈ conns, c.room = none)
    (htelemetry : cfgC.telemetry) :
    let run := Gateway.serve cfgC arrivals .initial
    ∃ g outputs, serve cfg conns .initial = (.ok (), g, outputs) ∧
      run.outputs.map Output.written = outputs.map Output.written ∧
      (run.state.events.map fun e => { e.recorded with errorOrigin := "" }) =
        (g.events.map fun e => { e.recorded with errorOrigin := "" }) ∧
      (run.state.events.map Gateway.Event.recorded = g.events.map Event.recorded ↔
        KeysPresent (clients conns) noKeys) := by
  intro run
  have hrun : Settled cfgC (connections arrivals) noKeys .initial run :=
    serve_settled cfgC hserving represents_empty (takeReplies_of_reading hreading)
  obtain ⟨g, outputs, hserve, -, houtputs, hevents⟩ :=
    serve_exchanges cfg hroom (g := .initial) stores_empty
  have hsame := exchanges_allocated hbytes hmallocs noKeys
  have hrecorded : run.state.events.map Gateway.Event.recorded =
      (exchanges (clients conns) noKeys).map recorded := by
    rw [← hsame]
    exact hrun.recorded htelemetry
  have hrecordedHere : g.events.map Event.recorded =
      (exchanges (clients conns) noKeys).map recordedHere := hevents
  refine ⟨g, outputs, hserve, ?_, ?_, ?_⟩
  · rw [hrun.outputs, houtputs, hsame]
  · have hleft := congrArg (List.map fun r : Recorded => { r with errorOrigin := "" }) hrecorded
    have hright := congrArg (List.map fun r : Recorded => { r with errorOrigin := "" }) hrecordedHere
    rw [List.map_map, List.map_map] at hleft hright
    exact hleft.trans hright.symm
  · rw [hrecorded, hrecordedHere]
    exact (keysPresent_iff conns noKeys).symm

def plainConfig : Config := ⟨fun _ => [], text "run", text "normal", false⟩

/-- A client that sends the bytes in one piece and reads the response. -/
def connectionOf (bs : Bytes) : Connection := ⟨.push bs .eof, [], none, 0, 0⟩

theorem gateways_agree_iff_session : ∃ g outputs,
    serve plainConfig (sessionMessages.map connectionOf) .initial = (.ok (), g, outputs) ∧
      (Gateway.serve Gateway.plainConfig sessionArrivals .initial).outputs.map Output.written =
        outputs.map Output.written ∧
      ((Gateway.serve Gateway.plainConfig sessionArrivals .initial).state.events.map
          Gateway.Event.recorded = g.events.map Event.recorded ↔
        KeysPresent (clients (sessionMessages.map connectionOf)) noKeys) := by
  obtain ⟨g, outputs, hserve, hsame, -, horigins⟩ :=
    gateways_agree_iff Gateway.plainConfig plainConfig
    sessionArrivals (sessionMessages.map connectionOf) sessionArrivals_serving rfl
    (by simp [connections, Arrival.connection?, Gateway.connectionOf, sessionArrivals,
      sessionMessages])
    sessionArrivals_reading (by simp [connectionOf, sessionMessages]) rfl
  exact ⟨g, outputs, hserve, hsame, horigins⟩

/-- A GET of an absent key is put down to the backend by one and to the gateway by the other. -/
theorem absent_key_origin : ∃ g outputs,
    serve plainConfig [connectionOf getFrame.encode] .initial = (.ok (), g, outputs) ∧
      (Gateway.serve Gateway.plainConfig
        [.connection (Gateway.connectionOf getFrame.encode none)]
          .initial).state.events.map (fun e => e.recorded.errorOrigin) = ["backend"] ∧
      g.events.map (fun e => e.recorded.errorOrigin) = ["gateway"] := by
  have hserving : Serving [.connection (Gateway.connectionOf getFrame.encode none)] := by
    simp [Serving]
  have htake : TakeReplies [Gateway.connectionOf getFrame.encode none] noKeys :=
    takeReplies_of_reading (by simp [Gateway.connectionOf])
  have hrun := serve_settled Gateway.plainConfig hserving (g := .initial) represents_empty htake
  obtain ⟨g, outputs, hserve, -, -, hevents⟩ := serve_exchanges plainConfig
    (show ∀ c ∈ [connectionOf getFrame.encode], c.room = none by simp [connectionOf])
    (g := .initial) stores_empty
  have hexchange : (exchange ⟨getFrame.encode, []⟩ noKeys).1 =
      some ⟨getFrame, .notFound, noValue⟩ := by
    unfold exchange
    rw [request?_eq_some.mpr ⟨[], (List.append_nil getFrame.encode).symm⟩]
    rfl
  have hbytes : ∀ room, (Gateway.connectionOf getFrame.encode room).client =
      ⟨getFrame.encode, []⟩ := fun room => by
    rw [Connection.client, connectionOf_bytes]
    rfl
  have hclients : clients [connectionOf getFrame.encode] = [⟨getFrame.encode, []⟩] := by
    rw [← hbytes none]
    rfl
  refine ⟨g, outputs, hserve, ?_, ?_⟩
  · have hrecorded : (Gateway.serve Gateway.plainConfig
        [.connection (Gateway.connectionOf getFrame.encode none)]
          .initial).state.events.map Gateway.Event.recorded =
        (exchanges [⟨getFrame.encode, []⟩] noKeys).map recorded := by
      rw [← hbytes none]
      exact hrun.recorded rfl
    have horigins := congrArg (List.map Recorded.errorOrigin) hrecorded
    rw [exchanges, hexchange, List.map_map] at horigins
    exact horigins
  · have horigins := congrArg (List.map Recorded.errorOrigin) hevents
    rw [hclients, exchanges, hexchange, List.map_append, List.map_map] at horigins
    exact horigins

end Cote3Mon.Gateway.Python
