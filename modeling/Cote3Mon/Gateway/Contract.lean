import Cote3Mon.Gateway.Refinement

namespace Cote3Mon.Gateway
open ByteText Stream Protocol Protocol.C

variable {cfg : Config} {c : Connection} {g : State} {conns : List Connection}
  {xs : List (Option Exchange)}

def Event.recorded (e : Event) : Recorded :=
  ⟨e.operation, e.inputBytes.toNat, e.requestId.toNat, e.result, e.errorOrigin⟩

def event (cfg : Config) (c : Connection) (x : Option Exchange) : Event :=
  logEvent cfg (x.map fun x => .ofFrame x.request) (statusCode (exchangeStatus x))
    (c.endNs - c.startNs) c.tsUnixNs

theorem statusCode_ok (status : Status) : statusCode status = c3mStatusOk ↔ status = .ok := by
  cases status <;> decide

theorem c3mStatusName_code (status : Status) :
    c3mStatusName (statusCode status) = statusName status := by
  cases status <;> rfl

theorem c3mOperationName_ofFrame (f : RequestFrame) :
    c3mOperationName (Request.ofFrame f).operation = operationName f.operation := by
  change c3mOperationName (UInt16.ofNat f.operation.code) = _
  cases f.operation <;> rfl

theorem inputBytes_ofFrame (f : RequestFrame) :
    ((Request.ofFrame f).keyLen + (Request.ofFrame f).valueLen).toNat =
      f.key.length + f.value.length := by
  have hkey := f.key_le
  have hvalue := f.value_le
  unfold maxKeyBytes at hkey
  unfold maxValueBytes at hvalue
  rw [UInt32.toNat_add, keyLen_ofFrame, valueLen_ofFrame]
  exact Nat.mod_eq_of_lt (by omega)

theorem event_recorded (cfg : Config) (c : Connection) (x : Option Exchange) :
    (event cfg c x).recorded = recorded x := by
  cases x with
  | none => rfl
  | some x =>
    have horigin : (if statusCode x.status = c3mStatusOk then "none" else "backend") =
        if x.status = .ok then "none" else "backend" :=
      if_congr (statusCode_ok x.status) rfl rfl
    exact Recorded.ext (c3mOperationName_ofFrame x.request) (inputBytes_ofFrame x.request) rfl
      (c3mStatusName_code x.status) horigin

theorem settleAll_events (h : xs.length = conns.length) :
    (settleAll cfg conns xs g).events =
      g.events ++ if cfg.telemetry then List.zipWith (event cfg) conns xs else [] := by
  induction conns generalizing xs g with
  | nil =>
    rw [List.length_eq_zero_iff.mp h]
    change g.events = _
    split_ifs <;> exact (List.append_nil _).symm
  | cons c conns ih =>
    cases xs with
    | nil => cases h
    | cons x xs =>
      rw [settleAll, ih (Nat.succ_inj.mp h)]
      change (g.events ++ if cfg.telemetry then [event cfg c x] else []) ++ _ = _
      rw [List.append_assoc]
      split_ifs <;> rfl

theorem exchanges_length (clients : List Client) (m : KeyValues) :
    (exchanges clients m).length = clients.length := by
  induction clients generalizing m with
  | nil => rfl
  | cons client rest ih =>
    rw [exchanges, List.length_cons, ih, List.length_cons]

theorem zipWith_event_recorded (h : xs.length = conns.length) :
    (List.zipWith (event cfg) conns xs).map Event.recorded = xs.map recorded := by
  induction conns generalizing xs with
  | nil =>
    rw [List.length_eq_zero_iff.mp h]
    rfl
  | cons c conns ih =>
    cases xs with
    | nil => cases h
    | cons x xs =>
      rw [List.zipWith_cons_cons, List.map_cons, List.map_cons, event_recorded,
        ih (Nat.succ_inj.mp h)]

theorem recordMetric_errors (reallocated : Bool) (startNs endNs : UInt64) (status : UInt16)
    (metrics : RequestMetrics) :
    (recordMetric reallocated startNs endNs status metrics).errors =
      metrics.errors + if status = c3mStatusOk then 0 else 1 := by
  unfold recordMetric
  dsimp only
  split_ifs <;> simp_all

theorem recordMetric_latencies (startNs endNs : UInt64) (status : UInt16)
    (metrics : RequestMetrics) :
    (recordMetric true startNs endNs status metrics).latencies =
      metrics.latencies ++ [endNs - startNs] := by
  unfold recordMetric
  dsimp only
  split_ifs <;> simp_all

theorem settleAll_errors (h : xs.length = conns.length) :
    (settleAll cfg conns xs g).metrics.errors =
      g.metrics.errors + UInt64.ofNat (xs.countP fun x => exchangeStatus x ≠ .ok) := by
  induction conns generalizing xs g with
  | nil =>
    rw [List.length_eq_zero_iff.mp h]
    exact (UInt64.add_zero _).symm
  | cons c conns ih =>
    cases xs with
    | nil => cases h
    | cons x xs =>
      rw [settleAll, ih (Nat.succ_inj.mp h)]
      change (recordMetric c.reallocated c.startNs c.endNs (statusCode (exchangeStatus x))
        g.metrics).errors + _ = _
      rw [recordMetric_errors, List.countP_cons, UInt64.ofNat_add, UInt64.add_assoc]
      congr 1
      by_cases hok : exchangeStatus x = .ok
      · rw [if_pos ((statusCode_ok _).mpr hok), if_neg (by simp [hok])]
        simp
      · rw [if_neg (mt (statusCode_ok _).mp hok), if_pos (by simp [hok]), UInt64.add_comm]
        rfl

theorem settleAll_latencies (h : xs.length = conns.length) (hrealloc : ∀ c ∈ conns, c.reallocated) :
    (settleAll cfg conns xs g).metrics.latencies =
      g.metrics.latencies ++ conns.map fun c => c.endNs - c.startNs := by
  induction conns generalizing xs g with
  | nil =>
    rw [List.length_eq_zero_iff.mp h]
    exact (List.append_nil _).symm
  | cons c conns ih =>
    cases xs with
    | nil => cases h
    | cons x xs =>
      obtain ⟨hfirst, hrest⟩ := List.forall_mem_cons.mp hrealloc
      rw [settleAll, ih (Nat.succ_inj.mp h) hrest]
      change (recordMetric c.reallocated c.startNs c.endNs (statusCode (exchangeStatus x))
        g.metrics).latencies ++ _ = _
      rw [hfirst, recordMetric_latencies, List.append_assoc]
      rfl

theorem takeReplies_of_reading {m : KeyValues} (h : ∀ c ∈ conns, c.room = none) :
    TakeReplies conns m := by
  induction conns generalizing m with
  | nil => trivial
  | cons c conns ih =>
    obtain ⟨hfirst, hrest⟩ := List.forall_mem_cons.mp h
    refine ⟨fun f _ k hk => ?_, ih hrest⟩
    rw [Connection.output, hfirst] at hk
    cases hk

/-- What a run that gets through its connections leaves. -/
theorem Settled.recorded {m : KeyValues} {run : Run} (h : Settled cfg conns m g run)
    (htelemetry : cfg.telemetry) :
    run.state.events.map Event.recorded = g.events.map Event.recorded ++
      (exchanges (conns.map Connection.client) m).map Gateway.recorded := by
  have hlength : (exchanges (conns.map Connection.client) m).length = conns.length := by
    rw [exchanges_length, List.length_map]
  rw [h.events, settleAll_events hlength, if_pos htelemetry, List.map_append,
    zipWith_event_recorded hlength]

/-- **A finite map.**  Whatever the clients send, the objects have distinct keys and are the map
that the well-formed requests make; each of them is answered as the map answers it, and every
connection is recorded. -/
theorem gateway_is_map (cfg : Config) (arrivals : List Arrival) (hserving : Serving arrivals)
    (hreading : ∀ c ∈ connections arrivals, c.room = none) :
    let conns := connections arrivals
    let xs := exchanges (conns.map Connection.client) noKeys
    let run := serve cfg arrivals .initial
    run.place = .accepting ∧ DistinctKeys run.state.objects ∧
      (∀ key, lookup run.state.objects key =
        (fold (conns.map Connection.client) noKeys key).map Subtype.val) ∧
      run.outputs.map Output.written = xs.map reply ∧
      (∀ c ∈ conns, request? c.input.bytes = none → ∀ g, serveConnection cfg c g =
        (.accepting, finish cfg c none c3mStatusProtocolError g, c.output)) ∧
      (cfg.telemetry → run.state.events.map Event.recorded = xs.map recorded) ∧
      run.state.metrics.errors = UInt64.ofNat (xs.countP fun x => exchangeStatus x ≠ .ok) ∧
      ((∀ c ∈ conns, c.reallocated) →
        run.state.metrics.latencies = conns.map fun c => c.endNs - c.startNs) := by
  intro conns xs run
  have hrun : Settled cfg conns noKeys .initial run :=
    serve_settled cfg hserving represents_empty (takeReplies_of_reading hreading)
  have hlength : xs.length = conns.length := by
    rw [exchanges_length, List.length_map]
  refine ⟨hrun.place, hrun.objects.distinct, hrun.objects.lookup, hrun.outputs,
    fun c _ hbytes g => serveConnection_malformed hbytes, fun htelemetry => ?_, ?_,
    fun hrealloc => ?_⟩
  · exact hrun.recorded htelemetry
  · rw [hrun.metrics, settleAll_errors hlength]
    exact UInt64.zero_add _
  · rw [hrun.metrics, settleAll_latencies hlength hrealloc]
    rfl

/-- A client that sends the bytes in one piece and ends its input. -/
def connectionOf (bs : Bytes) (room : Option ℕ) : Connection where
  input := .push bs .eof
  answers := []
  room := room
  mallocs := []
  reallocated := true
  startNs := 0
  endNs := 0
  tsUnixNs := 0

theorem connectionOf_bytes (bs : Bytes) (room : Option ℕ) :
    (connectionOf bs room).input.bytes = bs :=
  (Input.bytes_push bs .eof).trans (List.append_nil bs)

def plainConfig : Config := mainConfig .little 1 true ⟨none, none, none, false⟩

/-- A GET of the key `k`. -/
def getFrame : RequestFrame :=
  ⟨7, .get, [0x6b], [], by decide, by decide, by decide, fun _ => rfl⟩

def putFrame : RequestFrame :=
  { getFrame with
    requestId := 6
    operation := .put
    value := [0x76]
    value_le := by decide
    value_put := fun h => absurd rfl h }

def deleteFrame : RequestFrame :=
  { getFrame with
    requestId := 8
    operation := .delete
    value_put := fun _ => rfl }

/-- The key is stored, found, deleted and not found again; the last message is no request. -/
def sessionMessages : List Bytes :=
  [putFrame.encode, getFrame.encode, deleteFrame.encode, getFrame.encode, [0]]

/-- Clients with these messages, and an `accept` that is interrupted. -/
def sessionArrivals : List Arrival :=
  (sessionMessages.map fun bs => .connection (connectionOf bs none)) ++ [.interrupted]

theorem sessionArrivals_serving : Serving sessionArrivals := by
  simp [Serving, sessionArrivals, sessionMessages]

theorem sessionArrivals_reading : ∀ c ∈ connections sessionArrivals, c.room = none := by
  simp [connections, Arrival.connection?, connectionOf, sessionArrivals, sessionMessages]

theorem gateway_is_map_session :
    let xs := exchanges ((connections sessionArrivals).map Connection.client) noKeys
    let run := serve plainConfig sessionArrivals .initial
    run.place = .accepting ∧ run.outputs.map Output.written = xs.map reply ∧
      run.state.events.map Event.recorded = xs.map recorded := by
  obtain ⟨hplace, -, -, houtputs, -, hevents, -⟩ := gateway_is_map plainConfig sessionArrivals
    sessionArrivals_serving sessionArrivals_reading
  exact ⟨hplace, houtputs, hevents rfl⟩

/-- The process is back at `accept`, with the store and the events of the exchanges. -/
structure Survived (cfg : Config) (arrivals : List Arrival) (run : Run) : Prop where
  place : run.place = .accepting
  objects : Represents run.state.objects (fold ((connections arrivals).map Connection.client) noKeys)
  events : cfg.telemetry → run.state.events.map Event.recorded =
    (exchanges ((connections arrivals).map Connection.client) noKeys).map recorded

/-- **Clients that go away.**  The gateway as `main` starts it survives its clients exactly when
each of them takes the whole response to its request. -/
theorem gateway_survives_iff (order : ByteOrder) (fingerprintSecret : UInt64) (telemetry : Bool)
    (env : Environment) (arrivals : List Arrival) (hserving : Serving arrivals) :
    Survived (mainConfig order fingerprintSecret telemetry env) arrivals
        (serve (mainConfig order fingerprintSecret telemetry env) arrivals .initial) ↔
      TakeReplies (connections arrivals) noKeys := by
  refine ⟨fun h => ?_, fun htake => ?_⟩
  · by_contra htake
    have hkilled := serve_killed (show (mainConfig order fingerprintSecret telemetry env).sigpipe =
      _ from rfl)
      hserving (g := .initial) represents_empty htake
    rw [h.place] at hkilled
    cases hkilled
  · have hrun := serve_settled (mainConfig order fingerprintSecret telemetry env) hserving
      (g := .initial) represents_empty htake
    exact ⟨hrun.place, hrun.objects, hrun.recorded⟩

theorem gateway_survives_iff_session :
    Survived plainConfig sessionArrivals (serve plainConfig sessionArrivals .initial) :=
  (gateway_survives_iff .little 1 true ⟨none, none, none, false⟩ sessionArrivals
    sessionArrivals_serving).mpr (takeReplies_of_reading sessionArrivals_reading)

/-- The client sends a whole request and is gone before the response. -/
theorem gateway_killed :
    (serve plainConfig [.connection (connectionOf getFrame.encode (some 0))] .initial).place =
      .killed := by
  refine serve_killed rfl (by simp [Serving]) represents_empty fun htake => ?_
  have hbytes : request? (connectionOf getFrame.encode (some 0)).input.bytes = some getFrame := by
    rw [connectionOf_bytes]
    exact request?_eq_some.mpr ⟨[], (List.append_nil _).symm⟩
  have hroom : 20 ≤ 0 := htake.1 getFrame hbytes 0 rfl
  omega

end Cote3Mon.Gateway
