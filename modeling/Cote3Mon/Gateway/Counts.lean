import Cote3Mon.Features.Totals
import Cote3Mon.Gateway.Contract
import Cote3Mon.Gateway.Telemetry

namespace Cote3Mon.Gateway
open ByteText Cote3Mon.Python Stream Protocol Protocol.C Words

/-- `dispatch` with some backend: the status of the response, its value, and the backend
afterwards. -/
abbrev Dispatch (β : Type) := Connection → Request → β → UInt16 × Bytes × β

def mockDispatch : Dispatch (List Object) := fun c request objects =>
  let (status, value, backend) := dispatch request ⟨objects, c.mallocs⟩
  (status, value, backend.objects)

/-- A connection that the loop is through with. -/
structure Served where
  connection : Connection
  parsed : Option Request
  status : UInt16

structure Service where
  place : Place
  served : List Served

variable {β : Type}

/-- The body of the loop after `accept`; `none` is the end of the process. -/
def serveOne (cfg : Config) (dispatch : Dispatch β) (c : Connection) (backend : β) :
    Option Served × β :=
  match recvRequest cfg.order c.input with
  | (.error _, _) => (some ⟨c, none, c3mStatusProtocolError⟩, backend)
  | (.ok request, _) =>
    let (status, value, backend) := dispatch c request backend
    match sendResponse cfg.order cfg.sigpipe
        ⟨request.requestId, status, UInt32.ofNat value.length, value⟩ c.output with
    | (.killed, _) => (none, backend)
    | _ => (some ⟨c, some request, status⟩, backend)

/-- The loop of `serve`. -/
def serveWith (cfg : Config) (dispatch : Dispatch β) : List Arrival → β → Service
  | [], _ => ⟨.accepting, []⟩
  | .connection c :: rest, backend =>
    match serveOne cfg dispatch c backend with
    | (some s, backend) =>
      let service := serveWith cfg dispatch rest backend
      { service with served := s :: service.served }
    | (none, _) => ⟨.killed, []⟩
  | .interrupted :: rest, backend => serveWith cfg dispatch rest backend
  | .failed :: _, _ => ⟨.returned, []⟩
  | .stopping :: _, _ => ⟨.returned, []⟩

/-- The connections that are accepted before `accept` fails or `stopping` is seen set. -/
def accepted : List Arrival → List Connection
  | .connection c :: rest => c :: accepted rest
  | .interrupted :: rest => accepted rest
  | _ => []

/-- What `log_event` writes about a connection. -/
def Served.event (cfg : Config) (s : Served) : Event :=
  logEvent cfg s.parsed s.status (s.connection.endNs - s.connection.startNs) s.connection.tsUnixNs

variable {cfg : Config} {dispatch : Dispatch β} {arrivals : List Arrival} {backend : β}
  {c : Connection} {s : Served}

/-- What was parsed is a well-formed request. -/
theorem serveOne_served {after : β} (h : serveOne cfg dispatch c backend = (some s, after)) :
    s.connection = c ∧ ∀ request ∈ s.parsed, ∃ f, request = .ofFrame f := by
  unfold serveOne at h
  rcases hrecv : recvRequest cfg.order c.input with ⟨_ | request, input⟩
  · rw [hrecv] at h
    rw [← Option.some.inj (Prod.mk.inj h).1]
    exact ⟨rfl, fun _ hnone => by cases hnone⟩
  · rw [hrecv] at h
    dsimp only at h
    obtain ⟨f, hf, -⟩ := recvRequest_ok hrecv
    split at h
    · cases h
    · rw [← Option.some.inj (Prod.mk.inj h).1]
      exact ⟨rfl, fun request' hsome => ⟨f, (Option.some.inj hsome).symm.trans hf⟩⟩

/-- With the mock backend it is the body with its store, its metrics and its events. -/
theorem serveConnection_serveOne (cfg : Config) (c : Connection) (g : State) :
    (∃ s objects output, serveOne cfg mockDispatch c g.objects = (some s, objects) ∧
        s.connection = c ∧ serveConnection cfg c g =
          (.accepting, finish cfg c s.parsed s.status { g with objects := objects }, output)) ∨
      ∃ objects output, serveOne cfg mockDispatch c g.objects = (none, objects) ∧
        serveConnection cfg c g = (.killed, { g with objects := objects }, output) := by
  unfold serveOne serveConnection
  rcases recvRequest cfg.order c.input with ⟨_ | request, input⟩
  · exact Or.inl ⟨_, _, _, rfl, rfl, rfl⟩
  · dsimp only [mockDispatch]
    rcases sendResponse cfg.order cfg.sigpipe ⟨request.requestId,
      (Gateway.dispatch request ⟨g.objects, c.mallocs⟩).1, _, _⟩ c.output with ⟨_ | _ | _, output⟩
    · exact Or.inl ⟨_, _, _, rfl, rfl, rfl⟩
    · exact Or.inl ⟨_, _, _, rfl, rfl, rfl⟩
    · exact Or.inr ⟨_, _, rfl, rfl⟩

/-- With the mock backend the loop logs the events of what it serves. -/
theorem serve_events (htelemetry : cfg.telemetry) (arrivals : List Arrival) (g : State) :
    (serve cfg arrivals g).place = (serveWith cfg mockDispatch arrivals g.objects).place ∧
      (serve cfg arrivals g).state.events = g.events ++
        (serveWith cfg mockDispatch arrivals g.objects).served.map (Served.event cfg) := by
  induction arrivals generalizing g with
  | nil => exact ⟨rfl, (List.append_nil _).symm⟩
  | cons a rest ih =>
    cases a with
    | connection c =>
      rw [serve_cons, serveWith]
      rcases serveConnection_serveOne cfg c g with
        ⟨s, objects, output, hone, rfl, hstep⟩ | ⟨objects, output, hone, hstep⟩
      · rw [hone, hstep]
        obtain ⟨hplace, hevents⟩ := ih (finish cfg s.connection s.parsed s.status
          { g with objects := objects })
        refine ⟨hplace, hevents.trans ?_⟩
        rw [finish, if_pos htelemetry, List.append_assoc]
        rfl
      · rw [hone, hstep]
        exact ⟨rfl, (List.append_nil _).symm⟩
    | interrupted => exact ih g
    | failed => exact ⟨rfl, (List.append_nil _).symm⟩
    | stopping => exact ⟨rfl, (List.append_nil _).symm⟩

/-- A process that is not killed is through with every connection that it has accepted. -/
theorem served_accepted (h : (serveWith cfg dispatch arrivals backend).place ≠ .killed) :
    (serveWith cfg dispatch arrivals backend).served.map Served.connection = accepted arrivals := by
  induction arrivals generalizing backend with
  | nil => rfl
  | cons a rest ih =>
    cases a with
    | connection c =>
      rw [serveWith] at h ⊢
      rcases hone : serveOne cfg dispatch c backend with ⟨_ | s, after⟩
      · rw [hone] at h
        exact absurd rfl h
      · rw [hone] at h
        rw [accepted, ← (serveOne_served hone).1, ← ih h]
        rfl
    | interrupted => exact ih h
    | failed => rfl
    | stopping => rfl

theorem parsed_frame (hs : s ∈ (serveWith cfg dispatch arrivals backend).served) :
    ∀ request ∈ s.parsed, ∃ f, request = .ofFrame f := by
  induction arrivals generalizing backend with
  | nil => exact absurd hs List.not_mem_nil
  | cons a rest ih =>
    cases a with
    | connection c =>
      rw [serveWith] at hs
      rcases hone : serveOne cfg dispatch c backend with ⟨_ | s', after⟩
      · rw [hone] at hs
        exact absurd hs List.not_mem_nil
      · rw [hone] at hs
        rcases List.mem_cons.mp hs with rfl | hs
        · exact (serveOne_served hone).2
        · exact ih hs
    | interrupted => exact ih hs
    | failed => exact absurd hs List.not_mem_nil
    | stopping => exact absurd hs List.not_mem_nil

/-- The texts that stand for operations, as the feature code compares them. -/
theorem operationName_eq (operation : Operation) :
    (text (c3mOperationName (UInt16.ofNat operation.code)) = text "PUT" ↔
        UInt16.ofNat operation.code = c3mOpPut) ∧
      (text (c3mOperationName (UInt16.ofNat operation.code)) = text "GET" ↔
        UInt16.ofNat operation.code = c3mOpGet) ∧
      (text (c3mOperationName (UInt16.ofNat operation.code)) = text "DELETE" ↔
        UInt16.ofNat operation.code = c3mOpDelete) ∧
      text (c3mOperationName (UInt16.ofNat operation.code)) ≠ text "REJECT" := by
  cases operation <;> decide

theorem statusName_eq (status : UInt16) :
    text (c3mStatusName status) = text "OK" ↔ status = c3mStatusOk := by
  unfold c3mStatusName
  split_ifs with hok
  · exact iff_of_true rfl hok
  · exact iff_of_false (by decide) hok
  · exact iff_of_false (by decide) hok
  · exact iff_of_false (by decide) hok
  · exact iff_of_false (by decide) hok
  · exact iff_of_false (by decide) hok

/-- `str.upper` leaves a text without lower-case letters as it is. -/
theorem upper_eq {K : Type} (lib : Features.Library K) {t : Text} (h : ∀ c ∈ t, c < 97) :
    lib.upper t = t := by
  induction t with
  | nil => rfl
  | cons c t ih =>
    obtain ⟨hc, ht⟩ := List.forall_mem_cons.mp h
    have hrest := ih ht
    rw [Features.Library.upper] at hrest ⊢
    rw [List.flatMap_cons, hrest, if_neg (by omega), if_pos (by omega), List.singleton_append]

theorem operationName_upper (operation : UInt16) :
    ∀ c ∈ text (c3mOperationName operation), c < 97 := by
  unfold c3mOperationName
  split_ifs <;> decide

theorem statusName_upper (status : UInt16) : ∀ c ∈ text (c3mStatusName status), c < 97 := by
  unfold c3mStatusName
  split_ifs <;> decide

def Served.operation (s : Served) : Option UInt16 := s.parsed.map Request.operation

section Read

variable {K : Type} (lib : Features.Library K) (cfg) (latency : ℚ)

theorem statusOf_readEvent (s : Served) :
    lib.statusOf (readEvent latency (s.event cfg)) = text "OK" ↔ s.status = c3mStatusOk := by
  rw [← statusName_eq, ← upper_eq lib (statusName_upper s.status)]
  rfl

theorem operationOf_eq (e : Event) :
    lib.operationOf (readEvent latency e) = lib.upper (text e.operation) := rfl

theorem operationOf_readEvent (hs : ∀ request ∈ s.parsed, ∃ f, request = .ofFrame f) :
    (lib.operationOf (readEvent latency (s.event cfg)) = text "PUT" ↔ s.operation = some c3mOpPut) ∧
      (lib.operationOf (readEvent latency (s.event cfg)) = text "GET" ↔ s.operation =
        some c3mOpGet) ∧
      (lib.operationOf (readEvent latency (s.event cfg)) = text "DELETE" ↔
        s.operation = some c3mOpDelete) ∧
      (lib.operationOf (readEvent latency (s.event cfg)) = text "REJECT" ↔ s.parsed = none) := by
  obtain ⟨c, parsed, status⟩ := s
  cases parsed with
  | none =>
    have hreject : lib.operationOf (readEvent latency (Served.event cfg ⟨c, none, status⟩)) =
        text "REJECT" := by
      rw [operationOf_eq, show (Served.event cfg ⟨c, none, status⟩).operation = "REJECT" from rfl]
      exact upper_eq lib (by decide)
    rw [hreject]
    exact ⟨iff_of_false (by decide) (by simp [Served.operation]),
      iff_of_false (by decide) (by simp [Served.operation]),
      iff_of_false (by decide) (by simp [Served.operation]), iff_of_true rfl rfl⟩
  | some request =>
    obtain ⟨f, rfl⟩ := hs request rfl
    have hname : lib.operationOf (readEvent latency
      (Served.event cfg ⟨c, some (.ofFrame f), status⟩)) =
        text (c3mOperationName (UInt16.ofNat f.operation.code)) :=
          upper_eq lib (operationName_upper _)
    have hoperation : Served.operation ⟨c, some (.ofFrame f), status⟩ =
        some (UInt16.ofNat f.operation.code) := rfl
    obtain ⟨hput, hget, hdelete, hreject⟩ := operationName_eq f.operation
    rw [hname, hoperation, Option.some.injEq, Option.some.injEq, Option.some.injEq]
    exact ⟨hput, hget, hdelete, iff_of_false hreject (by simp)⟩

end Read

/-- `key_len + value_len`. -/
def requestBytes (request : Request) : ℕ := request.keyLen.toNat + request.valueLen.toNat

theorem inputBytes_event (hs : ∀ request ∈ s.parsed, ∃ f, request = .ofFrame f) :
    (s.event cfg).inputBytes.toNat = (s.parsed.map requestBytes).getD 0 := by
  obtain ⟨c, parsed, status⟩ := s
  cases parsed with
  | none => rfl
  | some request =>
    obtain ⟨f, rfl⟩ := hs request rfl
    change ((Request.ofFrame f).keyLen + (Request.ofFrame f).valueLen).toNat =
      requestBytes (.ofFrame f)
    rw [inputBytes_ofFrame, requestBytes, keyLen_ofFrame, valueLen_ofFrame]

/-- What the rows of windows of `windowSeconds` say about the connections that were served. -/
structure Counted {K : Type} (served : List Served) (windowSeconds : ℤ)
    (rows : List (Features.Row K)) : Prop where
  put : Features.total windowSeconds Features.Row.putRatio rows =
    served.countP fun s => s.operation = some c3mOpPut
  get : Features.total windowSeconds Features.Row.getRatio rows =
    served.countP fun s => s.operation = some c3mOpGet
  delete : Features.total windowSeconds Features.Row.deleteRatio rows =
    served.countP fun s => s.operation = some c3mOpDelete
  reject : Features.total windowSeconds Features.Row.rejectRatio rows =
    served.countP fun s => s.parsed.isNone
  error : Features.total windowSeconds Features.Row.errorRatio rows =
    served.countP fun s => s.status ≠ c3mStatusOk
  /-- The largest `key_len + value_len` among the requests of the row. -/
  inputMaxBytes : ∀ row ∈ rows, row.inputMaxBytes =
    (((served.filter fun s => Features.windowStart (Features.nanoseconds windowSeconds)
        s.connection.tsUnixNs.toNat = row.windowStartNs).filterMap Served.parsed).map
      requestBytes).max?.getD 0

section Rows

variable {K : Type} [Field K] {lib : Features.Library K} {served : List Served} {windowSeconds : ℤ}
  {latency : Served → ℚ}

def readEvents (cfg : Config) (latency : Served → ℚ) (served : List Served) : List Features.Event :=
  served.map fun s => readEvent (latency s) (s.event cfg)

theorem requestsOf_readEvents :
    Features.requestsOf (readEvents cfg latency served) = readEvents cfg latency served := by
  apply List.filter_eq_self.mpr
  intro e he
  obtain ⟨s, -, rfl⟩ := List.mem_map.mp he
  rfl

/-- Requests counted by what they say, and connections by what was served. -/
theorem countP_readEvents {p : Features.Event → Bool} {q : Served → Bool}
    (h : ∀ s ∈ served, p (readEvent (latency s) (s.event cfg)) ↔ q s) :
    (Features.requestsOf (readEvents cfg latency served)).countP p = served.countP q := by
  rw [requestsOf_readEvents, readEvents, List.countP_map]
  exact List.countP_congr h

omit [Field K] in
/-- A connection and the bucket of a row. -/
theorem mem_bucket_iff {row : Features.Row K} {e : Features.Event} :
    e ∈ Features.requestsOf (Features.bucketAt (readEvents cfg latency served)
        (Features.nanoseconds windowSeconds) (Features.nanoseconds 0)
        (toLex (row.runId, row.windowStartNs))) ↔
      ∃ s ∈ served, readEvent (latency s) (s.event cfg) = e ∧ chars cfg.runId = row.runId ∧
        Features.windowStart (Features.nanoseconds windowSeconds) s.connection.tsUnixNs.toNat =
          row.windowStartNs := by
  rw [Features.requestsOf_bucketAt, requestsOf_readEvents, List.mem_filter, readEvents, List.mem_map,
    decide_eq_true_iff, Features.keyOf_eq_iff]
  constructor
  · rintro ⟨⟨s, hs, rfl⟩, hkey⟩
    exact ⟨s, hs, rfl, hkey⟩
  · rintro ⟨s, hs, rfl, hkey⟩
    exact ⟨⟨s, hs, rfl⟩, hkey⟩

theorem inputMaxBytes_eq (hframes : ∀ s ∈ served, ∀ request ∈ s.parsed, ∃ f, request = .ofFrame f)
    {row : Features.Row K}
    (hrow : row ∈ Features.rowsOf lib (readEvents cfg latency served) windowSeconds 0) :
    row.inputMaxBytes =
      (((served.filter fun s => Features.windowStart (Features.nanoseconds windowSeconds)
          s.connection.tsUnixNs.toNat = row.windowStartNs).filterMap Served.parsed).map
        requestBytes).max?.getD 0 := by
  have hbytes : ∀ s ∈ served, ((readEvent (latency s) (s.event cfg)).inputBytes.getD 0 : ℚ) =
      ((s.parsed.map requestBytes).getD 0 : ℕ) := fun s hs =>
    congrArg Nat.cast (inputBytes_event (hframes s hs))
  obtain ⟨⟨top, htop, hattained⟩, hbound⟩ := (Features.row_bucket hrow).inputMaxBytes
  obtain ⟨s, hs, rfl, hrun, hwindow⟩ := mem_bucket_iff.mp htop
  rw [hbytes s hs] at hattained
  have hmem : ∀ s ∈ served, ∀ request ∈ s.parsed, Features.windowStart
      (Features.nanoseconds windowSeconds) s.connection.tsUnixNs.toNat = row.windowStartNs →
        requestBytes request ∈ ((served.filter fun s => Features.windowStart
          (Features.nanoseconds windowSeconds) s.connection.tsUnixNs.toNat =
            row.windowStartNs).filterMap Served.parsed).map requestBytes := by
    intro s hs request hparsed hwindow
    apply List.mem_map_of_mem
    exact List.mem_filterMap.mpr ⟨s, List.mem_filter.mpr ⟨hs, decide_eq_true hwindow⟩, hparsed⟩
  apply le_antisymm
  · rw [← hattained, Nat.cast_le]
    cases hparsed : s.parsed with
    | none => exact Nat.zero_le _
    | some request => exact List.le_max?_getD_of_mem (hmem s hs request hparsed hwindow)
  · generalize hsizes : ((served.filter fun s => Features.windowStart
      (Features.nanoseconds windowSeconds) s.connection.tsUnixNs.toNat =
        row.windowStartNs).filterMap Served.parsed).map requestBytes = sizes
    cases hmax : sizes.max? with
    | none =>
      rw [← hattained]
      exact_mod_cast Nat.zero_le _
    | some size =>
      have hsize : size ∈ sizes := (List.max?_eq_some_iff.mp hmax).1
      rw [← hsizes, List.mem_map] at hsize
      obtain ⟨request, hrequest, rfl⟩ := hsize
      obtain ⟨s', hs', hparsed⟩ := List.mem_filterMap.mp hrequest
      obtain ⟨hserved, hin⟩ := List.mem_filter.mp hs'
      have hle := hbound _ (mem_bucket_iff.mpr ⟨s', hserved, rfl, hrun, of_decide_eq_true hin⟩)
      rw [hbytes s' hserved, hparsed] at hle
      exact hle

theorem counted_rowsOf (hframes : ∀ s ∈ served, ∀ request ∈ s.parsed, ∃ f, request = .ofFrame f)
    (hwindow : 0 < windowSeconds) : Counted served windowSeconds
      (Features.rowsOf lib (readEvents cfg latency served) windowSeconds 0) := by
  have hoperation := fun s hs => operationOf_readEvent cfg lib (latency s) (hframes s hs)
  constructor
  · rw [Features.total_rowsOf hwindow _ fun _ _ _ h => h.putRatio, countP_readEvents]
    exact fun s hs => by simpa using (hoperation s hs).1
  · rw [Features.total_rowsOf hwindow _ fun _ _ _ h => h.getRatio, countP_readEvents]
    exact fun s hs => by simpa using (hoperation s hs).2.1
  · rw [Features.total_rowsOf hwindow _ fun _ _ _ h => h.deleteRatio, countP_readEvents]
    exact fun s hs => by simpa using (hoperation s hs).2.2.1
  · rw [Features.total_rowsOf hwindow _ fun _ _ _ h => h.rejectRatio, countP_readEvents]
    exact fun s hs => by simpa using (hoperation s hs).2.2.2
  · rw [Features.total_rowsOf hwindow _ fun _ _ _ h => h.errorRatio, countP_readEvents]
    exact fun s hs => by simpa using not_congr (statusOf_readEvent cfg lib (latency s) s)
  · exact fun row hrow => inputMaxBytes_eq hframes hrow

end Rows

/-- A member of a line that holds a safe identifier. -/
def HasIdentifier (d : Dict) (name : String) : Prop :=
  ∃ t, d.get name = .str t ∧ t ≠ [] ∧ ∀ c ∈ t, IsWord c

variable {rt : Runtime}

theorem printable_served (order : ByteOrder) (secret : UInt64) (telemetry : Bool) (env : Environment)
    (s : Served) : Printable (s.event (mainConfig order secret telemetry env)) :=
  printable_logEvent order secret telemetry env s.parsed s.status _ _

theorem identifiers (order : ByteOrder) (secret : UInt64) (telemetry : Bool) (env : Environment)
    (s : Served) : ∀ name ∈ ["run_id", "container_id", "scenario"],
      HasIdentifier (lineDict rt (s.event (mainConfig order secret telemetry env))) name := by
  have hidentifier := fun source => safeIdentifier_words (show 2 ≤ 65 by decide) source
  intro name hname
  simp only [List.mem_cons, List.not_mem_nil, or_false] at hname
  rcases hname with rfl | rfl | rfl
  · exact ⟨_, rfl, hidentifier env.runId⟩
  · exact ⟨_, rfl, hidentifier env.containerId⟩
  · exact ⟨_, rfl, hidentifier env.scenario⟩

/-- **What was served is what is counted.**  Whatever the environment, the backend and the clients
are, each line of telemetry is one object with safe identifiers, the file is read back, and the rows
count the connections that the process is through with: all that it has accepted, unless a client
that went away has ended it. -/
theorem served_is_counted {K : Type} [Field K] (lib : Features.Library K) (rt : Runtime)
    (hfractions : ReadsFractions rt) (order : ByteOrder) (secret : UInt64) (env : Environment)
    (dispatch : Dispatch β) (backend : β) (arrivals : List Arrival) (windowSeconds : ℤ)
    (hwindow : 0 < windowSeconds) :
    let cfg := mainConfig order secret true env
    let run := serveWith cfg dispatch arrivals backend
    let file := telemetryText (run.served.map (Served.event cfg))
    (run.place ≠ .killed → run.served.map Served.connection = accepted arrivals) ∧
      encodeUtf8 file = .ok (file.map UInt8.ofNat) ∧
      (∀ s ∈ run.served, ∃ d, readJsonl rt (eventLine (s.event cfg)) = .ok [.obj d] ∧
        ∀ name ∈ ["run_id", "container_id", "scenario"], HasIdentifier d name) ∧
      ∃ lines events rows, readJsonl rt file = .ok lines ∧ lines.map eventOf = events.map some ∧
        Features.aggregateEvents lib events windowSeconds 0 = .ok rows ∧
        Counted run.served windowSeconds rows := by
  intro cfg run file
  have hprintable : ∀ e ∈ run.served.map (Served.event cfg), Printable e := by
    intro e he
    obtain ⟨s, -, rfl⟩ := List.mem_map.mp he
    exact printable_served order secret true env s
  have hframes : ∀ s ∈ run.served, ∀ request ∈ s.parsed, ∃ f, request = .ofFrame f :=
    fun s hs => parsed_frame hs
  choose latency hlatency using fun s : Served => exists_latency hfractions (s.event cfg).latencyNs
  refine ⟨served_accepted, encodeUtf8_telemetryText hprintable, fun s _ => ?_,
    _, readEvents cfg latency run.served, _, readJsonl_telemetryText rt hprintable, ?_,
    Features.aggregateEvents_ok lib _ hwindow le_rfl, counted_rowsOf hframes hwindow⟩
  · refine ⟨lineDict rt (s.event cfg), ?_, identifiers order secret true env s⟩
    have hline : readJsonl rt (telemetryText [s.event cfg]) =
        .ok [.obj (lineDict rt (s.event cfg))] :=
      readJsonl_telemetryText rt
        (List.forall_mem_singleton.mpr (printable_served order secret true env s))
    rwa [telemetryText, List.flatMap_singleton] at hline
  · rw [readEvents, List.map_map, List.map_map, List.map_map]
    exact List.map_congr_left fun s _ => eventOf_lineDict rt (hlatency s)

def fractionRuntime : Runtime :=
  { plainRuntime with
    parseFloat := fun t => .finite false
      (decimalValue (t.takeWhile isDigit) + decimalValue ((t.dropWhile isDigit).drop 1) / 1000) }

theorem served_is_counted_session : ∃ rows : List Features.Row,
    Counted (serveWith plainConfig mockDispatch sessionArrivals []).served 5 rows := by
  obtain ⟨-, -, -, -, -, rows, -, -, -, hcounted⟩ := served_is_counted Features.plainLibrary
    fractionRuntime (fun _ _ _ _ _ => rfl) .little 1 ⟨none, none, none, false⟩ mockDispatch []
    sessionArrivals 5 (by decide)
  exact ⟨rows, hcounted⟩

end Cote3Mon.Gateway
