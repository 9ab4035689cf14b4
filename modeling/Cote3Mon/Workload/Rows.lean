import Cote3Mon.Gateway.Counts
import Cote3Mon.Gateway.Fingerprints
import Cote3Mon.Gateway.Interchange
import Cote3Mon.Python.Dumps
import Cote3Mon.Workload.Traffic

namespace Cote3Mon.Workload
open ByteText Stream Protocol Protocol.C Cote3Mon.Gateway Cote3Mon.Python

/-- A line of telemetry about an exchange.  The fingerprints are those of the key, and of the whole
request. -/
structure Says (ofKey : Bytes → Text) (ofRequest : Operation → Bytes → Bytes → Text)
    (x : Option Exchange) (e : Features.Event) : Prop where
  operation : e.operation = some (text (recorded x).operation)
  result : e.result = some (text (recorded x).result)
  inputBytes : e.inputBytes = some ((recorded x).inputBytes : ℚ)
  keyFingerprint : e.keyFingerprint = some ((x.map fun x => ofKey x.request.key).getD [])
  requestFingerprint : e.requestFingerprint =
    some ((x.map fun x => ofRequest x.request.operation x.request.key x.request.value).getD [])

variable {ofKey : Bytes → Text} {ofRequest : Operation → Bytes → Bytes → Text} {x : Option Exchange}
  {e : Features.Event} {s : Scenario} {message : Message} {f : RequestFrame} {K : Type}

theorem Says.operationOf (h : Says ofKey ofRequest x e) (lib : Features.Library K)
    {name : String} (hname : (recorded x).operation = name) (hupper : ∀ c ∈ text name, c < 97) :
    lib.operationOf e = text name := by
  rw [Features.Library.operationOf, h.operation, hname]
  exact upper_eq lib hupper

theorem Says.statusOf (h : Says ofKey ofRequest x e) (lib : Features.Library K) :
    lib.statusOf e = text "OK" ↔ exchangeStatus x = .ok := by
  have hresult : (recorded x).result = statusName (exchangeStatus x) := by cases x <;> rfl
  rw [Features.Library.statusOf, h.result, hresult]
  have hupper : ∀ status, ∀ c ∈ text (statusName status), c < 97 := by
    intro status
    cases status <;> decide
  rw [Option.getD_some, upper_eq lib (hupper _)]
  cases exchangeStatus x <;> decide

section Ratios

variable {requests : List Features.Event} {t : Text} {member : Features.Event → Option Text}

theorem ratio_one {p : Features.Event → Bool} (hne : requests ≠ []) (h : ∀ e ∈ requests, p e) :
    ((requests.countP p : ℕ) : ℚ) / requests.length = 1 := by
  have hlength : (requests.length : ℚ) ≠ 0 := by
    exact_mod_cast (List.length_pos_iff.mpr hne).ne'
  rw [List.countP_eq_length.mpr h, div_self hlength]

theorem ratio_zero {p : Features.Event → Bool} (h : ∀ e ∈ requests, ¬p e) :
    ((requests.countP p : ℕ) : ℚ) / requests.length = 0 := by
  rw [List.countP_eq_zero.mpr h, Nat.cast_zero, zero_div]

theorem truthy_map {g : Features.Event → Text}
    (h : ∀ e ∈ requests, member e = some (g e) ∧ g e ≠ []) :
    Features.truthy member requests = requests.map g := by
  have hmap : requests.filterMap member = requests.map g := by
    rw [← List.filterMap_eq_map]
    exact List.filterMap_congr fun e he => (h e he).1
  rw [Features.truthy, hmap, List.filter_eq_self]
  intro t ht
  obtain ⟨e, he, rfl⟩ := List.mem_map.mp ht
  simpa using (h e he).2

/-- Where every event has the same text, all but one of them are repetitions. -/
theorem reuse_const (hne : requests ≠ []) (h : ∀ e ∈ requests, member e = some t) (ht : t ≠ []) :
    Features.reuseRatio (Features.truthy member requests) = 1 - 1 / requests.length := by
  have hpos : requests.length ≠ 0 := (List.length_pos_iff.mpr hne).ne'
  have htruthy : Features.truthy member requests = List.replicate requests.length t := by
    rw [truthy_map (g := fun _ => t) fun e he => ⟨h e he, ht⟩, List.map_const']
  have hnil : List.replicate requests.length t ≠ [] := by simpa using hne
  rw [htruthy, Features.reuseRatio, if_neg hnil, List.replicate_dedup hpos, List.length_replicate,
    List.length_singleton, Nat.cast_one]

/-- Of texts from a pool at most as many are distinct as the pool has. -/
theorem reuse_pool (pool : List Text) (hne : requests ≠ [])
    (h : ∀ e ∈ requests, ∃ t ∈ pool, member e = some t ∧ t ≠ []) :
    1 - (pool.length : ℚ) / requests.length ≤
      Features.reuseRatio (Features.truthy member requests) := by
  have hpos : (0 : ℚ) < requests.length := by exact_mod_cast List.length_pos_iff.mpr hne
  have htext : ∀ e ∈ requests, member e = some ((member e).getD []) ∧ (member e).getD [] ≠ [] ∧
      (member e).getD [] ∈ pool := by
    intro e he
    obtain ⟨t, hpool, ht, hnil⟩ := h e he
    rw [ht]
    exact ⟨rfl, hnil, hpool⟩
  have htruthy := truthy_map fun e he => ⟨(htext e he).1, (htext e he).2.1⟩
  have hnil : requests.map (fun e => (member e).getD []) ≠ [] := by simpa using hne
  have hsubset : (requests.map fun e => (member e).getD []).dedup ⊆ pool := by
    intro t ht
    obtain ⟨e, he, rfl⟩ := List.mem_map.mp (List.mem_dedup.mp ht)
    exact (htext e he).2.2
  have hlength := (List.subperm_of_subset (List.nodup_dedup _) hsubset).length_le
  rw [htruthy, Features.reuseRatio, if_neg hnil, List.length_map]
  apply sub_le_sub_left
  apply div_le_div_of_nonneg_right _ hpos.le
  exact_mod_cast hlength

/-- Without texts there is no reuse. -/
theorem reuse_none (h : ∀ e ∈ requests, member e = some []) :
    Features.reuseRatio (Features.truthy member requests) = 0 := by
  have htruthy : Features.truthy member requests = [] := by
    rw [Features.truthy, List.filter_eq_nil_iff]
    intro t ht
    obtain ⟨e, he, hmember⟩ := List.mem_filterMap.mp ht
    rw [← Option.some.inj ((h e he).symm.trans hmember)]
    decide
  rw [htruthy]
  rfl

end Ratios

/-- The marks of a row of a scenario; `n` is the number of its requests. -/
def Scenario.Marks (s : Scenario) (n : ℚ) (row : Features.Row K) : Prop :=
  match s with
  | .steady => row.rejectRatio = 0 ∧ 6 ≤ row.inputMaxBytes ∧ row.inputMaxBytes ≤ 70 ∧
      1 - 32 / n ≤ row.keyReuseRatio
  | .bursty => row.putRatio = 1 ∧ row.errorRatio = 0 ∧ row.inputMaxBytes = 102 ∧
      1 - 32 / n ≤ row.keyReuseRatio
  | .largeValue => row.putRatio = 1 ∧ row.errorRatio = 0 ∧ row.inputMaxBytes = 3078 ∧
      1 - 32 / n ≤ row.keyReuseRatio
  | .flood => row.putRatio = 1 ∧ row.errorRatio = 0 ∧ row.inputMaxBytes = 38 ∧
      1 - 32 / n ≤ row.keyReuseRatio ∧ 1 - 32 / n ≤ row.requestReuseRatio
  | .malformed => row.rejectRatio = 1 ∧ row.errorRatio = 1 ∧ row.inputMaxBytes = 0 ∧
      row.keyReuseRatio = 0 ∧ row.requestReuseRatio = 0
  | .errorStorm => row.getRatio = 1 ∧ row.errorRatio = 1 ∧ row.inputMaxBytes = 13 ∧
      row.keyReuseRatio = 1 - 1 / n ∧ row.requestReuseRatio = 1 - 1 / n
  | .replay => row.putRatio = 1 ∧ row.errorRatio = 0 ∧ row.inputMaxBytes = 140 ∧
      row.keyReuseRatio = 1 - 1 / n ∧ row.requestReuseRatio = 1 - 1 / n

def Labelled (ofKey : Bytes → Text) (ofRequest : Operation → Bytes → Bytes → Text) (s : Scenario)
    (e : Features.Event) : Prop :=
  ∃ message x, s.Sends message ∧ s.Expects message x ∧ Says ofKey ofRequest x e

/-- Every scenario but one sends requests. -/
theorem Labelled.request (h : Labelled ofKey ofRequest s e) (hs : s ≠ .malformed) :
    ∃ x : Exchange, s.Sends (.request x.request) ∧ Says ofKey ofRequest (some x) e ∧
      (x.request.operation = .put → x.status = .ok) ∧ (s = .errorStorm → x.status = .notFound) := by
  obtain ⟨message, x, hsends, hexpects, hsaid⟩ := h
  cases message with
  | request f =>
    obtain ⟨y, rfl, rfl, hput, hstorm, -⟩ := hexpects
    exact ⟨y, hsends, hsaid, hput, hstorm⟩
  | oversized requestId =>
    cases s with
    | malformed => exact absurd rfl hs
    | _ => exact hsends.elim

theorem Labelled.malformed (h : Labelled ofKey ofRequest .malformed e) :
    Says ofKey ofRequest none e := by
  obtain ⟨message, x, hsends, hexpects, hsaid⟩ := h
  cases message with
  | request f => exact hsends.elim
  | oversized requestId => rwa [show x = none from hexpects] at hsaid

section Marks

variable {lib : Features.Library K} {windowSeconds : ℤ} {row : Features.Row K} {key : Features.Key}
  {bucket : List Features.Event}

/-- A row whose requests are exchanges of the scenario. -/
structure RowOf (ofKey : Bytes → Text) (ofRequest : Operation → Bytes → Bytes → Text)
    (lib : Features.Library K) (windowSeconds : ℤ) (s : Scenario) (bucket : List Features.Event)
    (row : Features.Row K) : Prop where
  spec : Features.IsRowOf lib windowSeconds (toLex (row.runId, row.windowStartNs)) bucket row
  nonempty : Features.requestsOf bucket ≠ []
  labelled : ∀ e ∈ Features.requestsOf bucket, Labelled ofKey ofRequest s e
  keyReuse : row.keyReuseRatio =
    Features.reuseRatio (Features.truthy Features.Event.keyFingerprint (Features.requestsOf bucket))
  requestReuse : row.requestReuseRatio = Features.reuseRatio
    (Features.truthy Features.Event.requestFingerprint (Features.requestsOf bucket))

namespace RowOf

/-- The events of a bucket all say the same size. -/
theorem inputMax (h : RowOf ofKey ofRequest lib windowSeconds s bucket row) (size : ℕ)
    (hsize : ∀ e ∈ Features.requestsOf bucket, e.inputBytes = some (size : ℚ)) :
    row.inputMaxBytes = size := by
  obtain ⟨⟨e, he, htop⟩, -⟩ := h.spec.inputMaxBytes
  rw [← htop, hsize e he, Option.getD_some]

/-- Requests that are answered with one kind of status. -/
theorem errorOne (h : RowOf ofKey ofRequest lib windowSeconds s bucket row)
    (hx : ∀ e ∈ Features.requestsOf bucket, ∃ x, Says ofKey ofRequest x e ∧ exchangeStatus x ≠ .ok) :
    row.errorRatio = 1 := by
  rw [h.spec.errorRatio]
  apply ratio_one h.nonempty
  intro e he
  obtain ⟨x, hsaid, herror⟩ := hx e he
  simpa using mt (hsaid.statusOf lib).mp herror

/-- A bucket of PUTs of one size. -/
theorem puts (h : RowOf ofKey ofRequest lib windowSeconds s bucket row) (size : ℕ)
    (hs : s ≠ .malformed) (hput : ∀ f : RequestFrame, s.Sends (.request f) →
      f.operation = .put ∧ f.key.length + f.value.length = size) :
    row.putRatio = 1 ∧ row.errorRatio = 0 ∧ row.inputMaxBytes = size := by
  have hx : ∀ e ∈ Features.requestsOf bucket, ∃ x : Exchange, Says ofKey ofRequest (some x) e ∧
      x.request.operation = .put ∧ x.status = .ok ∧
      x.request.key.length + x.request.value.length = size := by
    intro e he
    obtain ⟨x, hsends, hsaid, hok, -⟩ := (h.labelled e he).request hs
    obtain ⟨hop, hsize⟩ := hput x.request hsends
    exact ⟨x, hsaid, hop, hok hop, hsize⟩
  refine ⟨?_, ?_, h.inputMax size fun e he => ?_⟩
  · rw [h.spec.putRatio]
    apply ratio_one h.nonempty
    intro e he
    obtain ⟨x, hsaid, hop, -⟩ := hx e he
    have hname : (recorded (some x)).operation = "PUT" := congrArg operationName hop
    exact decide_eq_true (hsaid.operationOf lib hname (by decide))
  · rw [h.spec.errorRatio]
    apply ratio_zero
    intro e he
    obtain ⟨x, hsaid, -, hok, -⟩ := hx e he
    simpa using (hsaid.statusOf lib).mpr hok
  · obtain ⟨x, hsaid, -, -, hsize⟩ := hx e he
    rw [hsaid.inputBytes, ← hsize]
    rfl

/-- With the keys of the pool at most 32 requests of a row have a key that is not repeated. -/
theorem keyPool (h : RowOf ofKey ofRequest lib windowSeconds s bucket row)
    (hKey : ∀ key, ofKey key ≠ []) (hs : s ≠ .malformed)
    (hpool : ∀ f : RequestFrame, s.Sends (.request f) → InPool f.key) :
    1 - 32 / ((Features.requestsOf bucket).length : ℚ) ≤ row.keyReuseRatio := by
  have hlength : (((List.range 32).map fun n => ofKey (poolKey n)).length : ℚ) = 32 := by
    rw [List.length_map, List.length_range]
    rfl
  rw [h.keyReuse, ← hlength]
  apply reuse_pool _ h.nonempty
  intro e he
  obtain ⟨x, hsends, hsaid, -⟩ := (h.labelled e he).request hs
  obtain ⟨n, hn, hkey⟩ := hpool x.request hsends
  refine ⟨ofKey (poolKey n), List.mem_map_of_mem (List.mem_range.mpr hn), ?_, hKey _⟩
  rw [hsaid.keyFingerprint, ← hkey]
  rfl

/-- A scenario with one request only repeats it. -/
theorem repeated (h : RowOf ofKey ofRequest lib windowSeconds s bucket row)
    (hKey : ∀ key, ofKey key ≠ []) (hRequest : ∀ operation key value,
      ofRequest operation key value ≠ [])
    (hs : s ≠ .malformed) {operation : Operation} {key value : Bytes}
    (hsame : ∀ f : RequestFrame, s.Sends (.request f) →
      f.operation = operation ∧ f.key = key ∧ f.value = value) :
    row.keyReuseRatio = 1 - 1 / (Features.requestsOf bucket).length ∧
      row.requestReuseRatio = 1 - 1 / (Features.requestsOf bucket).length := by
  have hx : ∀ e ∈ Features.requestsOf bucket, e.keyFingerprint = some (ofKey key) ∧
      e.requestFingerprint = some (ofRequest operation key value) := by
    intro e he
    obtain ⟨x, hsends, hsaid, -⟩ := (h.labelled e he).request hs
    obtain ⟨hop, hkey, hvalue⟩ := hsame x.request hsends
    rw [hsaid.keyFingerprint, hsaid.requestFingerprint, ← hop, ← hkey, ← hvalue]
    exact ⟨rfl, rfl⟩
  rw [h.keyReuse, h.requestReuse]
  exact ⟨reuse_const h.nonempty (fun e he => (hx e he).1) (hKey key),
    reuse_const h.nonempty (fun e he => (hx e he).2) (hRequest operation key value)⟩

/-- The flood has one request for each key of the pool. -/
theorem requestPool (h : RowOf ofKey ofRequest lib windowSeconds .flood bucket row)
    (hRequest : ∀ operation key value, ofRequest operation key value ≠ []) :
    1 - 32 / ((Features.requestsOf bucket).length : ℚ) ≤ row.requestReuseRatio := by
  have hlength : (((List.range 32).map fun n =>
      ofRequest .put (poolKey n) (List.replicate 32 0x46)).length : ℚ) = 32 := by
    rw [List.length_map, List.length_range]
    rfl
  rw [h.requestReuse, ← hlength]
  apply reuse_pool _ h.nonempty
  intro e he
  obtain ⟨x, ⟨hop, ⟨n, hn, hkey⟩, hvalue⟩, hsaid, -⟩ := (h.labelled e he).request (by decide)
  refine ⟨ofRequest .put (poolKey n) (List.replicate 32 0x46),
    List.mem_map_of_mem (List.mem_range.mpr hn), ?_, hRequest _ _ _⟩
  rw [hsaid.requestFingerprint, ← hop, ← hkey, ← hvalue]
  rfl

theorem steady (h : RowOf ofKey ofRequest lib windowSeconds .steady bucket row) :
    row.rejectRatio = 0 ∧ 6 ≤ row.inputMaxBytes ∧ row.inputMaxBytes ≤ 70 := by
  have hx : ∀ e ∈ Features.requestsOf bucket, ∃ (name : String) (size : ℕ),
      lib.operationOf e = text name ∧ text name ≠ text "REJECT" ∧ e.inputBytes = some (size : ℚ) ∧
        6 ≤ size ∧ size ≤ 70 := by
    intro e he
    obtain ⟨x, ⟨hpool, hvalue⟩, hsaid, -⟩ := (h.labelled e he).request (by decide)
    have hkey := hpool.length
    have hbound : x.request.value.length ≤ 64 := by
      by_cases hput : x.request.operation = .put
      · exact (hvalue hput).le
      · rw [x.request.value_put hput]
        exact Nat.zero_le _
    have hupper : ∀ operation, (∀ c ∈ text (operationName operation), c < 97) ∧
        text (operationName operation) ≠ text "REJECT" := by
      intro operation
      cases operation <;> decide
    exact ⟨operationName x.request.operation, x.request.key.length + x.request.value.length,
      hsaid.operationOf lib rfl (hupper _).1, (hupper _).2, hsaid.inputBytes, by omega, by omega⟩
  obtain ⟨⟨top, htop, hmax⟩, hbound⟩ := h.spec.inputMaxBytes
  obtain ⟨-, size, -, -, hsize, hlow, hhigh⟩ := hx top htop
  rw [hsize, Option.getD_some] at hmax
  refine ⟨?_, ?_, ?_⟩
  · rw [h.spec.rejectRatio]
    apply ratio_zero
    intro e he
    obtain ⟨name, -, hname, hreject, -⟩ := hx e he
    rw [hname]
    simpa using hreject
  · rw [← hmax]
    exact_mod_cast hlow
  · rw [← hmax]
    exact_mod_cast hhigh

theorem malformed (h : RowOf ofKey ofRequest lib windowSeconds .malformed bucket row) :
    row.rejectRatio = 1 ∧ row.errorRatio = 1 ∧ row.inputMaxBytes = 0 ∧ row.keyReuseRatio = 0 ∧
      row.requestReuseRatio = 0 := by
  have hx : ∀ e ∈ Features.requestsOf bucket, Says ofKey ofRequest none e :=
    fun e he => (h.labelled e he).malformed
  refine ⟨?_, h.errorOne fun e he => ⟨none, hx e he, by decide⟩,
    (h.inputMax 0 fun e he => (hx e he).inputBytes).trans Nat.cast_zero, ?_, ?_⟩
  · rw [h.spec.rejectRatio]
    apply ratio_one h.nonempty
    intro e he
    exact decide_eq_true ((hx e he).operationOf lib rfl (by decide))
  · rw [h.keyReuse]
    exact reuse_none fun e he => (hx e he).keyFingerprint
  · rw [h.requestReuse]
    exact reuse_none fun e he => (hx e he).requestFingerprint

theorem errorStorm (h : RowOf ofKey ofRequest lib windowSeconds .errorStorm bucket row) :
    row.getRatio = 1 ∧ row.errorRatio = 1 ∧ row.inputMaxBytes = 13 := by
  have hx : ∀ e ∈ Features.requestsOf bucket, ∃ x : Exchange, Says ofKey ofRequest (some x) e ∧
      x.request.operation = .get ∧ x.request.key = neverCreated ∧ x.status = .notFound := by
    intro e he
    obtain ⟨x, ⟨hop, hkey⟩, hsaid, -, hstatus⟩ := (h.labelled e he).request (by decide)
    exact ⟨x, hsaid, hop, hkey, hstatus rfl⟩
  refine ⟨?_, h.errorOne fun e he => ?_, (h.inputMax 13 fun e he => ?_).trans Nat.cast_ofNat⟩
  · rw [h.spec.getRatio]
    apply ratio_one h.nonempty
    intro e he
    obtain ⟨x, hsaid, hop, -⟩ := hx e he
    have hname : (recorded (some x)).operation = "GET" := congrArg operationName hop
    exact decide_eq_true (hsaid.operationOf lib hname (by decide))
  · obtain ⟨x, hsaid, -, -, hstatus⟩ := hx e he
    refine ⟨some x, hsaid, ?_⟩
    rw [exchangeStatus, hstatus]
    decide
  · obtain ⟨x, hsaid, hop, hkey, -⟩ := hx e he
    have hvalue : x.request.value = [] := x.request.value_put (by rw [hop]; decide)
    rw [hsaid.inputBytes, recorded, hkey, hvalue]
    rfl

/-- The marks of every scenario. -/
theorem marks (h : RowOf ofKey ofRequest lib windowSeconds s bucket row)
    (hKey : ∀ key, ofKey key ≠ []) (hRequest : ∀ operation key value,
      ofRequest operation key value ≠ []) :
    s.Marks (Features.requestsOf bucket).length row := by
  cases s with
  | steady =>
    obtain ⟨hreject, hlow, hhigh⟩ := h.steady
    exact ⟨hreject, hlow, hhigh, h.keyPool hKey (by decide) fun f hf => hf.1⟩
  | bursty =>
    obtain ⟨hput, herror, hmax⟩ := h.puts 102 (by decide) fun f hf => by
      exact ⟨hf.1, by rw [hf.2.1.length, hf.2.2]⟩
    exact ⟨hput, herror, hmax.trans Nat.cast_ofNat, h.keyPool hKey (by decide) fun f hf => hf.2.1⟩
  | largeValue =>
    obtain ⟨hput, herror, hmax⟩ := h.puts 3078 (by decide) fun f hf => by
      exact ⟨hf.1, by rw [hf.2.1.length, hf.2.2]⟩
    exact ⟨hput, herror, hmax.trans Nat.cast_ofNat, h.keyPool hKey (by decide) fun f hf => hf.2.1⟩
  | flood =>
    obtain ⟨hput, herror, hmax⟩ := h.puts 38 (by decide) fun f hf => by
      exact ⟨hf.1, by rw [hf.2.1.length, hf.2.2, List.length_replicate]⟩
    exact ⟨hput, herror, hmax.trans Nat.cast_ofNat, h.keyPool hKey (by decide) fun f hf => hf.2.1,
      h.requestPool hRequest⟩
  | malformed => exact h.malformed
  | errorStorm =>
    obtain ⟨hget, herror, hmax⟩ := h.errorStorm
    have hsame : ∀ f : RequestFrame, Scenario.errorStorm.Sends (.request f) →
        f.operation = .get ∧ f.key = neverCreated ∧ f.value = [] :=
      fun f hf => ⟨hf.1, hf.2, f.value_put (by rw [hf.1]; decide)⟩
    obtain ⟨hkey, hrequest⟩ := h.repeated hKey hRequest (by decide) hsame
    exact ⟨hget, herror, hmax, hkey, hrequest⟩
  | replay =>
    obtain ⟨hput, herror, hmax⟩ := h.puts 140 (by decide) fun f hf => by
      refine ⟨hf.1, ?_⟩
      rw [hf.2.1, hf.2.2, List.length_replicate]
      rfl
    obtain ⟨hkey, hrequest⟩ := h.repeated hKey hRequest (by decide) fun f hf => hf
    exact ⟨hput, herror, hmax.trans Nat.cast_ofNat, hkey, hrequest⟩

end RowOf

/-- Where every request of its run is an exchange of the scenario, a row has its marks. -/
theorem marks_rowsOf [Field K] {warmupSeconds : ℤ} {events : List Features.Event}
    (hKey : ∀ key, ofKey key ≠ [])
    (hRequest : ∀ operation key value, ofRequest operation key value ≠ [])
    (hevents : ∀ e ∈ events, e.run = row.runId → Labelled ofKey ofRequest s e)
    (hwindow : 0 < windowSeconds)
    (hrow : row ∈ Features.rowsOf lib events windowSeconds warmupSeconds) :
    s.Marks (row.requestRate * windowSeconds) row := by
  have hspec := Features.row_bucket hrow
  obtain ⟨hkeyReuse, hrequestReuse⟩ := Features.row_reuse hrow
  have hne : Features.requestsOf (Features.bucketAt events (Features.nanoseconds windowSeconds)
      (Features.nanoseconds warmupSeconds) (toLex (row.runId, row.windowStartNs))) ≠ [] := by
    obtain ⟨⟨e, he, -⟩, -⟩ := hspec.inputMaxBytes
    exact List.ne_nil_of_mem he
  have hlabelled : ∀ e ∈ Features.requestsOf (Features.bucketAt events
      (Features.nanoseconds windowSeconds) (Features.nanoseconds warmupSeconds)
        (toLex (row.runId, row.windowStartNs))), Labelled ofKey ofRequest s e := by
    intro e he
    obtain ⟨hmem, -, hkey⟩ := Features.mem_bucketAt.mp (List.mem_of_mem_filter he)
    exact hevents e hmem (Prod.mk.inj (toLex.injective hkey)).1
  have hrowOf : RowOf ofKey ofRequest lib windowSeconds s _ row :=
    ⟨hspec, hne, hlabelled, hkeyReuse, hrequestReuse⟩
  rw [hspec.requests hwindow]
  exact hrowOf.marks hKey hRequest

end Marks

def keyDigest (cfg : Config) (key : Bytes) : Text :=
  hex16 (keyedFingerprint cfg ⟨0, 0, UInt32.ofNat key.length, 0, key, []⟩ false)

def requestDigest (cfg : Config) (operation : Operation) (key value : Bytes) : Text :=
  hex16 (keyedFingerprint cfg ⟨0, UInt16.ofNat operation.code, UInt32.ofNat key.length,
    UInt32.ofNat value.length, key, value⟩ true)

theorem hex16_ne_nil (value : UInt64) : hex16 value ≠ [] := by
  intro h
  have hlength := congrArg List.length h
  rw [hex16, hexEncode_length, beBytes_length] at hlength
  cases hlength

/-- What is read back of the event of an exchange. -/
theorem says_event (cfg : Config) (c : Connection) (x : Option Exchange) (latency : ℚ) :
    Says (keyDigest cfg) (requestDigest cfg) x (readEvent latency (event cfg c x)) := by
  have hrecorded := event_recorded cfg c x
  have hbytes : (event cfg c x).inputBytes.toNat = (recorded x).inputBytes :=
    congrArg Recorded.inputBytes hrecorded
  refine ⟨?_, ?_, ?_, ?_, ?_⟩
  · exact congrArg (fun r => some (text r.operation)) hrecorded
  · exact congrArg (fun r => some (text r.result)) hrecorded
  · rw [← hbytes]
    rfl
  · cases x <;> rfl
  · cases x <;> rfl

/-- A client of the scenario, for which the gateway has memory; it waits for the response. -/
structure FromScenario (s : Scenario) (c : Connection) : Prop where
  message : ∃ message, s.Sends message ∧ c.input.bytes = message.bytes
  memory : false ∉ c.mallocs
  waits : s ≠ .malformed → c.room = none

variable {c : Connection} {conns : List Connection} {m : KeyValues}

theorem FromScenario.isClient (h : FromScenario s c) : IsClient c.client := by
  obtain ⟨message, hsends, hbytes⟩ := h.message
  exact ⟨⟨s, message, hsends, hbytes⟩, h.memory⟩

/-- Every request is answered before its client goes. -/
theorem takeReplies_of_waiting (h : ∀ c ∈ conns, ∀ f, request? c.input.bytes = some f → c.room =
    none) :
    TakeReplies conns m := by
  induction conns generalizing m with
  | nil => trivial
  | cons c conns ih =>
    obtain ⟨hfirst, hrest⟩ := List.forall_mem_cons.mp h
    refine ⟨fun f hf k hk => ?_, ih hrest⟩
    rw [Connection.output, hfirst f hf] at hk
    cases hk

theorem FromScenario.waiting (h : FromScenario s c) :
    ∀ f, request? c.input.bytes = some f → c.room = none := by
  intro f hf
  apply h.waits
  rintro rfl
  obtain ⟨message, hsends, hbytes⟩ := h.message
  cases message with
  | request f => exact hsends
  | oversized requestId =>
    rw [hbytes, request?_oversized] at hf
    cases hf

theorem forall₂_zipWith {α β γ : Type} {R : α → β → Prop} (f : α → β → γ) {as : List α}
    {bs : List β} (h : List.Forall₂ R as bs) :
    List.Forall₂ (fun a c => ∃ b, R a b ∧ c = f a b) as (List.zipWith f as bs) := by
  induction h with
  | nil => exact .nil
  | cons hfirst _ ih => exact .cons ⟨_, hfirst, rfl⟩ ih

def Scenario.Reports (s : Scenario) : Message → Recorded → Prop
  | .oversized _, r => r = ⟨"REJECT", 0, 0, "PROTOCOL_ERROR", "gateway"⟩
  | .request f, r => r.operation = operationName f.operation ∧
      r.inputBytes = f.key.length + f.value.length ∧ r.requestId = f.requestId.toNat ∧
      (r.result = "OK" ∧ r.errorOrigin = "none" ∨ r.result = "NOT_FOUND" ∧ r.errorOrigin =
        "backend") ∧
      (f.operation = .put → r.result = "OK") ∧ (s = .errorStorm → r.result = "NOT_FOUND")

theorem reports_recorded (h : s.Expects message x) : s.Reports message (recorded x) := by
  cases message with
  | oversized requestId =>
    rw [show x = none from h]
    rfl
  | request f =>
    obtain ⟨y, rfl, rfl, hput, hstorm, hstatus⟩ := h
    refine ⟨rfl, rfl, rfl, ?_, fun hop => congrArg statusName (hput hop),
      fun hs => congrArg statusName (hstorm hs)⟩
    rcases hstatus with hok | hmissing
    · exact Or.inl ⟨congrArg statusName hok, if_pos hok⟩
    · exact Or.inr ⟨congrArg statusName hmissing, if_neg (by rw [hmissing]; decide)⟩

/-- The events of a run with clients of whatever scenarios. -/
theorem serve_events_met (cfg : Config) (htelemetry : cfg.telemetry) {arrivals : List Arrival}
    (hserving : Serving arrivals) (hclients : ∀ c ∈ connections arrivals, ∃ s, FromScenario s c) :
    (serve cfg arrivals .initial).place = .accepting ∧
      List.Forall₂ (fun (c : Connection) e => ∃ x, Met c.client x ∧ e = event cfg c x)
        (connections arrivals) (serve cfg arrivals .initial).state.events := by
  have htake : TakeReplies (connections arrivals) noKeys := by
    apply takeReplies_of_waiting
    intro c hc
    obtain ⟨s, hs⟩ := hclients c hc
    exact hs.waiting
  have hmet : List.Forall₂ Met ((connections arrivals).map Connection.client)
      (exchanges ((connections arrivals).map Connection.client) noKeys) := by
    apply exchanges_met _ rfl
    intro client hclient
    obtain ⟨c, hc, rfl⟩ := List.mem_map.mp hclient
    obtain ⟨s, hs⟩ := hclients c hc
    exact hs.isClient
  have hsettled := serve_settled cfg hserving (g := .initial) represents_empty htake
  have hlength : (exchanges ((connections arrivals).map Connection.client) noKeys).length =
      (connections arrivals).length := by
    rw [exchanges_length, List.length_map]
  refine ⟨hsettled.place, ?_⟩
  rw [hsettled.events, settleAll_events hlength, if_pos htelemetry]
  change List.Forall₂ _ _ ([] ++ _)
  rw [List.nil_append]
  exact forall₂_zipWith _ (List.forall₂_map_left_iff.mp hmet)

/-- **Interleaved workloads.**  Whatever scenarios the clients belong to and in whatever order they
are accepted, the gateway goes on, and its telemetry says of every connection what its scenario
expects: a malformed message is rejected, a PUT succeeds, and the key of the error storm is never
there. -/
theorem interleaved_workloads (cfg : Config) (htelemetry : cfg.telemetry) (arrivals : List Arrival)
    (hserving : Serving arrivals) (hclients : ∀ c ∈ connections arrivals, ∃ s, FromScenario s c) :
    let run := serve cfg arrivals .initial
    run.place = .accepting ∧ List.Forall₂ (fun (c : Connection) e => ∀ (s : Scenario) message,
        s.Sends message → c.input.bytes = message.bytes → s.Reports message e.recorded)
      (connections arrivals) run.state.events := by
  intro run
  obtain ⟨hplace, hevents⟩ := serve_events_met cfg htelemetry hserving hclients
  refine ⟨hplace, hevents.imp fun c e ⟨x, hmet, he⟩ s message hsends hbytes => ?_⟩
  rw [he, event_recorded]
  exact reports_recorded (hmet s message hsends hbytes)

def stormFrame : RequestFrame :=
  { getFrame with key := neverCreated, key_pos := neverCreated_pos, key_le := neverCreated_le }

def stormConnection : Connection := connectionOf (Message.request stormFrame).bytes none

def oversizedConnection : Connection := connectionOf (Message.oversized 0).bytes (some 0)

theorem fromScenario_storm : FromScenario .errorStorm stormConnection where
  message := ⟨.request stormFrame, ⟨rfl, rfl⟩, connectionOf_bytes _ _⟩
  memory := List.not_mem_nil
  waits := fun _ => rfl

theorem fromScenario_oversized : FromScenario .malformed oversizedConnection where
  message := ⟨.oversized 0, trivial, connectionOf_bytes _ _⟩
  memory := List.not_mem_nil
  waits := fun h => absurd rfl h

theorem interleaved_workloads_two :
    (serve plainConfig [.connection stormConnection, .connection oversizedConnection]
      .initial).place = .accepting := by
  refine (interleaved_workloads plainConfig rfl
    [.connection stormConnection, .connection oversizedConnection] ?_ ?_).1
  · simp [Serving]
  · intro c hc
    rcases List.mem_cons.mp (show c ∈ [stormConnection, oversizedConnection] from hc) with rfl | hc
    · exact ⟨_, fromScenario_storm⟩
    · exact ⟨_, List.mem_singleton.mp hc ▸ fromScenario_oversized⟩

/-- **From the clients to the rows.**  The gateway runs for one scenario, however its clients time
their requests.  Then the telemetry is read back, and every row of every window has the marks of the
scenario. -/
theorem workload_rows [Field K] (lib : Features.Library K) (rt : Runtime)
    (hfractions : ReadsFractions rt) (order : ByteOrder) (secret : UInt64) (env : Environment)
    (s : Scenario) (arrivals : List Arrival) (hserving : Serving arrivals)
    (hclients : ∀ c ∈ connections arrivals, FromScenario s c) {windowSeconds warmupSeconds : ℤ}
    (hwindow : 0 < windowSeconds) (hwarmup : 0 ≤ warmupSeconds) :
    let run := serve (mainConfig order secret true env) arrivals .initial
    run.place = .accepting ∧ ∃ lines events rows,
      readJsonl rt (telemetryText run.state.events) = .ok lines ∧
      lines.map eventOf = events.map some ∧
      Features.aggregateEvents lib events windowSeconds warmupSeconds = .ok rows ∧
      ∀ row ∈ rows, s.Marks (row.requestRate * windowSeconds) row := by
  intro run
  obtain ⟨hplace, hevents⟩ := serve_events_met (mainConfig order secret true env) rfl
    hserving fun c hc => ⟨s, hclients c hc⟩
  have hx : ∀ e ∈ run.state.events, ∃ c message x, s.Sends message ∧ s.Expects message x ∧
      e = event (mainConfig order secret true env) c x := by
    intro e he
    obtain ⟨c, hc, x, hmet, hevent⟩ := exists_of_forall₂ hevents he
    obtain ⟨message, hsends, hbytes⟩ := (hclients c hc).message
    exact ⟨c, message, x, hsends, hmet s message hsends hbytes, hevent⟩
  choose latency hlatency using fun e : Event => exists_latency hfractions e.latencyNs
  refine ⟨hplace, _, run.state.events.map fun e => readEvent (latency e) e, _,
    readJsonl_telemetryText rt fun e he => ?_, ?_,
    Features.aggregateEvents_ok lib _ hwindow hwarmup, fun row hrow => ?_⟩
  · obtain ⟨c, message, x, -, -, rfl⟩ := hx e he
    exact printable_logEvent order secret true env _ _ _ _
  · rw [List.map_map, List.map_map]
    exact List.map_congr_left fun e _ => eventOf_lineDict rt (hlatency e)
  · have hkey : ∀ key, keyDigest (mainConfig order secret true env) key ≠ [] :=
      fun key => hex16_ne_nil _
    have hrequest : ∀ operation key value,
        requestDigest (mainConfig order secret true env) operation key value ≠ [] :=
      fun operation key value => hex16_ne_nil _
    refine marks_rowsOf hkey hrequest (fun e he _ => ?_) hwindow hrow
    obtain ⟨logged, hlogged, rfl⟩ := List.mem_map.mp he
    obtain ⟨c, message, x, hsends, hexpects, rfl⟩ := hx logged hlogged
    exact ⟨message, x, hsends, hexpects, says_event _ c x _⟩

def steadyPut : RequestFrame :=
  { putFrame with
    key := poolKey 0
    key_pos := by decide
    key_le := by decide
    value := List.replicate 64 0
    value_le := by decide
    value_put := fun h => absurd rfl h }

def steadyGet : RequestFrame :=
  { getFrame with key := poolKey 0, key_pos := by decide, key_le := by decide }

def steadyDelete : RequestFrame :=
  { deleteFrame with key := poolKey 0, key_pos := by decide, key_le := by decide }

def steadyArrivals : List Arrival :=
  [steadyPut, steadyGet, steadyDelete, steadyGet].map fun f =>
    .connection (connectionOf (Message.request f).bytes none)

theorem fromScenario_steady {f : RequestFrame} (hkey : f.key = poolKey 0)
    (hput : f.operation = .put → f.value.length = 64) :
    FromScenario .steady (connectionOf (Message.request f).bytes none) where
  message := ⟨.request f, ⟨⟨0, by decide, hkey⟩, hput⟩, connectionOf_bytes _ _⟩
  memory := List.not_mem_nil
  waits := fun _ => rfl

theorem workload_rows_steady : ∃ (events : List Features.Event) (rows : List Features.Row),
    Features.aggregateEvents Features.plainLibrary events 5 0 = .ok rows ∧
      ∀ row ∈ rows, Scenario.steady.Marks (row.requestRate * (5 : ℤ)) row := by
  have hclients : ∀ c ∈ connections steadyArrivals, FromScenario .steady c := by
    change ∀ c ∈ [steadyPut, steadyGet, steadyDelete, steadyGet].map fun f =>
      connectionOf (Message.request f).bytes none, FromScenario .steady c
    simp only [List.map_cons, List.map_nil, List.forall_mem_cons]
    exact ⟨fromScenario_steady rfl fun _ => List.length_replicate, fromScenario_steady rfl nofun,
      fromScenario_steady rfl nofun, fromScenario_steady rfl nofun, fun c hc =>
        absurd hc List.not_mem_nil⟩
  obtain ⟨-, lines, events, rows, -, -, hrows, hmarks⟩ := workload_rows Features.plainLibrary
    fractionRuntime (fun _ _ _ _ _ => rfl) .little 1 ⟨none, none, none, false⟩ .steady
    steadyArrivals (by simp [Serving, steadyArrivals]) hclients (show (0 : ℤ) < 5 by decide)
    (show (0 : ℤ) ≤ 0 by decide)
  exact ⟨events, rows, hrows, hmarks⟩

end Cote3Mon.Workload
