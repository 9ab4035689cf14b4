import Cote3Mon.AuditStore.Totality
import Cote3Mon.Optee.Totality

namespace Cote3Mon.Monitor
open ByteText Python Optee

variable {rt : Runtime} {records : List Json}

/-- Nothing is raised, and a list with a malformed record is refused. -/
structure Total (rt : Runtime) (crypto : Crypto) (store : AuditStore) (m : Machine)
    (records : List Json) (requireCurrentHead : Bool) : Prop where
  storeChain : ∃ b, AuditStore.verifyChain rt crypto store records requireCurrentHead = .ok b
  storeReceipt : ∀ members alert receipt, .obj members ∈ records →
    Dict.item members "alert" = .ok alert → Dict.item members "receipt" = .ok (.obj receipt) →
    ∃ b, AuditStore.verifyReceipt rt crypto store alert receipt = .ok b
  opteeChain : ∃ b, (Optee.verifyChain rt crypto records requireCurrentHead m).1 = .ok b
  malformed : (∃ record ∈ records, ¬ HoldsReceipt rt record) →
    AuditStore.verifyChain rt crypto store records requireCurrentHead = .ok false ∧
      (Optee.verifyChain rt crypto records requireCurrentHead m).1 = .ok false

/-- A verdict on a list with a malformed record. -/
theorem verdict_false {r : Except Exc Bool} (hreturns : ∃ b, r = .ok b)
    (haccepted : r = .ok true → ∀ record ∈ records, HoldsReceipt rt record)
    (hmalformed : ∃ record ∈ records, ¬ HoldsReceipt rt record) : r = .ok false := by
  obtain ⟨b, rfl⟩ := hreturns
  obtain ⟨record, hmem, hnot⟩ := hmalformed
  cases b with
  | false => rfl
  | true => exact absurd (haccepted rfl record hmem) hnot

/-- **Verdicts on hostile records.**  The verifiers are total on a list exactly if the store reaches
no record that it cannot take, no record holds a receipt whose number cannot be packed, and the
OP-TEE backend reaches no record whose number is infinite. -/
theorem verifiers_total_iff (rt : Runtime) (crypto : Crypto) (store : AuditStore) (m : Machine)
    (records : List Json) (requireCurrentHead : Bool) (hrepr : rt.ReprCaught) (hm : Starts m) :
    Total rt crypto store m records requireCurrentHead ↔
      ¬ AuditStore.Breaks rt crypto store.state 0 AuditStore.zeroHash.hex records ∧
      (∀ members alert receipt, .obj members ∈ records →
        Dict.item members "alert" = .ok alert → Dict.item members "receipt" = .ok (.obj receipt) →
        ¬ AuditStore.InfiniteSequence receipt ∧ ¬ AuditStore.Unpackable rt crypto alert receipt) ∧
      ¬ Overflows rt crypto m ⟨Digest.zero.hex, 0, none⟩ records := by
  have hstore := AuditStore.verifyChain_returns_iff crypto store hrepr records requireCurrentHead
  have hreceipt := fun alert receipt =>
    AuditStore.verifyReceipt_returns_iff crypto store alert receipt hrepr
  have hoptee := Optee.verifyChain_returns_iff crypto records requireCurrentHead hm hrepr
  constructor
  · intro h
    refine ⟨hstore.mp h.storeChain, fun members alert receipt hmem halert hitem => ?_,
      hoptee.mp h.opteeChain⟩
    exact (hreceipt alert receipt).mp (h.storeReceipt members alert receipt hmem halert hitem)
  · rintro ⟨hbreaks, hreceipts, hoverflows⟩
    have hstore := hstore.mpr hbreaks
    have hoptee := hoptee.mpr hoverflows
    refine ⟨hstore, fun members alert receipt hmem halert hitem => ?_, hoptee, fun hmalformed => ?_⟩
    · exact (hreceipt alert receipt).mpr (hreceipts members alert receipt hmem halert hitem)
    · exact ⟨verdict_false hstore AuditStore.verifyChain_holdsReceipt hmalformed,
        verdict_false hoptee Optee.verifyChain_holdsReceipt hmalformed⟩

def freshStore : AuditStore := ⟨AuditStore.freshState .zero, none⟩

def hostileRecord (receipt : Json) : Json :=
  .obj [(text "alert", .obj []), (text "receipt", receipt)]

theorem plainRuntime_reprCaught : plainRuntime.ReprCaught := fun _ => failsWith_error rfl

theorem quietMachine_starts : Starts quietMachine := fun _ => rfl

theorem emptyReceipt_not_compared {n : ℕ} {previous : Text} {receipt : Dict} {p c b d : Bytes} :
    ¬ AuditStore.Compared plainRuntime .standard freshStore.state n previous
      (hostileRecord (.obj [])) receipt p c b d := by
  intro h
  obtain ⟨members, hmembers, hreceipt, hreads⟩ := h.holds
  obtain rfl := Json.obj.inj hmembers
  obtain rfl := Json.obj.inj hreceipt
  obtain ⟨v, hv, -⟩ := hreads.sequence
  cases hv

theorem verifiers_total_empty_receipt :
    Total plainRuntime .standard freshStore quietMachine [hostileRecord (.obj [])] true := by
  refine (verifiers_total_iff plainRuntime .standard freshStore quietMachine _ true
    plainRuntime_reprCaught quietMachine_starts).mpr ⟨fun h => ?_, ?_, fun h => ?_⟩
  · cases h with
    | record hrecord => exact hrecord _ rfl
    | receipt hreceipt => exact hreceipt _ rfl
    | sequence hcompared _ => exact emptyReceipt_not_compared hcompared
    | later hcompared _ _ => exact emptyReceipt_not_compared hcompared
  · intro members alert receipt hmem halert hitem
    obtain rfl := Json.obj.inj (List.mem_singleton.mp hmem)
    obtain rfl := Json.obj.inj (Except.ok.inj hitem)
    refine ⟨?_, ?_⟩
    · rintro ⟨v, hv, -⟩
      cases hv
    · rintro ⟨z, p, c, b, d, hreads, -⟩
      obtain ⟨v, hv, -⟩ := hreads.sequence
      cases hv
  · cases h with
    | here hoverflow => 
      obtain ⟨v, hv, -⟩ := hoverflow.sequence
      obtain rfl := Except.ok.inj hoverflow.holds
      cases hv
    | later hfollows _ _ =>
      obtain ⟨v, hv, -⟩ := hfollows.sequence
      obtain rfl := Except.ok.inj hfollows.holds
      cases hv

/-- A receipt whose number is `Infinity`. -/
def infiniteReceipt : Dict :=
  [(text "sequence", .float (.infinity false)), (text "previous_head", .str Digest.zero.hex),
    (text "alert_hash", .str Digest.zero.hex), (text "model_hash", .str Digest.zero.hex),
    (text "head", .str Digest.zero.hex)]

/-- The receipt `null` that is written without auditing, and the number `Infinity`. -/
theorem hostile_records_raise :
    AuditStore.verifyChain plainRuntime .standard freshStore [hostileRecord .null] true =
        .error .attributeError ∧
      AuditStore.verifyReceipt plainRuntime .standard freshStore (.obj []) infiniteReceipt =
        .error .overflowError ∧
      (Optee.verifyChain plainRuntime .standard [hostileRecord (.obj infiniteReceipt)] true
        quietMachine).1 = .error .overflowError ∧
      ¬ Total plainRuntime .standard freshStore quietMachine [hostileRecord .null] true ∧
      ¬ Total plainRuntime .standard freshStore quietMachine
        [hostileRecord (.obj infiniteReceipt)] true := by
  have hstore : AuditStore.verifyChain plainRuntime .standard freshStore [hostileRecord .null] true =
      .error .attributeError := rfl
  have hreceipt : AuditStore.verifyReceipt plainRuntime .standard freshStore
    (.obj []) infiniteReceipt =
      .error .overflowError := rfl
  have hoptee : (Optee.verifyChain plainRuntime .standard [hostileRecord (.obj infiniteReceipt)] true
      quietMachine).1 = .error .overflowError := by decide +kernel
  refine ⟨hstore, hreceipt, hoptee, fun h => ?_, fun h => ?_⟩
  · obtain ⟨b, hb⟩ := h.storeChain
    cases hstore.symm.trans hb
  · obtain ⟨b, hb⟩ := h.opteeChain
    cases hoptee.symm.trans hb

end Cote3Mon.Monitor
