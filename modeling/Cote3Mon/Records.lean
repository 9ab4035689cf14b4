import Cote3Mon.Python.Values
import Cote3Mon.ReceiptChain

namespace Cote3Mon
open ByteText Python

/-- `d.get(name, {})`. -/
def getOrEmpty (d : Dict) (name : String) : Json := (d.lookup (text name)).getD (.obj [])

/-- `bytes.fromhex(str(receipt[name]))`. -/
def hexField (rt : Runtime) (receipt : Dict) (name : String) : Except Exc Bytes := do
  fromHex (← rt.str (← receipt.item name))

theorem hexField_str {rt : Runtime} {receipt : Dict} {name : String} {bs : Bytes}
    (h : receipt.item name = .ok (.str (hexEncode bs))) : hexField rt receipt name = .ok bs := by
  simp only [hexField, h, ok_bind, Runtime.str, fromHex_hexEncode]

theorem eq_obj_of_dict {v : Json} {d : Dict} (h : v.dict = .ok d) : v = .obj d := by
  cases v with
  | obj d' => rw [show d' = d from Except.ok.inj h]
  | _ => cases h

/-- A record whose receipt has a field has a receipt. -/
theorem item_receipt {d receipt : Dict} (h : (getOrEmpty d "receipt").dict = .ok receipt)
    (hfield : receipt ≠ []) : d.item "receipt" = .ok (.obj receipt) := by
  unfold getOrEmpty at h
  unfold Dict.item
  cases hl : d.lookup (text "receipt") with
  | none =>
    rw [hl] at h
    exact absurd (Except.ok.inj h).symm hfield
  | some v =>
    rw [hl] at h
    cases v with
    | obj receipt' => rw [show receipt' = receipt from Except.ok.inj h]
    | _ => cases h

def readRecord (rt : Runtime) (v : Json) : Except Exc Shown := do
  let record ← v.dict
  let receipt ← (getOrEmpty record "receipt").dict
  let canonical ← canonicalJson rt (getOrEmpty record "alert")
  let sequence ← rt.int (← receipt.item "sequence")
  let previousHead ← hexField rt receipt "previous_head"
  let alertHash ← hexField rt receipt "alert_hash"
  let modelHash ← hexField rt receipt "model_hash"
  let head ← hexField rt receipt "head"
  return ⟨canonical, sequence, previousHead, alertHash, modelHash, head⟩

def shows (rt : Runtime) (v : Json) : Option Shown := (readRecord rt v).toOption

theorem readRecord_of_shows {rt : Runtime} {v : Json} {s : Shown} (h : shows rt v = some s) :
    readRecord rt v = .ok s := by
  unfold shows at h
  cases hr : readRecord rt v with
  | error e => simp [hr, Except.toOption] at h
  | ok s' => simpa [hr, Except.toOption] using h

theorem shows_eq {rt : Runtime} {v : Json} {record receipt : Dict} {item : Json} {s : Shown}
    (hrecord : v.dict = .ok record) (hreceipt : (getOrEmpty record "receipt").dict = .ok receipt)
    (hcanonical : canonicalJson rt (getOrEmpty record "alert") = .ok s.canonical)
    (hitem : receipt.item "sequence" = .ok item) (hsequence : rt.int item = .ok s.sequence)
    (hprevious : hexField rt receipt "previous_head" = .ok s.previousHead)
    (halert : hexField rt receipt "alert_hash" = .ok s.alertHash)
    (hmodel : hexField rt receipt "model_hash" = .ok s.modelHash)
    (hhead : hexField rt receipt "head" = .ok s.head) : shows rt v = some s := by
  simp only [shows, readRecord, hrecord, hreceipt, hcanonical, hitem, hsequence, hprevious, halert,
    hmodel, hhead, ok_bind]
  rfl

/-- The five fields, each of a type and a form that can be read.  A model hash of any length will do:
it is compared with the one of the verifier. -/
structure WellFormedReceipt (rt : Runtime) (receipt : Dict) : Prop where
  sequence : ∃ v z, receipt.item "sequence" = .ok v ∧ rt.int v = .ok z ∧ 0 < z ∧ z < 2 ^ 64
  previousHead : ∃ d : Digest, hexField rt receipt "previous_head" = .ok d.bytes
  alertHash : ∃ d : Digest, hexField rt receipt "alert_hash" = .ok d.bytes
  modelHash : ∃ bs, hexField rt receipt "model_hash" = .ok bs
  head : ∃ d : Digest, hexField rt receipt "head" = .ok d.bytes

def HoldsReceipt (rt : Runtime) (record : Json) : Prop :=
  ∃ receipt, record.item "receipt" = .ok (.obj receipt) ∧ WellFormedReceipt rt receipt

end Cote3Mon
