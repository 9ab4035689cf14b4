import Cote3Mon.AuditStore.Verify
import Cote3Mon.Optee.Verify

namespace Cote3Mon.Monitor
open ByteText Python

def isWhole : Json → Bool
  | .int _ => true
  | .bool _ => true
  | .float f => f.value?.any fun q => q.den = 1
  | _ => false

def isText : Json → Bool
  | .str _ => true
  | _ => false

def members : Json → Dict
  | .obj d => d
  | _ => []

/-- `record["receipt"]`. -/
def receiptOf (record : Json) : Dict := members (getOrEmpty (members record) "receipt")

/-- What only the store asks of a record. -/
def StoreSpelling (state : AuditStore.State) (record : Json) : Prop :=
  isWhole ((receiptOf record).get "sequence") ∧ isText ((receiptOf record).get "previous_head") ∧
    isText ((receiptOf record).get "alert_hash") ∧
    ((receiptOf record).get "model_hash").eqTextOrNone state.modelHash

/-- What only the OP-TEE backend asks of a record. -/
def OpteeSpelling (rt : Runtime) (record : Json) : Prop :=
  (∃ alert, Dict.item (members record) "alert" = .ok alert) ∧
    ∃ head, Optee.strItem rt (.obj (receiptOf record)) "head" = .ok head ∧ Optee.isHash head

/-- What both verifiers ask of a record after `n` others, where `previous` is the last head as
it was written: its own head is written `head` and is the MAC of its fields. -/
structure Links (rt : Runtime) (crypto : Crypto) (key model : Digest) (n : ℕ) (previous : Text)
    (record : Json) (head : Text) : Prop where
  dict : record = .obj (members record)
  receipt : Dict.item (members record) "receipt" = .ok (.obj (receiptOf record))
  sequence : ∃ item, (receiptOf record).item "sequence" = .ok item ∧ rt.int item = .ok (n + 1 : ℕ)
  previousHead : Optee.strItem rt (.obj (receiptOf record)) "previous_head" = .ok previous
  modelHash : Optee.strItem rt (.obj (receiptOf record)) "model_hash" = .ok model.hex
  headText : Optee.strItem rt (.obj (receiptOf record)) "head" = .ok head
  fits : n + 1 < 2 ^ 64
  mac : ∃ c p, canonicalJson rt (getOrEmpty (members record) "alert") = .ok c ∧
    Optee.strItem rt (.obj (receiptOf record)) "alert_hash" = .ok (crypto.sha256 c).hex ∧
    fromHex previous = .ok p ∧
    fromHex head = .ok (crypto.hmac key.bytes
      (auditMessage (n + 1) p (crypto.sha256 c).bytes model.bytes)).bytes

/-- A chain of records under one model, from the head `previous` to the head `last`. -/
inductive Chained (rt : Runtime) (crypto : Crypto) (key model : Digest) :
    ℕ → Text → List Json → Text → Prop
  | nil (n : ℕ) (previous : Text) : Chained rt crypto key model n previous [] previous
  | cons {n previous record head records last} : Links rt crypto key model n previous record head →
      Chained rt crypto key model (n + 1) head records last →
      Chained rt crypto key model n previous (record :: records) last

variable {rt : Runtime} {crypto : Crypto} {key model : Digest} {n : ℕ} {previous head : Text}
  {record : Json}

/-- A float without a fraction is the integer that `int` makes of it. -/
theorem value_of_isWhole {negative : Bool} {magnitude : ℚ≥0} {k : ℤ}
    (hint : rt.int (.float (.finite negative magnitude)) = .ok k)
    (h : isWhole (.float (.finite negative magnitude))) :
    (PyFloat.finite negative magnitude).value? = some (k : ℚ) := by
  have hden : (magnitude : ℚ).den = 1 := by
    cases negative with
    | false => simpa [isWhole, PyFloat.value?] using h
    | true => simpa [isWhole, PyFloat.value?] using h
  have hnum : ((magnitude : ℚ).num : ℚ) = magnitude := Rat.den_eq_one_iff _ |>.mp hden
  have hfloor : ⌊(magnitude : ℚ)⌋ = (magnitude : ℚ).num := by
    rw [← hnum, Int.floor_intCast, hnum]
  have hk := Except.ok.inj hint
  rw [hfloor] at hk
  rw [PyFloat.value?, ← hk, ← hnum]
  cases negative with
  | false => simp
  | true => simp

theorem eqInt_of_isWhole {v : Json} {k : ℤ} (hint : rt.int v = .ok k) (h : isWhole v) :
    v.eqInt k := by
  cases v with
  | int m => simpa [Json.eqInt, Runtime.int] using hint
  | bool b => simpa [Json.eqInt, Runtime.int] using hint
  | float f =>
    cases f with
    | finite negative magnitude => exact decide_eq_true (value_of_isWhole hint h)
    | infinity negative => cases hint
    | nan => cases hint
  | null => cases h
  | str t => cases h
  | arr items => cases h
  | obj d => cases h

theorem isWhole_of_eqInt {v : Json} {k : ℤ} (h : v.eqInt k) : isWhole v := by
  cases v with
  | int m => rfl
  | bool b => rfl
  | float f =>
    have hvalue : f.value? = some (k : ℚ) := by simpa [Json.eqInt] using h
    rw [isWhole, hvalue]
    simp
  | null => cases h
  | str t => cases h
  | arr items => cases h
  | obj d => cases h

theorem eq_str_of_isText {v : Json} (h : isText v) : ∃ t, v = .str t := by
  cases v with
  | str t => exact ⟨t, rfl⟩
  | _ => cases h

theorem strItem_obj {d : Dict} {name : String} {t : Text} :
    Optee.strItem rt (.obj d) name = .ok t ↔ ∃ v, d.item name = .ok v ∧ rt.str v = .ok t :=
  bind_eq_ok

/-- A field that the store compares as a text. -/
theorem strItem_of_get {d : Dict} {name : String} {t : Text} (h : d.get name = .str t) :
    Optee.strItem rt (.obj d) name = .ok t :=
  strItem_obj.mpr ⟨.str t, Dict.item_of_get h, rfl⟩

theorem get_of_strItem {d : Dict} {name : String} {t : Text}
    (h : Optee.strItem rt (.obj d) name = .ok t) (htext : isText (d.get name)) :
    d.get name = .str t := by
  obtain ⟨v, hitem, hstr⟩ := strItem_obj.mp h
  rw [Dict.get_of_item hitem] at htext ⊢
  obtain ⟨t', rfl⟩ := eq_str_of_isText htext
  rw [Except.ok.inj hstr]

theorem hexField_eq {d : Dict} {name : String} {t : Text}
    (h : Optee.strItem rt (.obj d) name = .ok t) : hexField rt d name = fromHex t := by
  obtain ⟨v, hitem, hstr⟩ := strItem_obj.mp h
  simp only [hexField, hitem, hstr, ok_bind]

theorem getOrEmpty_of_item {d : Dict} {name : String} {v : Json} (h : d.item name = .ok v) :
    getOrEmpty d name = v := by
  obtain ⟨d', hd, hget⟩ := Optee.item_ok (show Json.item (.obj d) name = .ok v from h)
  cases hd
  exact hget

variable {self : AuditStore}

theorem store_verifyReceipt {alert : Json} {receipt : Dict} {item : Json} {c p b : Bytes}
    (hitem : receipt.item "sequence" = .ok item) (hint : rt.int item = .ok (n + 1 : ℕ))
    (hfits : n + 1 < 2 ^ 64) (hprevious : hexField rt receipt "previous_head" = .ok p)
    (hc : canonicalJson rt alert = .ok c)
    (halert : receipt.get "alert_hash" = .str (crypto.sha256 c).hex)
    (hmodel : hexField rt receipt "model_hash" = .ok b)
    (hhead : hexField rt receipt "head" = .ok (crypto.hmac self.state.key.bytes
      (auditMessage (n + 1) p (crypto.sha256 c).bytes b)).bytes) :
    AuditStore.verifyReceipt rt crypto self alert receipt = .ok true := by
  have hfields : AuditStore.readFields rt crypto alert receipt =
      .ok ⟨(n + 1 : ℕ), p, crypto.sha256 c, b, (crypto.hmac self.state.key.bytes
        (auditMessage (n + 1) p (crypto.sha256 c).bytes b)).bytes⟩ := by
    simp only [AuditStore.readFields, hitem, hint, hprevious, hc, hmodel, hhead, ok_bind]
    rfl
  have heq : (receipt.get "alert_hash").eqText (crypto.sha256 c).hex := by
    rw [halert]
    exact decide_eq_true rfl
  rw [AuditStore.verifyReceipt, hfields]
  simp only [heq, if_true, AuditStore.Fields.message, AuditStore.packQ_of_lt hfits, ok_bind]
  simp [pure, Except.pure, auditMessage, AuditStore.domain]

/-- A record that the store has checked. -/
theorem links_of_store {d receipt : Dict} {item : Json}
    (hmodel : self.state.modelHash = some model.hex)
    (hreceipt : (getOrEmpty d "receipt").dict = .ok receipt)
    (hsequence : (receipt.get "sequence").eqInt (n + 1))
    (hprevious : (receipt.get "previous_head").eqText previous)
    (hmodelText : (receipt.get "model_hash").eqTextOrNone self.state.modelHash)
    (hvalid : AuditStore.verifyReceipt rt crypto self (getOrEmpty d "alert") receipt = .ok true)
    (hitem : receipt.item "head" = .ok item) (hhead : rt.str item = .ok head) :
    Links rt crypto self.state.key model n previous (.obj d) head ∧
      StoreSpelling self.state (.obj d) := by
  obtain ⟨f, message, hf, halert, hmessage, hmac⟩ := AuditStore.verifyReceipt_true hvalid
  obtain ⟨v, c, -, hv, hint, hprev, hc, hsha, hmod, -, hclaimed⟩ := AuditStore.readFields_ok hf
  have hreceiptOf : receiptOf (.obj d) = receipt := by
    rw [receiptOf, members, eq_obj_of_dict hreceipt]
    rfl
  have hne : receipt ≠ [] := by
    rintro rfl
    cases hv
  have hwhole : rt.int v = .ok ((n : ℤ) + 1) := by
    rw [Dict.get_of_item hv] at hsequence
    exact rt.int_of_eqInt hsequence
  have hseq : f.sequence = (n + 1 : ℕ) := by
    rw [hint] at hwhole
    exact_mod_cast Except.ok.inj hwhole
  have hpreviousText : Optee.strItem rt (.obj receipt) "previous_head" = .ok previous :=
    strItem_of_get (Json.eq_of_eqText hprevious)
  have hmodelField : Optee.strItem rt (.obj receipt) "model_hash" = .ok model.hex := by
    rw [hmodel] at hmodelText
    exact strItem_of_get (Json.eq_of_eqText hmodelText)
  have hheadField : Optee.strItem rt (.obj receipt) "head" = .ok head :=
    strItem_obj.mpr ⟨item, hitem, hhead⟩
  rw [hexField_eq hpreviousText] at hprev
  rw [hexField_eq hheadField] at hclaimed
  have hm : f.modelHash = model.bytes := by
    rw [hexField_eq hmodelField, Digest.hex, fromHex_hexEncode] at hmod
    exact (Except.ok.inj hmod).symm
  obtain ⟨hrange, rfl⟩ := AuditStore.message_ok hmessage
  rw [hseq, Int.toNat_natCast, hm, hsha] at hmac
  rw [hsha] at halert
  constructor
  · refine ⟨rfl, ?_, ?_, ?_, ?_, ?_, ?_, c, f.previous, hc, ?_, hprev, ?_⟩
    · rw [hreceiptOf]
      exact item_receipt hreceipt hne
    · rw [hreceiptOf]
      exact ⟨v, hv, hint.trans (congrArg _ hseq)⟩
    · rw [hreceiptOf]
      exact hpreviousText
    · rw [hreceiptOf]
      exact hmodelField
    · rw [hreceiptOf]
      exact hheadField
    · omega
    · rw [hreceiptOf]
      exact strItem_of_get halert
    · rw [hclaimed, ← hmac]
      rfl
  · rw [StoreSpelling, hreceiptOf, Json.eq_of_eqText hprevious, halert]
    exact ⟨isWhole_of_eqInt hsequence, rfl, rfl, hmodelText⟩

/-- One round of the loop of the store. -/
theorem store_step (hmodel : self.state.modelHash = some model.hex) (record : Json)
    (records : List Json) (last : Text) (k : ℕ) :
    AuditStore.verifyRecords rt crypto self previous n (record :: records) = .ok (some (last, k)) ↔
      ∃ head, Links rt crypto self.state.key model n previous record head ∧
        StoreSpelling self.state record ∧
        AuditStore.verifyRecords rt crypto self head (n + 1) records = .ok (some (last, k)) := by
  constructor
  · intro h
    rw [AuditStore.verifyRecords] at h
    obtain ⟨d, hd, h⟩ := bind_eq_ok.mp h
    obtain ⟨receipt, hreceipt, h⟩ := bind_eq_ok.mp h
    split_ifs at h with hfirst hmodelText
    · cases h
    · obtain ⟨valid, hvalid, h⟩ := bind_eq_ok.mp h
      cases valid with
      | false => cases h
      | true =>
        simp only [if_true] at h
        obtain ⟨item, hitem, h⟩ := bind_eq_ok.mp h
        obtain ⟨head, hhead, h⟩ := bind_eq_ok.mp h
        push Not at hfirst
        rw [eq_obj_of_dict hd]
        obtain ⟨hlinks, hspelled⟩ := links_of_store hmodel hreceipt hfirst.1 hfirst.2 hmodelText
          hvalid hitem hhead
        exact ⟨head, hlinks, hspelled, h⟩
    · cases h
  · rintro ⟨head, hlinks, ⟨hwhole, hpreviousText, halertText, hmodelText⟩, h⟩
    obtain ⟨item, hitem, hint⟩ := hlinks.sequence
    obtain ⟨c, p, hc, halert, hp, hmac⟩ := hlinks.mac
    obtain ⟨headItem, hheadItem, hheadText⟩ := strItem_obj.mp hlinks.headText
    have hreceipt : getOrEmpty (members record) "receipt" = .obj (receiptOf record) :=
      getOrEmpty_of_item hlinks.receipt
    have hsequence : ((receiptOf record).get "sequence").eqInt (n + 1) := by
      rw [Dict.get_of_item hitem] at hwhole ⊢
      exact_mod_cast eqInt_of_isWhole hint hwhole
    have hprevious : ((receiptOf record).get "previous_head").eqText previous := by
      rw [get_of_strItem hlinks.previousHead hpreviousText]
      exact decide_eq_true rfl
    have hvalid : AuditStore.verifyReceipt rt crypto self (getOrEmpty (members record) "alert")
        (receiptOf record) = .ok true :=
      store_verifyReceipt hitem hint hlinks.fits ((hexField_eq hlinks.previousHead).trans hp) hc
        (get_of_strItem halert halertText)
        ((hexField_eq hlinks.modelHash).trans (fromHex_hexEncode _))
        ((hexField_eq hlinks.headText).trans hmac)
    rw [hlinks.dict, AuditStore.verifyRecords]
    simp only [Json.dict, ok_bind, hreceipt, hsequence, hprevious, hmodelText, not_true, or_self,
      if_false, hvalid, if_true, hheadItem, hheadText, h]

theorem store_verifyRecords_iff (hmodel : self.state.modelHash = some model.hex)
    (records : List Json) (last : Text) (k : ℕ) :
    AuditStore.verifyRecords rt crypto self previous n records = .ok (some (last, k)) ↔
      Chained rt crypto self.state.key model n previous records last ∧
        (∀ record ∈ records, StoreSpelling self.state record) ∧ k = n + records.length := by
  induction records generalizing n previous with
  | nil =>
    constructor
    · intro h
      obtain ⟨rfl, rfl⟩ := Prod.mk.inj (Option.some.inj (Except.ok.inj h))
      exact ⟨.nil n previous, by simp, rfl⟩
    · rintro ⟨hchain, -, rfl⟩
      cases hchain
      rfl
  | cons record records ih =>
    rw [store_step hmodel]
    constructor
    · rintro ⟨head, hlinks, hspelled, h⟩
      obtain ⟨hchain, hall, hk⟩ := ih.mp h
      refine ⟨.cons hlinks hchain, List.forall_mem_cons.mpr ⟨hspelled, hall⟩, ?_⟩
      rw [hk, List.length_cons]
      omega
    · rintro ⟨hchain, hall, hk⟩
      obtain ⟨hspelled, hall⟩ := List.forall_mem_cons.mp hall
      cases hchain with
      | @cons _ _ _ head _ _ hlinks hchain =>
        refine ⟨head, hlinks, hspelled, ih.mpr ⟨hchain, hall, ?_⟩⟩
        rw [hk, List.length_cons]
        omega

end Cote3Mon.Monitor
