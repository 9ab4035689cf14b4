import Cote3Mon.AuditStore.Verify
import Cote3Mon.Python.Exceptions

namespace Cote3Mon.AuditStore
open ByteText Python MacChain

variable {rt : Runtime} {crypto : Crypto} {self : AuditStore} {alert : Json} {receipt : Dict}

structure Reads (rt : Runtime) (alert : Json) (receipt : Dict) (z : ℤ) (p c b d : Bytes) : Prop where
  sequence : ∃ v, receipt.item "sequence" = .ok v ∧ rt.int v = .ok z
  previousHead : hexField rt receipt "previous_head" = .ok p
  alert : canonicalJson rt alert = .ok c
  modelHash : hexField rt receipt "model_hash" = .ok b
  head : hexField rt receipt "head" = .ok d

theorem Reads.readFields {z : ℤ} {p c b d : Bytes} (h : Reads rt alert receipt z p c b d)
    (crypto : Crypto) : readFields rt crypto alert receipt = .ok ⟨z, p, crypto.sha256 c, b, d⟩ := by
  obtain ⟨v, hv, hz⟩ := h.sequence
  simp only [AuditStore.readFields, hv, hz, h.previousHead, h.alert, h.modelHash, h.head, ok_bind]
  rfl

theorem reads_of_readFields {f : Fields} (h : readFields rt crypto alert receipt = .ok f) :
    ∃ c, Reads rt alert receipt f.sequence f.previous c f.modelHash f.claimed ∧
      f.alertHash = crypto.sha256 c := by
  obtain ⟨v, c, -, hv, hint, hprevious, hc, hsha, hmodel, -, hclaimed⟩ := readFields_ok h
  exact ⟨c, ⟨⟨v, hv, hint⟩, hprevious, hc, hmodel, hclaimed⟩, hsha⟩

theorem caught_dict_item (d : Dict) (name : String) : Caught (d.item name) :=
  caught_item (.obj d) name

theorem caught_hexField (hrepr : rt.ReprCaught) (d : Dict) (name : String) :
    Caught (hexField rt d name) :=
  (caught_dict_item d name).bind fun v _ => (caught_str hrepr v).bind fun t _ => caught_fromHex t

/-- `receipt["sequence"]` is an infinite float. -/
def InfiniteSequence (receipt : Dict) : Prop :=
  ∃ v, receipt.item "sequence" = .ok v ∧ v.Infinite

theorem caught_readFields (hrepr : rt.ReprCaught) (h : ¬ InfiniteSequence receipt) :
    Caught (readFields rt crypto alert receipt) := by
  refine (caught_dict_item receipt "sequence").bind fun v hv => ?_
  refine (caught_int rt fun hinfinite => h ⟨v, hv, hinfinite⟩).bind fun _ _ => ?_
  refine (caught_hexField hrepr receipt "previous_head").bind fun _ _ => ?_
  refine (caught_canonicalJson rt alert).bind fun _ _ => ?_
  refine (caught_hexField hrepr receipt "model_hash").bind fun _ _ => ?_
  exact (caught_hexField hrepr receipt "head").bind fun _ _ => failsWith_ok _

/-- The hash of the alert is the one of the receipt, and the number does not fit in 64 bits. -/
def Unpackable (rt : Runtime) (crypto : Crypto) (alert : Json) (receipt : Dict) : Prop :=
  ∃ z p c b d, Reads rt alert receipt z p c b d ∧
    (receipt.get "alert_hash").eqText (crypto.sha256 c).hex ∧ ¬ (0 ≤ z ∧ z < 2 ^ 64)

/-- `verify_receipt` returns unless the number of the receipt is infinite, or does not fit in a
receipt that is otherwise in order. -/
theorem verifyReceipt_returns_iff (crypto : Crypto) (self : AuditStore) (alert : Json)
    (receipt : Dict)
    (hrepr : rt.ReprCaught) :
    (∃ b, verifyReceipt rt crypto self alert receipt = .ok b) ↔
      ¬ InfiniteSequence receipt ∧ ¬ Unpackable rt crypto alert receipt := by
  by_cases hinfinite : InfiniteSequence receipt
  · refine iff_of_false ?_ (fun h => h.1 hinfinite)
    rintro ⟨b, h⟩
    obtain ⟨v, hv, hinfinite⟩ := hinfinite
    have hread : readFields rt crypto alert receipt = .error .overflowError := by
      rw [readFields, hv, ok_bind, int_infinite rt hinfinite]
      rfl
    rw [verifyReceipt, hread] at h
    cases h
  cases hread : readFields rt crypto alert receipt with
  | error e =>
    refine iff_of_true ⟨false, ?_⟩ ⟨hinfinite, ?_⟩
    · simp only [verifyReceipt, hread, caught_readFields hrepr hinfinite e hread, if_true]
    · rintro ⟨z, p, c, b, d, hreads, -, -⟩
      cases hread.symm.trans (hreads.readFields crypto)
  | ok f =>
    obtain ⟨c, hreads, hsha⟩ := reads_of_readFields hread
    by_cases halert : (receipt.get "alert_hash").eqText f.alertHash.hex
    · by_cases hrange : 0 ≤ f.sequence ∧ f.sequence < 2 ^ 64
      · refine iff_of_true ⟨decide ((crypto.hmac self.state.key.bytes (auditMessage
          f.sequence.toNat f.previous f.alertHash.bytes f.modelHash)).bytes = f.claimed), ?_⟩
          ⟨hinfinite, ?_⟩
        · simp only [verifyReceipt, hread, halert, if_true, Fields.message, packQ, if_pos hrange,
            ok_bind]
          rfl
        · rintro ⟨z, p, c', b, d, hreads', -, hnot⟩
          obtain rfl := Except.ok.inj (hread.symm.trans (hreads'.readFields crypto))
          exact hnot hrange
      · refine iff_of_false ?_ fun h => h.2 ⟨_, _, c, _, _, hreads, hsha ▸ halert, hrange⟩
        rintro ⟨b, h⟩
        simp only [verifyReceipt, hread, halert, if_true, Fields.message, packQ, if_neg hrange] at h
        cases h
    · refine iff_of_true ⟨false, ?_⟩ ⟨hinfinite, ?_⟩
      · simp only [verifyReceipt, hread, halert]
        rfl
      · rintro ⟨z, p, c', b, d, hreads', halert', -⟩
        obtain rfl := Except.ok.inj (hread.symm.trans (hreads'.readFields crypto))
        exact halert halert'

variable {n : ℕ} {previous head : Text} {record : Json} {p c b d : Bytes}

/-- The record passes every comparison of the loop and its fields can be read. -/
structure Compared (rt : Runtime) (crypto : Crypto) (state : State) (n : ℕ) (previous : Text)
    (record : Json) (receipt : Dict) (p c b d : Bytes) : Prop where
  holds : ∃ members, record = .obj members ∧ getOrEmpty members "receipt" = .obj receipt ∧
    Reads rt (getOrEmpty members "alert") receipt (n + 1 : ℕ) p c b d
  sequence : (receipt.get "sequence").eqInt (n + 1)
  previousHead : (receipt.get "previous_head").eqText previous
  modelText : (receipt.get "model_hash").eqTextOrNone state.modelHash
  alertText : (receipt.get "alert_hash").eqText (crypto.sha256 c).hex

/-- The head of the record is the MAC, and this is its text. -/
structure Anchors (rt : Runtime) (crypto : Crypto) (key : Digest) (n : ℕ) (receipt : Dict)
    (p c b d : Bytes) (head : Text) : Prop where
  fits : n + 1 < 2 ^ 64
  mac : (crypto.hmac key.bytes (auditMessage (n + 1) p (crypto.sha256 c).bytes b)).bytes = d
  text : ∃ v, receipt.item "head" = .ok v ∧ rt.str v = .ok head

/-- The number that was compared is the one that is read. -/
theorem sequence_of_compared {z : ℤ} (hsequence : (receipt.get "sequence").eqInt (n + 1))
    (hreads : Reads rt alert receipt z p c b d) : z = (n + 1 : ℕ) := by
  obtain ⟨v, hv, hz⟩ := hreads.sequence
  rw [Dict.get_of_item hv] at hsequence
  have hint := rt.int_of_eqInt hsequence
  exact_mod_cast Except.ok.inj (hz.symm.trans hint)

theorem not_infinite_of_eqInt (hsequence : (receipt.get "sequence").eqInt (n + 1)) :
    ¬ InfiniteSequence receipt := by
  rintro ⟨v, hv, negative, rfl⟩
  rw [Dict.get_of_item hv] at hsequence
  cases hsequence

theorem Compared.verifyReceipt (h : Compared rt crypto self.state n previous record receipt p c
    b d) :
    ∃ members, record = .obj members ∧ getOrEmpty members "receipt" = .obj receipt ∧
      verifyReceipt rt crypto self (getOrEmpty members "alert") receipt =
        if n + 1 < 2 ^ 64 then .ok (decide ((crypto.hmac self.state.key.bytes
          (auditMessage (n + 1) p (crypto.sha256 c).bytes b)).bytes = d))
        else .error .structError := by
  obtain ⟨members, hrecord, hreceipt, hreads⟩ := h.holds
  refine ⟨members, hrecord, hreceipt, ?_⟩
  simp only [AuditStore.verifyReceipt, hreads.readFields crypto, h.alertText, if_true,
    Fields.message]
  split_ifs with hfits
  · rw [packQ_of_lt hfits]
    rfl
  · rw [packQ_of_le (not_lt.mp hfits)]
    rfl

/-- A record that the loop cannot take is reached: one that is no object, one whose receipt is none,
or one after `2 ^ 64 - 1` others. -/
inductive Breaks (rt : Runtime) (crypto : Crypto) (state : State) : ℕ → Text → List Json → Prop
  | record {n previous record records} : (∀ members, record ≠ .obj members) →
      Breaks rt crypto state n previous (record :: records)
  | receipt {n previous members records} :
      (∀ receipt, getOrEmpty members "receipt" ≠ .obj receipt) →
      Breaks rt crypto state n previous (.obj members :: records)
  | sequence {n previous record records receipt p c b d} :
      Compared rt crypto state n previous record receipt p c b d → 2 ^ 64 ≤ n + 1 →
      Breaks rt crypto state n previous (record :: records)
  | later {n previous record records receipt p c b d head} :
      Compared rt crypto state n previous record receipt p c b d →
      Anchors rt crypto state.key n receipt p c b d head →
      Breaks rt crypto state (n + 1) head records →
      Breaks rt crypto state n previous (record :: records)

theorem dict_error {v : Json} {e : Exc} (h : v.dict = .error e) : ∀ d, v ≠ .obj d := by
  rintro d rfl
  cases h

theorem dict_of_not_obj {v : Json} (h : ∀ d, v ≠ .obj d) : v.dict = .error .attributeError := by
  cases v with
  | obj d => exact absurd rfl (h d)
  | _ => rfl

/-- A record that was accepted, from the fields that the receipt was read as. -/
theorem compared_of_true {members : Dict}
    (hreceipt : getOrEmpty members "receipt" = .obj receipt)
    (hsequence : (receipt.get "sequence").eqInt (n + 1))
    (hprevious : (receipt.get "previous_head").eqText previous)
    (hmodel : (receipt.get "model_hash").eqTextOrNone self.state.modelHash)
    (hvalid : AuditStore.verifyReceipt rt crypto self (getOrEmpty members "alert") receipt =
      .ok true) :
    ∃ p c b d head, Compared rt crypto self.state n previous (.obj members) receipt p c b d ∧
      Anchors rt crypto self.state.key n receipt p c b d head := by
  obtain ⟨f, message, hf, halert, hmessage, hmac⟩ := verifyReceipt_true hvalid
  obtain ⟨c, hreads, hsha⟩ := reads_of_readFields hf
  obtain ⟨hrange, rfl⟩ := message_ok hmessage
  obtain ⟨w, hw, hclaimed⟩ := bind_eq_ok.mp hreads.head
  obtain ⟨head, hhead, -⟩ := bind_eq_ok.mp hclaimed
  have hnumber := sequence_of_compared hsequence hreads
  rw [hnumber] at hreads hrange hmac
  rw [hsha] at halert hmac
  rw [Int.toNat_natCast] at hmac
  refine ⟨f.previous, c, f.modelHash, f.claimed, head,
    ⟨⟨members, rfl, hreceipt, hreads⟩, hsequence, hprevious, hmodel, ?_⟩, ?_, hmac, w, hw, hhead⟩
  · rw [halert]
    exact decide_eq_true rfl
  · omega

theorem verifyRecords_anchored (hcompared : Compared rt crypto self.state n previous record receipt
    p c b d)
    (hanchors : Anchors rt crypto self.state.key n receipt p c b d head) (records : List Json) :
    verifyRecords rt crypto self previous n (record :: records) =
      verifyRecords rt crypto self head (n + 1) records := by
  obtain ⟨members, rfl, hreceipt, hvalid⟩ := hcompared.verifyReceipt
  obtain ⟨v, hv, hhead⟩ := hanchors.text
  rw [if_pos hanchors.fits, decide_eq_true hanchors.mac] at hvalid
  simp only [verifyRecords, Json.dict, ok_bind, hreceipt, hcompared.sequence, hcompared.previousHead,
    hcompared.modelText, not_true, or_self, if_false, hvalid, if_true, hv, hhead]

theorem Breaks.error {records : List Json} (h : Breaks rt crypto self.state n previous records) :
    ∃ e, verifyRecords rt crypto self previous n records = .error e := by
  induction h with
  | record hrecord =>
    rw [verifyRecords, dict_of_not_obj hrecord]
    exact ⟨_, rfl⟩
  | @receipt _ _ members _ hreceipt =>
    have hrecord : (Json.obj members).dict = .ok members := rfl
    refine ⟨.attributeError, ?_⟩
    rw [verifyRecords, hrecord, ok_bind, dict_of_not_obj hreceipt]
    rfl
  | sequence hcompared hlarge =>
    obtain ⟨members, rfl, hreceipt, hvalid⟩ := hcompared.verifyReceipt
    rw [if_neg (not_lt.mpr hlarge)] at hvalid
    refine ⟨.structError, ?_⟩
    simp only [verifyRecords, Json.dict, ok_bind, hreceipt, hcompared.sequence,
      hcompared.previousHead, hcompared.modelText, not_true, or_self, if_false, hvalid]
    rfl
  | later hcompared hanchors _ ih =>
    rw [verifyRecords_anchored hcompared hanchors]
    exact ih

theorem breaks_of_error {records : List Json} {e : Exc} (hrepr : rt.ReprCaught)
    (h : verifyRecords rt crypto self previous n records = .error e) :
    Breaks rt crypto self.state n previous records := by
  induction records generalizing n previous with
  | nil => cases h
  | cons record records ih =>
    cases hrecord : record.dict with
    | error e' => exact .record (dict_error hrecord)
    | ok members =>
      obtain rfl := eq_obj_of_dict hrecord
      cases hreceipt : (getOrEmpty members "receipt").dict with
      | error e' => exact .receipt (dict_error hreceipt)
      | ok receipt =>
        have hobj := eq_obj_of_dict hreceipt
        simp only [verifyRecords, hrecord, hreceipt, ok_bind] at h
        by_cases hfirst : ¬ (receipt.get "sequence").eqInt (n + 1) ∨
            ¬ (receipt.get "previous_head").eqText previous
        · rw [if_pos hfirst] at h
          cases h
        by_cases hmodel : ¬ (receipt.get "model_hash").eqTextOrNone self.state.modelHash
        · rw [if_neg hfirst, if_pos hmodel] at h
          cases h
        · rw [if_neg hfirst, if_neg hmodel] at h
          push Not at hfirst hmodel
          obtain ⟨hsequence, hprevious⟩ := hfirst
          cases hvalid : AuditStore.verifyReceipt rt crypto self
              (getOrEmpty members "alert") receipt with
          | error e' =>
            have hraises : ¬ ∃ b, AuditStore.verifyReceipt rt crypto self
                (getOrEmpty members "alert") receipt = .ok b := by
              rintro ⟨b, hb⟩
              cases hvalid.symm.trans hb
            rw [verifyReceipt_returns_iff crypto self _ receipt hrepr] at hraises
            by_cases hunpackable : Unpackable rt crypto (getOrEmpty members "alert") receipt
            · obtain ⟨z, p, c, b, d, hreads, halert, hrange⟩ := hunpackable
              obtain rfl := sequence_of_compared hsequence hreads
              exact .sequence ⟨⟨members, rfl, hobj, hreads⟩, hsequence, hprevious, hmodel, halert⟩
                (by omega)
            · exact absurd ⟨not_infinite_of_eqInt hsequence, hunpackable⟩ hraises
          | ok valid =>
            cases valid with
            | false =>
              rw [hvalid] at h
              cases h
            | true =>
              obtain ⟨p, c, b, d, head, hcompared, hanchors⟩ :=
                compared_of_true hobj hsequence hprevious hmodel hvalid
              obtain ⟨v, hv, hhead⟩ := hanchors.text
              simp only [hvalid, ok_bind, if_true, hv, hhead] at h
              exact .later hcompared hanchors (ih h)

/-- The loop returns unless it reaches a record that it cannot take. -/
theorem verifyRecords_raises_iff (hrepr : rt.ReprCaught) (records : List Json) :
    (∃ e, verifyRecords rt crypto self previous n records = .error e) ↔
      Breaks rt crypto self.state n previous records :=
  ⟨fun ⟨_, h⟩ => breaks_of_error hrepr h, Breaks.error⟩

theorem verifyChain_returns_iff (crypto : Crypto) (self : AuditStore) (hrepr : rt.ReprCaught)
    (records : List Json) (requireCurrentHead : Bool) :
    (∃ b, verifyChain rt crypto self records requireCurrentHead = .ok b) ↔
      ¬ Breaks rt crypto self.state 0 zeroHash.hex records := by
  rw [← verifyRecords_raises_iff hrepr, verifyChain]
  cases hrun : verifyRecords rt crypto self zeroHash.hex 0 records with
  | error e =>
    refine iff_of_false ?_ (not_not.mpr ⟨e, rfl⟩)
    rintro ⟨b, h⟩
    cases h
  | ok last =>
    refine iff_of_true ?_ (not_exists.mpr fun e h => by cases h)
    rw [ok_bind]
    cases last with
    | none => exact ⟨false, rfl⟩
    | some last =>
      dsimp only
      split_ifs
      · exact ⟨_, rfl⟩
      · exact ⟨true, rfl⟩

theorem hexField_of_eqText {name : String} {t : Text} (h : (receipt.get name).eqText t) :
    hexField rt receipt name = fromHex t := by
  simp only [hexField, Dict.item_of_get (Json.eq_of_eqText h), ok_bind, Runtime.str]

theorem Compared.holdsReceipt {p' : Digest}
    (hcompared : Compared rt crypto self.state n previous record receipt p c b d)
    (hanchors : Anchors rt crypto self.state.key n receipt p c b d head)
    (hprevious : fromHex previous = .ok p'.bytes) : HoldsReceipt rt record := by
  obtain ⟨members, rfl, hreceipt, hreads⟩ := hcompared.holds
  obtain ⟨v, hv, hint⟩ := hreads.sequence
  have hne : receipt ≠ [] := by
    rintro rfl
    cases hv
  have hdict : (getOrEmpty members "receipt").dict = .ok receipt := by
    rw [hreceipt]
    rfl
  have hfits := hanchors.fits
  refine ⟨receipt, item_receipt hdict hne, ⟨v, _, hv, hint, by omega, by omega⟩, ⟨p', ?_⟩,
    ⟨crypto.sha256 c, ?_⟩, ⟨b, hreads.modelHash⟩,
      ⟨_, hreads.head.trans (congrArg _ hanchors.mac.symm)⟩⟩
  · rw [hexField_of_eqText hcompared.previousHead, hprevious]
  · rw [hexField_of_eqText hcompared.alertText]
    exact fromHex_hexEncode _

theorem verifyRecords_holdsReceipt {records : List Json} {last : Text × ℕ} {p' : Digest}
    (hprevious : fromHex previous = .ok p'.bytes)
    (h : verifyRecords rt crypto self previous n records = .ok (some last)) :
    ∀ record ∈ records, HoldsReceipt rt record := by
  induction records generalizing n previous p' with
  | nil => simp
  | cons record records ih =>
    rw [verifyRecords] at h
    obtain ⟨members, hrecord, h⟩ := bind_eq_ok.mp h
    obtain ⟨receipt, hreceipt, h⟩ := bind_eq_ok.mp h
    split_ifs at h with hfirst hmodel
    · cases h
    · obtain ⟨valid, hvalid, h⟩ := bind_eq_ok.mp h
      cases valid with
      | false => cases h
      | true =>
        push Not at hfirst
        obtain ⟨p, c, b, d, head, hcompared, hanchors⟩ :=
          compared_of_true (eq_obj_of_dict hreceipt) hfirst.1 hfirst.2 hmodel hvalid
        obtain ⟨v, hv, hhead⟩ := hanchors.text
        simp only [if_true, hv, hhead, ok_bind] at h
        obtain ⟨_, -, -, hreads⟩ := hcompared.holds
        have hmac : fromHex head = .ok (crypto.hmac self.state.key.bytes
            (auditMessage (n + 1) p (crypto.sha256 c).bytes b)).bytes := by
          rw [hanchors.mac, ← hreads.head]
          simp only [hexField, hv, hhead, ok_bind]
        rw [eq_obj_of_dict hrecord]
        exact List.forall_mem_cons.mpr ⟨hcompared.holdsReceipt hanchors hprevious, ih hmac h⟩
    · cases h

/-- A record without a well-formed receipt is never accepted. -/
theorem verifyChain_holdsReceipt {records : List Json} {requireCurrentHead : Bool}
    (h : verifyChain rt crypto self records requireCurrentHead = .ok true) :
    ∀ record ∈ records, HoldsReceipt rt record := by
  obtain ⟨last, hrun, h⟩ := bind_eq_ok.mp h
  cases last with
  | none => cases h
  | some last => exact verifyRecords_holdsReceipt (fromHex_hexEncode zeroHash.bytes) hrun

end Cote3Mon.AuditStore
