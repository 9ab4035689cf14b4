import Cote3Mon.Optee.Chain

namespace Cote3Mon.Optee
open ByteText Python AuditTa MacChain

variable {rt : Runtime} {crypto : Crypto} {m m' : Machine}

theorem item_ok {v w : Json} {name : String} (h : v.item name = .ok w) :
    ∃ d : Dict, v = .obj d ∧ getOrEmpty d name = w := by
  cases v with
  | obj d =>
    refine ⟨d, rfl, ?_⟩
    simp only [Json.item, Dict.item] at h
    unfold getOrEmpty
    cases hl : d.lookup (text name) with
    | none => simp [hl] at h
    | some w' => simpa [hl] using h
  | _ => cases h

theorem hexField_of_strItem {d : Dict} {name : String} {bs : Bytes}
    (h : strItem rt (.obj d) name = .ok (hexEncode bs)) : hexField rt d name = .ok bs := by
  obtain ⟨w, hw, hstr⟩ := bind_eq_ok.mp h
  have hitem : d.item name = .ok w := hw
  simp only [hexField, hitem, hstr, ok_bind, fromHex_hexEncode]

/-- The values that a receipt has to show before it is sent to the TA. -/
structure Sent (rt : Runtime) (receipt : Json) (n : ℕ) (p a b h : Digest) : Prop where
  sequence : ∃ item, receipt.item "sequence" = .ok item ∧ rt.int item = .ok n
  previousHead : strItem rt receipt "previous_head" = .ok p.hex
  alertHash : strItem rt receipt "alert_hash" = .ok a.hex
  modelHash : strItem rt receipt "model_hash" = .ok b.hex
  head : strItem rt receipt "head" = .ok h.hex

theorem Sent.arguments {receipt : Json} {n : ℕ} {p a b h : Digest} (hs : Sent rt receipt n p a b h) :
    verifyArguments rt receipt =
      if rt.tooLong (decimal n) then .error .valueError
      else .ok [text "verify", decimal n, p.hex, a.hex, b.hex, h.hex] := by
  obtain ⟨item, hitem, hint⟩ := hs.sequence
  have htext : rt.intText n = if rt.tooLong (decimal n) then .error .valueError
      else .ok (decimal n) := by
    rw [Runtime.intText, Int.natAbs_natCast, if_neg (show ¬ (n : ℤ) < 0 by omega)]
  simp only [verifyArguments, hitem, hint, ok_bind, htext, hs.previousHead, hs.alertHash,
    hs.modelHash, hs.head]
  split_ifs
  · rfl
  · rfl

/-- A receipt that the TA accepts carries the right MAC. -/
theorem verifyReceipt_true {receipt : Json} {n : ℕ} {p a b h : Digest}
    (hs : Sent rt receipt n p a b h) (hv : verifyReceipt rt crypto receipt m = (.ok true, m')) :
    n < 2 ^ 64 ∧ ∃ st, Loaded m.tee.object st ∧ m'.tee.object = some st ∧
      h = crypto.hmac st.key.bytes (auditMessage n p.bytes a.bytes b.bytes) := by
  unfold verifyReceipt at hv
  obtain ⟨arguments, harguments, hafter⟩ := Exec.lift_bind_ok (Exec.orElse_ok hv (by decide))
  obtain ⟨output, t, hrun, hpure⟩ := Exec.bind_ok hafter
  have ht : t = m' := (Prod.mk.inj hpure).2
  subst t
  rw [hs.arguments] at harguments
  split_ifs at harguments
  rw [← Except.ok.inj harguments] at hrun
  by_cases hn : n < 2 ^ 64
  · refine ⟨hn, ?_⟩
    rw [runClient_verify hn] at hrun
    have hstep := process_step crypto (verifyInvocation ⟨UInt64.ofNat n, p, a, b, h⟩)
      (fun _ => text "VALID\n") m
    rw [hrun] at hstep
    rcases hstep with ⟨e, he, -⟩ | ⟨out, hstep, hout⟩
    · cases he
    · split_ifs at hout with hresult
      obtain ⟨st, hload, hobject, hmac⟩ := step_verify hstep hresult
      have hnat : (UInt64.ofNat n).toNat = n := UInt64.toNat_ofNat_of_lt' hn
      rw [hmacMessage_eq, hnat] at hmac
      exact ⟨st, hload, hobject, hmac.symm⟩
  · obtain ⟨e, m2, hlarge, -⟩ := runClient_verify_large crypto (not_lt.mp hn) p a b h m
    rw [hlarge] at hrun
    cases (Prod.mk.inj hrun).1

/-- The body of the loop: the record shows the next entry of the chain. -/
theorem checkRecord_some {progress next : Progress} {v : Json} {p : Digest}
    (hp : progress.previous = p.hex)
    (h : checkRecord rt crypto progress v m = (.ok (some next), m')) :
    ∃ c model head st,
      shows rt v = some (shown crypto.sha256 progress.sequence p c model head) ∧
      head = crypto.hmac st.key.bytes
        (chainMessage (progress.sequence + 1) p ⟨crypto.sha256 c, model⟩) ∧
      Loaded m.tee.object st ∧ m'.tee.object = some st ∧
      next.previous = head.hex ∧ next.sequence = progress.sequence + 1 := by
  unfold checkRecord at h
  obtain ⟨receipt, hreceipt, h⟩ := Exec.lift_bind_ok h
  obtain ⟨c, hcanonical, h⟩ := Exec.lift_bind_ok h
  obtain ⟨previousHead, hprevious, h⟩ := Exec.lift_bind_ok h
  obtain ⟨alertField, halert, h⟩ := Exec.lift_bind_ok h
  obtain ⟨modelHash, hmodel, h⟩ := Exec.lift_bind_ok h
  obtain ⟨headField, hhead, h⟩ := Exec.lift_bind_ok h
  obtain ⟨hfields, h⟩ := Exec.passed h nofun
  obtain ⟨claimed, hclaimed, h⟩ := Exec.lift_bind_ok h
  obtain ⟨hsequence, h⟩ := Exec.passed h nofun
  obtain ⟨hlinks, h⟩ := Exec.passed h nofun
  obtain ⟨-, h⟩ := Exec.passed h nofun
  obtain ⟨valid, t, hvalid, h⟩ := Exec.bind_ok h
  cases valid with
  | false => cases h
  | true =>
    obtain ⟨hnext, ht⟩ := Prod.mk.inj h
    have hnext : (⟨headField, progress.sequence + 1, some modelHash⟩ : Progress) = next :=
      Option.some.inj (Except.ok.inj hnext)
    have ht : t = m' := ht
    subst ht hnext
    push Not at hsequence hlinks
    obtain ⟨hlink, halertHash⟩ := hlinks
    -- every field is the text of a digest
    simp only [List.all_cons, List.all_nil, Bool.and_true, Bool.and_eq_true, not_not] at hfields
    obtain ⟨-, -, hmodelHash, hheadHash⟩ := hfields
    obtain ⟨model, rfl⟩ := eq_hex_of_isHash hmodelHash
    obtain ⟨head, rfl⟩ := eq_hex_of_isHash hheadHash
    rw [hlink, hp] at hprevious
    rw [halertHash] at halert
    obtain ⟨record, rfl, hgetReceipt⟩ := item_ok hreceipt
    obtain ⟨alert, halertItem, hc⟩ := bind_eq_ok.mp hcanonical
    have hgetAlert : getOrEmpty record "alert" = alert := by
      obtain ⟨d, hd, hget⟩ := item_ok halertItem
      cases hd
      exact hget
    obtain ⟨item, hitem, hint⟩ := bind_eq_ok.mp hclaimed
    obtain ⟨fields, rfl, -⟩ := item_ok hitem
    rw [hsequence] at hint
    have hsent : Sent rt (.obj fields) (progress.sequence + 1) p (crypto.sha256 c) model head :=
      ⟨⟨item, hitem, hint⟩, hprevious, halert, hmodel, hhead⟩
    obtain ⟨-, st, hload, hobject, hmac⟩ := verifyReceipt_true hsent hvalid
    refine ⟨c, model, head, st, ?_, hmac, hload, hobject, rfl, rfl⟩
    exact shows_eq rfl (by rw [hgetReceipt]; rfl) (by rw [hgetAlert]; exact hc) hitem hint
      (hexField_of_strItem hprevious) (hexField_of_strItem halert) (hexField_of_strItem hmodel)
      (hexField_of_strItem hhead)

theorem Loaded.eq {st st' : AuditState} (h : Loaded (some st) st') : st' = st := by
  rcases h with h | ⟨h, -⟩
  · exact (Option.some.inj h).symm
  · cases h

/-- An accepted list is an authentic chain under the key of the state that the TA loads next. -/
theorem verifyRecords_authentic {progress last : Progress} {records : List Json} {p : Digest}
    {st : AuditState} (hp : progress.previous = p.hex)
    (h : verifyRecords rt crypto progress records m = (.ok (some last), m'))
    (hload : Loaded m'.tee.object st) :
    Loaded m.tee.object st ∧ last.sequence = progress.sequence + records.length ∧
      ∃ q, last.previous = q.hex ∧
        Authentic (shows rt) crypto.sha256 (crypto.hmac st.key.bytes) progress.sequence p records
          q := by
  induction records generalizing progress p m with
  | nil =>
    obtain ⟨hlast, hm⟩ := Prod.mk.inj h
    have hlast : progress = last := Option.some.inj (Except.ok.inj hlast)
    have hm : m = m' := hm
    subst hlast hm
    exact ⟨hload, rfl, p, hp, .nil _ p⟩
  | cons v records ih =>
    obtain ⟨next, t, hcheck, hrest⟩ := Exec.bind_ok h
    cases next with
    | none => cases hrest
    | some next =>
      have hbody := Exec.orElse_ok hcheck (by simp)
      obtain ⟨c, model, head, st', hshows, hhead, hload', hobject, hprevious, hsequence⟩ :=
        checkRecord_some hp hbody
      obtain ⟨hstored, hcount, q, hq, hauthentic⟩ := ih hprevious hrest
      rw [hobject] at hstored
      obtain rfl := Loaded.eq hstored
      rw [hsequence] at hcount hauthentic
      refine ⟨hload', ?_, q, hq, .cons c model head hshows hhead hauthentic⟩
      rw [hcount, List.length_cons]
      omega

/-- The head that the TA stores is the end of the accepted list. -/
theorem checkHead_true {progress : Progress}
    (h : checkHead rt crypto progress m = (.ok true, m')) :
    ∃ st, Loaded m.tee.object st ∧ m'.tee.object = some st ∧
      progress.sequence = st.sequence.toNat ∧ progress.previous = st.head.hex := by
  unfold checkHead at h
  obtain ⟨current, t, hget, h⟩ := Exec.bind_ok h
  unfold getHead at hget
  obtain ⟨output, t', hrun, hparsed⟩ := Exec.bind_ok hget
  obtain ⟨hparse, ht⟩ := Exec.lift_ok hparsed
  subst ht
  rw [runClient_head] at hrun
  have hstep := process_step crypto headInvocation printOutput m
  rw [hrun] at hstep
  rcases hstep with ⟨e, he, -⟩ | ⟨out, hstep, hout⟩
  · cases he
  split_ifs at hout with hresult
  obtain ⟨st, hload, hobject, houtput⟩ := step_head hstep hresult
  rw [Except.ok.inj hout, houtput, printOutput, loads_printHead] at hparse
  have hcurrent := Except.ok.inj hparse
  subst hcurrent
  obtain ⟨sequence, hsequence, h⟩ := Exec.lift_bind_ok h
  have hseq : (st.sequence.toNat : ℤ) = sequence := Except.ok.inj hsequence
  obtain ⟨hcount, h⟩ := Exec.passed h Bool.false_ne_true
  obtain ⟨head, hhead, h⟩ := Exec.lift_bind_ok h
  obtain ⟨hlast, h⟩ := Exec.passed h Bool.false_ne_true
  have hheadText : st.head.hex = head := Except.ok.inj hhead
  rw [not_not] at hcount hlast
  refine ⟨st, hload, ?_, by omega, by rw [← hlast, hheadText]⟩
  split_ifs at h
  · rw [← (Prod.mk.inj h).2]
    exact hobject
  · obtain ⟨modelHash, -, h⟩ := Exec.lift_bind_ok h
    rw [← (Prod.mk.inj h).2]
    exact hobject

/-- A list that `verify_chain` accepts is authentic up to the head that the TA stores. -/
theorem verifyChain_true {records : List Json}
    (h : (verifyChain rt crypto records true m).1 = .ok true) :
    ∃ st, Loaded m.tee.object st ∧ records.length = st.sequence.toNat ∧
      Authentic (shows rt) crypto.sha256 (crypto.hmac st.key.bytes) 0 .zero records st.head := by
  have hrun : verifyChain rt crypto records true m =
      (.ok true, (verifyChain rt crypto records true m).2) := Prod.ext h rfl
  obtain ⟨last, t, hrecords, h⟩ := Exec.bind_ok hrun
  cases last with
  | none => cases h
  | some last =>
    obtain ⟨st, hload, -, hsequence, hprevious⟩ := checkHead_true (Exec.orElse_ok h (by decide))
    obtain ⟨hfirst, hcount, q, hq, hauthentic⟩ := verifyRecords_authentic rfl hrecords hload
    refine ⟨st, hfirst, ?_, ?_⟩
    · rw [← hsequence, hcount, Nat.zero_add]
    · have hhead : st.head = q := Digest.hex_injective (hprevious.symm.trans hq)
      rw [hhead]
      exact hauthentic

def progressAt (model : Digest) (n : ℕ) (p : Digest) : Progress :=
  ⟨p.hex, n, if n = 0 then none else some model.hex⟩

theorem sent_receiptDict (rt : Runtime) (r : AuditTa.Receipt) :
    Sent rt (.obj (receiptDict r)) r.sequence.toNat r.previousHead r.alertHash r.modelHash r.head :=
  ⟨⟨.int r.sequence.toNat, rfl, rfl⟩, rfl, rfl, rfl, rfl⟩

theorem verifyReceipt_succeeds (rt : Runtime) {r : AuditTa.Receipt} {st : AuditState}
    (hm : m.Succeeds)
    (ho : m.tee.object = some st) (hst : WellFormed st)
    (hmac : r.head = crypto.hmac st.key.bytes
      (hmacMessage r.sequence r.previousHead r.alertHash r.modelHash)) :
    ∃ m', verifyReceipt rt crypto (.obj (receiptDict r)) m = (.ok true, m') ∧ m'.Succeeds ∧
      m'.tee.object = some st := by
  have harguments := (sent_receiptDict rt r).arguments
  rw [tooLong_uint64, if_neg (by decide)] at harguments
  have hsequence : UInt64.ofNat r.sequence.toNat = r.sequence := UInt64.ofNat_toNat
  obtain ⟨m', hprocess, hm', ho'⟩ := process_succeeds (fun _ => text "VALID\n") hm rfl
    (invoke_verify r (yields_loadState hm.tee ho hst) hmac.symm)
  refine ⟨m', ?_, hm', ho'⟩
  unfold verifyReceipt
  apply Exec.orElse_of_ok isClientError false
  rw [Exec.bind_apply, harguments, Exec.lift_apply, Exec.next_ok, Exec.bind_apply,
    runClient_verify r.sequence.toNat_lt, hsequence, hprocess, Exec.next_ok]
  rfl

theorem checkRecord_record {entry : Json × Json} {model p : Digest} {n : ℕ}
    {r : AuditTa.Receipt} {rs : List AuditTa.Receipt} {st : AuditState} (hm : m.Succeeds)
    (ho : m.tee.object = some st) (hst : WellFormed st) (hprinted : Printed rt crypto entry r)
    (hissued : Issued crypto st.key model n p (r :: rs)) (hlt : n + 1 < 2 ^ 64) :
    ∃ m', checkRecord rt crypto (progressAt model n p) (record entry) m =
      (.ok (some (progressAt model (n + 1) r.head)), m') ∧ m'.Succeeds ∧
        m'.tee.object = some st := by
  obtain ⟨alert, v⟩ := entry
  obtain ⟨c, hc, halert, rfl⟩ := hprinted
  obtain ⟨hseq, hprev, hmodel, hhead, -⟩ := hissued
  have hnat : r.sequence.toNat = n + 1 := by
    rw [hseq]
    exact UInt64.toNat_ofNat_of_lt' hlt
  obtain ⟨m', hverify, hm', ho'⟩ := verifyReceipt_succeeds rt hm ho hst hhead
  refine ⟨m', ?_, hm', ho'⟩
  have hs := sent_receiptDict rt r
  have hreceipt : (record (alert, .obj (receiptDict r))).item "receipt" =
      .ok (.obj (receiptDict r)) := rfl
  have halertItem : (record (alert, .obj (receiptDict r))).item "alert" = .ok alert := rfl
  have hsequence : Json.item (.obj (receiptDict r)) "sequence" = .ok (.int r.sequence.toNat) := rfl
  have hint : rt.int (.int r.sequence.toNat) = .ok (n + 1 : ℕ) := by rw [Runtime.int, hnat]
  have hfields : [r.previousHead.hex, r.alertHash.hex, r.modelHash.hex, r.head.hex].all isHash := by
    simp only [List.all_cons, List.all_nil, isHash_hex, Bool.and_self]
  have hlinks : ¬ (r.previousHead.hex ≠ (progressAt model n p).previous ∨ r.alertHash.hex ≠
      (crypto.sha256 c).hex) := by
    rw [hprev, halert]
    simp [progressAt]
  have hseen : ¬ (progressAt model n p).modelHash.getD r.modelHash.hex ≠ r.modelHash.hex := by
    rw [hmodel, progressAt]
    split_ifs <;> simp
  unfold checkRecord
  simp only [Exec.bind_apply, Exec.lift_apply, Exec.next_ok, hreceipt, halertItem, ok_bind, hc,
    hs.previousHead, hs.alertHash, hs.modelHash, hs.head, hfields, not_true, if_false, hsequence,
    hint]
  rw [if_neg (by simp [progressAt]), if_neg hlinks, if_neg hseen, Exec.bind_of_ok hverify,
    if_pos rfl, hmodel]
  rfl

theorem verifyRecords_issued {entries : List (Json × Json)} {model : Digest} {n : ℕ}
    {p : Digest} {receipts : List AuditTa.Receipt} {st : AuditState} (hm : m.Succeeds)
    (ho : m.tee.object = some st) (hst : WellFormed st)
    (hprinted : List.Forall₂ (Printed rt crypto) entries receipts)
    (hissued : Issued crypto st.key model n p receipts) (hlt : n + receipts.length < 2 ^ 64) :
    ∃ m', verifyRecords rt crypto (progressAt model n p) (entries.map record) m =
      (.ok (some (progressAt model (n + receipts.length) (lastHead p receipts))), m') ∧
        m'.Succeeds ∧ m'.tee.object = some st := by
  induction hprinted generalizing n p m with
  | nil => exact ⟨m, rfl, hm, ho⟩
  | @cons entry r entries receipts hp hrest ih =>
    rw [List.length_cons] at hlt
    obtain ⟨t, hcheck, ht, hot⟩ := checkRecord_record hm ho hst hp hissued (by omega)
    obtain ⟨m', hloop, hm', ho'⟩ := ih ht hot hissued.2.2.2.2 (by omega)
    refine ⟨m', ?_, hm', ho'⟩
    rw [List.map_cons, verifyRecords,
      Exec.bind_of_ok (Exec.orElse_of_ok Exc.isDataError none hcheck)]
    rw [List.length_cons, Nat.add_comm receipts.length 1, ← Nat.add_assoc]
    exact hloop

end Cote3Mon.Optee
