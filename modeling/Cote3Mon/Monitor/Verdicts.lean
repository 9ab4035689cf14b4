import Cote3Mon.Monitor.Links
import Cote3Mon.Monitor.Reference

namespace Cote3Mon.Monitor
open ByteText Python AuditTa Optee

variable {rt : Runtime} {crypto : Crypto} {m m' : Machine} {record : Json}

/-- Where nothing fails the TA says whether the MAC of a receipt is right. -/
theorem optee_verifyReceipt (crypto : Crypto) {receipt : Json} {n : ℕ} {p a b h : Digest}
    (hm : m.Succeeds)
    (hst : WellFormed m.tee.next) (hs : Sent rt receipt n p a b h) (hn : n < 2 ^ 64) :
    ∃ m', Optee.verifyReceipt rt crypto receipt m = (.ok (decide (crypto.hmac m.tee.next.key.bytes
        (auditMessage n p.bytes a.bytes b.bytes) = h)), m') ∧
      m'.Succeeds ∧ m'.tee.next = m.tee.next := by
  have hnat : (UInt64.ofNat n).toNat = n := UInt64.toNat_ofNat_of_lt' hn
  have harguments := hs.arguments
  have htooLong := tooLong_uint64 rt (UInt64.ofNat n)
  rw [hnat] at htooLong
  rw [htooLong, if_neg (by decide)] at harguments
  have hmessage : hmacMessage (UInt64.ofNat n) p a b = auditMessage n p.bytes a.bytes b.bytes := by
    rw [hmacMessage_eq, hnat]
  have hload := yields_next crypto (verifyInvocation ⟨UInt64.ofNat n, p, a, b, h⟩).parameters
    hm.tee hst
  rw [← hmessage]
  unfold Optee.verifyReceipt
  by_cases hmac : crypto.hmac m.tee.next.key.bytes (hmacMessage (UInt64.ofNat n) p a b) = h
  · obtain ⟨m', hprocess, hm', ho'⟩ := process_succeeds (fun _ => text "VALID\n") hm rfl
      (invoke_verify ⟨UInt64.ofNat n, p, a, b, h⟩ hload hmac)
    refine ⟨m', ?_, hm', machine_next ho'⟩
    rw [decide_eq_true hmac]
    apply Exec.orElse_of_ok isClientError false
    rw [Exec.bind_apply, harguments, Exec.lift_apply, Exec.next_ok, Exec.bind_apply,
      runClient_verify hn, hprocess, Exec.next_ok]
    rfl
  · obtain ⟨m', hprocess, hm', ho'⟩ := process_fails (fun _ => text "VALID\n") hm (by simp)
      (invoke_verify_invalid ⟨UInt64.ofNat n, p, a, b, h⟩ hload hmac)
    refine ⟨m', ?_, hm', machine_next ho'⟩
    rw [decide_eq_false hmac, Exec.orElse, Exec.bind_apply, harguments, Exec.lift_apply,
      Exec.next_ok, Exec.bind_apply, runClient_verify hn, hprocess, Exec.next_error]
    rfl

/-- A record that the loop lets pass. -/
theorem links_of_optee {progress next : Progress} (hm : m.Succeeds) (hst : WellFormed m.tee.next)
    (h : checkRecord rt crypto progress record m = (.ok (some next), m')) :
    ∃ model head, Links rt crypto m.tee.next.key model progress.sequence progress.previous record
        head ∧ OpteeSpelling rt record ∧
      (progress.modelHash = none ∨ progress.modelHash = some model.hex) ∧
      next = ⟨head, progress.sequence + 1, some model.hex⟩ ∧
      m'.Succeeds ∧ m'.tee.next = m.tee.next := by
  unfold checkRecord at h
  obtain ⟨receipt, hreceipt, h⟩ := Exec.lift_bind_ok h
  obtain ⟨c, hcanonical, h⟩ := Exec.lift_bind_ok h
  obtain ⟨previousHead, hprevious, h⟩ := Exec.lift_bind_ok h
  obtain ⟨alertField, halert, h⟩ := Exec.lift_bind_ok h
  obtain ⟨modelHash, hmodel, h⟩ := Exec.lift_bind_ok h
  obtain ⟨headField, hhead, h⟩ := Exec.lift_bind_ok h
  obtain ⟨hfields, h⟩ := Exec.passed h nofun
  obtain ⟨claimed, hclaimed, h⟩ := Exec.lift_bind_ok h
  obtain ⟨hsequence, h⟩ := Exec.passed h nofun
  obtain ⟨hlinks, h⟩ := Exec.passed h nofun
  obtain ⟨hseen, h⟩ := Exec.passed h nofun
  obtain ⟨valid, t, hvalid, h⟩ := Exec.bind_ok h
  cases valid with
  | false => cases h
  | true =>
    obtain ⟨hnext, ht⟩ := Prod.mk.inj h
    have hnext : (⟨headField, progress.sequence + 1, some modelHash⟩ : Progress) = next :=
      Option.some.inj (Except.ok.inj hnext)
    have ht : t = m' := ht
    subst ht hnext
    push Not at hsequence hlinks hseen
    obtain ⟨hlink, halertHash⟩ := hlinks
    simp only [List.all_cons, List.all_nil, Bool.and_true, Bool.and_eq_true, not_not] at hfields
    obtain ⟨hpreviousHash, -, hmodelHash, hheadHash⟩ := hfields
    obtain ⟨p, rfl⟩ := eq_hex_of_isHash hpreviousHash
    obtain ⟨model, rfl⟩ := eq_hex_of_isHash hmodelHash
    obtain ⟨head, rfl⟩ := eq_hex_of_isHash hheadHash
    have hp : progress.previous = p.hex := hlink.symm
    rw [halertHash] at halert
    obtain ⟨d, rfl, hgetReceipt⟩ := item_ok hreceipt
    obtain ⟨alert, halertItem, hc⟩ := bind_eq_ok.mp hcanonical
    obtain ⟨item, hitem, hint⟩ := bind_eq_ok.mp hclaimed
    obtain ⟨fields, rfl, -⟩ := item_ok hitem
    rw [hsequence] at hint
    have hsent : Sent rt (.obj fields) (progress.sequence + 1) p (crypto.sha256 c) model head :=
      ⟨⟨item, hitem, hint⟩, hprevious, halert, hmodel, hhead⟩
    have hfits := (verifyReceipt_true hsent hvalid).1
    obtain ⟨m2, hdecided, hm2, hnext2⟩ := optee_verifyReceipt crypto hm hst hsent hfits
    obtain ⟨hmac, rfl⟩ := Prod.mk.inj (hdecided.symm.trans hvalid)
    have hmac := of_decide_eq_true (Except.ok.inj hmac)
    have hreceiptOf : receiptOf (.obj d) = fields := by
      rw [receiptOf, members, hgetReceipt]
      rfl
    refine ⟨model, head.hex, ⟨rfl, ?_, ?_, ?_, ?_, ?_, hfits, c, p.bytes, ?_, ?_, ?_, ?_⟩,
      ⟨⟨alert, halertItem⟩, head.hex, ?_, isHash_hex head⟩, ?_, rfl, hm2, hnext2⟩
    · rw [hreceiptOf]
      exact hreceipt
    · rw [hreceiptOf]
      exact ⟨item, hitem, hint⟩
    · rw [hreceiptOf, hp]
      exact hprevious
    · rw [hreceiptOf]
      exact hmodel
    · rw [hreceiptOf]
      exact hhead
    · rw [members, getOrEmpty_of_item halertItem]
      exact hc
    · rw [hreceiptOf]
      exact halert
    · rw [hp]
      exact fromHex_hexEncode _
    · rw [hmac]
      exact fromHex_hexEncode _
    · rw [hreceiptOf]
      exact hhead
    · cases hmodelHash : progress.modelHash with
      | none => exact Or.inl rfl
      | some t =>
        rw [hmodelHash] at hseen
        exact Or.inr (congrArg some hseen)

/-- A record that shows a link in the spelling of the backend passes. -/
theorem optee_of_links {progress : Progress} {model : Digest} {head : Text} (hm : m.Succeeds)
    (hst : WellFormed m.tee.next) (hprevious : isHash progress.previous)
    (hlinks : Links rt crypto m.tee.next.key model progress.sequence progress.previous record head)
    (hspelled : OpteeSpelling rt record)
    (hseen : progress.modelHash = none ∨ progress.modelHash = some model.hex) :
    isHash head ∧ ∃ m', checkRecord rt crypto progress record m =
        (.ok (some ⟨head, progress.sequence + 1, some model.hex⟩), m') ∧
      m'.Succeeds ∧ m'.tee.next = m.tee.next := by
  obtain ⟨⟨alert, halertItem⟩, head', hhead', hheadHash⟩ := hspelled
  obtain rfl : head = head' := Except.ok.inj (hlinks.headText.symm.trans hhead')
  refine ⟨hheadHash, ?_⟩
  obtain ⟨p, hp⟩ := eq_hex_of_isHash hprevious
  obtain ⟨q, rfl⟩ := eq_hex_of_isHash hheadHash
  obtain ⟨item, hitem, hint⟩ := hlinks.sequence
  obtain ⟨c, bs, hc, halert, hbs, hmac⟩ := hlinks.mac
  have hpreviousField := hlinks.previousHead
  rw [hp] at hpreviousField hbs
  obtain rfl : p.bytes = bs := Except.ok.inj ((fromHex_hexEncode _).symm.trans hbs)
  rw [getOrEmpty_of_item halertItem] at hc
  have hsent : Sent rt (.obj (receiptOf record)) (progress.sequence + 1) p
      (crypto.sha256 c) model q :=
    ⟨⟨item, hitem, hint⟩, hpreviousField, halert, hlinks.modelHash, hlinks.headText⟩
  obtain ⟨m', hdecided, hm', hnext⟩ := optee_verifyReceipt crypto hm hst hsent hlinks.fits
  have hq : crypto.hmac m.tee.next.key.bytes (auditMessage (progress.sequence + 1) p.bytes
      (crypto.sha256 c).bytes model.bytes) = q :=
    Digest.ext (Except.ok.inj (hmac.symm.trans (fromHex_hexEncode _)))
  rw [decide_eq_true hq] at hdecided
  refine ⟨m', ?_, hm', hnext⟩
  have hfields : [p.hex, (crypto.sha256 c).hex, model.hex, q.hex].all isHash := by
    simp only [List.all_cons, List.all_nil, isHash_hex, Bool.and_self]
  have hmodelSeen : ¬ progress.modelHash.getD model.hex ≠ model.hex := by
    rcases hseen with hnone | hsome
    · rw [hnone, Option.getD_none, not_not]
    · rw [hsome, Option.getD_some, not_not]
  have hreceipt : record.item "receipt" = .ok (.obj (receiptOf record)) := by
    rw [hlinks.dict]
    exact hlinks.receipt
  have halertOk : record.item "alert" = .ok alert := by
    rw [hlinks.dict]
    exact halertItem
  have hitemOk : Json.item (.obj (receiptOf record)) "sequence" = .ok item := hitem
  unfold checkRecord
  simp only [Exec.bind_apply, Exec.lift_apply, Exec.next_ok, hreceipt, halertOk, ok_bind, hc,
    hpreviousField, halert, hlinks.modelHash, hlinks.headText, hfields, not_true, if_false, hitemOk,
    hint]
  rw [if_neg (by simp), if_neg (by simp [hp]), if_neg hmodelSeen, Exec.bind_of_ok hdecided,
    if_pos rfl]
  rfl

def seen (before : Option Text) (model : Digest) : List Json → Option Text
  | [] => before
  | _ :: _ => some model.hex

theorem optee_verifyRecords_of {progress : Progress} {model : Digest} {records : List Json}
    {last : Text} (hm : m.Succeeds) (hst : WellFormed m.tee.next)
    (hprevious : isHash progress.previous)
    (hchain : Chained rt crypto m.tee.next.key model progress.sequence progress.previous records
      last)
    (hspelled : ∀ record ∈ records, OpteeSpelling rt record)
    (hseen : progress.modelHash = none ∨ progress.modelHash = some model.hex) :
    ∃ m', verifyRecords rt crypto progress records m = (.ok (some ⟨last,
        progress.sequence + records.length, seen progress.modelHash model records⟩), m') ∧
      m'.Succeeds ∧ m'.tee.next = m.tee.next := by
  induction records generalizing progress m with
  | nil =>
    cases hchain
    exact ⟨m, rfl, hm, rfl⟩
  | cons record records ih =>
    cases hchain with
    | @cons _ _ _ head _ _ hlinks hchain =>
      obtain ⟨hrecord, hrest⟩ := List.forall_mem_cons.mp hspelled
      obtain ⟨hheadHash, t, hcheck, ht, hnext⟩ :=
        optee_of_links hm hst hprevious hlinks hrecord hseen
      rw [← hnext] at hst hchain
      obtain ⟨m', hloop, hm', hnext'⟩ := ih ht hst
        (show isHash (Progress.previous ⟨head, progress.sequence + 1, some model.hex⟩) from
          hheadHash)
        hchain hrest (Or.inr rfl)
      refine ⟨m', ?_, hm', hnext'.trans hnext⟩
      rw [verifyRecords, Exec.bind_of_ok (Exec.orElse_of_ok Exc.isDataError none hcheck)]
      have hsame : seen (some model.hex) model records =
          seen progress.modelHash model (record :: records) := by
        cases records with
        | nil => rfl
        | cons => rfl
      rw [hsame] at hloop
      rw [List.length_cons, Nat.add_comm records.length 1, ← Nat.add_assoc]
      exact hloop

theorem optee_verifyRecords_some {progress last : Progress} {records : List Json} (hm : m.Succeeds)
    (hst : WellFormed m.tee.next)
    (hbefore : progress.modelHash = none ∨ ∃ model : Digest, progress.modelHash = some model.hex)
    (h : verifyRecords rt crypto progress records m = (.ok (some last), m')) :
    m'.Succeeds ∧ m'.tee.next = m.tee.next ∧ last.sequence = progress.sequence + records.length ∧
      ∃ model, Chained rt crypto m.tee.next.key model progress.sequence progress.previous records
          last.previous ∧ (∀ record ∈ records, OpteeSpelling rt record) ∧
        (progress.modelHash = none ∨ progress.modelHash = some model.hex) ∧
        last.modelHash = seen progress.modelHash model records := by
  induction records generalizing progress m with
  | nil =>
    obtain ⟨hlast, hm'⟩ := Prod.mk.inj h
    have hlast : progress = last := Option.some.inj (Except.ok.inj hlast)
    have hm' : m = m' := hm'
    subst hlast hm'
    refine ⟨hm, rfl, rfl, ?_⟩
    rcases hbefore with hnone | ⟨model, hsome⟩
    · exact ⟨.zero, .nil _ _, by simp, Or.inl hnone, rfl⟩
    · exact ⟨model, .nil _ _, by simp, Or.inr hsome, rfl⟩
  | cons record records ih =>
    obtain ⟨next, t, hcheck, hrest⟩ := Exec.bind_ok h
    cases next with
    | none => cases hrest
    | some next =>
      obtain ⟨model, head, hlinks, hspelled, hseen, rfl, ht, hnext⟩ :=
        links_of_optee hm hst (Exec.orElse_ok hcheck (by simp))
      have hst' : WellFormed t.tee.next := hnext ▸ hst
      obtain ⟨hm', hnext', hcount, model', hchain, hall, hmodel, hlast⟩ :=
        ih ht hst' (Or.inr ⟨model, rfl⟩) hrest
      -- the rest of the loop compares with the model of this record
      obtain rfl : model = model' := by
        rcases hmodel with hnone | hsome
        · cases hnone
        · exact Digest.hex_injective (Option.some.inj hsome)
      rw [hnext] at hchain
      refine ⟨hm', hnext'.trans hnext, ?_, model, .cons hlinks hchain,
        List.forall_mem_cons.mpr ⟨hspelled, hall⟩, hseen, ?_⟩
      · rw [hcount, List.length_cons, Nat.add_assoc, Nat.add_comm 1]
      · rw [hlast]
        cases records with
        | nil => rfl
        | cons => rfl

theorem optee_checkHead (rt : Runtime) (crypto : Crypto) (hm : m.Succeeds)
    (hst : WellFormed m.tee.next) (progress : Progress) :
    ∃ m', checkHead rt crypto progress m = (.ok (decide (
        m.tee.next.sequence.toNat = progress.sequence ∧ m.tee.next.head.hex = progress.previous ∧
          (progress.sequence = 0 ∨ some m.tee.next.modelHash.hex = progress.modelHash))), m') := by
  obtain ⟨m', hprocess, -, -⟩ := process_succeeds printOutput hm rfl
    (invoke_head (yields_next crypto headInvocation.parameters hm.tee hst))
  have hget : Optee.getHead rt crypto m = (.ok (.obj (headDict ⟨m.tee.next.sequence,
      m.tee.next.modelHash, m.tee.next.head⟩)), m') := by
    rw [Optee.getHead, runClient_head, Exec.bind_of_ok hprocess, printOutput, loads_printHead]
    rfl
  generalize m.tee.next = st at hget
  have hsequence : Json.item (.obj (headDict ⟨st.sequence, st.modelHash, st.head⟩)) "sequence" =
      .ok (.int st.sequence.toNat) := rfl
  have hhead : strItem rt (.obj (headDict ⟨st.sequence, st.modelHash, st.head⟩)) "head" =
      .ok st.head.hex := rfl
  have hmodelHash : strItem rt (.obj (headDict ⟨st.sequence, st.modelHash, st.head⟩)) "model_hash" =
      .ok st.modelHash.hex := rfl
  refine ⟨m', ?_⟩
  rw [checkHead, Exec.bind_of_ok hget]
  simp only [hsequence, ok_bind, Runtime.int, Exec.bind_apply, Exec.lift_apply, Exec.next_ok]
  by_cases hcount : st.sequence.toNat = progress.sequence
  · rw [if_neg (not_not.mpr (by exact_mod_cast hcount)), Exec.bind_apply, Exec.lift_apply, hhead,
      Exec.next_ok]
    by_cases hlast : st.head.hex = progress.previous
    · rw [if_neg (not_not.mpr hlast)]
      by_cases hzero : progress.sequence = 0
      · rw [if_pos hzero, Exec.pure_apply, decide_eq_true ⟨hcount, hlast, Or.inl hzero⟩]
      · rw [if_neg hzero, Exec.bind_apply, Exec.lift_apply, hmodelHash, Exec.next_ok,
          Exec.pure_apply]
        congr 3
        simp [hcount, hlast, hzero]
    · rw [if_pos hlast, Exec.pure_apply, decide_eq_false fun h => hlast h.2.1]
  · rw [if_pos (by exact_mod_cast hcount), Exec.pure_apply, decide_eq_false fun h => hcount h.1]

/-- The records are a chain that both verifiers follow, up to the current head if that is asked. -/
def ChainOf (rt : Runtime) (crypto : Crypto) (st : AuditState) (records : List Json)
    (requireCurrentHead : Bool) : Prop :=
  ∃ model last, Chained rt crypto st.key model 0 Digest.zero.hex records last ∧
    (requireCurrentHead → records.length = st.sequence.toNat ∧ last = st.head.hex ∧
      (records = [] ∨ model = st.modelHash))

variable {self : AuditStore} {st : AuditState} {records : List Json} {requireCurrentHead : Bool}

/-- The model of a record that the store compares with its own. -/
theorem model_of_spelling {key model : Digest} {n : ℕ} {previous head : Text}
    {state : AuditStore.State} (hlinks : Links rt crypto key model n previous record head)
    (hspelled : StoreSpelling state record) : state.modelHash = some model.hex := by
  obtain ⟨item, hitem, hstr⟩ := strItem_obj.mp hlinks.modelHash
  have hmodel := hspelled.2.2.2
  rw [Dict.get_of_item hitem] at hmodel
  cases hstate : state.modelHash with
  | some t =>
    rw [hstate] at hmodel
    obtain rfl := Json.eq_of_eqText hmodel
    rw [Except.ok.inj hstr]
  | none =>
    rw [hstate] at hmodel
    cases item with
    | null =>
      have hlength := congrArg List.length (Except.ok.inj hstr)
      rw [Digest.hex_length] at hlength
      cases hlength
    | _ => cases hmodel

theorem store_verifyChain_iff : AuditStore.verifyChain rt crypto self records requireCurrentHead =
      .ok true ↔
    ∃ last k, AuditStore.verifyRecords rt crypto self Digest.zero.hex 0 records =
        .ok (some (last, k)) ∧
      (requireCurrentHead → k = self.state.sequence ∧ last = self.state.head) := by
  constructor
  · intro h
    obtain ⟨accepted, haccepted, h⟩ := bind_eq_ok.mp h
    cases accepted with
    | none => cases h
    | some last =>
      refine ⟨last.1, last.2, haccepted, fun hrequire => ?_⟩
      rw [hrequire] at h
      exact of_decide_eq_true (Except.ok.inj h)
  · rintro ⟨last, k, hrecords, hend⟩
    have hrun : AuditStore.verifyChain rt crypto self records requireCurrentHead =
        if requireCurrentHead then pure (decide (k = self.state.sequence ∧ last = self.state.head))
        else pure true := by
      rw [AuditStore.verifyChain, show AuditStore.zeroHash = Digest.zero from rfl, hrecords]
      rfl
    rw [hrun]
    split_ifs with hrequire
    · rw [decide_eq_true (hend hrequire)]
      rfl
    · rfl

theorem store_accepts_iff (h : StandsFor self.state st) :
    AuditStore.verifyChain rt crypto self records requireCurrentHead = .ok true ↔
      ChainOf rt crypto st records requireCurrentHead ∧
        ∀ record ∈ records, StoreSpelling self.state record := by
  have hcurrent : ∀ last k, k = 0 + records.length →
      ((requireCurrentHead → k = self.state.sequence ∧ last = self.state.head) ↔
        (requireCurrentHead → records.length = st.sequence.toNat ∧ last = st.head.hex)) := by
    rintro last k rfl
    rw [h.sequence, h.head, Nat.zero_add]
  rw [store_verifyChain_iff]
  cases records with
  | nil =>
    constructor
    · rintro ⟨last, k, hrecords, hend⟩
      obtain ⟨rfl, rfl⟩ := Prod.mk.inj (Option.some.inj (Except.ok.inj hrecords))
      refine ⟨⟨.zero, _, .nil 0 _, fun hrequire => ?_⟩, by simp⟩
      obtain ⟨hlength, hlast⟩ := (hcurrent _ _ rfl).mp hend hrequire
      exact ⟨hlength, hlast, Or.inl rfl⟩
    · rintro ⟨⟨model, last, hchain, hend⟩, -⟩
      cases hchain
      refine ⟨_, 0, rfl, (hcurrent _ _ rfl).mpr fun hrequire => ?_⟩
      exact ⟨(hend hrequire).1, (hend hrequire).2.1⟩
  | cons record records =>
    constructor
    · rintro ⟨last, k, hrecords, hend⟩
      have hmodel : self.state.modelHash = some st.modelHash.hex := by
        by_cases hreg : st.modelRegistered = 0
        · exact absurd hrecords (AuditStore.verifyRecords_nonempty (h.unregistered hreg).1)
        · exact h.registered hreg
      obtain ⟨hchain, hall, hk⟩ := (store_verifyRecords_iff hmodel _ last k).mp hrecords
      rw [h.key] at hchain
      refine ⟨⟨st.modelHash, last, hchain, fun hrequire => ?_⟩, hall⟩
      obtain ⟨hlength, hlast⟩ := (hcurrent last k hk).mp hend hrequire
      exact ⟨hlength, hlast, Or.inr rfl⟩
    · rintro ⟨⟨model, last, hchain, hend⟩, hall⟩
      have hmodel : self.state.modelHash = some model.hex := by
        cases hchain with
        | cons hlinks => exact model_of_spelling hlinks (hall record List.mem_cons_self)
      rw [← h.key] at hchain
      refine ⟨last, 0 + (record :: records).length,
        (store_verifyRecords_iff hmodel _ _ _).mpr ⟨hchain, hall, rfl⟩, ?_⟩
      rw [hcurrent last _ rfl]
      exact fun hrequire => ⟨(hend hrequire).1, (hend hrequire).2.1⟩

theorem optee_accepts_iff (hm : m.Succeeds) (hst : WellFormed m.tee.next) :
    (Optee.verifyChain rt crypto records requireCurrentHead m).1 = .ok true ↔
      ChainOf rt crypto m.tee.next records requireCurrentHead ∧
        ∀ record ∈ records, OpteeSpelling rt record := by
  constructor
  · intro h
    have hrun : Optee.verifyChain rt crypto records requireCurrentHead m =
        (.ok true, (Optee.verifyChain rt crypto records requireCurrentHead m).2) := Prod.ext h rfl
    obtain ⟨last, t, hrecords, hend⟩ := Exec.bind_ok hrun
    cases last with
    | none => cases hend
    | some last =>
      obtain ⟨ht, hnext, hcount, model, hchain, hall, -, hmodel⟩ :=
        optee_verifyRecords_some hm hst (Or.inl rfl) hrecords
      refine ⟨⟨model, last.previous, hchain, fun hrequire => ?_⟩, hall⟩
      obtain ⟨t', hhead⟩ := optee_checkHead rt crypto ht (hnext ▸ hst) last
      simp only [hrequire, if_true] at hend
      have hcurrent := Exec.orElse_ok hend (by decide)
      rw [hhead] at hcurrent
      obtain ⟨hseq, hlast, hseen⟩ := of_decide_eq_true (Except.ok.inj (Prod.mk.inj hcurrent).1)
      rw [hnext] at hseq hlast hseen
      have hlength : records.length = m.tee.next.sequence.toNat := by
        rw [hseq, hcount, Nat.zero_add]
      refine ⟨hlength, hlast.symm, ?_⟩
      cases records with
      | nil => exact Or.inl rfl
      | cons record records =>
        rw [hmodel] at hseen
        rcases hseen with hzero | hsome
        · rw [hzero] at hcount
          cases hcount
        · exact Or.inr (Digest.hex_injective (Option.some.inj hsome)).symm
  · rintro ⟨⟨model, last, hchain, hcurrent⟩, hall⟩
    have hzero : isHash (Progress.previous ⟨Digest.zero.hex, 0, none⟩) := isHash_hex .zero
    obtain ⟨t, hrecords, ht, hnext⟩ := optee_verifyRecords_of hm hst hzero hchain hall (Or.inl rfl)
    rw [Optee.verifyChain, Exec.bind_of_ok hrecords]
    cases requireCurrentHead with
    | false => rfl
    | true =>
      obtain ⟨hlength, rfl, hmodel⟩ := hcurrent rfl
      obtain ⟨t', hhead⟩ := optee_checkHead rt crypto ht (hnext ▸ hst) ⟨m.tee.next.head.hex,
        0 + records.length, seen none model records⟩
      have hseen : 0 + records.length = 0 ∨
          some m.tee.next.modelHash.hex = seen none model records := by
        cases records with
        | nil => exact Or.inl rfl
        | cons record records =>
          exact Or.inr (congrArg (fun d : Digest => some d.hex)
            (hmodel.resolve_left (List.cons_ne_nil _ _)).symm)
      rw [hnext, decide_eq_true ⟨by rw [Nat.zero_add, hlength], rfl, hseen⟩] at hhead
      simp only [if_true, Exec.orElse_of_ok isClientError false hhead]

/-- On the same key and state the verdicts differ exactly on a chain whose records all show
the spelling of one verifier and not all that of the other. -/
theorem verdicts_iff {b : LocalBackend} (h : Mirrors b m) (records : List Json)
    (requireCurrentHead : Bool) :
    (AuditStore.verifyChain rt crypto b.store records requireCurrentHead = .ok true ↔
        (Optee.verifyChain rt crypto records requireCurrentHead m).1 = .ok true) ↔
      (ChainOf rt crypto m.tee.next records requireCurrentHead →
        ((∀ record ∈ records, StoreSpelling b.store.state record) ↔
          ∀ record ∈ records, OpteeSpelling rt record)) := by
  rw [store_accepts_iff h.stands, optee_accepts_iff h.machine h.stands.wellFormed]
  exact and_congr_right_iff

/-- **The verdicts of the two verifiers**, after any calls on both sides from the same key. -/
theorem verifiers_agree_iff (rt : Runtime) (crypto : Crypto) (key : Digest) (events : List Event)
    (persistFaults : ℕ → Option Exc) (machine : Machine)
    (hfaults : ∀ n, persistFaults n = none) (hmachine : machine.Succeeds)
    (hkey : HoldsKey machine key) (hfew : appends events < 2 ^ 64) :
    ∃ b returned b', LocalBackend.open? key none persistFaults = .ok b ∧
      localRun rt crypto events b = .ok (returned, b') ∧
      ∀ records requireCurrentHead,
        (AuditStore.verifyChain rt crypto b'.store records requireCurrentHead = .ok true ↔
            (Optee.verifyChain rt crypto records requireCurrentHead
              (opteeRun rt crypto events machine).2).1 = .ok true) ↔
          (ChainOf rt crypto (opteeRun rt crypto events machine).2.tee.next records
              requireCurrentHead →
            ((∀ record ∈ records, StoreSpelling b'.store.state record) ↔
              ∀ record ∈ records, OpteeSpelling rt record)) := by
  obtain ⟨b, hopen, hmirrors⟩ := mirrors_fresh hfaults hmachine hkey
  obtain ⟨returned, b', hrun, -, hlast⟩ := run_sameOutcome rt crypto hmirrors (hkey.count hfew)
  exact ⟨b, returned, b', hopen, hrun, verdicts_iff hlast⟩

theorem verifiers_agree_iff_three_calls : ∃ b returned b',
    LocalBackend.open? faultless.random none (fun _ => none) = .ok b ∧
      localRun plainRuntime .standard threeCalls b = .ok (returned, b') ∧
      ∀ records requireCurrentHead,
        (AuditStore.verifyChain plainRuntime .standard b'.store records requireCurrentHead =
          .ok true ↔
            (Optee.verifyChain plainRuntime .standard records requireCurrentHead
              (opteeRun plainRuntime .standard threeCalls quietMachine).2).1 = .ok true) ↔
          (ChainOf plainRuntime .standard
              (opteeRun plainRuntime .standard threeCalls quietMachine).2.tee.next records
              requireCurrentHead →
            ((∀ record ∈ records, StoreSpelling b'.store.state record) ↔
              ∀ record ∈ records, OpteeSpelling plainRuntime record)) :=
  verifiers_agree_iff plainRuntime .standard faultless.random threeCalls (fun _ => none) quietMachine
    (fun _ => rfl) quietMachine_succeeds rfl (by decide)

def oneAlert : List Event :=
  [.call (.registerModel ⟨text "model.json", .ok []⟩), .call (.append (.obj []))]

/-- The record of the first alert, with `"1"` for the sequence number. -/
def quoted (r : AuditTa.Receipt) : Json :=
  .obj [(text "alert", .obj []),
    (text "receipt", .obj ((text "sequence", .str (text "1")) :: (receiptDict r).tail))]

theorem canonical_empty : canonicalJson plainRuntime (.obj []) = .ok (asciiBytes "\x7b\x7d") := by
  decide

theorem quoted_chain (crypto : Crypto) (hseq : st.sequence = 0) (hhead : st.head = .zero) :
    ChainOf plainRuntime crypto
      (advance st (AuditTa.issue crypto st (crypto.sha256 (asciiBytes "\x7b\x7d"))))
      [quoted (AuditTa.issue crypto st (crypto.sha256 (asciiBytes "\x7b\x7d")))] true := by
  have hone : st.sequence + 1 = 1 := by
    rw [hseq]
    rfl
  have hmessage : hmacMessage (st.sequence + 1) st.head (crypto.sha256 (asciiBytes "\x7b\x7d"))
      st.modelHash = auditMessage 1 Digest.zero.bytes
        (crypto.sha256 (asciiBytes "\x7b\x7d")).bytes st.modelHash.bytes := by
    rw [hmacMessage_eq, hone, hhead]
    rfl
  refine ⟨st.modelHash, _, .cons ⟨rfl, rfl, ⟨.str (text "1"), rfl, by decide⟩, ?_, rfl, rfl,
    by decide, asciiBytes "\x7b\x7d", Digest.zero.bytes, canonical_empty, rfl,
      fromHex_hexEncode _, ?_⟩
      (.nil 1 _), fun _ => ⟨?_, rfl, Or.inr rfl⟩⟩
  · exact congrArg (fun d : Digest => Except.ok d.hex) hhead
  · refine (fromHex_hexEncode _).trans ?_
    exact congrArg (fun message => Except.ok (crypto.hmac st.key.bytes message).bytes) hmessage
  · exact (congrArg UInt64.toNat hone).symm

/-- The TA after the first alert. -/
theorem oneAlert_next : ∃ st : AuditState, st.sequence = 0 ∧ st.head = .zero ∧
    (opteeRun plainRuntime .standard oneAlert quietMachine).2.tee.next =
      advance st (AuditTa.issue .standard st (Crypto.standard.sha256 (asciiBytes "\x7b\x7d"))) := by
  obtain ⟨m1, hregister, hm1, hnext1⟩ := ta_registerModel .standard quietMachine_succeeds
    (initialState_wellFormed faultless.random) [] (Or.inl rfl)
  obtain ⟨m2, happend, -, hnext2⟩ := ta_append .standard canonical_empty hm1
    (by rw [hnext1]; exact initialState_wellFormed faultless.random)
    (by rw [hnext1]; exact (show (1 : UInt32) ≠ 0 by decide))
  refine ⟨m1.tee.next, by rw [hnext1]; rfl, by rw [hnext1]; rfl, ?_⟩
  rw [← hnext2]
  simp only [opteeRun, oneAlert, List.filterMap_cons, List.filterMap_nil, Event.call?,
    AuditBackend.run, AuditBackend.call, opteeBackend, Exec.bind_apply, hregister, Exec.next_ok,
    Exec.pure_apply, happend]

/-- The OP-TEE backend accepts the record and the reference does not. -/
theorem quoted_sequence_splits : ∃ b returned b',
    LocalBackend.open? faultless.random none (fun _ => none) = .ok b ∧
      localRun plainRuntime .standard oneAlert b = .ok (returned, b') ∧ ∃ record,
      (Optee.verifyChain plainRuntime .standard [record] true
          (opteeRun plainRuntime .standard oneAlert quietMachine).2).1 = .ok true ∧
        AuditStore.verifyChain plainRuntime .standard b'.store [record] true ≠ .ok true := by
  have hkey : HoldsKey quietMachine faultless.random := rfl
  obtain ⟨b, hopen, hmirrors⟩ := mirrors_fresh (fun _ => rfl) quietMachine_succeeds hkey
  obtain ⟨returned, b', hrun, -, hlast⟩ := run_sameOutcome plainRuntime .standard hmirrors
    (hkey.count (show appends oneAlert < _ by decide))
  obtain ⟨st, hseq, hhead, hnext⟩ := oneAlert_next
  have hchain := quoted_chain .standard hseq hhead
  rw [← hnext] at hchain
  refine ⟨b, returned, b', hopen, hrun, _, (optee_accepts_iff hlast.machine
    hlast.stands.wellFormed).mpr ⟨hchain, ?_⟩, fun haccepted => ?_⟩
  · intro record hrecord
    rw [List.mem_singleton.mp hrecord]
    exact ⟨⟨.obj [], rfl⟩, _, rfl, isHash_hex _⟩
  · -- the store compares the text with a number
    have hspelled := ((store_accepts_iff hlast.stands).mp haccepted).2 _ (List.mem_singleton.mpr rfl)
    exact absurd (show false = true from hspelled.1) Bool.false_ne_true

end Cote3Mon.Monitor
