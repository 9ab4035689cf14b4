import Cote3Mon.Optee.Sequence
import Cote3Mon.Python.Exceptions

namespace Cote3Mon.Optee
open ByteText Python AuditTa

variable {rt : Runtime} {crypto : Crypto} {m m' : Machine} {record receipt : Json}
  {progress next : Progress}

/-- Every process to come can be started. -/
def Starts (m : Machine) : Prop := ∀ n, (m.processes n).spawnFault = false

theorem starts_runClient (arguments : List Text) :
    Exec.Keeps Starts (runClient crypto arguments) := by
  intro m hm
  unfold runClient
  split
  · exact hm
  · dsimp only
    rw [hm 0]
    exact fun n => hm (n + 1)

theorem caught_fsencode (t : Text) : Caught (fsencode t) := by
  induction t with
  | nil => exact failsWith_ok _
  | cons c rest ih =>
    refine FailsWith.bind ?_ fun _ _ => ih.bind fun _ _ => failsWith_ok _
    unfold fsencodeChar
    split_ifs
    · exact failsWith_error rfl
    · exact failsWith_ok _
    · exact caught_utf8Char c

theorem caught_encodeArguments (arguments : List Text) : Caught (encodeArguments arguments) := by
  induction arguments with
  | nil => exact failsWith_ok _
  | cons t rest ih => exact (caught_fsencode t).bind fun _ _ => ih.bind fun _ _ => failsWith_ok _

theorem runClient_error {arguments : List Text} {e : Exc} (hm : Starts m)
    (h : runClient crypto arguments m = (.error e, m')) : isClientError e := by
  unfold runClient at h
  cases harguments : encodeArguments arguments with
  | error e' =>
    rw [harguments] at h
    obtain rfl : e' = e := Except.error.inj (Prod.mk.inj h).1
    rw [isClientError, caught_encodeArguments arguments e' harguments]
    rfl
  | ok argv =>
    simp only [harguments, hm 0] at h
    have hresult := (Prod.mk.inj h).1
    split_ifs at hresult
    obtain rfl := Except.error.inj hresult
    rfl

theorem caught_strItem (hrepr : rt.ReprCaught) (v : Json) (name : String) :
    Caught (strItem rt v name) :=
  (caught_item v name).bind fun w _ => caught_str hrepr w

/-- `receipt["sequence"]` is an infinite float. -/
def InfiniteSequence (receipt : Json) : Prop :=
  ∃ v, receipt.item "sequence" = .ok v ∧ v.Infinite

theorem caught_sequence (h : ¬ InfiniteSequence receipt) :
    Caught (do rt.int (← receipt.item "sequence")) :=
  (caught_item receipt "sequence").bind fun v hv => caught_int rt fun hinfinite =>
    h ⟨v, hv, hinfinite⟩

theorem sequence_infinite (h : InfiniteSequence receipt) :
    (do rt.int (← receipt.item "sequence")) = .error .overflowError := by
  obtain ⟨v, hv, hinfinite⟩ := h
  rw [hv, ok_bind, int_infinite rt hinfinite]

theorem caught_verifyArguments (hrepr : rt.ReprCaught) (h : ¬ InfiniteSequence receipt) :
    Caught (verifyArguments rt receipt) := by
  refine (caught_item receipt "sequence").bind fun v hv => ?_
  refine (caught_int rt fun hinfinite => h ⟨v, hv, hinfinite⟩).bind fun z _ => ?_
  refine (caught_intText rt z).bind fun _ _ => ?_
  refine (caught_strItem hrepr receipt "previous_head").bind fun _ _ => ?_
  refine (caught_strItem hrepr receipt "alert_hash").bind fun _ _ => ?_
  refine (caught_strItem hrepr receipt "model_hash").bind fun _ _ => ?_
  exact (caught_strItem hrepr receipt "head").bind fun _ _ => failsWith_ok _

theorem verifyReceipt_no_error {e : Exc} (hm : Starts m) (hrepr : rt.ReprCaught)
    (h : ¬ InfiniteSequence receipt) : (verifyReceipt rt crypto receipt m).1 ≠ .error e := by
  intro herror
  obtain ⟨hbody, hnot⟩ := Exec.orElse_error (Prod.ext herror rfl)
  have hdata : ¬ e.isDataError := by
    intro hdata
    rw [isClientError, hdata] at hnot
    exact hnot rfl
  obtain ⟨arguments, -, hbody⟩ :=
    Exec.lift_bind_error hbody (caught_verifyArguments hrepr h) hdata
  rw [Exec.bind_apply] at hbody
  rcases hrun : runClient crypto arguments m with ⟨e' | output, t⟩
  · rw [hrun] at hbody
    obtain rfl : e' = e := Except.error.inj (Prod.mk.inj hbody).1
    exact hnot (runClient_error hm hrun)
  · rw [hrun] at hbody
    cases hbody

theorem starts_verifyReceipt (rt : Runtime) (crypto : Crypto) (receipt : Json) :
    Exec.Keeps Starts (verifyReceipt rt crypto receipt) :=
  Exec.Keeps.orElse ((Exec.keeps_lift _).bind fun arguments =>
    (starts_runClient arguments).bind fun _ => Exec.keeps_pure _) _ _

theorem starts_checkRecord (rt : Runtime) (crypto : Crypto) (progress : Progress) (record : Json) :
    Exec.Keeps Starts (checkRecord rt crypto progress record) := by
  unfold checkRecord
  refine (Exec.keeps_lift _).bind fun receipt => (Exec.keeps_lift _).bind fun c =>
    (Exec.keeps_lift _).bind fun p => (Exec.keeps_lift _).bind fun a =>
    (Exec.keeps_lift _).bind fun b => (Exec.keeps_lift _).bind fun d => ?_
  split
  · exact Exec.keeps_pure _
  · refine (Exec.keeps_lift _).bind fun claimed => ?_
    split
    · exact Exec.keeps_pure _
    · split
      · exact Exec.keeps_pure _
      · split
        · exact Exec.keeps_pure _
        · refine (starts_verifyReceipt rt crypto receipt).bind fun valid => ?_
          split
          · exact Exec.keeps_pure _
          · exact Exec.keeps_pure _

/-- The receipt continues the chain, up to the MAC. -/
structure Follows (rt : Runtime) (crypto : Crypto) (progress : Progress) (record receipt : Json)
    (next : Progress) : Prop where
  holds : record.item "receipt" = .ok receipt
  previousHead : strItem rt receipt "previous_head" = .ok progress.previous
  alert : ∃ alert c, record.item "alert" = .ok alert ∧ canonicalJson rt alert = .ok c ∧
    strItem rt receipt "alert_hash" = .ok (crypto.sha256 c).hex
  modelHash : ∃ t, strItem rt receipt "model_hash" = .ok t ∧ isHash t ∧
    progress.modelHash.getD t = t ∧ next.modelHash = some t
  head : strItem rt receipt "head" = .ok next.previous
  hashes : isHash progress.previous ∧ isHash next.previous
  sequence : ∃ v, receipt.item "sequence" = .ok v ∧ rt.int v = .ok (progress.sequence + 1 : ℕ)
  count : next.sequence = progress.sequence + 1

theorem checkRecord_some_iff :
    checkRecord rt crypto progress record m = (.ok (some next), m') ↔
      ∃ receipt, Follows rt crypto progress record receipt next ∧
        verifyReceipt rt crypto receipt m = (.ok true, m') := by
  unfold checkRecord
  constructor
  · intro h
    obtain ⟨receipt, hreceipt, h⟩ := Exec.lift_bind_ok h
    obtain ⟨c, hcanonical, h⟩ := Exec.lift_bind_ok h
    obtain ⟨previousHead, hprevious, h⟩ := Exec.lift_bind_ok h
    obtain ⟨alertField, halert, h⟩ := Exec.lift_bind_ok h
    obtain ⟨modelHash, hmodel, h⟩ := Exec.lift_bind_ok h
    obtain ⟨headField, hhead, h⟩ := Exec.lift_bind_ok h
    obtain ⟨hfields, h⟩ := Exec.passed h nofun
    obtain ⟨claimed, hclaimed, h⟩ := Exec.lift_bind_ok h
    obtain ⟨hsequence, h⟩ := Exec.passed h nofun
    obtain ⟨hlinks, h⟩ := Exec.passed h nofun
    obtain ⟨hseen, h⟩ := Exec.passed h nofun
    obtain ⟨valid, t, hvalid, h⟩ := Exec.bind_ok h
    cases valid with
    | false => cases h
    | true =>
      obtain ⟨hnext, ht⟩ := Prod.mk.inj h
      have hnext : (⟨headField, progress.sequence + 1, some modelHash⟩ : Progress) = next :=
        Option.some.inj (Except.ok.inj hnext)
      have ht : t = m' := ht
      subst ht hnext
      push Not at hsequence hlinks hseen
      obtain ⟨rfl, rfl⟩ := hlinks
      simp only [List.all_cons, List.all_nil, Bool.and_true, Bool.and_eq_true, not_not] at hfields
      obtain ⟨hpreviousHash, -, hmodelHash, hheadHash⟩ := hfields
      obtain ⟨alert, halertItem, hc⟩ := bind_eq_ok.mp hcanonical
      obtain ⟨item, hitem, hint⟩ := bind_eq_ok.mp hclaimed
      rw [hsequence] at hint
      exact ⟨receipt, ⟨hreceipt, hprevious, ⟨alert, c, halertItem, hc, halert⟩,
        ⟨modelHash, hmodel, hmodelHash, hseen, rfl⟩, hhead, ⟨hpreviousHash, hheadHash⟩,
        ⟨item, hitem, hint⟩, rfl⟩, hvalid⟩
  · rintro ⟨receipt, h, hvalid⟩
    obtain ⟨alert, c, halertItem, hc, halert⟩ := h.alert
    obtain ⟨t, hmodel, hmodelHash, hseen, hnextModel⟩ := h.modelHash
    obtain ⟨item, hitem, hint⟩ := h.sequence
    have hfields : [progress.previous, (crypto.sha256 c).hex, t, next.previous].all isHash := by
      simp only [List.all_cons, List.all_nil, isHash_hex, h.hashes.1, h.hashes.2, hmodelHash,
        Bool.and_self]
    have hnext : (⟨next.previous, progress.sequence + 1, some t⟩ : Progress) = next := by
      rw [← h.count, ← hnextModel]
    simp only [Exec.bind_apply, Exec.lift_apply, Exec.next_ok, h.holds, halertItem, ok_bind, hc,
      h.previousHead, halert, hmodel, h.head, hfields, not_true, if_false, hitem, hint]
    rw [if_neg (by simp), if_neg (by simp), if_neg (not_not.mpr hseen), Exec.bind_of_ok hvalid,
      if_pos rfl, hnext]
    rfl

/-- The fields that are read before the sequence number are as they should be, and the number is
infinite. -/
structure Overflow (rt : Runtime) (record receipt : Json) : Prop where
  holds : record.item "receipt" = .ok receipt
  alert : ∃ alert c, record.item "alert" = .ok alert ∧ canonicalJson rt alert = .ok c
  hashes : ∀ name ∈ ["previous_head", "alert_hash", "model_hash", "head"],
    ∃ t, strItem rt receipt name = .ok t ∧ isHash t
  sequence : InfiniteSequence receipt

theorem checkRecord_overflow (crypto : Crypto) (progress : Progress) (m : Machine)
    (h : Overflow rt record receipt) :
    checkRecord rt crypto progress record m = (.error .overflowError, m) := by
  obtain ⟨alert, c, halert, hc⟩ := h.alert
  obtain ⟨p, hp, hpHash⟩ := h.hashes "previous_head" (by simp)
  obtain ⟨a, ha, haHash⟩ := h.hashes "alert_hash" (by simp)
  obtain ⟨b, hb, hbHash⟩ := h.hashes "model_hash" (by simp)
  obtain ⟨d, hd, hdHash⟩ := h.hashes "head" (by simp)
  have hfields : [p, a, b, d].all isHash := by
    simp only [List.all_cons, List.all_nil, hpHash, haHash, hbHash, hdHash, Bool.and_self]
  unfold checkRecord
  simp only [Exec.bind_apply, Exec.lift_apply, Exec.next_ok, h.holds, halert, ok_bind, hc, hp,
    ha, hb, hd, hfields, not_true, if_false, sequence_infinite h.sequence, Exec.next_error]

/-- Every other exception of the loop body is caught. -/
theorem checkRecord_error {e : Exc} (hm : Starts m) (hrepr : rt.ReprCaught)
    (h : checkRecord rt crypto progress record m = (.error e, m')) (he : ¬ e.isDataError) :
    ∃ receipt, Overflow rt record receipt := by
  unfold checkRecord at h
  obtain ⟨receipt, hreceipt, h⟩ := Exec.lift_bind_error h (caught_item record "receipt") he
  have hcanonical : Caught (do canonicalJson rt (← record.item "alert")) :=
    (caught_item record "alert").bind fun alert _ => caught_canonicalJson rt alert
  obtain ⟨c, hc, h⟩ := Exec.lift_bind_error h hcanonical he
  obtain ⟨p, hp, h⟩ := Exec.lift_bind_error h (caught_strItem hrepr receipt _) he
  obtain ⟨a, ha, h⟩ := Exec.lift_bind_error h (caught_strItem hrepr receipt _) he
  obtain ⟨b, hb, h⟩ := Exec.lift_bind_error h (caught_strItem hrepr receipt _) he
  obtain ⟨d, hd, h⟩ := Exec.lift_bind_error h (caught_strItem hrepr receipt _) he
  obtain ⟨hfields, h⟩ := Exec.passed_error h
  by_cases hinfinite : InfiniteSequence receipt
  · simp only [List.all_cons, List.all_nil, Bool.and_true, Bool.and_eq_true, not_not] at hfields
    obtain ⟨hpHash, haHash, hbHash, hdHash⟩ := hfields
    obtain ⟨alert, halert, hc⟩ := bind_eq_ok.mp hc
    refine ⟨receipt, hreceipt, ⟨alert, c, halert, hc⟩, ?_, hinfinite⟩
    simp only [List.forall_mem_cons, List.not_mem_nil, false_imp_iff, implies_true, and_true]
    exact ⟨⟨p, hp, hpHash⟩, ⟨a, ha, haHash⟩, ⟨b, hb, hbHash⟩, ⟨d, hd, hdHash⟩⟩
  · obtain ⟨claimed, -, h⟩ := Exec.lift_bind_error h (caught_sequence hinfinite) he
    obtain ⟨-, h⟩ := Exec.passed_error h
    obtain ⟨-, h⟩ := Exec.passed_error h
    obtain ⟨-, h⟩ := Exec.passed_error h
    rw [Exec.bind_apply] at h
    rcases hvalid : verifyReceipt rt crypto receipt m with ⟨e' | valid, t⟩
    · exact absurd (congrArg Prod.fst hvalid) (verifyReceipt_no_error hm hrepr hinfinite)
    · rw [hvalid, Exec.next_ok] at h
      cases valid with
      | false => cases h
      | true => cases h

/-- A record that continues the chain is well formed. -/
theorem Follows.holdsReceipt (h : Follows rt crypto progress record receipt next)
    (hvalid : verifyReceipt rt crypto receipt m = (.ok true, m')) : HoldsReceipt rt record := by
  obtain ⟨alert, c, -, -, halert⟩ := h.alert
  obtain ⟨t, hmodel, hmodelHash, -, -⟩ := h.modelHash
  obtain ⟨item, hitem, hint⟩ := h.sequence
  obtain ⟨fields, rfl, -⟩ := item_ok hitem
  obtain ⟨p, hp⟩ := eq_hex_of_isHash h.hashes.1
  obtain ⟨b, rfl⟩ := eq_hex_of_isHash hmodelHash
  obtain ⟨d, hd⟩ := eq_hex_of_isHash h.hashes.2
  have hprevious := h.previousHead
  have hhead := h.head
  rw [hp] at hprevious
  rw [hd] at hhead
  have hsent : Sent rt (.obj fields) (progress.sequence + 1) p (crypto.sha256 c) b d :=
    ⟨⟨item, hitem, hint⟩, hprevious, halert, hmodel, hhead⟩
  have hfits := (verifyReceipt_true hsent hvalid).1
  exact ⟨fields, h.holds, ⟨item, _, hitem, hint, by omega, by omega⟩,
    ⟨p, hexField_of_strItem hprevious⟩,
    ⟨_, hexField_of_strItem halert⟩, ⟨_, hexField_of_strItem hmodel⟩, ⟨d, hexField_of_strItem hhead⟩⟩

/-- A record that overflows is reached: the TA has accepted the receipts before it. -/
inductive Overflows (rt : Runtime) (crypto : Crypto) : Machine → Progress → List Json → Prop
  | here {m progress record receipt records} : Overflow rt record receipt →
      Overflows rt crypto m progress (record :: records)
  | later {m m' progress record receipt next records} :
      Follows rt crypto progress record receipt next →
      verifyReceipt rt crypto receipt m = (.ok true, m') →
      Overflows rt crypto m' next records → Overflows rt crypto m progress (record :: records)

theorem starts_verifyRecords (rt : Runtime) (crypto : Crypto) (progress : Progress)
    (records : List Json) : Exec.Keeps Starts (verifyRecords rt crypto progress records) := by
  induction records generalizing progress with
  | nil => exact Exec.keeps_pure _
  | cons record records ih =>
    refine ((starts_checkRecord rt crypto progress record).orElse _ _).bind fun next => ?_
    cases next with
    | none => exact Exec.keeps_pure _
    | some next => exact ih next

theorem verifyRecords_raises_iff {records : List Json} (hm : Starts m) (hrepr : rt.ReprCaught) :
    (∃ e, (verifyRecords rt crypto progress records m).1 = .error e) ↔
      Overflows rt crypto m progress records := by
  induction records generalizing progress m with
  | nil =>
    constructor
    · rintro ⟨e, h⟩
      cases h
    · intro h
      cases h
  | cons record records ih =>
    rw [verifyRecords, Exec.bind_apply]
    rcases hcheck : checkRecord rt crypto progress record m with ⟨e | next, t⟩
    · by_cases he : e.isDataError
      · -- the exception is caught
        rw [Exec.orElse, hcheck]
        simp only [he, if_true, Exec.next_ok]
        constructor
        · rintro ⟨e', h⟩
          cases h
        · intro h
          cases h with
          | here h =>
            rw [checkRecord_overflow crypto progress m h] at hcheck
            obtain rfl := Except.error.inj (Prod.mk.inj hcheck).1
            cases he
          | later hfollows hvalid _ =>
            cases hcheck.symm.trans (checkRecord_some_iff.mpr ⟨_, hfollows, hvalid⟩)
      · obtain ⟨receipt, hoverflow⟩ := checkRecord_error hm hrepr hcheck he
        rw [Exec.orElse, hcheck]
        simp only [he]
        exact iff_of_true ⟨e, rfl⟩ (.here hoverflow)
    · rw [Exec.orElse_of_ok Exc.isDataError none hcheck, Exec.next_ok]
      cases next with
      | none =>
        constructor
        · rintro ⟨e', h⟩
          cases h
        · intro h
          cases h with
          | here h => cases hcheck.symm.trans (checkRecord_overflow crypto progress m h)
          | later hfollows hvalid _ =>
            cases hcheck.symm.trans (checkRecord_some_iff.mpr ⟨_, hfollows, hvalid⟩)
      | some next =>
        obtain ⟨receipt, hfollows, hvalid⟩ := checkRecord_some_iff.mp hcheck
        have ht := starts_checkRecord rt crypto progress record m hm
        rw [hcheck] at ht
        dsimp only
        rw [ih ht]
        constructor
        · exact fun h => .later hfollows hvalid h
        · intro h
          cases h with
          | here h => cases hcheck.symm.trans (checkRecord_overflow crypto progress m h)
          | later hfollows' hvalid' h =>
            have hsame := hcheck.symm.trans (checkRecord_some_iff.mpr ⟨_, hfollows', hvalid'⟩)
            obtain ⟨hnext, rfl⟩ := Prod.mk.inj hsame
            obtain rfl := Option.some.inj (Except.ok.inj hnext)
            exact h

theorem verifyRecords_holdsReceipt {records : List Json} {last : Progress}
    (h : (verifyRecords rt crypto progress records m).1 = .ok (some last)) :
    ∀ record ∈ records, HoldsReceipt rt record := by
  induction records generalizing progress m with
  | nil => simp
  | cons record records ih =>
    rw [verifyRecords] at h
    obtain ⟨next, t, hcheck, hrest⟩ := Exec.bind_ok (Prod.ext h rfl)
    cases next with
    | none => cases hrest
    | some next =>
      obtain ⟨receipt, hfollows, hvalid⟩ := checkRecord_some_iff.mp (Exec.orElse_ok hcheck (by simp))
      exact List.forall_mem_cons.mpr ⟨hfollows.holdsReceipt hvalid, ih (congrArg Prod.fst hrest)⟩

/-- What the client prints has a number in its field `sequence`. -/
theorem loads_printOutput (rt : Runtime) (output : Output) :
    loads rt (strip (printOutput output)) = .error .valueError ∨
      ∃ (current : Json) (n : ℕ), loads rt (strip (printOutput output)) = .ok current ∧
        current.item "sequence" = .ok (.int n) := by
  cases output with
  | none => exact Or.inl rfl
  | size required => exact Or.inl rfl
  | receipt r => exact Or.inr ⟨_, r.sequence.toNat, loads_printReceipt rt r, rfl⟩
  | head h => exact Or.inr ⟨_, h.sequence.toNat, loads_printHead rt h, rfl⟩

theorem getHead_cases (rt : Runtime) (crypto : Crypto) (hm : Starts m) :
    (∃ e m', getHead rt crypto m = (.error e, m') ∧ isClientError e) ∨
      ∃ (current : Json) (n : ℕ) (m' : Machine), getHead rt crypto m = (.ok current, m') ∧
        current.item "sequence" = .ok (.int n) := by
  rw [getHead, Exec.bind_apply]
  rcases hrun : runClient crypto [text "head"] m with ⟨e | output, t⟩
  · exact Or.inl ⟨e, t, rfl, runClient_error hm hrun⟩
  · rw [runClient_head] at hrun
    rcases process_cases crypto headInvocation printOutput m with ⟨e, he, -⟩ | ⟨hresult, -⟩
    · rw [hrun] at he
      cases he
    · rw [hrun] at hresult
      split_ifs at hresult
      rw [Exec.next_ok, Exec.lift_apply, Except.ok.inj hresult]
      rcases loads_printOutput rt (invoke crypto headInvocation m.tee).1.output with
        herror | ⟨current, n, hok, hitem⟩
      · exact Or.inl ⟨_, t, by rw [herror], rfl⟩
      · exact Or.inr ⟨current, n, t, by rw [hok], hitem⟩

theorem checkHead_error {e : Exc} (hm : Starts m) (hrepr : rt.ReprCaught)
    (h : checkHead rt crypto progress m = (.error e, m')) : isClientError e := by
  rcases getHead_cases rt crypto hm with ⟨e', t, hget, he'⟩ | ⟨current, n, t, hget, hitem⟩
  · rw [checkHead, Exec.bind_apply, hget] at h
    obtain rfl : e' = e := Except.error.inj (Prod.mk.inj h).1
    exact he'
  · by_contra hnot
    have he : ¬ e.isDataError := by
      intro hdata
      rw [isClientError, hdata] at hnot
      exact hnot rfl
    rw [checkHead, Exec.bind_of_ok hget] at h
    have hsequence : Caught (do rt.int (← current.item "sequence")) := by
      rw [hitem]
      exact failsWith_ok _
    obtain ⟨_, -, h⟩ := Exec.lift_bind_error h hsequence he
    obtain ⟨-, h⟩ := Exec.passed_error h
    obtain ⟨_, -, h⟩ := Exec.lift_bind_error h (caught_strItem hrepr current "head") he
    obtain ⟨-, h⟩ := Exec.passed_error h
    obtain ⟨-, h⟩ := Exec.passed_error h
    obtain ⟨_, -, h⟩ := Exec.lift_bind_error h (caught_strItem hrepr current "model_hash") he
    cases h

variable {records : List Json} {requireCurrentHead : Bool}

/-- `verify_chain` returns unless a record that overflows is reached. -/
theorem verifyChain_returns_iff (crypto : Crypto) (records : List Json) (requireCurrentHead : Bool)
    (hm : Starts m) (hrepr : rt.ReprCaught) :
    (∃ b, (verifyChain rt crypto records requireCurrentHead m).1 = .ok b) ↔
      ¬ Overflows rt crypto m ⟨Digest.zero.hex, 0, none⟩ records := by
  rw [← verifyRecords_raises_iff hm hrepr, verifyChain, Exec.bind_apply]
  rcases hrun : verifyRecords rt crypto ⟨Digest.zero.hex, 0, none⟩ records m with ⟨e | last, t⟩
  · refine iff_of_false ?_ (not_not.mpr ⟨e, rfl⟩)
    rintro ⟨b, h⟩
    cases h
  · have ht := starts_verifyRecords rt crypto ⟨Digest.zero.hex, 0, none⟩ records m hm
    rw [hrun] at ht
    refine iff_of_true ?_ (not_exists.mpr fun e h => by cases h)
    rw [Exec.next_ok]
    cases last with
    | none => exact ⟨false, rfl⟩
    | some last =>
      cases requireCurrentHead with
      | false => exact ⟨true, rfl⟩
      | true =>
        rcases hhead : checkHead rt crypto last t with ⟨e | b, t'⟩
        · refine ⟨false, ?_⟩
          simp only [if_true, Exec.orElse, hhead, checkHead_error ht hrepr hhead]
        · exact ⟨b, congrArg Prod.fst (Exec.orElse_of_ok isClientError false hhead)⟩

/-- A record without a well-formed receipt is never accepted. -/
theorem verifyChain_holdsReceipt
    (h : (verifyChain rt crypto records requireCurrentHead m).1 = .ok true) :
    ∀ record ∈ records, HoldsReceipt rt record := by
  obtain ⟨last, t, hrun, hrest⟩ := Exec.bind_ok (Prod.ext h rfl)
  cases last with
  | none => cases hrest
  | some last => exact verifyRecords_holdsReceipt (congrArg Prod.fst hrun)

end Cote3Mon.Optee
