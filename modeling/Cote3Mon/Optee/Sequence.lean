import Cote3Mon.Optee.Evidence

namespace Cote3Mon.Optee
open ByteText Python AuditTa MacChain

-- Python prints `int(receipt["sequence"])`, the client reads it with `strtoull`, and the TA
-- authenticates what was read. `strtoull` takes a minus sign, so a negative number arrives as
-- another one.

variable {rt : Runtime} {crypto : Crypto} {m : Machine} {receipt : Json} {r : AuditTa.Receipt}

def decodeArguments (arguments : List Text) : Option AuditTa.Receipt :=
  match encodeArguments arguments with
  | .ok [_, sequence, previousHead, alertHash, modelHash, head] =>
    decodeReceipt sequence previousHead alertHash modelHash head
  | _ => none

def sentReceipt (rt : Runtime) (receipt : Json) : Option AuditTa.Receipt :=
  match verifyArguments rt receipt with
  | .ok arguments => decodeArguments arguments
  | .error _ => none

theorem encodeArguments_cons {t : Text} {rest : List Text} {argv : List Bytes}
    (h : encodeArguments (t :: rest) = .ok argv) :
    ∃ first others, argv = first :: others ∧ fsencode t = .ok first ∧
      encodeArguments rest = .ok others := by
  obtain ⟨first, hfirst, h⟩ := bind_eq_ok.mp h
  obtain ⟨others, hothers, h⟩ := bind_eq_ok.mp h
  exact ⟨first, others, (Except.ok.inj h).symm, hfirst, hothers⟩

variable (crypto m) in
/-- A client that decodes its arguments sends the receipt to the TA; another one fails. -/
theorem runClient_verifyArguments (sequence p a b h : Text) :
    (∃ r, decodeArguments [text "verify", sequence, p, a, b, h] = some r ∧
      runClient crypto [text "verify", sequence, p, a, b, h] m =
        process crypto (verifyInvocation r) (fun _ => text "VALID\n") m) ∨
    (decodeArguments [text "verify", sequence, p, a, b, h] = none ∧
      ∃ e, (runClient crypto [text "verify", sequence, p, a, b, h] m).1 = .error e) := by
  unfold decodeArguments
  cases hencode : encodeArguments [text "verify", sequence, p, a, b, h] with
  | error e =>
    refine Or.inr ⟨rfl, e, ?_⟩
    simp only [runClient, hencode]
  | ok argv =>
    obtain ⟨command, rest, rfl, hcommand, hrest⟩ := encodeArguments_cons hencode
    obtain ⟨e1, rest1, rfl, -, hrest⟩ := encodeArguments_cons hrest
    obtain ⟨e2, rest2, rfl, -, hrest⟩ := encodeArguments_cons hrest
    obtain ⟨e3, rest3, rfl, -, hrest⟩ := encodeArguments_cons hrest
    obtain ⟨e4, rest4, rfl, -, hrest⟩ := encodeArguments_cons hrest
    obtain ⟨e5, rest5, rfl, -, hrest⟩ := encodeArguments_cons hrest
    obtain rfl : [] = rest5 := Except.ok.inj hrest
    obtain rfl := Except.ok.inj ((encode_name (names_ascii "verify" (by simp))).symm.trans hcommand)
    dsimp only
    cases hdecode : decodeReceipt e1 e2 e3 e4 e5 with
    | some r =>
      refine Or.inl ⟨r, rfl, ?_⟩
      simp only [runClient, hencode, main, runCommand, hdecode, process]
      rfl
    | none =>
      refine Or.inr ⟨rfl, ?_⟩
      have hmain : (main crypto (m.processes 0).fault (asciiBytes "audit-client" ::
          [asciiBytes "verify", e1, e2, e3, e4, e5]) m.tee).1.code ≠ 0 := by
        simp only [main, runCommand, hdecode]
        split_ifs <;> simp
      simp only [runClient, hencode, if_neg hmain]
      split_ifs
      · exact ⟨_, rfl⟩
      · exact ⟨_, rfl⟩

theorem decodeSequence_intText {z : ℤ} {t : Text} (h : rt.intText z = .ok t) :
    fsencode t = .ok (ascii t) ∧
      decodeSequence (ascii t) = if z.natAbs < 2 ^ 64 then some (UInt64.ofInt z) else none := by
  unfold Runtime.intText at h
  split_ifs at h with hlong hneg
  · obtain rfl := Except.ok.inj h
    refine ⟨fsencode_ascii fun c hc => ?_, ?_⟩
    · rcases List.mem_cons.mp hc with rfl | hc
      · exact ⟨by decide, by decide⟩
      · exact decimal_ascii _ c hc
    · rw [decodeSequence_minus]
      split_ifs with hlt
      · rw [UInt64.ofInt]
        congr 2
        omega
      · rfl
  · obtain rfl := Except.ok.inj h
    refine ⟨fsencode_ascii (decimal_ascii _), ?_⟩
    rw [decodeSequence_decimal]
    split_ifs with hlt
    · rw [UInt64.ofInt]
      congr 2
      omega
    · rfl

def fieldDigest (rt : Runtime) (receipt : Json) (name : String) : Option Digest :=
  match strItem rt receipt name >>= fsencode with
  | .ok bs => decodeHash bs
  | .error _ => none

theorem fieldDigest_eq {name : String} {t : Text} {bs : Bytes} (ht : strItem rt receipt name = .ok t)
    (hbs : fsencode t = .ok bs) : fieldDigest rt receipt name = decodeHash bs := by
  rw [fieldDigest, ht, ok_bind, hbs]

/-- What reaches the TA has the number of the receipt modulo `2 ^ 64`. -/
structure SentAs (rt : Runtime) (receipt : Json) (z : ℤ) (r : AuditTa.Receipt) : Prop where
  item : ∃ v, receipt.item "sequence" = .ok v ∧ rt.int v = .ok z
  range : z.natAbs < 2 ^ 64
  sequence : r.sequence = UInt64.ofInt z
  previousHead : fieldDigest rt receipt "previous_head" = some r.previousHead
  alertHash : fieldDigest rt receipt "alert_hash" = some r.alertHash
  modelHash : fieldDigest rt receipt "model_hash" = some r.modelHash
  head : fieldDigest rt receipt "head" = some r.head

theorem verifyArguments_ok {arguments : List Text} (h : verifyArguments rt receipt = .ok arguments) :
    ∃ v z t p a b d, receipt.item "sequence" = .ok v ∧ rt.int v = .ok z ∧ rt.intText z = .ok t ∧
      strItem rt receipt "previous_head" = .ok p ∧ strItem rt receipt "alert_hash" = .ok a ∧
      strItem rt receipt "model_hash" = .ok b ∧ strItem rt receipt "head" = .ok d ∧
      arguments = [text "verify", t, p, a, b, d] := by
  unfold verifyArguments at h
  obtain ⟨v, hv, h⟩ := bind_eq_ok.mp h
  obtain ⟨z, hz, h⟩ := bind_eq_ok.mp h
  obtain ⟨t, ht, h⟩ := bind_eq_ok.mp h
  obtain ⟨p, hp, h⟩ := bind_eq_ok.mp h
  obtain ⟨a, ha, h⟩ := bind_eq_ok.mp h
  obtain ⟨b, hb, h⟩ := bind_eq_ok.mp h
  obtain ⟨d, hd, h⟩ := bind_eq_ok.mp h
  exact ⟨v, z, t, p, a, b, d, hv, hz, ht, hp, ha, hb, hd, (Except.ok.inj h).symm⟩

theorem sentReceipt_some (h : sentReceipt rt receipt = some r) : ∃ z, SentAs rt receipt z r := by
  unfold sentReceipt at h
  cases harguments : verifyArguments rt receipt with
  | error e =>
    rw [harguments] at h
    cases h
  | ok arguments =>
    rw [harguments] at h
    obtain ⟨v, z, t, p, a, b, d, hv, hz, ht, hp, ha, hb, hd, rfl⟩ := verifyArguments_ok harguments
    dsimp only [decodeArguments] at h
    cases hencode : encodeArguments [text "verify", t, p, a, b, d] with
    | error e =>
      rw [hencode] at h
      cases h
    | ok argv =>
      obtain ⟨command, rest, rfl, -, hrest⟩ := encodeArguments_cons hencode
      obtain ⟨e1, rest1, rfl, h1, hrest⟩ := encodeArguments_cons hrest
      obtain ⟨e2, rest2, rfl, h2, hrest⟩ := encodeArguments_cons hrest
      obtain ⟨e3, rest3, rfl, h3, hrest⟩ := encodeArguments_cons hrest
      obtain ⟨e4, rest4, rfl, h4, hrest⟩ := encodeArguments_cons hrest
      obtain ⟨e5, rest5, rfl, h5, hrest⟩ := encodeArguments_cons hrest
      obtain rfl : [] = rest5 := Except.ok.inj hrest
      rw [hencode] at h
      obtain ⟨hascii, hdecode⟩ := decodeSequence_intText ht
      obtain rfl := Except.ok.inj (hascii.symm.trans h1)
      simp only [decodeReceipt, Option.bind_eq_bind, Option.bind_eq_some_iff, hdecode] at h
      obtain ⟨sequence, hsequence, p', hp', a', ha', b', hb', d', hd', hr⟩ := h
      obtain rfl := Option.some.inj hr
      split_ifs at hsequence with hrange
      exact ⟨z, ⟨v, hv, hz⟩, hrange, (Option.some.inj hsequence).symm,
        (fieldDigest_eq hp h2).trans hp',
        (fieldDigest_eq ha h3).trans ha', (fieldDigest_eq hb h4).trans hb',
        (fieldDigest_eq hd h5).trans hd'⟩

theorem fieldDigest_some {name : String} {d : Digest} (h : fieldDigest rt receipt name = some d) :
    ∃ t bs, strItem rt receipt name = .ok t ∧ fsencode t = .ok bs ∧ decodeHash bs = some d := by
  unfold fieldDigest at h
  split at h
  case h_1 bs hfield =>
    obtain ⟨t, ht, hbs⟩ := bind_eq_ok.mp hfield
    exact ⟨t, bs, ht, hbs, h⟩
  case h_2 => cases h

/-- A number of 64 bits has a text, with any limit on the digits. -/
theorem intText_of_lt (rt : Runtime) {z : ℤ} (h : z.natAbs < 2 ^ 64) :
    ∃ t, rt.intText z = .ok t := by
  have hlong := tooLong_uint64 rt (UInt64.ofNat z.natAbs)
  rw [UInt64.toNat_ofNat_of_lt' h] at hlong
  exact ⟨_, by rw [Runtime.intText, hlong, if_neg (by decide)]⟩

/-- Such a receipt is sent. -/
theorem SentAs.sent {z : ℤ} (h : SentAs rt receipt z r) : sentReceipt rt receipt = some r := by
  obtain ⟨v, hv, hz⟩ := h.item
  obtain ⟨t, ht⟩ := intText_of_lt rt h.range
  obtain ⟨hsequence, hdecode⟩ := decodeSequence_intText ht
  obtain ⟨p, e1, hp, hpe, hpd⟩ := fieldDigest_some h.previousHead
  obtain ⟨a, e2, ha, hae, had⟩ := fieldDigest_some h.alertHash
  obtain ⟨b, e3, hb, hbe, hbd⟩ := fieldDigest_some h.modelHash
  obtain ⟨d, e4, hd, hde, hdd⟩ := fieldDigest_some h.head
  have hcommand := encode_name (names_ascii "verify" (by simp))
  rw [if_pos h.range, ← h.sequence] at hdecode
  have harguments : verifyArguments rt receipt = .ok [text "verify", t, p, a, b, d] := by
    simp only [verifyArguments, hv, hz, ht, hp, ha, hb, hd, ok_bind]
    rfl
  have hencode : encodeArguments [text "verify", t, p, a, b, d] =
      .ok [asciiBytes "verify", ascii t, e1, e2, e3, e4] := by
    simp only [encodeArguments, hcommand, hsequence, hpe, hae, hbe, hde, ok_bind]
    rfl
  simp only [sentReceipt, harguments, decodeArguments, hencode, decodeReceipt, hdecode, hpd,
    had, hbd, hdd, Option.bind_eq_bind, Option.bind_some]
  rfl

/-- The MAC of the receipt under the key of the state that the TA loads. -/
structure Authenticates (crypto : Crypto) (m : Machine) (r : AuditTa.Receipt) : Prop where
  stored : WellFormed m.tee.next
  mac : crypto.hmac m.tee.next.key.bytes
    (hmacMessage r.sequence r.previousHead r.alertHash r.modelHash) = r.head

theorem process_verify_succeeds (hm : m.Succeeds) (h : Authenticates crypto m r) :
    (process crypto (verifyInvocation r) (fun _ => text "VALID\n") m).1 = .ok (text "VALID") := by
  obtain ⟨m', hprocess, -, -⟩ := process_succeeds (fun _ => text "VALID\n") hm rfl
    (invoke_verify r (yields_next crypto _ hm.tee h.stored) h.mac)
  rw [hprocess]
  rfl

theorem process_verify_fails (hm : m.Succeeds) (h : ¬ Authenticates crypto m r) :
    (process crypto (verifyInvocation r) (fun _ => text "VALID\n") m).1 =
      .error .calledProcessError := by
  by_cases hst : WellFormed m.tee.next
  · have hmac : crypto.hmac m.tee.next.key.bytes
        (hmacMessage r.sequence r.previousHead r.alertHash r.modelHash) ≠ r.head :=
      fun hmac => h ⟨hst, hmac⟩
    obtain ⟨m', hprocess, -, -⟩ := process_fails (fun _ => text "VALID\n") hm (by decide)
      (invoke_verify_invalid r (yields_next crypto _ hm.tee hst) hmac)
    rw [hprocess]
  · cases ho : m.tee.object with
    | none =>
      rw [World.next, ho] at hst
      exact absurd (initialState_wellFormed _) hst
    | some st =>
      rw [World.next, ho] at hst
      obtain ⟨m', hprocess, -, -⟩ := process_fails (fun _ => text "VALID\n") hm (by decide)
        (invoke_verify_corrupt r hm.tee ho hst)
      rw [hprocess]

/-- What `verify_receipt` computes inside its `try`. -/
theorem verifyReceipt_accepts_iff : (verifyReceipt rt crypto receipt m).1 = .ok true ↔
    ∃ arguments, verifyArguments rt receipt = .ok arguments ∧
      (runClient crypto arguments m).1 = .ok (text "VALID") := by
  unfold verifyReceipt
  constructor
  · intro h
    have hbody := Exec.orElse_ok (Prod.ext h rfl) (by decide)
    obtain ⟨arguments, harguments, hafter⟩ := Exec.lift_bind_ok hbody
    obtain ⟨output, t, hrun, hpure⟩ := Exec.bind_ok hafter
    have hvalid : output = text "VALID" := of_decide_eq_true (Except.ok.inj (Prod.mk.inj hpure).1)
    exact ⟨arguments, harguments, by rw [hrun, hvalid]⟩
  · rintro ⟨arguments, harguments, hrun⟩
    rw [Exec.orElse_of_ok isClientError false]
    rw [Exec.bind_apply, harguments, Exec.lift_apply, Exec.next_ok,
      Exec.bind_of_ok (Prod.ext hrun rfl), Exec.pure_apply, decide_eq_true rfl]

/-- `verify_receipt` accepts what the TA authenticates, in the form in which it is sent. -/
theorem verifyReceipt_iff (hm : m.Succeeds) : (verifyReceipt rt crypto receipt m).1 = .ok true ↔
    ∃ r, sentReceipt rt receipt = some r ∧ Authenticates crypto m r := by
  rw [verifyReceipt_accepts_iff, sentReceipt]
  cases harguments : verifyArguments rt receipt with
  | error e => simp
  | ok arguments =>
    obtain ⟨v, z, t, p, a, b, d, -, -, -, -, -, -, -, rfl⟩ := verifyArguments_ok harguments
    simp only [Except.ok.injEq, exists_eq_left']
    rcases runClient_verifyArguments crypto m t p a b d with
      ⟨r, hr, hrun⟩ | ⟨hnone, e, he⟩
    · rw [hrun, hr]
      simp only [Option.some.injEq, exists_eq_left']
      by_cases hmac : Authenticates crypto m r
      · exact iff_of_true (process_verify_succeeds hm hmac) hmac
      · refine iff_of_false (fun hok => ?_) hmac
        cases (process_verify_fails hm hmac).symm.trans hok
    · rw [he, hnone]
      simp

/-- An accepted receipt has a number of 64 bits, and the TA authenticated this number. -/
def Faithful (rt : Runtime) (crypto : Crypto) (m : Machine) (receipt : Json) : Prop :=
  (verifyReceipt rt crypto receipt m).1 = .ok true →
    ∃ v z r, receipt.item "sequence" = .ok v ∧ rt.int v = .ok z ∧ 0 ≤ z ∧ z < 2 ^ 64 ∧
      sentReceipt rt receipt = some r ∧ Authenticates crypto m r ∧ (r.sequence.toNat : ℤ) = z

/-- The number is negative, and the head is the MAC of the fields with the number that lies `2 ^ 64`
above it. -/
structure Wraps (rt : Runtime) (crypto : Crypto) (m : Machine) (receipt : Json) : Prop where
  stored : WellFormed m.tee.next
  fields : ∃ v z p a b, receipt.item "sequence" = .ok v ∧ rt.int v = .ok z ∧
    -2 ^ 64 < z ∧ z < 0 ∧ fieldDigest rt receipt "previous_head" = some p ∧
    fieldDigest rt receipt "alert_hash" = some a ∧ fieldDigest rt receipt "model_hash" = some b ∧
    fieldDigest rt receipt "head" = some (crypto.hmac m.tee.next.key.bytes
      (auditMessage (z + 2 ^ 64).toNat p.bytes a.bytes b.bytes))

/-- The number is represented modulo `2 ^ 64`. -/
theorem SentAs.toNat {z : ℤ} (h : SentAs rt receipt z r) :
    (r.sequence.toNat : ℤ) = if z < 0 then z + 2 ^ 64 else z := by
  have hrange := h.range
  have hnat : (r.sequence.toNat : ℤ) = z % 2 ^ 64 := by
    rw [h.sequence, UInt64.ofInt, UInt64.toNat_ofNat_of_lt' (by change _ < 2 ^ 64; omega)]
    omega
  rw [hnat]
  split_ifs with hneg
  · omega
  · omega

/-- The message that the TA authenticates has the number modulo `2 ^ 64`. -/
theorem SentAs.message {z : ℤ} (h : SentAs rt receipt z r) (hneg : z < 0) :
    hmacMessage r.sequence r.previousHead r.alertHash r.modelHash =
      auditMessage (z + 2 ^ 64).toNat r.previousHead.bytes r.alertHash.bytes r.modelHash.bytes := by
  have hnat := h.toNat
  rw [if_pos hneg] at hnat
  rw [hmacMessage_eq, ← hnat, Int.toNat_natCast]

/-- A negative number wraps around when the TA authenticates it. -/
theorem SentAs.wraps {z : ℤ} (h : SentAs rt receipt z r) (hmac : Authenticates crypto m r)
    (hneg : z < 0) : Wraps rt crypto m receipt := by
  obtain ⟨v, hv, hz⟩ := h.item
  have hrange := h.range
  have hhead := h.head
  rw [← hmac.mac, h.message hneg] at hhead
  exact ⟨hmac.stored, v, z, _, _, _, hv, hz, by omega, hneg, h.previousHead, h.alertHash,
    h.modelHash, hhead⟩

/-- A receipt that wraps around is accepted, and its number is negative. -/
theorem Wraps.accepted (hm : m.Succeeds) (h : Wraps rt crypto m receipt) :
    (verifyReceipt rt crypto receipt m).1 = .ok true ∧
      ∃ v z, receipt.item "sequence" = .ok v ∧ rt.int v = .ok z ∧ z < 0 := by
  obtain ⟨hst, v, z, p, a, b, hv, hz, hlow, hneg, hp, ha, hb, hd⟩ := h
  have hsent : SentAs rt receipt z ⟨UInt64.ofInt z, p, a, b, _⟩ :=
    ⟨⟨v, hv, hz⟩, by omega, rfl, hp, ha, hb, hd⟩
  have hmac : Authenticates crypto m ⟨UInt64.ofInt z, p, a, b, _⟩ :=
    ⟨hst, congrArg (crypto.hmac m.tee.next.key.bytes) (hsent.message hneg)⟩
  exact ⟨(verifyReceipt_iff hm).mpr ⟨_, hsent.sent, hmac⟩, v, z, hv, hz, hneg⟩

/-- The number arrives as it is, unless it is negative. -/
theorem faithful_iff (hm : m.Succeeds) : Faithful rt crypto m receipt ↔
    ¬ Wraps rt crypto m receipt := by
  constructor
  · intro h hwraps
    obtain ⟨haccepted, v, z, hv, hz, hneg⟩ := hwraps.accepted hm
    obtain ⟨v', z', -, hv', hz', hnonneg, -⟩ := h haccepted
    obtain rfl := Except.ok.inj (hv.symm.trans hv')
    obtain rfl := Except.ok.inj (hz.symm.trans hz')
    omega
  · intro h haccepted
    obtain ⟨r, hsent, hmac⟩ := (verifyReceipt_iff hm).mp haccepted
    obtain ⟨z, hz⟩ := sentReceipt_some hsent
    obtain ⟨v, hv, hint⟩ := hz.item
    have hnumber := hz.toNat
    have hrange := hz.range
    by_cases hneg : z < 0
    · exact absurd (hz.wraps hmac hneg) h
    · rw [if_neg hneg] at hnumber
      exact ⟨v, z, r, hv, hint, by omega, by omega, hsent, hmac, hnumber⟩

def SameFields (rt : Runtime) (receipt receipt' : Json) : Prop :=
  ∀ name ∈ ["previous_head", "alert_hash", "model_hash", "head"],
    strItem rt receipt name = strItem rt receipt' name

def messageOf (r : AuditTa.Receipt) : Bytes :=
  hmacMessage r.sequence r.previousHead r.alertHash r.modelHash

theorem messageOf_sequence {r r' : AuditTa.Receipt} (h : messageOf r = messageOf r') :
    r.sequence = r'.sequence := by
  rw [messageOf, messageOf, hmacMessage_eq, hmacMessage_eq] at h
  exact UInt64.toNat_inj.mp (auditMessage_injective r.sequence.toNat_lt r'.sequence.toNat_lt
    (r.previousHead.length_eq.trans r'.previousHead.length_eq.symm)
    (r.alertHash.length_eq.trans r'.alertHash.length_eq.symm) h).1

theorem SentAs.head_eq {z z' : ℤ} {receipt' : Json} {r' : AuditTa.Receipt}
    (h : SentAs rt receipt z r) (h' : SentAs rt receipt' z' r')
    (hsame : SameFields rt receipt receipt') :
    r.head = r'.head := by
  have hfield : fieldDigest rt receipt "head" = fieldDigest rt receipt' "head" := by
    rw [fieldDigest, fieldDigest, hsame "head" (by simp)]
  exact Option.some.inj (h.head.symm.trans (hfield.trans h'.head))

/-- **The number on the command line.**  On a TA in which nothing fails, an accepted receipt has a
number of 64 bits that is the one the TA authenticated, unless the number is negative and the
receipt carries the MAC of the one `2 ^ 64` above it.  Two accepted receipts that differ in a number
that is not of this kind exhibit a collision. -/
theorem sequence_faithful_iff (rt : Runtime) (crypto : Crypto) (m : Machine) (hm : m.Succeeds) :
    (∀ receipt, Faithful rt crypto m receipt ↔ ¬ Wraps rt crypto m receipt) ∧
    ∀ (receipt receipt' v v' : Json) (z z' : ℤ), SameFields rt receipt receipt' →
      receipt.item "sequence" = .ok v → rt.int v = .ok z →
      receipt'.item "sequence" = .ok v' → rt.int v' = .ok z' → z ≠ z' →
      ¬ Wraps rt crypto m receipt → ¬ Wraps rt crypto m receipt' →
      (verifyReceipt rt crypto receipt m).1 = .ok true →
      (verifyReceipt rt crypto receipt' m).1 = .ok true →
      ∃ r r', sentReceipt rt receipt = some r ∧ sentReceipt rt receipt' = some r' ∧
        Collision (crypto.hmac m.tee.next.key.bytes) [messageOf r] [messageOf r'] := by
  refine ⟨fun receipt => faithful_iff hm, ?_⟩
  intro receipt receipt' v v' z z' hsame hv hz hv' hz' hne hwraps hwraps' haccepted haccepted'
  obtain ⟨w, y, r, hw, hy, -, -, hsent, hmac, hnumber⟩ := (faithful_iff hm).mpr hwraps haccepted
  obtain ⟨w', y', r', hw', hy', -, -, hsent', hmac', hnumber'⟩ :=
    (faithful_iff hm).mpr hwraps' haccepted'
  obtain rfl := Except.ok.inj (hv.symm.trans hw)
  obtain rfl := Except.ok.inj (hz.symm.trans hy)
  obtain rfl := Except.ok.inj (hv'.symm.trans hw')
  obtain rfl := Except.ok.inj (hz'.symm.trans hy')
  obtain ⟨_, hr⟩ := sentReceipt_some hsent
  obtain ⟨_, hr'⟩ := sentReceipt_some hsent'
  refine ⟨r, r', hsent, hsent', _, List.mem_singleton_self _, _, List.mem_singleton_self _, ?_, ?_⟩
  · intro hmessage
    apply hne
    rw [← hnumber, ← hnumber', messageOf_sequence hmessage]
  · exact hmac.mac.trans ((hr.head_eq hr' hsame).trans hmac'.mac.symm)

/-- A MAC under which everything collides. -/
def constantMac : Crypto := ⟨Crypto.standard.sha256, fun _ _ => .zero⟩

def zeroReceipt (n : UInt64) : Json := .obj (receiptDict ⟨n, .zero, .zero, .zero, .zero⟩)

theorem zeroReceipt_not_wraps (n : UInt64) :
    ¬ Wraps plainRuntime constantMac quietMachine (zeroReceipt n) := by
  rintro ⟨-, v, z, p, a, b, hv, hz, -, hneg, -⟩
  obtain rfl := Except.ok.inj hv
  obtain rfl := Except.ok.inj hz
  omega

theorem sequence_faithful_iff_constant_mac :
    (Faithful plainRuntime constantMac quietMachine (zeroReceipt 1) ↔
      ¬ Wraps plainRuntime constantMac quietMachine (zeroReceipt 1)) ∧
    ∃ r r', sentReceipt plainRuntime (zeroReceipt 1) = some r ∧
      sentReceipt plainRuntime (zeroReceipt 2) = some r' ∧
      Collision (constantMac.hmac quietMachine.tee.next.key.bytes) [messageOf r] [messageOf r'] := by
  obtain ⟨hfaithful, hpair⟩ :=
    sequence_faithful_iff plainRuntime constantMac quietMachine quietMachine_succeeds
  refine ⟨hfaithful (zeroReceipt 1), ?_⟩
  have hsame : SameFields plainRuntime (zeroReceipt 1) (zeroReceipt 2) := by
    intro name hname
    fin_cases hname <;> rfl
  apply hpair (zeroReceipt 1) (zeroReceipt 2) (.int 1) (.int 2) 1 2 hsame rfl rfl rfl rfl (by decide)
    (zeroReceipt_not_wraps 1) (zeroReceipt_not_wraps 2)
  · decide +kernel
  · decide +kernel

def afterOneAppend : Run := run plainRuntime .standard quietMachine [registered, appended]

def issuedMembers : List (Text × Json) :=
  match afterOneAppend.issued with
  | [(_, .obj members)] => members
  | _ => []

def renumbered (z : ℤ) : Json := .obj ((text "sequence", .int z) :: issuedMembers.tail)

theorem afterOneAppend_succeeds : afterOneAppend.machine.Succeeds := (run_appends 1).1

/-- The receipt of the first append, with the number of `2 ^ 64 - 1` appends earlier. -/
theorem negative_sequence_accepted :
    afterOneAppend.machine.Succeeds ∧
      (verifyReceipt plainRuntime .standard (renumbered 1) afterOneAppend.machine).1 = .ok true ∧
      (verifyReceipt plainRuntime .standard (renumbered (1 - 2 ^ 64)) afterOneAppend.machine).1 =
        .ok true ∧
      ¬ Faithful plainRuntime .standard afterOneAppend.machine (renumbered (1 - 2 ^ 64)) := by
  have haccepted : (verifyReceipt plainRuntime .standard (renumbered (1 - 2 ^ 64))
      afterOneAppend.machine).1 = .ok true := by decide +kernel
  refine ⟨afterOneAppend_succeeds, by decide +kernel, haccepted, fun hfaithful => ?_⟩
  obtain ⟨v, z, -, hv, hz, hnonneg, -⟩ := hfaithful haccepted
  obtain rfl := Except.ok.inj hv
  obtain rfl := Except.ok.inj hz
  revert hnonneg
  norm_num

end Cote3Mon.Optee
