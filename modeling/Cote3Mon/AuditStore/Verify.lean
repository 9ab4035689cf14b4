import Cote3Mon.AuditStore.Chain

namespace Cote3Mon.AuditStore
open ByteText Python MacChain

variable {rt : Runtime} {crypto : Crypto} {self : AuditStore}

theorem readFields_issue {alert : Json} {key m p : Digest} {n : ℕ} {c : Bytes}
    (hc : canonicalJson rt alert = .ok c) :
    readFields rt crypto alert (issue crypto key m n p c).toDict =
      .ok ⟨(n + 1 : ℕ), p.bytes, crypto.sha256 c, m.bytes,
        (tag crypto key (chainMessage (n + 1) p ⟨crypto.sha256 c, m⟩)).bytes⟩ := by
  have hsequence : (issue crypto key m n p c).toDict.item "sequence" = .ok (.int (n + 1 : ℕ)) := rfl
  have hprevious : hexField rt (issue crypto key m n p c).toDict "previous_head" = .ok p.bytes :=
    hexField_str rfl
  have hmodel : hexField rt (issue crypto key m n p c).toDict "model_hash" = .ok m.bytes :=
    hexField_str rfl
  have hhead : hexField rt (issue crypto key m n p c).toDict "head" =
      .ok (tag crypto key (chainMessage (n + 1) p ⟨crypto.sha256 c, m⟩)).bytes :=
    hexField_str rfl
  simp only [readFields, hsequence, hprevious, hmodel, hhead, hc, ok_bind, Runtime.int]
  rfl

theorem verifyReceipt_issue {alert : Json} {m p : Digest} {n : ℕ} {c : Bytes}
    (hc : canonicalJson rt alert = .ok c) (hlt : n + 1 < 2 ^ 64) :
    verifyReceipt rt crypto self alert (issue crypto self.state.key m n p c).toDict = .ok true := by
  have halert : ((issue crypto self.state.key m n p c).toDict.get "alert_hash").eqText
      (crypto.sha256 c).hex := decide_eq_true rfl
  rw [verifyReceipt, readFields_issue hc]
  simp only [halert, if_true, Fields.message, packQ_of_lt hlt, ok_bind, message_eq]
  simp [tag, pure, Except.pure]

/-- One more record after an accepted list. -/
theorem verifyRecords_append_singleton {previous last : Text} {sequence n : ℕ}
    {records : List Json} (v : Json)
    (h : verifyRecords rt crypto self previous sequence records = .ok (some (last, n))) :
    verifyRecords rt crypto self previous sequence (records ++ [v]) =
      verifyRecords rt crypto self last n [v] := by
  induction records generalizing previous sequence with
  | nil =>
    obtain ⟨rfl, rfl⟩ := Prod.mk.inj (Option.some.inj (Except.ok.inj h))
    rfl
  | cons w records ih =>
    rw [List.cons_append, verifyRecords]
    rw [verifyRecords] at h
    obtain ⟨d, hd, h⟩ := bind_eq_ok.mp h
    obtain ⟨receipt, hreceipt, h⟩ := bind_eq_ok.mp h
    simp only [hd, hreceipt, ok_bind]
    split_ifs at h ⊢ with hfirst hmodel
    · cases h
    · obtain ⟨valid, hvalid, h⟩ := bind_eq_ok.mp h
      rw [hvalid, ok_bind]
      cases valid with
      | false => cases h
      | true =>
        simp only [if_true] at h ⊢
        obtain ⟨item, hitem, h⟩ := bind_eq_ok.mp h
        obtain ⟨head, hhead, h⟩ := bind_eq_ok.mp h
        rw [hitem, ok_bind, hhead, ok_bind]
        exact ih h
    · cases h

theorem verifyRecords_record {alert : Json} {m p : Digest} {n : ℕ} {c : Bytes}
    (hmodel : self.state.modelHash = some m.hex) (hc : canonicalJson rt alert = .ok c)
    (hlt : n + 1 < 2 ^ 64) :
    verifyRecords rt crypto self p.hex n [record (alert, issue crypto self.state.key m n p c)] =
      .ok (some ((tag crypto self.state.key
        (chainMessage (n + 1) p ⟨crypto.sha256 c, m⟩)).hex, n + 1)) := by
  have hreceipt : getOrEmpty [(text "alert", alert),
      (text "receipt", .obj (issue crypto self.state.key m n p c).toDict)] "receipt" =
        .obj (issue crypto self.state.key m n p c).toDict := rfl
  have halert : getOrEmpty [(text "alert", alert),
      (text "receipt", .obj (issue crypto self.state.key m n p c).toDict)] "alert" = alert := rfl
  have hsequence : ((issue crypto self.state.key m n p c).toDict.get "sequence").eqInt (n + 1) :=
    decide_eq_true rfl
  have hprevious : ((issue crypto self.state.key m n p c).toDict.get "previous_head").eqText p.hex :=
    decide_eq_true rfl
  have hmodelText : ((issue crypto self.state.key m n p c).toDict.get "model_hash").eqTextOrNone
      self.state.modelHash := by
    rw [hmodel]
    exact decide_eq_true rfl
  have hhead : (issue crypto self.state.key m n p c).toDict.item "head" = .ok (.str (tag crypto
      self.state.key (chainMessage (n + 1) p ⟨crypto.sha256 c, m⟩)).hex) := rfl
  simp only [verifyRecords, record, Json.dict, ok_bind, hreceipt, halert, hsequence, hprevious,
    hmodelText, not_true, or_self, if_false, verifyReceipt_issue hc hlt, if_true, hhead,
    Runtime.str]

theorem IssuedChain.verifyRecords {m : Digest} {entries : List (Json × Receipt)} {p : Digest}
    (h : IssuedChain rt crypto self.state.key m entries p)
    (hmodel : self.state.modelHash = some m.hex) :
    verifyRecords rt crypto self zeroHash.hex 0 (entries.map record) =
      .ok (some (p.hex, entries.length)) := by
  induction h with
  | nil => rfl
  | snoc _ hc hlt ih =>
    rw [List.map_append, List.map_singleton, verifyRecords_append_singleton _ ih,
      verifyRecords_record hmodel hc hlt, List.length_append, List.length_singleton]

/-- What came first is a chain as well. -/
theorem IssuedChain.take {key m : Digest} {entries : List (Json × Receipt)} {p : Digest}
    (h : IssuedChain rt crypto key m entries p) (k : ℕ) :
    ∃ p', IssuedChain rt crypto key m (entries.take k) p' := by
  induction h with
  | nil => exact ⟨.zero, by simpa using IssuedChain.nil⟩
  | @snoc entries p alert c hchain hc hlt ih =>
    by_cases hk : k ≤ entries.length
    · rw [List.take_append_of_le_length hk]
      exact ih
    · rw [List.take_of_length_le (by rw [List.length_append, List.length_singleton]; omega)]
      exact ⟨_, hchain.snoc hc hlt⟩

theorem readFields_ok {alert : Json} {receipt : Dict} {f : Fields}
    (h : readFields rt crypto alert receipt = .ok f) :
    ∃ v c head, receipt.item "sequence" = .ok v ∧ rt.int v = .ok f.sequence ∧
      hexField rt receipt "previous_head" = .ok f.previous ∧ canonicalJson rt alert = .ok c ∧
      f.alertHash = crypto.sha256 c ∧ hexField rt receipt "model_hash" = .ok f.modelHash ∧
      receipt.item "head" = .ok head ∧ hexField rt receipt "head" = .ok f.claimed := by
  unfold readFields at h
  obtain ⟨v, hv, h⟩ := bind_eq_ok.mp h
  obtain ⟨sequence, hsequence, h⟩ := bind_eq_ok.mp h
  obtain ⟨previous, hprevious, h⟩ := bind_eq_ok.mp h
  obtain ⟨c, hc, h⟩ := bind_eq_ok.mp h
  obtain ⟨model, hmodel, h⟩ := bind_eq_ok.mp h
  obtain ⟨claimed, hclaimed, h⟩ := bind_eq_ok.mp h
  obtain rfl := Except.ok.inj h
  obtain ⟨head, hhead, -⟩ := bind_eq_ok.mp hclaimed
  exact ⟨v, c, head, hv, hsequence, hprevious, hc, rfl, hmodel, hhead, hclaimed⟩

theorem message_ok {f : Fields} {message : Bytes} (h : f.message = .ok message) :
    (0 ≤ f.sequence ∧ f.sequence < 2 ^ 64) ∧
      message = auditMessage f.sequence.toNat f.previous f.alertHash.bytes f.modelHash := by
  unfold Fields.message at h
  obtain ⟨packed, hpacked, h⟩ := bind_eq_ok.mp h
  unfold packQ at hpacked
  split_ifs at hpacked with hrange
  obtain rfl := Except.ok.inj hpacked
  obtain rfl := Except.ok.inj h
  exact ⟨hrange, rfl⟩

theorem verifyReceipt_true {alert : Json} {receipt : Dict}
    (h : verifyReceipt rt crypto self alert receipt = .ok true) :
    ∃ f message, readFields rt crypto alert receipt = .ok f ∧
      receipt.get "alert_hash" = .str f.alertHash.hex ∧ f.message = .ok message ∧
      (tag crypto self.state.key message).bytes = f.claimed := by
  unfold verifyReceipt at h
  cases hf : readFields rt crypto alert receipt with
  | error e =>
    simp only [hf] at h
    split_ifs at h
    cases h
  | ok f =>
    simp only [hf] at h
    split_ifs at h with halert
    · obtain ⟨message, hmessage, h⟩ := bind_eq_ok.mp h
      exact ⟨f, message, rfl, Json.eq_of_eqText halert, hmessage, of_decide_eq_true
        (Except.ok.inj h)⟩
    · cases h

/-- One round of the loop: the record shows the next entry of the chain. -/
theorem verifyRecords_cons {m p : Digest} {previous last : Text} {n k : ℕ} {v : Json}
    {records : List Json} (hmodel : self.state.modelHash = some m.hex)
    (hprevious : fromHex previous = .ok p.bytes)
    (h : verifyRecords rt crypto self previous n (v :: records) = .ok (some (last, k))) :
    ∃ c text head, head = tag crypto self.state.key (chainMessage (n + 1) p ⟨crypto.sha256 c, m⟩) ∧
      shows rt v = some (shown crypto.sha256 n p c m head) ∧ fromHex text = .ok head.bytes ∧
      verifyRecords rt crypto self text (n + 1) records = .ok (some (last, k)) := by
  rw [verifyRecords] at h
  obtain ⟨d, hd, h⟩ := bind_eq_ok.mp h
  obtain ⟨receipt, hreceipt, h⟩ := bind_eq_ok.mp h
  split_ifs at h with hfirst hmodelText
  · cases h
  · obtain ⟨valid, hvalid, h⟩ := bind_eq_ok.mp h
    cases valid with
    | false => cases h
    | true =>
      simp only [if_true] at h
      obtain ⟨item, hitem, h⟩ := bind_eq_ok.mp h
      obtain ⟨text, htext, h⟩ := bind_eq_ok.mp h
      obtain ⟨f, message, hf, halert, hmessage, hmac⟩ := verifyReceipt_true hvalid
      obtain ⟨s, c, -, hs, hint, hprev, hc, hsha, hmod, -, hclaimed⟩ := readFields_ok hf
      push Not at hfirst
      -- the sequence number, the previous head and the model were compared before
      have hseq : f.sequence = (n + 1 : ℕ) := by
        have hget := hfirst.1
        rw [Dict.get_of_item hs] at hget
        have hn := rt.int_of_eqInt hget
        rw [hint] at hn
        exact_mod_cast Except.ok.inj hn
      have hp : f.previous = p.bytes := by
        have hitem' := Dict.item_of_get (Json.eq_of_eqText hfirst.2)
        simp only [hexField, hitem', ok_bind, Runtime.str, hprevious] at hprev
        exact (Except.ok.inj hprev).symm
      have hm : f.modelHash = m.bytes := by
        rw [hmodel] at hmodelText
        have hitem' := Dict.item_of_get (Json.eq_of_eqText hmodelText)
        rw [hexField_str hitem'] at hmod
        exact (Except.ok.inj hmod).symm
      obtain ⟨-, rfl⟩ := message_ok hmessage
      have hmsg : auditMessage f.sequence.toNat f.previous f.alertHash.bytes f.modelHash =
          chainMessage (n + 1) p ⟨crypto.sha256 c, m⟩ := by
        rw [hseq, hp, hm, hsha, Int.toNat_natCast]
        rfl
      rw [hmsg] at hmac
      have halertField : hexField rt receipt "alert_hash" = .ok (crypto.sha256 c).bytes := by
        rw [← hsha]
        exact hexField_str (Dict.item_of_get halert)
      refine ⟨c, text, _, rfl, ?_, ?_, h⟩
      · exact shows_eq hd hreceipt hc hs (hint.trans (congrArg _ hseq)) (hprev.trans
          (congrArg _ hp)) halertField (hmod.trans (congrArg _ hm)) (hclaimed.trans
          (congrArg _ hmac.symm))
      · simp only [hexField, hitem, ok_bind, htext] at hclaimed
        rw [hclaimed, hmac]
  · cases h

/-- An accepted list is an authentic chain up to the last head. -/
theorem verifyRecords_authentic {m p : Digest} {previous last : Text} {n k : ℕ}
    {records : List Json} (hmodel : self.state.modelHash = some m.hex)
    (hprevious : fromHex previous = .ok p.bytes)
    (h : verifyRecords rt crypto self previous n records = .ok (some (last, k))) :
    k = n + records.length ∧ ∃ q, fromHex last = .ok q.bytes ∧
      Authentic (shows rt) crypto.sha256 (tag crypto self.state.key) n p records q := by
  induction records generalizing n p previous with
  | nil =>
    obtain ⟨rfl, rfl⟩ := Prod.mk.inj (Option.some.inj (Except.ok.inj h))
    exact ⟨rfl, p, hprevious, .nil n p⟩
  | cons v records ih =>
    obtain ⟨c, text, head, hhead, hshows, htext, hrest⟩ := verifyRecords_cons hmodel hprevious h
    obtain ⟨hk, q, hlast, hauthentic⟩ := ih htext hrest
    refine ⟨?_, q, hlast, .cons c m head hshows hhead hauthentic⟩
    rw [hk, List.length_cons]
    omega

/-- The record carries the alert and the receipt of an append: the same canonical bytes, and
fields that decode to the issued values. -/
def Carries (rt : Runtime) (v : Json) (entry : Json × Receipt) : Prop :=
  ∃ s, shows rt v = some s ∧ canonicalJson rt entry.1 = .ok s.canonical ∧
    s.sequence = entry.2.sequence ∧ fromHex entry.2.previousHead = .ok s.previousHead ∧
    fromHex entry.2.alertHash = .ok s.alertHash ∧ fromHex entry.2.modelHash = .ok s.modelHash ∧
    fromHex entry.2.head = .ok s.head

theorem carries_of_showSame {v : Json} {entry : Json × Receipt}
    (h : ShowSame (shows rt) v (record entry)) : Carries rt v entry := by
  obtain ⟨s, hv, hs⟩ := h
  refine ⟨s, hv, ?_⟩
  obtain ⟨d, hd, hs⟩ := bind_eq_ok.mp (readRecord_of_shows hs)
  obtain ⟨receipt, hreceipt, hs⟩ := bind_eq_ok.mp hs
  obtain ⟨c, hc, hs⟩ := bind_eq_ok.mp hs
  obtain ⟨item, hitem, hs⟩ := bind_eq_ok.mp hs
  obtain ⟨sequence, hsequence, hs⟩ := bind_eq_ok.mp hs
  obtain ⟨previousHead, hprevious, hs⟩ := bind_eq_ok.mp hs
  obtain ⟨alertHash, halert, hs⟩ := bind_eq_ok.mp hs
  obtain ⟨modelHash, hmodel, hs⟩ := bind_eq_ok.mp hs
  obtain ⟨head, hhead, hs⟩ := bind_eq_ok.mp hs
  obtain rfl := Except.ok.inj hs
  obtain rfl := Except.ok.inj hd
  obtain rfl : entry.2.toDict = receipt := Except.ok.inj hreceipt
  obtain rfl : Json.int entry.2.sequence = item := Except.ok.inj hitem
  exact ⟨hc, (Except.ok.inj hsequence).symm, hprevious, halert, hmodel, hhead⟩

/-- Two accepted lists of one length that end in one head show the same, up to an explicit
collision. -/
theorem accepted_same_or_collision {m : Digest} {last : Text} {k : ℕ}
    {records records' : List Json} (hmodel : self.state.modelHash = some m.hex)
    (h : verifyRecords rt crypto self zeroHash.hex 0 records = .ok (some (last, k)))
    (h' : verifyRecords rt crypto self zeroHash.hex 0 records' = .ok (some (last, k))) :
    List.Forall₂ (ShowSame (shows rt)) records records' ∨
      Collision (tag crypto self.state.key) (messagesOf (shows rt) records)
        (messagesOf (shows rt) records') ∨
      Collision crypto.sha256 (canonicalOf (shows rt) records)
        (canonicalOf (shows rt) records') := by
  have hzero : fromHex zeroHash.hex = .ok zeroHash.bytes := fromHex_hexEncode _
  obtain ⟨hlen, q, hlast, hauthentic⟩ := verifyRecords_authentic hmodel hzero h
  obtain ⟨hlen', q', hlast', hauthentic'⟩ := verifyRecords_authentic hmodel hzero h'
  obtain rfl : q = q' := Digest.ext (Except.ok.inj (hlast.symm.trans hlast'))
  exact hauthentic.same_or_collision hauthentic' (by omega)

/-- With no model registered nothing but the empty list is accepted. -/
theorem verifyRecords_nonempty {v : Json} {records : List Json} {previous last : Text} {n k : ℕ}
    (hnone : self.state.modelHash = none) :
    verifyRecords rt crypto self previous n (v :: records) ≠ .ok (some (last, k)) := by
  intro h
  rw [verifyRecords] at h
  obtain ⟨d, hd, h⟩ := bind_eq_ok.mp h
  obtain ⟨receipt, hreceipt, h⟩ := bind_eq_ok.mp h
  split_ifs at h with hfirst hmodelText
  · cases h
  · obtain ⟨valid, hvalid, h⟩ := bind_eq_ok.mp h
    cases valid with
    | false => cases h
    | true =>
      obtain ⟨f, -, hf, -⟩ := verifyReceipt_true hvalid
      obtain ⟨-, -, -, -, -, -, -, -, hmod, -⟩ := readFields_ok hf
      obtain ⟨w, hw, hmod⟩ := bind_eq_ok.mp hmod
      rw [hnone, Dict.get_of_item hw] at hmodelText
      cases w with
      | null =>
        -- `str(None)` is no hexadecimal text
        obtain ⟨t, ht, hmod⟩ := bind_eq_ok.mp hmod
        obtain rfl := Except.ok.inj ht
        cases hmod
      | _ => cases hmodelText
  · cases h

/-- What a store at the end of its chain accepts: all it has issued, and every prefix. -/
theorem Tracks.verifyRecords {key p : Digest} {entries : List (Json × Receipt)}
    {model : Option Digest} (h : Tracks rt crypto key self entries model p) :
    AuditStore.verifyRecords rt crypto self zeroHash.hex 0 (entries.map record) =
        .ok (some (self.state.head, self.state.sequence)) ∧
      ∀ k, ∃ last, AuditStore.verifyRecords rt crypto self zeroHash.hex 0
        ((entries.map record).take k) = .ok (some last) := by
  obtain ⟨⟨hmodel, hhead⟩, rfl, hseq, ⟨-, rfl, rfl⟩ | ⟨m, rfl, hchain⟩⟩ := h
  · rw [hhead, hseq]
    exact ⟨rfl, fun k => ⟨_, by rw [List.map_nil, List.take_nil]; rfl⟩⟩
  · rw [hhead, hseq]
    refine ⟨hchain.verifyRecords hmodel, fun k => ?_⟩
    obtain ⟨p', hprefix⟩ := hchain.take k
    exact ⟨_, by rw [← List.map_take]; exact hprefix.verifyRecords hmodel⟩

theorem Tracks.accepts {key p : Digest} {entries : List (Json × Receipt)}
    {model : Option Digest} (h : Tracks rt crypto key self entries model p) :
    verifyChain rt crypto self (entries.map record) true = .ok true ∧
      ∀ k, verifyChain rt crypto self ((entries.map record).take k) false = .ok true := by
  obtain ⟨hall, htake⟩ := h.verifyRecords
  refine ⟨?_, fun k => ?_⟩
  · rw [verifyChain, hall, ok_bind]
    simp [pure, Except.pure]
  · obtain ⟨last, hlast⟩ := htake k
    rw [verifyChain, hlast, ok_bind]
    rfl

theorem verifyChain_true {records : List Json}
    (h : verifyChain rt crypto self records true = .ok true) :
    verifyRecords rt crypto self zeroHash.hex 0 records =
      .ok (some (self.state.head, self.state.sequence)) := by
  unfold verifyChain at h
  obtain ⟨accepted, haccepted, h⟩ := bind_eq_ok.mp h
  cases accepted with
  | none => cases h
  | some last =>
    obtain ⟨hseq, hhead⟩ := of_decide_eq_true (Except.ok.inj h)
    rw [haccepted, ← hseq, ← hhead]

theorem Tracks.sound {key p : Digest} {entries : List (Json × Receipt)}
    {model : Option Digest} (h : Tracks rt crypto key self entries model p) {records : List Json}
    (haccepted : verifyChain rt crypto self records true = .ok true) :
    List.Forall₂ (Carries rt) records entries ∨
      Collision (tag crypto self.state.key) (messagesOf (shows rt) records)
        (messagesOf (shows rt) (entries.map record)) ∨
      Collision crypto.sha256 (canonicalOf (shows rt) records)
        (canonicalOf (shows rt) (entries.map record)) := by
  have hrecords := verifyChain_true haccepted
  have hissued := h.verifyRecords.1
  rcases h.chain with ⟨hnone, rfl, rfl⟩ | ⟨m, hm, -⟩
  · left
    cases records with
    | nil => exact .nil
    | cons v records =>
      have hmodel : self.state.modelHash = none := by rw [h.holds.modelHash, hnone]; rfl
      exact absurd hrecords (verifyRecords_nonempty hmodel)
  · have hmodel : self.state.modelHash = some m.hex := by rw [h.holds.modelHash, hm]; rfl
    refine (accepted_same_or_collision hmodel hrecords hissued).imp_left fun hsame => ?_
    rw [List.forall₂_map_right_iff] at hsame
    exact hsame.imp fun _ _ => carries_of_showSame

/-- **Tamper evidence.**  After any calls on a fresh store that all return, the issued list and
its prefixes verify, and a list that verifies against the current head carries exactly what
was issued, up to an explicit collision. -/
theorem verify_chain_tamper_evident (rt : Runtime) (crypto : Crypto) (files : Files)
    (urandom : Digest) (calls : List (Call × Files)) (s : AuditStore)
    (hopen : open? files urandom none = .ok s) (hok : (run rt crypto s calls).allReturned) :
    let r := run rt crypto s calls
    let issued := r.issued.map record
    (verifyChain rt crypto r.store issued true = .ok true ∧
      ∀ k, verifyChain rt crypto r.store (issued.take k) false = .ok true) ∧
    ∀ records, verifyChain rt crypto r.store records true = .ok true →
      List.Forall₂ (Carries rt) records r.issued ∨
        Collision (tag crypto r.store.state.key) (messagesOf (shows rt) records)
          (messagesOf (shows rt) issued) ∨
        Collision crypto.sha256 (canonicalOf (shows rt) records)
          (canonicalOf (shows rt) issued) := by
  obtain ⟨file, rfl⟩ := open?_fresh hopen
  obtain ⟨model, p, h⟩ := run_tracks urandom file calls hok
  exact ⟨h.accepts, fun records => h.sound⟩

def quietFiles : Files := ⟨fun _ => .ok false, fun _ => .error .osError, none⟩

def numberedAlert (n : ℤ) : Json := .obj [(text "a", .int n)]

def twoAppends : List (Call × Files) :=
  [(.registerModel (.bytes (asciiBytes "{}")), quietFiles),
    (.append (numberedAlert 1), quietFiles), (.append (numberedAlert 2), quietFiles)]

theorem verify_chain_tamper_evident_two_appends :
    let s : AuditStore := ⟨freshState .zero, some (freshState .zero)⟩
    let r := run plainRuntime .standard s twoAppends
    r.issued.length = 2 ∧
      verifyChain plainRuntime .standard r.store (r.issued.map record) true = .ok true ∧
      verifyChain plainRuntime .standard r.store ((r.issued.map record).take 1) false =
          .ok true := by
  intro s r
  obtain ⟨⟨hall, hprefixes⟩, -⟩ := verify_chain_tamper_evident plainRuntime .standard quietFiles
    .zero
    twoAppends _ rfl (by decide +kernel)
  exact ⟨by decide +kernel, hall, hprefixes 1⟩

end Cote3Mon.AuditStore
