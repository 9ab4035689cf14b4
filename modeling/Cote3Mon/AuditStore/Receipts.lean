import Cote3Mon.AuditStore.Verify

namespace Cote3Mon.AuditStore
open ByteText Python MacChain

variable {rt : Runtime} {crypto : Crypto} {self : AuditStore}

/-- The message that `append` authenticates for the receipt it returns. -/
def Receipt.message (r : Receipt) : Except Exc Bytes := do
  return domain ++ (← packQ r.sequence) ++ (← fromHex r.previousHead) ++ (← fromHex r.alertHash) ++
    (← fromHex r.modelHash)

theorem message_issue {key m p : Digest} {n : ℕ} {c : Bytes} (hlt : n + 1 < 2 ^ 64) :
    (issue crypto key m n p c).message = .ok (chainMessage (n + 1) p ⟨crypto.sha256 c, m⟩) := by
  simp only [Receipt.message, issue, packQ_of_lt hlt, Digest.hex, fromHex_hexEncode, ok_bind,
    message_eq]
  rfl

def WasIssued (rt : Runtime) (crypto : Crypto) (key : Digest) (entry : Json × Receipt) : Prop :=
  ∃ m n p c, n + 1 < 2 ^ 64 ∧ canonicalJson rt entry.1 = .ok c ∧
    entry.2 = issue crypto key m n p c

/-- What no call breaks, not even one that raises after it has assigned. -/
structure Coherent (rt : Runtime) (crypto : Crypto) (key : Digest) (s : AuditStore)
    (entries : List (Json × Receipt)) : Prop where
  holds : ∃ model p, s.state.Holds model p
  sameKey : s.state.key = key
  issued : ∀ entry ∈ entries, WasIssued rt crypto key entry

theorem Saved.state_eq {α : Type} {s : AuditStore} {state : State} {value : α}
    {out : Except Exc α × AuditStore} (h : Saved s state value out) : out.2.state = state := by
  cases h with
  | unsaved e => rfl
  | saved => rfl

theorem Saved.ok_eq {α : Type} {s : AuditStore} {state : State} {value v : α}
    {out : Except Exc α × AuditStore} (h : Saved s state value out) (hv : out.1 = .ok v) :
    v = value := by
  cases h with
  | unsaved e => cases hv
  | saved => exact (Except.ok.inj hv).symm

theorem Coherent.step {key : Digest} {s : AuditStore} {entries : List (Json × Receipt)}
    (h : Coherent rt crypto key s entries) (files : Files) (c : Call) :
    Coherent rt crypto key (call rt crypto files c s).2
      (entries ++ (issue? (c, (call rt crypto files c s).1)).toList) := by
  obtain ⟨model, p, hholds⟩ := h.holds
  have hstep := call_step rt crypto files hholds c
  generalize call rt crypto files c s = out at hstep
  cases hstep with
  | raised c e =>
    refine ⟨h.holds, h.sameKey, ?_⟩
    simpa [issue?] using h.issued
  | registered d hd hsaved =>
    refine ⟨⟨some d, p, ?_⟩, ?_, ?_⟩
    · rw [hsaved.state_eq]
      exact ⟨rfl, hholds.head⟩
    · rw [hsaved.state_eq]
      exact h.sameKey
    · simpa [issue?] using h.issued
  | @appended alert out m c hm hc hlt hsaved =>
    refine ⟨⟨some m, tag crypto s.state.key
      (chainMessage (s.state.sequence + 1) p ⟨crypto.sha256 c, m⟩), ?_⟩, ?_, ?_⟩
    · rw [hsaved.state_eq]
      exact ⟨hholds.modelHash.trans (by rw [hm]), rfl⟩
    · rw [hsaved.state_eq]
      exact h.sameKey
    · intro entry hentry
      rcases List.mem_append.mp hentry with hold | hnew
      · exact h.issued entry hold
      · cases hresult : out.1 with
        | error e => simp [hresult, issue?] at hnew
        | ok v =>
          obtain rfl := hsaved.ok_eq hresult
          obtain rfl : entry = _ := by simpa [hresult, issue?] using hnew
          exact ⟨m, _, p, c, hlt, hc, by rw [h.sameKey]⟩

theorem run_coherent (rt : Runtime) (crypto : Crypto) (key : Digest) (file : Option State)
    (calls : List (Call × Files)) :
    Coherent rt crypto key (run rt crypto ⟨freshState key, file⟩ calls).store
      (run rt crypto ⟨freshState key, file⟩ calls).issued := by
  induction calls using List.reverseRecOn with
  | nil => exact ⟨⟨none, .zero, rfl, rfl⟩, rfl, nofun⟩
  | append_singleton calls c ih =>
    rw [run_append_singleton, issued_step]
    exact ih.step c.2 c.1

/-- The receipt is for the alert of the append, and says what its receipt said. -/
def Binds (rt : Runtime) (crypto : Crypto) (alert : Json) (receipt : Dict)
    (entry : Json × Receipt) : Prop :=
  (∃ c c', canonicalJson rt alert = .ok c ∧ canonicalJson rt entry.1 = .ok c' ∧
    (c = c' ∨ Collision crypto.sha256 [c] [c'])) ∧
  hexField rt receipt "previous_head" = fromHex entry.2.previousHead ∧
  hexField rt receipt "alert_hash" = fromHex entry.2.alertHash ∧
  hexField rt receipt "model_hash" = fromHex entry.2.modelHash

/-- A receipt that verifies on the message of an append binds the alert of that append if and
only if its previous head decodes to 32 bytes. -/
theorem verify_receipt_binds_iff (rt : Runtime) (crypto : Crypto) (files : Files)
    (urandom : Digest) (calls : List (Call × Files)) (s : AuditStore)
    (hopen : open? files urandom none = .ok s) (entry : Json × Receipt)
    (hentry : entry ∈ (run rt crypto s calls).issued) (alert : Json) (receipt : Dict)
    (hvalid : verifyReceipt rt crypto (run rt crypto s calls).store alert receipt = .ok true)
    (hmessage : (readFields rt crypto alert receipt).bind Fields.message = entry.2.message) :
    Binds rt crypto alert receipt entry ↔
      ∃ previous, hexField rt receipt "previous_head" = .ok previous ∧ previous.length = 32 := by
  obtain ⟨file, rfl⟩ := open?_fresh hopen
  obtain ⟨m, n, p, c, hlt, hc, hr⟩ := (run_coherent rt crypto urandom file calls).issued entry hentry
  have hprevious : fromHex entry.2.previousHead = .ok p.bytes := by
    rw [hr]
    exact fromHex_hexEncode _
  have halertHash : fromHex entry.2.alertHash = .ok (crypto.sha256 c).bytes := by
    rw [hr]
    exact fromHex_hexEncode _
  have hmodel : fromHex entry.2.modelHash = .ok m.bytes := by
    rw [hr]
    exact fromHex_hexEncode _
  constructor
  · rintro ⟨-, hprev, -, -⟩
    exact ⟨p.bytes, hprev.trans hprevious, p.length_eq⟩
  · rintro ⟨previous, hprev, hlength⟩
    obtain ⟨f, message, hf, halert, hmsg, -⟩ := verifyReceipt_true hvalid
    obtain ⟨-, c', -, -, -, hprev', hc', hsha, hmod, -, -⟩ := readFields_ok hf
    obtain rfl := Except.ok.inj (hprev.symm.trans hprev')
    have hsame : Except.ok (ε := Exc) message =
        .ok (chainMessage (n + 1) p ⟨crypto.sha256 c, m⟩) := by
      rw [hr, message_issue hlt, hf] at hmessage
      exact hmsg.symm.trans hmessage
    obtain ⟨hrange, rfl⟩ := message_ok hmsg
    -- 32 bytes of previous head leave the alert hash and the model hash where they were
    obtain ⟨-, hp, ha, hm⟩ := auditMessage_injective (by omega) hlt
      (hlength.trans p.length_eq.symm) (by rw [f.alertHash.length_eq, Digest.length_eq])
      (Except.ok.inj hsame)
    refine ⟨⟨c', c, hc', hc, ?_⟩, ?_, ?_, ?_⟩
    · have hdigest : crypto.sha256 c' = crypto.sha256 c := hsha.symm.trans (Digest.ext ha)
      exact collision_or_eq (List.mem_singleton_self _) (List.mem_singleton_self _) hdigest
    · rw [hprev, hprevious, hp]
    · rw [hexField_str (Dict.item_of_get halert), halertHash, ha]
    · rw [hmod, hmodel, hm]

/-- The store of `twoAppends`: the model is the JSON text of an empty dict, and two alerts have
been appended. -/
def appended : Run :=
  run plainRuntime .standard ⟨freshState .zero, some (freshState .zero)⟩ twoAppends

theorem appended_ne_nil : appended.issued ≠ [] :=
  List.ne_nil_of_length_pos (by decide +kernel)

def appendedEntry : Json × Receipt := appended.issued.head appended_ne_nil

theorem verify_receipt_binds_iff_appended :
    Binds plainRuntime .standard (numberedAlert 1) appendedEntry.2.toDict appendedEntry :=
  (verify_receipt_binds_iff plainRuntime .standard quietFiles .zero twoAppends _ rfl appendedEntry
    (List.head_mem appended_ne_nil) (numberedAlert 1) appendedEntry.2.toDict (by decide +kernel)
    (by decide +kernel)).mpr
    ⟨Digest.zero.bytes, by decide +kernel, Digest.zero.length_eq⟩

/-- The receipt of `appended` with its boundaries shifted by 32 bytes: the previous head takes
over the alert hash, the alert hash the model hash, and no model hash is left. -/
def shifted (r : Receipt) : Dict :=
  [(text "sequence", .int r.sequence), (text "previous_head", .str (r.previousHead ++ r.alertHash)),
    (text "alert_hash", .str r.modelHash), (text "model_hash", .str []), (text "head", .str r.head)]

/-- The shifted receipt verifies for the alert whose canonical JSON was the model. -/
theorem shifted_receipt_verifies : ∃ alert receipt, ∃ entry ∈ appended.issued,
    verifyReceipt plainRuntime .standard appended.store alert receipt = .ok true ∧
      (readFields plainRuntime .standard alert receipt).bind Fields.message = entry.2.message ∧
      ¬ Binds plainRuntime .standard alert receipt entry := by
  refine ⟨.obj [], shifted appendedEntry.2, appendedEntry, List.head_mem appended_ne_nil, ?_, ?_, ?_⟩
  · decide +kernel
  · decide +kernel
  · rintro ⟨-, hprevious, -, -⟩
    exact absurd hprevious (by decide +kernel)

end Cote3Mon.AuditStore
