import Cote3Mon.AuditTa.Entry

namespace Cote3Mon.AuditTa
open ByteText CallProg

def register (st : AuditState) (model : Digest) : AuditState :=
  { st with modelHash := model, modelRegistered := 1 }

/-- The receipt that an append on `st` issues. -/
def issue (crypto : Crypto) (st : AuditState) (alert : Digest) : Receipt where
  sequence := st.sequence + 1
  previousHead := st.head
  alertHash := alert
  modelHash := st.modelHash
  head := crypto.hmac st.key.bytes (hmacMessage (st.sequence + 1) st.head alert st.modelHash)

def advance (st : AuditState) (r : Receipt) : AuditState :=
  { st with sequence := r.sequence, head := r.head }

/-- A save that `register_model` or `append_alert` may make of the state it loaded. -/
def SaveStep (crypto : Crypto) (st s : AuditState) : Prop :=
  (∃ model, (st.sequence = 0 ∨ model = st.modelHash) ∧ s = register st model) ∨
    (st.modelRegistered ≠ 0 ∧ ∃ alert, s = advance st (issue crypto st alert))

def WellFormed (st : AuditState) : Prop := st.magic = stateMagic ∧ st.version = stateVersion

theorem initialState_wellFormed (key : Digest) : WellFormed (initialState key) := ⟨rfl, rfl⟩

/-- What a session last saw of the stored object. -/
inductive View where
  | unknown
  | absent
  | content (st : AuditState)

/-- `saved` is the save of a loaded state: what was loaded and what was stored. -/
structure Ghost where
  view : View
  saved : Option (AuditState × AuditState)

def Ghost.start : Ghost := ⟨.unknown, none⟩

def Ghost.write (v : Ghost) (s : AuditState) : Ghost :=
  match v.view with
  | .content st => ⟨.content s, some (st, s)⟩
  | _ => ⟨.content s, v.saved⟩

/-- The `uint64_t` in a buffer from an offset on. -/
def readU64 (buffer : Bytes) (offset : ℕ) : UInt64 :=
  UInt64.ofNat (leNat ((buffer.drop offset ++ List.replicate 8 0).take 8))

def Receipt.ofBytes (buffer : Bytes) : Receipt where
  sequence := readU64 buffer 0
  previousHead := Digest.read buffer 8
  alertHash := Digest.read buffer 40
  modelHash := Digest.read buffer 72
  head := Digest.read buffer 104

theorem readU64_append (value : UInt64) (rest : Bytes) :
    readU64 (leBytes 8 value.toNat ++ rest) 0 = value := by
  have htake : (leBytes 8 value.toNat ++ rest ++ List.replicate 8 0).take 8 =
      leBytes 8 value.toNat := by
    rw [List.append_assoc]
    exact List.take_left' (leBytes_length 8 _)
  have hlt : value.toNat < 256 ^ 8 := value.toNat_lt
  rw [readU64, List.drop_zero, htake, leNat_leBytes, Nat.mod_eq_of_lt hlt, UInt64.ofNat_toNat]

/-- A receipt that the client lays out in memory is read back as it was. -/
theorem Receipt.ofBytes_toBytes (r : Receipt) : Receipt.ofBytes r.toBytes = r := by
  have hprevious : Digest.read r.toBytes 8 = r.previousHead := by
    simpa [Receipt.toBytes] using Digest.read_append (leBytes 8 r.sequence.toNat)
      (r.alertHash.bytes ++ (r.modelHash.bytes ++ r.head.bytes)) r.previousHead
  have halert : Digest.read r.toBytes 40 = r.alertHash := by
    simpa [Receipt.toBytes] using Digest.read_append
      (leBytes 8 r.sequence.toNat ++ r.previousHead.bytes)
      (r.modelHash.bytes ++ r.head.bytes) r.alertHash
  have hmodel : Digest.read r.toBytes 72 = r.modelHash := by
    simpa [Receipt.toBytes] using Digest.read_append
      (leBytes 8 r.sequence.toNat ++ (r.previousHead.bytes ++ r.alertHash.bytes))
      r.head.bytes r.modelHash
  have hhead : Digest.read r.toBytes 104 = r.head := by
    simpa [Receipt.toBytes] using Digest.read_append
      (leBytes 8 r.sequence.toNat ++
        (r.previousHead.bytes ++ (r.alertHash.bytes ++ r.modelHash.bytes))) [] r.head
  rw [Receipt.ofBytes, Receipt.toBytes, readU64_append, ← Receipt.toBytes, hprevious, halert,
    hmodel, hhead]

/-- What the replies teach.  A client buffer is stable here: every read of it finds the
bytes the client passed. -/
def learns (crypto : Crypto) (parameters : Fin 4 → Memref) (v : Ghost) :
    (c : Call) → Reply c → Ghost → Prop
  | .openPersistentObject, (r : TeeResult), v' =>
    v' = if r = .errorItemNotFound then { v with view := .absent } else v
  | .readObjectData, (r : ReadReply), v' =>
    v' = if r.result = .success ∧ r.count = stateSize then { v with view := .content r.data } else v
  | .createPersistentObject s, (r : TeeResult), v' => v' = if r = .success then v.write s else v
  | .macComputeFinal key message, (r : MacReply), v' =>
    v' = v ∧ (r.result = .success → r.outputSize = 32 → r.output = crypto.hmac key.bytes message)
  | .readHash i offset, (r : Digest), v' => v' = v ∧ r = Digest.read (parameters i).buffer offset
  | .readSequence i offset, (r : UInt64), v' => v' = v ∧ r = readU64 (parameters i).buffer offset
  | _, _, v' => v' = v

/-- No call follows the save, and only the initial state or a `SaveStep` is ever stored. -/
def may (crypto : Crypto) (v : Ghost) (c : Call) : Prop :=
  v.saved = none ∧
    match c with
    | .createPersistentObject s =>
      (v.view = .absent ∧ ∃ key, s = initialState key) ∨
        ∃ st, v.view = .content st ∧ SaveStep crypto st s
    | _ => True

/-- An error leaves the caller without a receipt. -/
def Failed (out : Outcome) : Prop :=
  out.result ≠ .success ∧ (∀ r, out.output ≠ .receipt r) ∧ ∀ h, out.output ≠ .head h

/-- How a command can end. -/
inductive Finished (crypto : Crypto) (inv : Invocation) : Outcome → Ghost → Prop
  | failed {out v} : Failed out → v.saved = none → Finished crypto inv out v
  | registered {st model v} : inv.command = cmdRegisterModel →
      model = Digest.read (inv.parameters 0).buffer 0 →
      (st.sequence = 0 ∨ model = st.modelHash) → v.saved = some (st, register st model) →
      Finished crypto inv ⟨.success, .none⟩ v
  | appended {st alert v} : inv.command = cmdAppendAlert →
      alert = Digest.read (inv.parameters 0).buffer 0 →
      st.modelRegistered ≠ 0 → v.saved = some (st, advance st (issue crypto st alert)) →
      Finished crypto inv ⟨.success, .receipt (issue crypto st alert)⟩ v
  | headRead {st v} : inv.command = cmdGetHead → v.saved = none → v.view = .content st →
      Finished crypto inv ⟨.success, .head ⟨st.sequence, st.modelHash, st.head⟩⟩ v
  | verified {st r v} : inv.command = cmdVerify → v.saved = none → v.view = .content st →
      r = Receipt.ofBytes (inv.parameters 0).buffer →
      crypto.hmac st.key.bytes
        (hmacMessage r.sequence r.previousHead r.alertHash r.modelHash) = r.head →
      Finished crypto inv ⟨.success, .none⟩ v

section Functions

variable {crypto : Crypto} {parameters : Fin 4 → Memref} {v : Ghost}

/-- The logic of the TA functions: an early return is a failure without a save. -/
abbrev Does (crypto : Crypto) (parameters : Fin 4 → Memref) {α : Type} (p : Ta α) (v : Ghost)
    (ok : α → Ghost → Prop) : Prop :=
  Ensures (may crypto) (learns crypto parameters) ok (fun out v' => Failed out ∧ v'.saved = none)
    p v

theorem does_bind {α β : Type} {p : Ta α} {f : α → Ta β} {ok : β → Ghost → Prop}
    (h : Does crypto parameters p v fun a v' => Does crypto parameters (f a) v' ok) :
    Does crypto parameters (p >>= f) v ok := (ensures_bind ok p f v).mpr h

theorem Does.mono {α : Type} {p : Ta α} {ok ok' : α → Ghost → Prop}
    (h : Does crypto parameters p v ok) (hok : ∀ a v', ok a v' → ok' a v') :
    Does crypto parameters p v ok' := Ensures.mono h hok fun _ _ he => he

theorem failed_code {result : TeeResult} (h : result ≠ .success) : Failed ⟨result, .none⟩ :=
  ⟨h, fun _ => Output.noConfusion, fun _ => Output.noConfusion⟩

theorem does_fail {α : Type} {ok : α → Ghost → Prop} {result : TeeResult}
    (h : result ≠ .success) (hv : v.saved = none) :
    Does crypto parameters (fail result) v ok := ⟨failed_code h, hv⟩

theorem does_check {result : TeeResult} {ok : Unit → Ghost → Prop} (hv : v.saved = none)
    (hok : result = .success → ok () v) : Does crypto parameters (check result) v ok := by
  unfold check
  split_ifs with h
  · exact hok h
  · exact does_fail h hv

/-! One rule for each TEE call. -/

theorem does_openPersistentObject {ok : TeeResult → Ghost → Prop} (hv : v.saved = none)
    (hnot : ok .errorItemNotFound { v with view := .absent })
    (hother : ∀ r, r ≠ .errorItemNotFound → ok r v) :
    Does crypto parameters openPersistentObject v ok := by
  refine ⟨⟨hv, trivial⟩, ?_⟩
  intro (r : TeeResult) v' hr
  by_cases h : r = .errorItemNotFound
  · obtain rfl : v' = _ := by simpa only [learns, h, if_true] using hr
    exact h ▸ hnot
  · obtain rfl : v' = v := by simpa only [learns, h, if_false] using hr
    exact hother r h

theorem does_readObjectData {ok : ReadReply → Ghost → Prop} (hv : v.saved = none)
    (hread : ∀ r, r.result = .success → r.count = stateSize →
      ok r { v with view := .content r.data })
    (hother : ∀ r, ¬ (r.result = .success ∧ r.count = stateSize) → ok r v) :
    Does crypto parameters readObjectData v ok := by
  refine ⟨⟨hv, trivial⟩, ?_⟩
  intro (r : ReadReply) v' hr
  by_cases h : r.result = .success ∧ r.count = stateSize
  · obtain rfl : v' = _ := by simpa only [learns, if_pos h] using hr
    exact hread r h.1 h.2
  · obtain rfl : v' = v := by simpa only [learns, if_neg h] using hr
    exact hother r h

theorem does_createPersistentObject {s : AuditState} {ok : TeeResult → Ghost → Prop}
    (hmay : may crypto v (.createPersistentObject s)) (hok : ok .success (v.write s))
    (hother : ∀ r, r ≠ .success → ok r v) :
    Does crypto parameters (createPersistentObject s) v ok := by
  refine ⟨hmay, ?_⟩
  intro (r : TeeResult) v' hr
  by_cases h : r = .success
  · obtain rfl : v' = _ := by simpa only [learns, h, if_true] using hr
    exact h ▸ hok
  · obtain rfl : v' = v := by simpa only [learns, h, if_false] using hr
    exact hother r h

theorem does_macComputeFinal {key : Digest} {message : Bytes} {ok : MacReply → Ghost → Prop}
    (hv : v.saved = none)
    (hok : ∀ r : MacReply, (r.result = .success → r.outputSize = 32 →
      r.output = crypto.hmac key.bytes message) → ok r v) :
    Does crypto parameters (macComputeFinal key message) v ok := by
  refine ⟨⟨hv, trivial⟩, ?_⟩
  rintro r v' ⟨rfl, hr⟩
  exact hok r hr

theorem does_readHash {i : Fin 4} {offset : ℕ} {ok : Digest → Ghost → Prop} (hv : v.saved = none)
    (hok : ok (Digest.read (parameters i).buffer offset) v) :
    Does crypto parameters (readHash i offset) v ok := by
  refine ⟨⟨hv, trivial⟩, ?_⟩
  rintro r v' ⟨rfl, rfl⟩
  exact hok

theorem does_readSequence {i : Fin 4} {offset : ℕ} {ok : UInt64 → Ghost → Prop}
    (hv : v.saved = none) (hok : ok (readU64 (parameters i).buffer offset) v) :
    Does crypto parameters (readSequence i offset) v ok := by
  refine ⟨⟨hv, trivial⟩, ?_⟩
  rintro r v' ⟨rfl, rfl⟩
  exact hok

/-- The four calls that prepare a MAC differ in nothing but their name. -/
theorem does_prepare {ok : TeeResult → Ghost → Prop} {p : Ta TeeResult}
    (hp : p ∈ [allocateTransientObject, populateTransientObject, allocateOperation,
      setOperationKey]) (hv : v.saved = none) (hok : ∀ r, ok r v) :
    Does crypto parameters p v ok := by
  simp only [List.mem_cons, List.not_mem_nil, or_false] at hp
  rcases hp with rfl | rfl | rfl | rfl <;>
  · refine ⟨⟨hv, trivial⟩, ?_⟩
    rintro r v' rfl
    exact hok r

theorem does_saveState {st s : AuditState} (hv : v.saved = none) (hview : v.view = .content st)
    (hstep : SaveStep crypto st s) :
    Does crypto parameters (saveState s) v fun _ v' => v'.saved = some (st, s) := by
  apply does_bind
  apply does_createPersistentObject ⟨hv, Or.inr ⟨st, hview, hstep⟩⟩
  · simp [check, Ghost.write, hview]
  · intro r hr
    exact does_check hv fun h => absurd h hr

theorem does_createState (hv : v.saved = none) (hview : v.view = .absent) :
    Does crypto parameters createState v fun st v' =>
      v'.saved = none ∧ v'.view = .content st ∧ WellFormed st := by
  apply does_bind
  refine ⟨⟨hv, trivial⟩, ?_⟩
  rintro key _ rfl
  apply does_bind
  apply does_bind
  apply does_createPersistentObject ⟨hv, Or.inl ⟨hview, key, rfl⟩⟩
  · simp [check, Ghost.write, hview, hv, initialState_wellFormed]
  · intro r hr
    exact does_check hv fun h => absurd h hr

theorem does_readState (hv : v.saved = none) :
    Does crypto parameters readState v fun st v' =>
      v'.saved = none ∧ v'.view = .content st ∧ WellFormed st := by
  apply does_bind
  apply does_readObjectData hv
  · intro r hs hcount
    apply does_bind
    refine does_check hv fun _ => ?_
    split_ifs with hbad
    · exact does_fail (by decide) hv
    · push Not at hbad
      exact ⟨hv, rfl, hbad.2⟩
  · intro r hr
    apply does_bind
    refine does_check hv fun hs => ?_
    rw [if_pos (Or.inl fun hcount => hr ⟨hs, hcount⟩)]
    exact does_fail (by decide) hv

/-- `load_state` ends knowing the content of the stored object. -/
theorem does_loadState (hv : v.saved = none) :
    Does crypto parameters loadState v fun st v' =>
      v'.saved = none ∧ v'.view = .content st ∧ WellFormed st := by
  apply does_bind
  apply does_openPersistentObject hv
  · exact does_createState hv rfl
  · intro r hr
    rw [if_neg hr]
    apply does_bind
    exact does_check hv fun _ => does_readState hv

theorem does_computeHmac {st : AuditState} {sequence : UInt64} {previous alert model : Digest}
    (hv : v.saved = none) :
    Does crypto parameters (computeHmac st sequence previous alert model) v fun d v' =>
      v' = v ∧ d = crypto.hmac st.key.bytes (hmacMessage sequence previous alert model) := by
  apply does_bind
  refine does_prepare (by simp) hv fun _ => does_bind (does_check hv fun _ => does_bind ?_)
  refine does_prepare (by simp) hv fun _ => does_bind (does_check hv fun _ => does_bind ?_)
  refine does_prepare (by simp) hv fun _ => does_bind (does_check hv fun _ => does_bind ?_)
  refine does_prepare (by simp) hv fun _ => does_bind (does_check hv fun _ => does_bind ?_)
  refine does_macComputeFinal hv fun r hr => does_bind (does_check hv fun hs => ?_)
  split_ifs with hsize
  · exact does_fail (by decide) hv
  · exact ⟨rfl, hr hs (not_not.mp hsize)⟩

/-- The model may change only while no alert has been appended. -/
theorem does_checkModel {st : AuditState} (hv : v.saved = none) :
    Does crypto parameters (checkModel st) v fun _ v' =>
      v' = v ∧ (st.sequence = 0 ∨ Digest.read (parameters 0).buffer 0 = st.modelHash) := by
  unfold checkModel
  split_ifs with hseq
  · apply does_bind
    apply does_readHash hv
    split_ifs with hmodel
    · exact does_fail (by decide) hv
    · exact ⟨rfl, Or.inr (not_not.mp hmodel).symm⟩
  · exact ⟨rfl, Or.inl (not_not.mp hseq)⟩

variable {inv : Invocation}

theorem does_registerModel (hcmd : inv.command = cmdRegisterModel) (hv : v.saved = none) :
    Does crypto inv.parameters (registerModel inv) v (Finished crypto inv) := by
  unfold registerModel
  split_ifs with hbad
  · exact does_fail (by decide) hv
  · refine does_bind ((does_loadState hv).mono ?_)
    rintro st v1 ⟨hv1, hview, -⟩
    refine does_bind ((does_checkModel hv1).mono ?_)
    rintro - v2 ⟨rfl, hmodel⟩
    refine does_bind (does_readHash hv1 (does_bind ((does_saveState hv1 hview ?_).mono ?_)))
    · exact Or.inl ⟨_, hmodel, rfl⟩
    · intro _ v3 hsaved
      exact .registered hcmd rfl hmodel hsaved

theorem does_appendAlert (hcmd : inv.command = cmdAppendAlert) (hv : v.saved = none) :
    Does crypto inv.parameters (appendAlert inv) v (Finished crypto inv) := by
  unfold appendAlert
  split_ifs with hbad hshort
  · exact does_fail (by decide) hv
  · exact ⟨⟨nofun, fun _ => nofun, fun _ => nofun⟩, hv⟩
  · refine does_bind ((does_loadState hv).mono ?_)
    rintro st v1 ⟨hv1, hview, -⟩
    split_ifs with hreg
    · exact does_fail (by decide) hv1
    · refine does_bind (does_readHash hv1 (does_bind ((does_computeHmac hv1).mono ?_)))
      rintro head v2 ⟨rfl, rfl⟩
      refine does_bind ((does_saveState hv1 hview ?_).mono ?_)
      · exact Or.inr ⟨hreg, _, rfl⟩
      · intro _ v3 hsaved
        exact .appended hcmd rfl hreg hsaved

theorem does_getHead (hcmd : inv.command = cmdGetHead) (hv : v.saved = none) :
    Does crypto inv.parameters (getHead inv) v (Finished crypto inv) := by
  unfold getHead
  split_ifs with hbad hshort
  · exact does_fail (by decide) hv
  · exact ⟨⟨nofun, fun _ => nofun, fun _ => nofun⟩, hv⟩
  · refine does_bind ((does_loadState hv).mono ?_)
    rintro st v1 ⟨hv1, hview, -⟩
    exact .headRead hcmd hv1 hview

theorem does_verifyReceipt (hcmd : inv.command = cmdVerify) (hv : v.saved = none) :
    Does crypto inv.parameters (verifyReceipt inv) v (Finished crypto inv) := by
  unfold verifyReceipt
  split_ifs with hbad
  · exact does_fail (by decide) hv
  · refine does_bind ((does_loadState hv).mono ?_)
    rintro st v1 ⟨hv1, hview, -⟩
    refine does_bind (does_readSequence hv1 (does_bind (does_readHash hv1 (does_bind
      (does_readHash hv1 (does_bind (does_readHash hv1 (does_bind ?_))))))))
    refine (does_computeHmac hv1).mono ?_
    rintro expected v2 ⟨rfl, rfl⟩
    apply does_bind
    apply does_readHash hv1
    split_ifs with hmac
    · exact .verified hcmd hv1 hview rfl hmac
    · exact does_fail (by decide) hv1

theorem does_invokeCommand (hv : v.saved = none) :
    Does crypto inv.parameters (invokeCommand inv) v (Finished crypto inv) := by
  unfold invokeCommand
  split_ifs with h0 h1 h2 h3
  · exact does_registerModel h0 hv
  · exact does_appendAlert h1 hv
  · exact does_getHead h2 hv
  · exact does_verifyReceipt h3 hv
  · exact does_fail (by decide) hv

end Functions

/-- Every command ends in one of the ways that `Finished` lists, whatever the TEE answers. -/
theorem entryPoint_finishes (crypto : Crypto) (inv : Invocation) {v : Ghost}
    (hv : v.saved = none) :
    (entryPoint inv).Always (may crypto) (learns crypto inv.parameters) (Finished crypto inv)
      v := by
  unfold entryPoint
  rw [always_bind]
  apply Always.mono (does_invokeCommand hv)
  intro r v' hr
  cases r with
  | ok out => exact hr
  | error out => exact .failed hr.1 hr.2

end Cote3Mon.AuditTa
