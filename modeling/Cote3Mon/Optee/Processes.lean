import Cote3Mon.Optee.Calls

namespace Cote3Mon.Optee
open ByteText Python AuditTa

variable {rt : Runtime} {crypto : Crypto} {m : Machine}

def process (crypto : Crypto) (inv : Invocation) (print : Output → Text) : Backend Text := fun m =>
  let processes := fun n => m.processes (n + 1)
  if (m.processes 0).spawnFault then (.error .osError, ⟨m.tee, processes⟩)
  else
    let out :=
      if (m.processes 0).fault = some .initializeContext ∨
          (m.processes 0).fault = some .openSession then (⟨1, []⟩, m.tee)
      else sendCommand crypto (m.processes 0).fault inv print m.tee
    (if out.1.code = 0 then .ok (strip out.1.stdout) else .error .calledProcessError,
      ⟨out.2, processes⟩)

theorem encode_name {name : String} (h : ∀ c ∈ text name, IsAscii c) :
    fsencode (text name) = .ok (asciiBytes name) := by
  rw [fsencode_ascii h]
  simp [ascii, text, asciiBytes]

theorem names_ascii : ∀ name ∈ ["register", "append", "head", "verify"],
    ∀ c ∈ text name, IsAscii c := by
  unfold IsAscii
  decide

theorem runClient_register (d : Digest) :
    runClient crypto [text "register", d.hex] =
        process crypto (registerInvocation d) (fun _ => []) := by
  funext m
  have hencode : encodeArguments [text "register", d.hex] =
      .ok [asciiBytes "register", ascii d.hex] := by
    simp only [encodeArguments, encode_name (names_ascii "register" (by simp)), fsencode_hex,
      ok_bind]
    rfl
  simp only [runClient, hencode, main, runCommand, decodeHash_hex, process]
  rfl

theorem runClient_append (d : Digest) :
    runClient crypto [text "append", d.hex] = process crypto (appendInvocation d) printOutput := by
  funext m
  have hencode : encodeArguments [text "append", d.hex] =
      .ok [asciiBytes "append", ascii d.hex] := by
    simp only [encodeArguments, encode_name (names_ascii "append" (by simp)), fsencode_hex, ok_bind]
    rfl
  have hname : asciiBytes "append" ≠ asciiBytes "register" := by decide
  simp only [runClient, hencode, main, runCommand, decodeHash_hex, process, if_neg hname]
  rfl

theorem runClient_head :
    runClient crypto [text "head"] = process crypto headInvocation printOutput := by
  funext m
  have hencode : encodeArguments [text "head"] = .ok [asciiBytes "head"] := by
    simp only [encodeArguments, encode_name (names_ascii "head" (by simp)), ok_bind]
    rfl
  simp only [runClient, hencode, main, runCommand, process]
  rfl

theorem encode_verify (n : ℕ) (p a b h : Digest) :
    encodeArguments [text "verify", decimal n, p.hex, a.hex, b.hex, h.hex] =
      .ok [asciiBytes "verify", ascii (decimal n), ascii p.hex, ascii a.hex, ascii b.hex,
        ascii h.hex] := by
  simp only [encodeArguments, encode_name (names_ascii "verify" (by simp)), fsencode_hex,
    fsencode_ascii (decimal_ascii n), ok_bind]
  rfl

/-- A receipt is sent as it was written. -/
theorem runClient_verify {n : ℕ} (hn : n < 2 ^ 64) (p a b h : Digest) :
    runClient crypto [text "verify", decimal n, p.hex, a.hex, b.hex, h.hex] =
      process crypto (verifyInvocation ⟨UInt64.ofNat n, p, a, b, h⟩) (fun _ => text "VALID\n") := by
  funext m
  simp only [runClient, encode_verify, main, runCommand, decodeReceipt, decodeSequence_decimal,
    if_pos hn, decodeHash_hex, process]
  rfl

/-- A number that does not fit is refused by the client. -/
theorem runClient_verify_large (crypto : Crypto) {n : ℕ} (hn : 2 ^ 64 ≤ n) (p a b h : Digest)
    (m : Machine) :
    ∃ e m', runClient crypto [text "verify", decimal n, p.hex, a.hex, b.hex, h.hex] m =
      (.error e, m') ∧ m'.tee = m.tee := by
  have hmain : ∃ code, code ≠ 0 ∧ main crypto (m.processes 0).fault (asciiBytes "audit-client" ::
      [asciiBytes "verify", ascii (decimal n), ascii p.hex, ascii a.hex, ascii b.hex, ascii h.hex])
        m.tee = (⟨code, []⟩, m.tee) := by
    simp only [main, runCommand, decodeReceipt, decodeSequence_decimal, if_neg (not_lt.mpr hn)]
    split_ifs
    · exact ⟨2, by decide, rfl⟩
    · exact ⟨1, by decide, rfl⟩
    · exact ⟨2, by decide, rfl⟩
  obtain ⟨code, hcode, hmain⟩ := hmain
  simp only [runClient, encode_verify, hmain, if_neg hcode]
  split_ifs
  · exact ⟨_, _, rfl, rfl⟩
  · exact ⟨_, _, rfl, rfl⟩

/-- The process fails without having reached the TA, or returns what the TA returned. -/
theorem process_cases (crypto : Crypto) (inv : Invocation) (print : Output → Text) (m : Machine) :
    (∃ e, (process crypto inv print m).1 = .error e ∧ (process crypto inv print m).2.tee = m.tee) ∨
      ((process crypto inv print m).1 =
          (if (invoke crypto inv m.tee).1.result = .success then
            .ok (strip (print (invoke crypto inv m.tee).1.output)) else .error .calledProcessError) ∧
        (process crypto inv print m).2.tee = (invoke crypto inv m.tee).2) := by
  by_cases hspawn : (m.processes 0).spawnFault
  · exact Or.inl ⟨.osError, by simp [process, hspawn], by simp [process, hspawn]⟩
  by_cases hopen : (m.processes 0).fault = some .initializeContext ∨
      (m.processes 0).fault = some .openSession
  · left
    refine ⟨.calledProcessError, ?_, ?_⟩
    · simp only [process, hspawn, Bool.false_eq_true, if_false, if_pos hopen]
      rfl
    · simp only [process, hspawn, Bool.false_eq_true, if_false, if_pos hopen]
  by_cases hinvoke : (m.processes 0).fault = some .invokeCommand
  · left
    refine ⟨.calledProcessError, ?_, ?_⟩
    · simp only [process, hspawn, Bool.false_eq_true, if_false, if_neg hopen, sendCommand,
        if_pos hinvoke]
      rfl
    · simp only [process, hspawn, Bool.false_eq_true, if_false, if_neg hopen, sendCommand,
        if_pos hinvoke]
  · right
    simp only [process, hspawn, Bool.false_eq_true, if_false, if_neg hopen, sendCommand,
      if_neg hinvoke, and_true]
    by_cases hresult : (invoke crypto inv m.tee).1.result = .success
    · simp only [if_pos hresult, if_true]
    · simp only [if_neg hresult, one_ne_zero, if_false]

/-- A process changes the object as one command of the TA does, or not at all. -/
theorem process_step (crypto : Crypto) (inv : Invocation) (print : Output → Text) (m : Machine) :
    (∃ e, (process crypto inv print m).1 = .error e ∧
        (process crypto inv print m).2.tee.object = m.tee.object) ∨
      ∃ out, CommandStep crypto inv m.tee.object out (process crypto inv print m).2.tee.object ∧
        (process crypto inv print m).1 =
          if out.result = .success then .ok (strip (print out.output))
          else .error .calledProcessError := by
  rcases process_cases crypto inv print m with ⟨e, he, htee⟩ | ⟨hresult, htee⟩
  · exact Or.inl ⟨e, he, by rw [htee]⟩
  · exact Or.inr ⟨_, by rw [htee]; exact invoke_step crypto inv m.tee, hresult⟩

/-- No process and no call to come will fail. -/
structure Machine.Succeeds (m : Machine) : Prop where
  tee : m.tee.Succeeds
  processes : ∀ n, (m.processes n).spawnFault = false ∧ (m.processes n).fault = none

/-- Where nothing fails a process ends as the command of the TA does. -/
theorem process_faultless {inv : Invocation} (print : Output → Text) {out : Outcome}
    {o : Option AuditState} (h : m.Succeeds)
    (hinvoke : (invoke crypto inv m.tee).1 = out ∧ (invoke crypto inv m.tee).2.Succeeds ∧
      (invoke crypto inv m.tee).2.object = o) :
    ∃ m', process crypto inv print m = (if out.result = .success then .ok (strip (print out.output))
        else .error .calledProcessError, m') ∧ m'.Succeeds ∧ m'.tee.object = o := by
  obtain ⟨rfl, hsucceeds, hobject⟩ := hinvoke
  obtain ⟨hspawn, hfault⟩ := h.processes 0
  refine ⟨⟨(invoke crypto inv m.tee).2, fun n => m.processes (n + 1)⟩, ?_,
    ⟨hsucceeds, fun n => h.processes (n + 1)⟩, hobject⟩
  by_cases hresult : (invoke crypto inv m.tee).1.result = .success
  · simp [process, hspawn, hfault, sendCommand, hresult]
  · simp [process, hspawn, hfault, sendCommand, hresult]

theorem process_succeeds {inv : Invocation} (print : Output → Text) {out : Outcome}
    {o : Option AuditState} (h : m.Succeeds) (hresult : out.result = .success)
    (hinvoke : (invoke crypto inv m.tee).1 = out ∧ (invoke crypto inv m.tee).2.Succeeds ∧
      (invoke crypto inv m.tee).2.object = o) :
    ∃ m', process crypto inv print m = (.ok (strip (print out.output)), m') ∧ m'.Succeeds ∧
      m'.tee.object = o := by
  have hprocess := process_faultless print h hinvoke
  rwa [if_pos hresult] at hprocess

theorem process_fails {inv : Invocation} (print : Output → Text) {out : Outcome}
    {o : Option AuditState} (h : m.Succeeds) (hresult : out.result ≠ .success)
    (hinvoke : (invoke crypto inv m.tee).1 = out ∧ (invoke crypto inv m.tee).2.Succeeds ∧
      (invoke crypto inv m.tee).2.object = o) :
    ∃ m', process crypto inv print m = (.error .calledProcessError, m') ∧ m'.Succeeds ∧
      m'.tee.object = o := by
  have hprocess := process_faultless print h hinvoke
  rwa [if_neg hresult] at hprocess

end Cote3Mon.Optee
