import Cote3Mon.Crypto
import Cote3Mon.Lib.MacChain

namespace Cote3Mon
open ByteText MacChain

-- What both audit backends are for. Receipt `n + 1` authenticates its number, the head of receipt
-- `n`, the hash of an alert and the hash of the model.

/-- `"C3MAUDIT1" || be64(n) || previous || alert || model`. -/
def auditMessage (n : ℕ) (previous alert model : Bytes) : Bytes :=
  asciiBytes "C3MAUDIT1" ++ beBytes 8 n ++ previous ++ alert ++ model

/-- What a receipt certifies. -/
@[ext] structure Certified where
  alert : Digest
  model : Digest

def chainMessage (n : ℕ) (previous : Digest) (c : Certified) : Bytes :=
  auditMessage n previous.bytes c.alert.bytes c.model.bytes

/-- The layout shifts no field: the fields before the last are of fixed length. -/
theorem auditMessage_injective {m n : ℕ} {p p' a a' b b' : Bytes} (hm : m < 2 ^ 64)
    (hn : n < 2 ^ 64) (hp : p.length = p'.length) (ha : a.length = a'.length)
    (h : auditMessage m p a b = auditMessage n p' a' b') :
    m = n ∧ p = p' ∧ a = a' ∧ b = b' := by
  simp only [auditMessage, List.append_assoc, List.append_cancel_left_eq] at h
  obtain ⟨hseq, hrest⟩ := List.append_inj h (by simp)
  obtain ⟨hprev, hrest⟩ := List.append_inj hrest hp
  obtain ⟨halert, hmodel⟩ := List.append_inj hrest ha
  have hpow : (2 : ℕ) ^ 64 = 256 ^ 8 := by norm_num
  exact ⟨beBytes_injective (hpow ▸ hm) (hpow ▸ hn) hseq, hprev, halert, hmodel⟩

theorem chainMessage_determines : Determines chainMessage := by
  intro n p b p' b' h
  simp only [chainMessage, auditMessage, List.append_assoc, List.append_cancel_left_eq] at h
  obtain ⟨hprev, hrest⟩ := List.append_inj h (p.length_eq.trans p'.length_eq.symm)
  obtain ⟨halert, hmodel⟩ := List.append_inj hrest (b.alert.length_eq.trans b'.alert.length_eq.symm)
  exact ⟨Digest.ext hprev, Certified.ext (Digest.ext halert) (Digest.ext hmodel)⟩

/-- What a record of an alert and its receipt shows. -/
structure Shown where
  canonical : Bytes
  sequence : ℤ
  previousHead : Bytes
  alertHash : Bytes
  modelHash : Bytes
  head : Bytes

def Shown.message (s : Shown) : Bytes :=
  auditMessage s.sequence.toNat s.previousHead s.alertHash s.modelHash

/-- What a correct record shows for an alert with the canonical bytes `c`, after `n` receipts
with last head `p`. -/
def shown (sha : Bytes → Digest) (n : ℕ) (p : Digest) (c : Bytes) (model head : Digest) : Shown :=
  ⟨c, (n + 1 : ℕ), p.bytes, (sha c).bytes, model.bytes, head.bytes⟩

section Authentic

variable {Record : Type*} (read : Record → Option Shown) (sha mac : Bytes → Digest)

/-- The records continue a chain of `n` receipts with last head `p`, up to the head `q`. -/
inductive Authentic : ℕ → Digest → List Record → Digest → Prop
  | nil (n : ℕ) (p : Digest) : Authentic n p [] p
  | cons {n p v records q} (c : Bytes) (model head : Digest) :
      read v = some (shown sha n p c model head) →
      head = mac (chainMessage (n + 1) p ⟨sha c, model⟩) →
      Authentic (n + 1) head records q → Authentic n p (v :: records) q

def messagesOf (records : List Record) : List Bytes :=
  records.filterMap fun v => (read v).map Shown.message

def canonicalOf (records : List Record) : List Bytes :=
  records.filterMap fun v => (read v).map Shown.canonical

def ShowSame (v w : Record) : Prop := ∃ s, read v = some s ∧ read w = some s

variable {read sha mac}

/-- The records read as entries of a linked chain. -/
inductive ReadsAs (read : Record → Option Shown) (sha : Bytes → Digest) :
    ℕ → Digest → List Record → List (Entry Certified Digest) → Prop
  | nil (n : ℕ) (p : Digest) : ReadsAs read sha n p [] []
  | cons {n p v records es} (c : Bytes) (model head : Digest) :
      read v = some (shown sha n p c model head) → ReadsAs read sha (n + 1) head records es →
      ReadsAs read sha n p (v :: records) (⟨⟨sha c, model⟩, head⟩ :: es)

theorem Authentic.readsAs {n : ℕ} {p q : Digest} {records : List Record}
    (h : Authentic read sha mac n p records q) :
    ∃ es, ReadsAs read sha n p records es ∧ Linked chainMessage mac n p es ∧ lastTag p es = q := by
  induction h with
  | nil n p => exact ⟨[], .nil n p, trivial, rfl⟩
  | cons c model head hread hhead _ ih =>
    obtain ⟨es, hreads, hlinked, hlast⟩ := ih
    exact ⟨_, .cons c model head hread hreads, ⟨hhead, hlinked⟩, hlast⟩

theorem ReadsAs.messages {n : ℕ} {p : Digest} {records : List Record}
    {es : List (Entry Certified Digest)} (h : ReadsAs read sha n p records es) :
    MacChain.messages chainMessage n p es = messagesOf read records := by
  induction h with
  | nil => rfl
  | @cons n p v records es c model head hread _ ih =>
    have hmessage : (read v).map Shown.message =
        some (chainMessage (n + 1) p ⟨sha c, model⟩) := by
      rw [hread]
      rfl
    rw [MacChain.messages, ih, messagesOf, messagesOf, List.filterMap_cons, hmessage]

theorem ReadsAs.length {n : ℕ} {p : Digest} {records : List Record}
    {es : List (Entry Certified Digest)} (h : ReadsAs read sha n p records es) :
    es.length = records.length := by
  induction h with
  | nil => rfl
  | cons _ _ _ _ _ ih => rw [List.length_cons, List.length_cons, ih]

/-- Two lists read as one chain agree in every record, up to a collision of the alert hash. -/
theorem ReadsAs.same_or_collision {n : ℕ} {p : Digest} {records records' : List Record}
    {es : List (Entry Certified Digest)} (h : ReadsAs read sha n p records es)
    (h' : ReadsAs read sha n p records' es) :
    List.Forall₂ (ShowSame read) records records' ∨
      Collision sha (canonicalOf read records) (canonicalOf read records') := by
  induction h generalizing records' with
  | nil =>
    cases h'
    exact Or.inl .nil
  | @cons n p v records es c model head hread _ ih =>
    generalize hentry : (⟨⟨sha c, model⟩, head⟩ : Entry Certified Digest) = e at h'
    cases h' with
    | @cons _ _ w records' _ c' model' head' hread' hrest' =>
      obtain ⟨hbody, rfl⟩ := Entry.mk.inj hentry
      obtain ⟨hsha, rfl⟩ := Certified.mk.inj hbody
      have hv : (read v).map Shown.canonical = some c := by rw [hread]; rfl
      have hw : (read w).map Shown.canonical = some c' := by rw [hread']; rfl
      rw [canonicalOf, canonicalOf, List.filterMap_cons, hv, List.filterMap_cons, hw]
      rcases ih hrest' with hsame | hcol
      · rcases collision_or_eq List.mem_cons_self List.mem_cons_self hsha with rfl | hcol
        · exact Or.inl (.cons ⟨_, hread, hread'⟩ hsame)
        · exact Or.inr hcol
      · exact Or.inr (hcol.mono (List.subset_cons_self _ _) (List.subset_cons_self _ _))

/-- **Tamper evidence.**  Two authentic lists of one length with one last head show the same
in every record, or their messages or their canonical bytes exhibit a collision. -/
theorem Authentic.same_or_collision {n : ℕ} {p q : Digest} {records records' : List Record}
    (h : Authentic read sha mac n p records q) (h' : Authentic read sha mac n p records' q)
    (hlen : records.length = records'.length) :
    List.Forall₂ (ShowSame read) records records' ∨
      Collision mac (messagesOf read records) (messagesOf read records') ∨
      Collision sha (canonicalOf read records) (canonicalOf read records') := by
  obtain ⟨es, hreads, hlinked, hlast⟩ := h.readsAs
  obtain ⟨es', hreads', hlinked', hlast'⟩ := h'.readsAs
  have hcount : es.length = es'.length := by rw [hreads.length, hreads'.length, hlen]
  rcases eq_or_collision chainMessage_determines hlinked hlinked' hcount
      (hlast.trans hlast'.symm) with ⟨-, rfl⟩ | hcol
  · exact (hreads.same_or_collision hreads').imp_right Or.inr
  · rw [hreads.messages, hreads'.messages] at hcol
    exact Or.inr (Or.inl hcol)

end Authentic

end Cote3Mon
