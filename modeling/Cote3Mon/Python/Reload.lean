import Cote3Mon.Python.Values

namespace Cote3Mon.Python
open ByteText

/-- The order of `sort_keys`. -/
def keyLe (a b : Text × Json) : Bool := textLe a.1 b.1

mutual

/-- `json.loads(json.dumps(v, sort_keys=True))`. -/
def reload : Json → Json
  | .arr items => .arr (reloadItems items)
  | .obj members => .obj ((reloadMembers members).insertionSort fun a b => keyLe a b)
  | v => v

def reloadItems : List Json → List Json
  | [] => []
  | v :: rest => reload v :: reloadItems rest

def reloadMembers : List (Text × Json) → List (Text × Json)
  | [] => []
  | (k, v) :: rest => (k, reload v) :: reloadMembers rest

end

theorem textLe_total : ∀ s t : Text, textLe s t ∨ textLe t s
  | [], _ => Or.inl rfl
  | _ :: _, [] => Or.inr rfl
  | a :: s, b :: t => by
    rcases lt_trichotomy a b with hlt | rfl | hlt
    · exact Or.inl (by simp [textLe, hlt])
    · rcases textLe_total s t with h | h
      · exact Or.inl (by simp [textLe, h])
      · exact Or.inr (by simp [textLe, h])
    · exact Or.inr (by simp [textLe, hlt])

theorem textLe_trans : ∀ {s t u : Text}, textLe s t → textLe t u → textLe s u
  | [], _, _, _, _ => rfl
  | _ :: _, [], _, h, _ => by cases h
  | _ :: _, _ :: _, [], _, h => by cases h
  | a :: s, b :: t, c :: u, h, h' => by
    simp only [textLe, Bool.or_eq_true, Bool.and_eq_true, decide_eq_true_eq] at h h' ⊢
    rcases h with h | ⟨rfl, h⟩
    · rcases h' with h' | ⟨rfl, -⟩
      · exact Or.inl (h.trans h')
      · exact Or.inl h
    · rcases h' with h' | ⟨rfl, h'⟩
      · exact Or.inl h'
      · exact Or.inr ⟨rfl, textLe_trans h h'⟩

theorem sortMembers_idem (pairs : List (Text × Text)) :
    sortMembers (sortMembers pairs) = sortMembers pairs := by
  have htotal : Std.Total fun a b : Text × Text => textLe a.1 b.1 = true :=
    ⟨fun a b => textLe_total a.1 b.1⟩
  have htrans : IsTrans (Text × Text) fun a b => textLe a.1 b.1 = true :=
    ⟨fun _ _ _ => textLe_trans⟩
  exact List.Pairwise.insertionSort_eq (List.pairwise_insertionSort _ pairs)

variable {rt : Runtime}

def written (rt : Runtime) (m : Text × Json) : Text × Text :=
  (m.1, (dumps rt m.2).toOption.getD [])

theorem dumpsMembers_eq_ok {members : List (Text × Json)} {pairs : List (Text × Text)} :
    dumpsMembers rt members = .ok pairs ↔
      (∀ m ∈ members, ∃ t, dumps rt m.2 = .ok t) ∧ pairs = members.map (written rt) := by
  induction members generalizing pairs with
  | nil =>
    rw [dumpsMembers, Except.ok.injEq, eq_comm]
    simp
  | cons m members ih =>
    obtain ⟨k, v⟩ := m
    rw [dumpsMembers, bind_eq_ok, List.forall_mem_cons]
    constructor
    · rintro ⟨t, ht, h⟩
      obtain ⟨rest, hrest, h⟩ := bind_eq_ok.mp h
      obtain ⟨hall, rfl⟩ := ih.mp hrest
      obtain rfl := Except.ok.inj h
      refine ⟨⟨⟨t, ht⟩, hall⟩, ?_⟩
      rw [List.map_cons, written, ht]
      rfl
    · rintro ⟨⟨⟨t, ht⟩, hall⟩, rfl⟩
      refine ⟨t, ht, bind_eq_ok.mpr ⟨_, ih.mpr ⟨hall, rfl⟩, ?_⟩⟩
      rw [List.map_cons, written, ht]
      rfl

/-- The order of the members does not show in the text. -/
theorem dumps_sorted {members : List (Text × Json)} {t : Text}
    (h : dumps rt (.obj members) = .ok t) :
    dumps rt (.obj (members.insertionSort fun a b => keyLe a b)) = .ok t := by
  rw [dumps] at h ⊢
  obtain ⟨pairs, hpairs, h⟩ := bind_eq_ok.mp h
  obtain ⟨hall, rfl⟩ := dumpsMembers_eq_ok.mp hpairs
  refine bind_eq_ok.mpr ⟨sortMembers (members.map (written rt)), ?_, ?_⟩
  · rw [dumpsMembers_eq_ok]
    refine ⟨fun m hm => hall m ((List.mem_insertionSort _).mp hm), ?_⟩
    exact (List.map_insertionSort (fun a b => keyLe a b) (fun a b => textLe a.1 b.1) (written rt)
      members fun _ _ _ _ => Iff.rfl).symm
  · rw [sortMembers_idem]
    exact h

mutual

theorem dumps_reload : ∀ (v : Json) {t : Text}, dumps rt v = .ok t → dumps rt (reload v) = .ok t
  | .null, _, h => h
  | .bool _, _, h => h
  | .int _, _, h => h
  | .float _, _, h => h
  | .str _, _, h => h
  | .arr items, _, h => by
    rw [dumps] at h
    obtain ⟨texts, htexts, h⟩ := bind_eq_ok.mp h
    rw [reload, dumps, dumpsItems_reload items htexts]
    exact h
  | .obj members, _, h => by
    rw [reload]
    apply dumps_sorted
    rw [dumps] at h ⊢
    obtain ⟨pairs, hpairs, h⟩ := bind_eq_ok.mp h
    rw [dumpsMembers_reload members hpairs]
    exact h

theorem dumpsItems_reload : ∀ (items : List Json) {texts : List Text},
    dumpsItems rt items = .ok texts → dumpsItems rt (reloadItems items) = .ok texts
  | [], _, h => h
  | v :: items, _, h => by
    rw [dumpsItems] at h
    obtain ⟨t, ht, h⟩ := bind_eq_ok.mp h
    obtain ⟨rest, hrest, h⟩ := bind_eq_ok.mp h
    rw [reloadItems, dumpsItems, dumps_reload v ht, ok_bind, dumpsItems_reload items hrest]
    exact h

theorem dumpsMembers_reload : ∀ (members : List (Text × Json)) {pairs : List (Text × Text)},
    dumpsMembers rt members = .ok pairs → dumpsMembers rt (reloadMembers members) = .ok pairs
  | [], _, h => h
  | (k, v) :: members, _, h => by
    rw [dumpsMembers] at h
    obtain ⟨t, ht, h⟩ := bind_eq_ok.mp h
    obtain ⟨rest, hrest, h⟩ := bind_eq_ok.mp h
    rw [reloadMembers, dumpsMembers, dumps_reload v ht, ok_bind, dumpsMembers_reload members hrest]
    exact h

end

/-- What is read back has the canonical bytes of what was written. -/
theorem canonicalJson_reload {v : Json} {c : Bytes} (h : canonicalJson rt v = .ok c) :
    canonicalJson rt (reload v) = .ok c := by
  obtain ⟨t, ht, h⟩ := bind_eq_ok.mp h
  rw [canonicalJson, dumps_reload v ht]
  exact h

end Cote3Mon.Python
