import Cote3Mon.Lib.Bytes

namespace Cote3Mon.Gateway
open ByteText

-- `gateway/backend_mock.c`: a linked list of objects in the heap. The theorems state what each
-- operation does to the finite map that the list stands for.

/-- `struct object`, with the part of the two buffers that its lengths delimit. -/
structure Object where
  key : Bytes
  value : Bytes
  deriving DecidableEq

inductive BackendResult where
  | ok
  | notFound
  | failure
  deriving DecidableEq

/-- The list that `private_data` points to, and how the next allocations are answered; after the
listed ones every allocation succeeds. -/
structure MockBackend where
  objects : List Object
  mallocs : List Bool

def malloc (backend : MockBackend) : Bool × MockBackend :=
  match backend.mallocs with
  | [] => (true, backend)
  | answer :: rest => (answer, { backend with mallocs := rest })

def findObject (key : Bytes) : List Object → Option Object
  | [] => none
  | object :: rest => if object.key = key then some object else findObject key rest

/-- `object->value = replacement`, for the object that `find_object` returns. -/
def setValue (key value : Bytes) : List Object → List Object
  | [] => []
  | object :: rest =>
    if object.key = key then { object with value := value } :: rest
    else object :: setValue key value rest

def mockPut (key value : Bytes) (backend : MockBackend) : BackendResult × MockBackend :=
  let (replacement, backend) := malloc backend
  if !replacement then (.failure, backend)
  else
    match findObject key backend.objects with
    | some _ => (.ok, { backend with objects := setValue key value backend.objects })
    | none =>
      let (object, backend) := malloc backend
      if !object then (.failure, backend)
      else
        let (objectKey, backend) := malloc backend
        if !objectKey then (.failure, backend)
        else (.ok, { backend with objects := ⟨key, value⟩ :: backend.objects })

/-- The value is copied to a buffer of `outputSize` bytes. -/
def mockGet (outputSize : ℕ) (key : Bytes) (backend : MockBackend) : BackendResult × Bytes :=
  match findObject key backend.objects with
  | none => (.notFound, [])
  | some object =>
    if outputSize < object.value.length then (.failure, []) else (.ok, object.value)

/-- The cursor of `mock_delete`: the list without the first object with the key. -/
def unlinkObject (key : Bytes) : List Object → Option (List Object)
  | [] => none
  | object :: rest =>
    if object.key = key then some rest else (unlinkObject key rest).map (object :: ·)

def mockDelete (key : Bytes) (backend : MockBackend) : BackendResult × MockBackend :=
  match unlinkObject key backend.objects with
  | some objects => (.ok, { backend with objects := objects })
  | none => (.notFound, backend)

def lookup (objects : List Object) (key : Bytes) : Option Bytes :=
  (findObject key objects).map Object.value

def DistinctKeys (objects : List Object) : Prop := (objects.map Object.key).Nodup

variable {objects : List Object} {key value : Bytes}

theorem findObject_none : findObject key objects = none ↔ key ∉ objects.map Object.key := by
  induction objects with
  | nil => exact iff_of_true rfl List.not_mem_nil
  | cons object rest ih =>
    rw [findObject, List.map_cons, List.mem_cons]
    split_ifs with h
    · exact iff_of_false nofun fun hnot => hnot (Or.inl h.symm)
    · rw [ih]
      exact ⟨fun hrest hor => hor.elim (fun heq => h heq.symm) hrest, fun hnot => hnot ∘ Or.inr⟩

theorem lookup_isSome : (lookup objects key).isSome ↔ findObject key objects ≠ none := by
  rw [lookup, Option.isSome_map, Option.isSome_iff_ne_none]

theorem lookup_cons (object : Object) (rest : List Object) :
    lookup (object :: rest) = Function.update (lookup rest) object.key (some object.value) := by
  funext k
  by_cases hk : k = object.key
  · rw [hk, Function.update_self, lookup, findObject, if_pos rfl]
    rfl
  · rw [Function.update_of_ne hk, lookup, findObject, if_neg (Ne.symm hk)]
    rfl

@[simp] theorem setValue_keys :
    (setValue key value objects).map Object.key = objects.map Object.key := by
  induction objects with
  | nil => rfl
  | cons object rest ih =>
    rw [setValue]
    split_ifs
    · rfl
    · rw [List.map_cons, List.map_cons, ih]

theorem lookup_setValue (h : findObject key objects ≠ none) :
    lookup (setValue key value objects) = Function.update (lookup objects) key (some value) := by
  induction objects with
  | nil => exact absurd rfl h
  | cons object rest ih =>
    rw [findObject] at h
    rw [setValue]
    split_ifs with hkey
    · rw [lookup_cons, lookup_cons, hkey, Function.update_idem]
    · rw [if_neg hkey] at h
      rw [lookup_cons, lookup_cons, ih h, Function.update_comm (Ne.symm hkey)]

theorem lookup_absent (h : key ∉ objects.map Object.key) :
    Function.update (lookup objects) key none = lookup objects := by
  have hnone : lookup objects key = none := by
    rw [lookup, findObject_none.mpr h]
    rfl
  rw [← hnone, Function.update_eq_self]

theorem unlinkObject_none : unlinkObject key objects = none ↔ findObject key objects = none := by
  induction objects with
  | nil => exact iff_of_true rfl rfl
  | cons object rest ih =>
    rw [unlinkObject, findObject]
    split_ifs
    · exact iff_of_false nofun nofun
    · rw [Option.map_eq_none_iff, ih]

theorem unlinkObject_some {left : List Object} (h : unlinkObject key objects = some left)
    (hkeys : DistinctKeys objects) :
    left.Sublist objects ∧ lookup left = Function.update (lookup objects) key none := by
  induction objects generalizing left with
  | nil => cases h
  | cons object rest ih =>
    rw [DistinctKeys, List.map_cons, List.nodup_cons] at hkeys
    rw [unlinkObject] at h
    split_ifs at h with hkey
    · rw [← Option.some.inj h]
      refine ⟨List.sublist_cons_self object rest, ?_⟩
      rw [lookup_cons, hkey, Function.update_idem, lookup_absent (hkey ▸ hkeys.1)]
    · obtain ⟨left', hleft, rfl⟩ := Option.map_eq_some_iff.mp h
      obtain ⟨hsub, hlookup⟩ := ih hleft hkeys.2
      refine ⟨hsub.cons_cons object, ?_⟩
      rw [lookup_cons, lookup_cons, hlookup, Function.update_comm (Ne.symm hkey)]

end Cote3Mon.Gateway
