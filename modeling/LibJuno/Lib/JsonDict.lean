import LibJuno.Lib.JsonCodec
import Mathlib.Data.List.Sort
import Mathlib.Data.List.Dedup

/-!
# JSON values as a dynamic language sees them

Objects are dictionaries that can be assigned to, every value counts as true or false, and
lists, strings and objects can be iterated. An operation on a value of the wrong kind is a
type error, which is `none`.
-/

namespace OrderedMap

variable {κ ν ν' : Type*} [DecidableEq κ]

/-- Every value is replaced by one that may depend on its key. -/
def mapWithKey (m : OrderedMap κ ν) (f : κ → ν → ν') : OrderedMap κ ν' :=
  m.filterMap fun k v => some (f k v)

@[simp] theorem get_mapWithKey (m : OrderedMap κ ν) (f : κ → ν → ν') (k : κ) :
    (m.mapWithKey f).get k = (m.get k).map (f k) := by
  rw [mapWithKey, get_filterMap]
  cases m.get k <;> rfl

omit [DecidableEq κ] in
theorem mapWithKey_entries (m : OrderedMap κ ν) (f : κ → ν → ν') :
    (m.mapWithKey f).entries = m.entries.map fun e => (e.1, f e.1 e.2) := by
  simp [mapWithKey, filterMap]

theorem not_mem_of_get_none {m : OrderedMap κ ν} {k : κ} (absent : m.get k = none) :
    k ∉ m.entries.map Prod.fst := by
  intro there
  obtain ⟨e, member, rfl⟩ := List.mem_map.1 there
  rw [get, Option.map_eq_none_iff, List.find?_eq_none] at absent
  simpa using absent e member

theorem mem_keys_iff {m : OrderedMap κ ν} {k : κ} : k ∈ m.keys ↔ m.has k = true := by
  unfold has
  constructor
  · intro key
    obtain ⟨e, member, rfl⟩ := List.mem_map.1 key
    rw [get_of_mem member]
    rfl
  · intro there
    obtain ⟨v, here⟩ := Option.isSome_iff_exists.1 there
    exact List.mem_map.2 ⟨(k, v), mem_of_get here, rfl⟩

theorem mapWithKey_set {m : OrderedMap κ ν} {k : κ} (fresh : m.get k = none) (f : κ → ν → ν') (v : ν) :
    (m.set k v).mapWithKey f = (m.mapWithKey f).set k (f k v) := by
  have absent := not_mem_of_get_none fresh
  have absent' : k ∉ (m.mapWithKey f).entries.map Prod.fst :=
    not_mem_of_get_none (by rw [get_mapWithKey, fresh]; rfl)
  apply eq_of_entries
  have left : (m.set k v).entries = m.entries ++ [(k, v)] := setEntries_of_not_mem absent
  have right : ((m.mapWithKey f).set k (f k v)).entries = (m.mapWithKey f).entries ++ [(k, f k v)] :=
    setEntries_of_not_mem absent'
  rw [mapWithKey_entries, left, right, mapWithKey_entries, List.map_append]
  rfl

end OrderedMap

namespace Json

/-- Whether a value is an object. -/
def isDict : Json → Bool
  | .obj _ => true
  | _ => false

/-- `dict[key] = value`; nothing happens to a value that is not an object. -/
def assign (j : Json) (key : String) (value : Json) : Json :=
  match j with
  | .obj members => .obj ((OrderedMap.ofEntries members).set key value).entries
  | j => j

theorem get_obj (members : List (String × Json)) (key : String) :
    (Json.obj members).get key = (OrderedMap.ofEntries members).get key := by
  have later : ∀ m : OrderedMap String Json,
      (members.foldl (fun m e => m.set e.1 e.2) m).get key =
        ((members.reverse.find? fun e => decide (e.1 = key)).map Prod.snd).or (m.get key) := by
    induction members with
    | nil => simp
    | cons e es ih =>
      intro m
      rw [List.foldl_cons, ih, List.reverse_cons, List.find?_append, OrderedMap.get_set]
      cases es.reverse.find? fun e => decide (e.1 = key) with
      | some found => rfl
      | none =>
        by_cases same : e.1 = key
        · simp [same]
        · simp [same, Ne.symm same]
  rw [OrderedMap.ofEntries, later, OrderedMap.get_empty, Option.or_none]
  rfl

@[simp] theorem isDict_assign (j : Json) (key : String) (value : Json) :
    (j.assign key value).isDict = j.isDict := by
  cases j <;> rfl

theorem get_assign {j : Json} (dict : j.isDict = true) (key key' : String) (value : Json) :
    (j.assign key value).get key' = if key' = key then some value else j.get key' := by
  cases j with
  | obj members =>
    rw [assign, get_obj, OrderedMap.ofEntries_entries, OrderedMap.get_set, get_obj]
  | _ => simp [isDict] at dict

theorem get_assign_of_ne (j : Json) {key key' : String} (value : Json) (other : key' ≠ key) :
    (j.assign key value).get key' = j.get key' := by
  cases dict : j.isDict with
  | true => rw [get_assign dict, if_neg other]
  | false => cases j <;> first | rfl | cases dict

/-- What a condition makes of a value. -/
def truthy : Json → Bool
  | .null => false
  | .bool b => b
  | .num n => n ≠ 0
  | .str s => s ≠ ""
  | .arr items => !items.isEmpty
  | .obj members => !members.isEmpty

/-- `dict.get(key) or []`. -/
def getOrEmpty (j : Json) (key : String) : Json :=
  match j.get key with
  | some value => if value.truthy then value else .arr []
  | none => .arr []

/-- The items a loop sees: those of a list, the characters of a string, the keys of an
object. -/
def iterate : Json → Option (List Json)
  | .arr items => some items
  | .str s => some (s.toList.map fun c => .str (String.singleton c))
  | .obj members => some ((OrderedMap.ofEntries members).keys.map .str)
  | _ => none

/-- Whether a value can be looked up in a dictionary or put into a set. -/
def hashable : Json → Bool
  | .arr _ => false
  | .obj _ => false
  | _ => true

def isString : Json → Bool
  | .str _ => true
  | _ => false

/-- The text of a string, nothing of another value. -/
def text? : Json → Option String
  | .str s => some s
  | _ => none

end Json

/-- `sorted(set(...))` of strings. -/
def sortedSet (ids : List String) : List String := ids.dedup.insertionSort (· ≤ ·)

@[simp] theorem mem_sortedSet {ids : List String} {id : String} : id ∈ sortedSet ids ↔ id ∈ ids := by
  rw [sortedSet, List.mem_insertionSort, List.mem_dedup]
