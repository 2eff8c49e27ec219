import Mathlib.Data.List.Nodup
import Mathlib.Logic.Function.Basic

/-!
# Maps that keep the order of insertion

A map with distinct keys that is iterated in the order in which the keys were first
set. Setting a key that is there replaces its value in place. The laws relate each
operation to `get`; nothing else of the order is observed by them.
-/

/-- Entries with distinct keys, in the order of insertion. -/
structure OrderedMap (κ ν : Type*) where
  entries : List (κ × ν)
  nodup : (entries.map Prod.fst).Nodup

namespace OrderedMap

variable {κ ν : Type*}

theorem eq_of_entries {m m' : OrderedMap κ ν} (h : m.entries = m'.entries) : m = m' := by
  obtain ⟨entries, distinct⟩ := m
  subst h
  rfl

def empty : OrderedMap κ ν := ⟨[], List.nodup_nil⟩

/-- The values in the order of the keys. -/
def values (m : OrderedMap κ ν) : List ν := m.entries.map Prod.snd

def keys (m : OrderedMap κ ν) : List κ := m.entries.map Prod.fst

def isEmpty (m : OrderedMap κ ν) : Bool := m.entries.isEmpty

/-- Each entry is dropped or gets another value; the keys keep their order. -/
def filterMap {ν' : Type*} (m : OrderedMap κ ν) (g : κ → ν → Option ν') : OrderedMap κ ν' where
  entries := m.entries.filterMap fun e => (g e.1 e.2).map (Prod.mk e.1)
  nodup := by
    have keys : ((m.entries.filterMap fun e => (g e.1 e.2).map (Prod.mk e.1)).map Prod.fst).Sublist
        (m.entries.map Prod.fst) := by
      induction m.entries with
      | nil => exact List.Sublist.slnil
      | cons e es ih =>
        cases kept : g e.1 e.2 with
        | none => simpa [kept] using ih.cons e.1
        | some v => simpa [kept] using ih.cons_cons e.1
    exact m.nodup.sublist keys

/-- An entry that is left has the value that the function gives some earlier one. -/
theorem mem_filterMap {ν' : Type*} {m : OrderedMap κ ν} {g : κ → ν → Option ν'} {e : κ × ν'}
    (member : e ∈ (m.filterMap g).entries) : ∃ v, g e.1 v = some e.2 := by
  obtain ⟨e', -, kept⟩ := List.mem_filterMap.1 member
  obtain ⟨v, value, rfl⟩ := Option.map_eq_some_iff.1 kept
  exact ⟨e'.2, value⟩

/-- Every value is replaced; the keys keep their order. -/
def mapValues {ν' : Type*} (m : OrderedMap κ ν) (f : ν → ν') : OrderedMap κ ν' where
  entries := m.entries.map fun e => (e.1, f e.2)
  nodup := by
    rw [List.map_map]
    exact m.nodup

theorem mapValues_mapValues {ν' ν'' : Type*} (m : OrderedMap κ ν) (f : ν → ν') (g : ν' → ν'') :
    (m.mapValues f).mapValues g = m.mapValues fun v => g (f v) := by
  unfold mapValues
  dsimp only
  congr 1
  rw [List.map_map]
  rfl

theorem values_mapValues {ν' : Type*} (m : OrderedMap κ ν) (f : ν → ν') :
    (m.mapValues f).values = m.values.map f := by
  unfold mapValues values
  rw [List.map_map, List.map_map]
  rfl

variable [DecidableEq κ]

def get (m : OrderedMap κ ν) (k : κ) : Option ν :=
  (m.entries.find? fun e => decide (e.1 = k)).map Prod.snd

def has (m : OrderedMap κ ν) (k : κ) : Bool := (m.get k).isSome

/-- The entries after `k` is set: in place, or at the end when it is new. -/
def setEntries (k : κ) (v : ν) : List (κ × ν) → List (κ × ν)
  | [] => [(k, v)]
  | e :: es => if e.1 = k then (k, v) :: es else e :: setEntries k v es

theorem mem_setEntries_keys {k x : κ} {v : ν} {es : List (κ × ν)}
    (h : x ∈ (setEntries k v es).map Prod.fst) : x = k ∨ x ∈ es.map Prod.fst := by
  induction es with
  | nil => simpa [setEntries] using h
  | cons e es ih =>
    rw [setEntries] at h
    split at h
    · next same =>
      rw [List.map_cons, List.mem_cons] at h
      rcases h with rfl | h
      · exact .inl rfl
      · exact .inr (List.mem_cons_of_mem _ h)
    · rw [List.map_cons, List.mem_cons] at h
      rcases h with rfl | h
      · exact .inr List.mem_cons_self
      · exact (ih h).imp id (List.mem_cons_of_mem _)

theorem nodup_setEntries {k : κ} {v : ν} {es : List (κ × ν)} (h : (es.map Prod.fst).Nodup) :
    ((setEntries k v es).map Prod.fst).Nodup := by
  induction es with
  | nil => simp [setEntries]
  | cons e es ih =>
    rw [List.map_cons, List.nodup_cons] at h
    rw [setEntries]
    split
    · next same => simpa [← same] using h
    · next other =>
      rw [List.map_cons, List.nodup_cons]
      refine ⟨fun member => ?_, ih h.2⟩
      rcases mem_setEntries_keys member with same | member
      · exact other same
      · exact h.1 member

/-- `k` is set to `v`. -/
def set (m : OrderedMap κ ν) (k : κ) (v : ν) : OrderedMap κ ν :=
  ⟨setEntries k v m.entries, nodup_setEntries m.nodup⟩

/-- `k` is removed. -/
def delete (m : OrderedMap κ ν) (k : κ) : OrderedMap κ ν :=
  m.filterMap fun k' v => if k' = k then none else some v

@[simp] theorem get_empty (k : κ) : (empty : OrderedMap κ ν).get k = none := rfl

theorem get_set (m : OrderedMap κ ν) (k k' : κ) (v : ν) :
    (m.set k v).get k' = if k' = k then some v else m.get k' := by
  unfold get set
  dsimp only
  induction m.entries with
  | nil => by_cases same : k' = k <;> simp [setEntries, same, eq_comm]
  | cons e es ih =>
    rw [setEntries]
    split
    · next here => subst here; by_cases same : k' = e.1 <;> simp [same, eq_comm]
    · next other =>
      by_cases found : e.1 = k'
      · subst found; simp [other]
      · simpa [found] using ih

@[simp] theorem get_set_self (m : OrderedMap κ ν) (k : κ) (v : ν) : (m.set k v).get k = some v := by
  simp [get_set]

theorem get_set_of_ne (m : OrderedMap κ ν) {k k' : κ} (v : ν) (h : k' ≠ k) :
    (m.set k v).get k' = m.get k' := by
  simp [get_set, h]

/-- Setting a key to the value it has changes nothing, not even the order. -/
theorem set_eq_self {m : OrderedMap κ ν} {k : κ} {v : ν} (h : m.get k = some v) : m.set k v = m := by
  obtain ⟨entries, distinct⟩ := m
  have same : setEntries k v entries = entries := by
    have found : (entries.find? fun e => decide (e.1 = k)).map Prod.snd = some v := h
    clear h distinct
    induction entries with
    | nil => cases found
    | cons e es ih =>
      rw [setEntries]
      split
      · next here =>
        have value : e.2 = v := by simpa [here] using found
        rw [← here, ← value]
      · next other => rw [ih (by simpa [other] using found)]
  unfold set
  dsimp only
  congr 1

theorem get_set_eq_update (m : OrderedMap κ ν) (k : κ) (v : ν) :
    (m.set k v).get = Function.update m.get k (some v) := by
  funext k'
  rw [get_set, Function.update_apply]

/-- The entries set one after the other. -/
def ofEntries (es : List (κ × ν)) : OrderedMap κ ν := es.foldl (fun m e => m.set e.1 e.2) empty

theorem setEntries_of_not_mem {k : κ} {v : ν} {es : List (κ × ν)} (h : k ∉ es.map Prod.fst) :
    setEntries k v es = es ++ [(k, v)] := by
  induction es with
  | nil => rfl
  | cons e es ih =>
    rw [List.map_cons, List.mem_cons, not_or] at h
    rw [setEntries, if_neg (Ne.symm h.1), ih h.2, List.cons_append]

/-- New keys go to the end, in order. -/
theorem entries_foldl_set (es : List (κ × ν)) (m : OrderedMap κ ν)
    (distinct : ((m.entries ++ es).map Prod.fst).Nodup) :
    (es.foldl (fun m e => m.set e.1 e.2) m).entries = m.entries ++ es := by
  induction es generalizing m with
  | nil => exact (List.append_nil _).symm
  | cons e es ih =>
    have absent : e.1 ∉ m.entries.map Prod.fst := by
      rw [List.map_append, List.nodup_append] at distinct
      exact fun member => distinct.2.2 e.1 member e.1 (by simp) rfl
    have placed : (m.set e.1 e.2).entries = m.entries ++ [e] := setEntries_of_not_mem absent
    have shape : m.entries ++ e :: es = m.entries ++ [e] ++ es := by simp
    rw [List.foldl_cons, ih _ (by rw [placed, ← shape]; exact distinct), placed, shape]

/-- Setting the entries of a map in their order gives the map. -/
theorem ofEntries_entries (m : OrderedMap κ ν) : ofEntries m.entries = m :=
  eq_of_entries (entries_foldl_set m.entries empty m.nodup)

/-- Setting a list of items in order: the last one of a key counts. -/
theorem get_foldl_set {β : Type*} (key : β → κ) (value : β → ν) (xs : List β)
    (m : OrderedMap κ ν) :
    (xs.foldl (fun m x => m.set (key x) (value x)) m).get =
      xs.foldl (fun f x => Function.update f (key x) (some (value x))) m.get := by
  induction xs generalizing m with
  | nil => rfl
  | cons x xs ih => rw [List.foldl_cons, ih, get_set_eq_update]; rfl

theorem get_foldl_set_of_not_mem {β : Type*} {key : β → κ} {xs : List β} {k : κ}
    (absent : k ∉ xs.map key) (value : β → ν) (m : OrderedMap κ ν) :
    (xs.foldl (fun m x => m.set (key x) (value x)) m).get k = m.get k := by
  induction xs generalizing m with
  | nil => rfl
  | cons x xs ih =>
    rw [List.map_cons, List.mem_cons, not_or] at absent
    rw [List.foldl_cons, ih absent.2, get_set_of_ne m _ absent.1]

/-- The value of a key that is set is that of one of its items. -/
theorem get_foldl_set_of_key_mem {β : Type*} {key : β → κ} {xs : List β} {k : κ}
    (present : k ∈ xs.map key) (value : β → ν) (m : OrderedMap κ ν) :
    ∃ x ∈ xs, key x = k ∧
      (xs.foldl (fun m x => m.set (key x) (value x)) m).get k = some (value x) := by
  induction xs generalizing m with
  | nil => cases present
  | cons x xs ih =>
    rw [List.foldl_cons]
    by_cases later : k ∈ xs.map key
    · obtain ⟨y, member, same, got⟩ := ih later (m.set (key x) (value x))
      exact ⟨y, List.mem_cons_of_mem x member, same, got⟩
    · rw [List.map_cons, List.mem_cons, or_iff_left later] at present
      refine ⟨x, List.mem_cons_self, present.symm, ?_⟩
      rw [get_foldl_set_of_not_mem later, present, get_set_self]

section ByKey

variable {β : Type*} (key : β → κ) (value : κ → ν)

/-- The items are set to what goes with their keys. -/
theorem get_foldl_set_of_get (xs : List β) {m : OrderedMap κ ν} {k : κ}
    (h : m.get k = some (value k)) :
    (xs.foldl (fun m x => m.set (key x) (value (key x))) m).get k = some (value k) := by
  induction xs generalizing m with
  | nil => exact h
  | cons x xs ih =>
    apply ih
    rw [get_set]
    split
    · next same => rw [same]
    · exact h

theorem get_foldl_set_of_mem {xs : List β} {x : β} (member : x ∈ xs) (m : OrderedMap κ ν) :
    (xs.foldl (fun m x => m.set (key x) (value (key x))) m).get (key x) =
      some (value (key x)) := by
  induction xs generalizing m with
  | nil => cases member
  | cons y ys ih =>
    rcases List.mem_cons.1 member with rfl | later
    · exact get_foldl_set_of_get key value ys (get_set_self m _ _)
    · exact ih later _

/-- Setting the same items again changes nothing. -/
theorem foldl_set_again (xs : List β) (m : OrderedMap κ ν) :
    xs.foldl (fun m x => m.set (key x) (value (key x)))
        (xs.foldl (fun m x => m.set (key x) (value (key x))) m) =
      xs.foldl (fun m x => m.set (key x) (value (key x))) m := by
  have found := fun x (member : x ∈ xs) => get_foldl_set_of_mem key value member m
  generalize xs.foldl (fun m x => m.set (key x) (value (key x))) m = m' at found
  clear m
  induction xs with
  | nil => rfl
  | cons y ys ih =>
    rw [List.foldl_cons, set_eq_self (found y List.mem_cons_self)]
    exact ih fun x member => found x (List.mem_cons_of_mem _ member)

end ByKey

theorem has_foldl_set {β : Type*} (key : β → κ) (value : β → ν) (xs : List β)
    (m : OrderedMap κ ν) (k : κ) :
    (xs.foldl (fun m x => m.set (key x) (value x)) m).has k =
      (m.has k || decide (k ∈ xs.map key)) := by
  induction xs generalizing m with
  | nil => simp
  | cons x xs ih =>
    rw [List.foldl_cons, ih]
    unfold has
    rw [get_set]
    by_cases same : k = key x <;> simp [same]

theorem get_filterMap {ν' : Type*} (m : OrderedMap κ ν) (g : κ → ν → Option ν') (k : κ) :
    (m.filterMap g).get k = (m.get k).bind (g k) := by
  obtain ⟨entries, distinct⟩ := m
  unfold get filterMap
  dsimp only
  induction entries with
  | nil => rfl
  | cons e es ih =>
    rw [List.map_cons, List.nodup_cons] at distinct
    by_cases here : e.1 = k
    · subst here
      -- the key is not further down, so a dropped entry leaves nothing under it
      have absent : (es.find? fun e' => decide (e'.1 = e.1)) = none := by
        rw [List.find?_eq_none]
        intro e' member same
        exact distinct.1 (of_decide_eq_true same ▸ List.mem_map_of_mem member)
      have rest := ih distinct.2
      rw [absent] at rest
      cases kept : g e.1 e.2 with
      | none => simpa [kept] using rest
      | some v => simp [kept]
    · have rest := ih distinct.2
      cases kept : g e.1 e.2 with
      | none => simpa [kept, here] using rest
      | some v => simpa [kept, here] using rest

theorem get_delete (m : OrderedMap κ ν) (k k' : κ) :
    (m.delete k).get k' = if k' = k then none else m.get k' := by
  unfold delete
  rw [get_filterMap]
  split
  · exact Option.bind_fun_none _
  · exact Option.bind_fun_some _

@[simp] theorem get_mapValues {ν' : Type*} (m : OrderedMap κ ν) (f : ν → ν') (k : κ) :
    (m.mapValues f).get k = (m.get k).map f := by
  unfold get mapValues
  dsimp only
  induction m.entries with
  | nil => rfl
  | cons e es ih =>
    by_cases here : e.1 = k
    · simp [here]
    · simpa [here] using ih

/-- An entry is what is under its key. -/
theorem get_of_mem {m : OrderedMap κ ν} {k : κ} {v : ν} (member : (k, v) ∈ m.entries) :
    m.get k = some v := by
  cases found : m.entries.find? fun e => decide (e.1 = k) with
  | none =>
    rw [List.find?_eq_none] at found
    simpa using found _ member
  | some e =>
    have key : e.1 = k := by simpa using List.find?_some found
    have same : e = (k, v) :=
      List.inj_on_of_nodup_map m.nodup (List.mem_of_find?_eq_some found) member key
    rw [get, found, same]
    rfl

theorem mem_of_get {m : OrderedMap κ ν} {k : κ} {v : ν} (here : m.get k = some v) :
    (k, v) ∈ m.entries := by
  obtain ⟨e, found, rfl⟩ := Option.map_eq_some_iff.1 here
  have key : e.1 = k := by simpa using List.find?_some found
  rw [← key]
  exact List.mem_of_find?_eq_some found

theorem get_of_isEmpty {m : OrderedMap κ ν} (h : m.isEmpty = true) (k : κ) : m.get k = none := by
  rw [isEmpty, List.isEmpty_iff] at h
  simp [get, h]

section Lists

variable {α : Type*}

/-- The list under `k`, the empty one when `k` is not there. -/
def listAt (m : OrderedMap κ (List α)) (k : κ) : List α := (m.get k).getD []

/-- `x` goes to the end of the list under `k`. -/
def push (m : OrderedMap κ (List α)) (k : κ) (x : α) : OrderedMap κ (List α) :=
  m.set k (m.listAt k ++ [x])

/-- Every list is filtered, and the keys whose lists become empty are removed. -/
def prune (m : OrderedMap κ (List α)) (p : α → Bool) : OrderedMap κ (List α) :=
  m.filterMap fun _ xs => if (xs.filter p).isEmpty then none else some (xs.filter p)

@[simp] theorem listAt_empty (k : κ) : (empty : OrderedMap κ (List α)).listAt k = [] := rfl

/-- A key that something is listed under is one of the keys. -/
theorem mem_keys_of_listAt {m : OrderedMap κ (List α)} {k : κ} {x : α} (listed : x ∈ m.listAt k) :
    k ∈ m.keys := by
  unfold listAt get at listed
  cases found : m.entries.find? fun e => decide (e.1 = k) with
  | none =>
    rw [found] at listed
    cases listed
  | some e =>
    have key : e.1 = k := by simpa using List.find?_some found
    exact List.mem_map.2 ⟨e, List.mem_of_find?_eq_some found, key⟩

theorem listAt_push (m : OrderedMap κ (List α)) (k k' : κ) (x : α) :
    (m.push k x).listAt k' = if k' = k then m.listAt k' ++ [x] else m.listAt k' := by
  unfold push
  rw [listAt, get_set]
  split
  · next same => rw [same, Option.getD_some]
  · rfl

/-- Pushing a list of items appends to each list the items of its key. -/
theorem listAt_foldl_push {β : Type*} (key : β → κ) (item : β → α) (xs : List β)
    (m : OrderedMap κ (List α)) (k : κ) :
    (xs.foldl (fun m x => m.push (key x) (item x)) m).listAt k =
      m.listAt k ++ (xs.filter fun x => decide (key x = k)).map item := by
  induction xs generalizing m with
  | nil => simp
  | cons x xs ih =>
    rw [List.foldl_cons, ih, listAt_push]
    by_cases same : key x = k
    · subst same; simp
    · rw [if_neg (Ne.symm same)]; simp [same]

theorem listAt_prune (m : OrderedMap κ (List α)) (p : α → Bool) (k : κ) :
    (m.prune p).listAt k = (m.listAt k).filter p := by
  unfold listAt prune
  rw [get_filterMap]
  cases m.get k with
  | none => rfl
  | some xs =>
    rw [Option.bind_some]
    split
    · next empty => simpa using empty
    · rfl

omit [DecidableEq κ] in
/-- Pruning leaves no empty list. -/
theorem ne_nil_of_mem_prune {m : OrderedMap κ (List α)} {p : α → Bool} {e : κ × List α}
    (member : e ∈ (m.prune p).entries) : e.2 ≠ [] := by
  obtain ⟨xs, kept⟩ := mem_filterMap member
  split at kept
  · cases kept
  · next some_left =>
    rw [← Option.some.inj kept]
    exact fun none_left => some_left (List.isEmpty_iff.2 none_left)

end Lists

end OrderedMap
