import Mathlib.Data.List.Basic
import Mathlib.Data.List.Range
import Mathlib.Logic.Function.Basic

/-!
# Open addressing

A table in which every key has a path of slots to look at, and a search
walks `steps` slots of the path at most, until it meets a free slot or the key. `Reachable` says that the search
for the key of a stored item ends at that item; then the table is a finite map
(`lookup_update`), a slot given up keeps it one exactly if it blocks no other stored item
(`Reachable.reset`, `lookup_blocked`).
-/

namespace Probing

/-- What the search sees of an item, and the path of a key. -/
structure Layout (ι α κ : Type*) where
  null : α → Bool
  key : α → κ
  path : κ → Nat → ι
  steps : Nat

variable {ι α κ : Type*} [DecidableEq κ] (L : Layout ι α κ) (f : ι → α)

/-- The search for `k` stops at step `i` of its path. -/
def stopsAt (k : κ) (i : Nat) : Bool :=
  L.null (f (L.path k i)) || L.key (f (L.path k i)) = k

/-- The step at which the search for `k` stops. -/
def find (k : κ) : Option Nat := (List.range L.steps).find? (stopsAt L f k)

/-- The item that the search for `k` finds. -/
def lookup (k : κ) : Option α :=
  match find L f k with
  | some i => if L.null (f (L.path k i)) then none else some (f (L.path k i))
  | none => none

/-- Slot `s` holds an item. -/
abbrev Stored (s : ι) : Prop := L.null (f s) = false

/-- The search for the key of a stored item ends at that item. -/
def Reachable : Prop :=
  ∀ s, Stored L f s → ∃ i, find L f (L.key (f s)) = some i ∧ L.path (L.key (f s)) i = s

/-- Slot `s` comes before slot `t` on the path of the key stored in `t`. -/
def Blocks (s t : ι) : Prop :=
  ∃ i, i < L.steps ∧ L.path (L.key (f t)) i = s ∧ ∀ j, j ≤ i → L.path (L.key (f t)) j ≠ t

variable {L f}

theorem find_eq_some {k : κ} {i : Nat} :
    find L f k = some i ↔ i < L.steps ∧ stopsAt L f k i = true ∧ ∀ j, j < i → stopsAt L f k j = false := by
  rw [find, List.find?_range_eq_some]
  simp only [List.mem_range, Bool.not_eq_true']
  constructor
  · rintro ⟨stops, lt, first⟩
    exact ⟨lt, stops, first⟩
  · rintro ⟨lt, stops, first⟩
    exact ⟨stops, lt, first⟩

/-- A step that stops the search bounds the step at which it stops. -/
theorem find_le {k : κ} {i : Nat} (lt : i < L.steps) (stops : stopsAt L f k i = true) :
    ∃ j, j ≤ i ∧ find L f k = some j := by
  cases found : find L f k with
  | none =>
    rw [find, List.find?_eq_none] at found
    exact absurd stops (found i (List.mem_range.2 lt))
  | some j =>
    obtain ⟨-, -, first⟩ := find_eq_some.1 found
    refine ⟨j, ?_, rfl⟩
    by_contra later
    rw [first i (by omega)] at stops
    contradiction

theorem lookup_full {k : κ} (none_ : find L f k = none) : lookup L f k = none := by
  simp [lookup, none_]

theorem lookup_free {k : κ} {i : Nat} (found : find L f k = some i)
    (free : L.null (f (L.path k i)) = true) : lookup L f k = none := by
  simp [lookup, found, free]

theorem lookup_item {k : κ} {i : Nat} (found : find L f k = some i)
    (item : L.null (f (L.path k i)) = false) : lookup L f k = some (f (L.path k i)) := by
  simp [lookup, found, item]

/-- The search for a key finds nothing exactly if its path meets a free slot before the key,
or neither. -/
theorem lookup_eq_none {k : κ} : lookup L f k = none ↔
    (∃ d, d < L.steps ∧ L.null (f (L.path k d)) = true ∧
      ∀ j, j < d → L.null (f (L.path k j)) = true ∨ L.key (f (L.path k j)) ≠ k) ∨
    ∀ d, d < L.steps → L.null (f (L.path k d)) = false ∧ L.key (f (L.path k d)) ≠ k := by
  have goes : ∀ j, stopsAt L f k j = false ↔ L.null (f (L.path k j)) = false ∧ L.key (f (L.path k j)) ≠ k := by
    intro j
    rw [stopsAt, Bool.or_eq_false_iff, decide_eq_false_iff_not]
  constructor
  · intro absent
    cases found : find L f k with
    | none =>
      rw [find, List.find?_eq_none] at found
      exact .inr fun d hd => (goes d).1 (Bool.eq_false_iff.2 (found d (List.mem_range.2 hd)))
    | some i =>
      obtain ⟨lt, -, first⟩ := find_eq_some.1 found
      cases free : L.null (f (L.path k i)) with
      | true => exact .inl ⟨i, lt, free, fun j hj => .inr ((goes j).1 (first j hj)).2⟩
      | false => simp [lookup_item found free] at absent
  · rintro (⟨d, lt, free, before⟩ | misses)
    · obtain ⟨i, le, found⟩ := find_le lt (show stopsAt L f k d = true by simp [stopsAt, free])
      refine lookup_free found ?_
      rcases Nat.lt_or_eq_of_le le with earlier | rfl
      · -- the search stopped earlier, and not at the key
        obtain ⟨-, stops, -⟩ := find_eq_some.1 found
        rcases before i earlier with free | other
        · exact free
        · simpa [stopsAt, other] using stops
      · exact free
    · apply lookup_full
      rw [find, List.find?_eq_none]
      intro d hd
      rw [(goes d).2 (misses d (List.mem_range.1 hd))]
      exact Bool.false_ne_true

/-- What the search finds is stored under its key. -/
theorem lookup_stored {k : κ} {y : α}
    (found : lookup L f k = some y) : ∃ s, Stored L f s ∧ f s = y ∧ L.key y = k := by
  cases at_ : find L f k with
  | none => simp [lookup_full at_] at found
  | some i =>
    obtain ⟨-, stops, -⟩ := find_eq_some.1 at_
    cases free : L.null (f (L.path k i)) with
    | true => simp [lookup_free at_ free] at found
    | false =>
      rw [lookup_item at_ free, Option.some.injEq] at found
      have key : L.key (f (L.path k i)) = k := by simpa [stopsAt, free] using stops
      exact ⟨_, free, found, found ▸ key⟩

namespace Reachable

variable (h : Reachable L f)

include h

/-- A stored item is what the search for its key finds. -/
theorem lookup_eq {s : ι} (stored : Stored L f s) : lookup L f (L.key (f s)) = some (f s) := by
  obtain ⟨i, found, here⟩ := h s stored
  rw [lookup_item found (here.symm ▸ stored), here]

/-- No key is stored twice. -/
theorem unique {s t : ι} (hs : Stored L f s) (ht : Stored L f t) (same : L.key (f s) = L.key (f t)) :
    s = t := by
  obtain ⟨i, found, here⟩ := h s hs
  obtain ⟨j, found', here'⟩ := h t ht
  rw [same, found'] at found
  cases found
  rw [← here, ← here', same]

end Reachable

/-- Two tables in which the steps up to where the search stops in one stop it alike. -/
theorem find_congr {g : ι → α} {k : κ} {i : Nat} (found : find L f k = some i)
    (agree : ∀ j, j ≤ i → stopsAt L g k j = stopsAt L f k j) : find L g k = some i := by
  obtain ⟨lt, stops, first⟩ := find_eq_some.1 found
  refine find_eq_some.2 ⟨lt, ?_, fun j hj => ?_⟩
  · rw [agree i (Nat.le_refl i), stops]
  · rw [agree j (Nat.le_of_lt hj), first j hj]

/-- An empty table has every item reachable and finds nothing. -/
theorem reachable_empty (empty : ∀ s, L.null (f s) = true) : Reachable L f := by
  intro s stored
  have free := empty s
  rw [stored] at free
  contradiction

theorem lookup_empty
    (empty : ∀ s, L.null (f s) = true) : lookup L f = fun _ => none := by
  funext k
  apply Option.ext
  intro y
  simp only [reduceCtorEq, iff_false]
  intro found
  obtain ⟨s, stored, -, -⟩ := lookup_stored found
  have free := empty s
  rw [stored] at free
  contradiction

variable [DecidableEq ι]

instance (s t : ι) : Decidable (Blocks L f s t) :=
  inferInstanceAs (Decidable (∃ i, i < L.steps ∧ L.path (L.key (f t)) i = s ∧
    ∀ j, j ≤ i → L.path (L.key (f t)) j ≠ t))

/-- A slot that is not written stops the searches that it stopped. -/
theorem stopsAt_update {s : ι} {x : α} {k : κ} {i : Nat} (other : L.path k i ≠ s) :
    stopsAt L (Function.update f s x) k i = stopsAt L f k i := by
  rw [stopsAt, stopsAt, Function.update_of_ne other]

omit [DecidableEq κ] in
theorem stored_update {s t : ι} {x : α} (other : t ≠ s) :
    Stored L (Function.update f s x) t ↔ Stored L f t := by
  rw [Stored, Stored, Function.update_of_ne other]

/-- The search for a key stops where it did once the slot there is overwritten, if it stops at
the new item: the steps before look at other slots, as they did not stop it. -/
theorem find_update {x : α} {k : κ} {i : Nat} (found : find L f k = some i)
    (stays : L.null x = true ∨ L.key x = k) :
    find L (Function.update f (L.path k i) x) k = some i := by
  obtain ⟨lt, stops, first⟩ := find_eq_some.1 found
  refine find_eq_some.2 ⟨lt, by simpa [stopsAt] using stays, fun j hj => ?_⟩
  rw [stopsAt_update, first j hj]
  intro same
  have still := first j hj
  rw [stopsAt, same] at still
  rw [stopsAt, still] at stops
  contradiction

section Store

variable {x : α} {i : Nat} (found : find L f (L.key x) = some i)

include found

/-- Storing an item where the search for its key stops keeps all items reachable. -/
theorem Reachable.update (h : Reachable L f) (item : L.null x = false) :
    Reachable L (Function.update f (L.path (L.key x) i) x) := by
  obtain ⟨lt, stops, first⟩ := find_eq_some.1 found
  intro t stored
  by_cases here : t = L.path (L.key x) i
  · subst here
    rw [Function.update_self]
    exact ⟨i, find_update found (.inr rfl), rfl⟩
  · rw [Function.update_of_ne here]
    obtain ⟨j, at_, there⟩ := h t ((stored_update here).1 stored)
    refine ⟨j, find_congr at_ fun e he => ?_, there⟩
    by_cases same : L.path (L.key (f t)) e = L.path (L.key x) i
    swap
    · exact stopsAt_update same
    -- the search for the key of `t` passes by the slot, so the slot holds the key of `x`
    have earlier : e < j := by
      rcases Nat.lt_or_eq_of_le he with lt | rfl
      · exact lt
      · exact absurd (there.symm.trans same) here
    have passes := (find_eq_some.1 at_).2.2 e earlier
    rw [passes]
    simp only [stopsAt, same, Bool.or_eq_false_iff, decide_eq_false_iff_not] at passes
    have key : L.key (f (L.path (L.key x) i)) = L.key x := by
      simpa [stopsAt, passes.1] using stops
    simp only [stopsAt, same, Function.update_self, item, Bool.false_or, decide_eq_false_iff_not]
    rw [← key]
    exact passes.2

/-- Storing an item where the search for its key stops is an update of the map. -/
theorem lookup_update (h : Reachable L f)
    (item : L.null x = false) :
    lookup L (Function.update f (L.path (L.key x) i) x) =
      Function.update (lookup L f) (L.key x) (some x) := by
  have h' := h.update found item
  have lt := (find_eq_some.1 found).1
  have storedX : Stored L (Function.update f (L.path (L.key x) i) x) (L.path (L.key x) i) :=
    by simpa [Stored] using item
  funext k
  by_cases same : k = L.key x
  · subst same
    simpa using h'.lookup_eq storedX
  · rw [Function.update_of_ne same]
    apply Option.ext
    intro y
    constructor
    · intro found'
      obtain ⟨t, stored, rfl, rfl⟩ := lookup_stored found'
      have other : t ≠ L.path (L.key x) i := by
        rintro rfl
        simp at same
      rw [Function.update_of_ne other]
      exact h.lookup_eq ((stored_update other).1 stored)
    · intro found'
      obtain ⟨t, stored, rfl, rfl⟩ := lookup_stored found'
      have other : t ≠ L.path (L.key x) i := by
        rintro rfl
        obtain ⟨-, stops, -⟩ := find_eq_some.1 found
        simp only [stopsAt, stored, Bool.false_or, decide_eq_true_eq] at stops
        exact same stops
      have still := h'.lookup_eq ((stored_update (x := x) other).2 stored)
      rwa [Function.update_of_ne other] at still

end Store

section Reset

variable {s : ι} {y : α} (free : L.null y = true)

include free

/-- Giving up a slot keeps the other items reachable if it blocks none of them. -/
theorem Reachable.reset (h : Reachable L f)
    (clear : ∀ t, Stored L f t → t ≠ s → ¬Blocks L f s t) : Reachable L (Function.update f s y) := by
  intro t stored
  have other : t ≠ s := by
    rintro rfl
    simp [Stored, free] at stored
  have storedBefore := (stored_update other).1 stored
  rw [Function.update_of_ne other]
  obtain ⟨i, found, here⟩ := h t storedBefore
  refine ⟨i, find_congr found fun j hj => stopsAt_update fun same => ?_, here⟩
  obtain ⟨lt, -, first⟩ := find_eq_some.1 found
  refine clear t storedBefore other ⟨j, by omega, same, fun e he meets => ?_⟩
  have earlier : e < i := by
    rcases Nat.lt_or_eq_of_le hj with lt | rfl
    · omega
    · exact absurd (here.symm.trans same) other
  have passes := first e earlier
  simp [stopsAt, meets] at passes

/-- Giving up a slot that blocks no other item takes its key out of the map. -/
theorem lookup_reset (h : Reachable L f)
    (stored : Stored L f s) (clear : ∀ t, Stored L f t → t ≠ s → ¬Blocks L f s t) :
    lookup L (Function.update f s y) = Function.update (lookup L f) (L.key (f s)) none := by
  have h' := h.reset free clear
  funext k
  apply Option.ext
  intro z
  constructor
  · intro found
    obtain ⟨t, storedT, rfl, rfl⟩ := lookup_stored found
    have other : t ≠ s := by
      rintro rfl
      simp [Stored, free] at storedT
    have storedBefore := (stored_update other).1 storedT
    rw [Function.update_of_ne other, Function.update_of_ne]
    · exact h.lookup_eq storedBefore
    · exact fun same => other (h.unique storedBefore stored same)
  · intro found
    by_cases same : k = L.key (f s)
    · simp [same] at found
    · rw [Function.update_of_ne same] at found
      obtain ⟨t, storedT, rfl, rfl⟩ := lookup_stored found
      have other : t ≠ s := by
        rintro rfl
        exact same rfl
      have still := h'.lookup_eq ((stored_update (x := y) other).2 storedT)
      rwa [Function.update_of_ne other] at still

/-- Giving up a slot that blocks another item makes that item unreachable. -/
theorem lookup_blocked (h : Reachable L f) {t : ι}
    (stored : Stored L f t) (blocks : Blocks L f s t) :
    lookup L (Function.update f s y) (L.key (f t)) = none := by
  obtain ⟨i, lt, here, avoids⟩ := blocks
  have stops : stopsAt L (Function.update f s y) (L.key (f t)) i = true := by
    simp [stopsAt, here, free]
  obtain ⟨j, le, found⟩ := find_le lt stops
  unfold lookup
  rw [found]
  simp only [ite_eq_left_iff, Bool.not_eq_true]
  intro item
  -- the search stopped at an item of that key in a slot that was not given up
  exfalso
  have other : L.path (L.key (f t)) j ≠ s := by
    intro same
    rw [same, Function.update_self, free] at item
    contradiction
  obtain ⟨ltj, stopsJ, -⟩ := find_eq_some.1 found
  rw [stopsAt_update other] at stopsJ
  rw [Function.update_of_ne other] at item
  have key : L.key (f (L.path (L.key (f t)) j)) = L.key (f t) := by
    simpa [stopsAt, item] using stopsJ
  exact avoids j le (h.unique item stored key)

end Reset

end Probing
