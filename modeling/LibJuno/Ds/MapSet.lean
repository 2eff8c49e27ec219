import LibJuno.Ds.Map

/-!
# A set, and the get behind it

What one call of `JunoDs_MapSet` and of `JunoDs_MapGet` does to any table, reachable or not,
and for any descriptor. A set overwrites the slot where the search for the key stops, and a
get of the key stops there again.
-/

namespace LibJuno.Ds.KeyTable

open Memory

variable {ω α κ : Type} {M : ItemMemory ω α} [DecidableEq κ] (T : KeyTable M κ)

/-- The probe from the hash of the key meets an empty slot before an equal key, or meets
neither. -/
def Misses (w : ω) (k : κ) : Prop :=
  (∃ d, d < T.array.zCapacity ∧ T.null (T.contents w (T.layout.path k d)) = true ∧
    ∀ j, j < d → T.null (T.contents w (T.layout.path k j)) = true ∨
      T.key (T.contents w (T.layout.path k j)) ≠ k) ∨
  ∀ d, d < T.array.zCapacity → T.null (T.contents w (T.layout.path k d)) = false ∧
    T.key (T.contents w (T.layout.path k d)) ≠ k

section Calls

variable (handler : Handler M) (c : Cell M) {k : κ} {w : ω} (own : T.key (M.item w c.pvAddr) = k)

include own

/-- A get answers absent exactly if the probe misses the key. -/
theorem mapGet_absent_iff (answers : T.Answers) :
    let r := mapGet M.apis (T.map handler) c.toPointer w
    r.1.tStatus = .dneError ∨ r.1.tStatus = .tableFullError ↔ T.Misses w k := by
  intro r
  have misses : Probing.lookup T.layout (T.contents w) k = none ↔ T.Misses w k :=
    Probing.lookup_eq_none (L := T.layout) (f := T.contents w) (k := k)
  rw [← misses]
  rcases (T.mapGet_spec handler c own).2 answers with ⟨none_, full⟩ | ⟨d, found, here⟩
  · exact iff_of_true (.inr full) (Probing.lookup_full none_)
  · rw [show r.1 = _ from here]
    cases free : T.null (T.contents w (T.layout.path k d)) with
    | true => exact iff_of_true (.inl rfl) (Probing.lookup_free found free)
    | false =>
      rw [Probing.lookup_item found free]
      simp

end Calls

section Foreign

variable (handler : Handler M) {tItem : Pointer}
  (quiet : ∀ w, M.item (T.hashable.hash.deref tItem w).2 = M.item w)

include quiet

/-- The lookup turns a descriptor of another type away at the first slot. -/
theorem mapGetWithKey_foreign (other : tItem.ptApi ≠ M.ptApi) (w : ω) :
    let r := mapGetWithKey (T.map handler) tItem w
    r.1.tStatus ≠ .success ∧ M.item r.2 = M.item w := by
  intro r
  have hashable : (T.map handler).ptHashablePointerApi.deref = T.hashable := rfl
  have array : (T.map handler).ptHashMap.deref = T.array.root := rfl
  obtain ⟨n, size⟩ := Nat.exists_eq_succ_of_ne_zero (Nat.ne_of_gt T.pos)
  have capacity : T.array.root.zCapacity = n + 1 := size
  have call : r = mapGetWithKey (T.map handler) tItem w := rfl
  simp only [mapGetWithKey, T.verify handler, hashable, array, capacity, ne_eq, not_true_eq_false, if_false]
    at call
  have keeps := quiet w
  generalize T.hashable.hash.deref tItem w = hash at keeps call
  by_cases ok : hash.1.tStatus = .success
  swap
  · rw [if_pos ok] at call
    rw [call]
    exact ⟨ok, keeps⟩
  rw [if_neg (not_not.2 ok), mapProbe] at call
  have inside : sizeT (hash.1.tOk + 0) % T.array.root.zCapacity < T.array.zCapacity := Nat.mod_lt _ T.pos
  obtain ⟨keepsGet, slot⟩ := T.array.getAt_slot _ hash.2 inside
  simp only [array] at call
  generalize T.array.root.ptApi.deref.getAt.deref (sizeT (hash.1.tOk + 0) % T.array.root.zCapacity) hash.2 =
    get at keepsGet slot call
  by_cases okGet : get.1.tStatus = .success
  · have mismatch : get.1.tOk.ptApi ≠ tItem.ptApi := by
      rw [slot okGet, Cell.typed]
      exact Ne.symm other
    rw [if_neg (not_not.2 okGet), if_pos mismatch] at call
    rw [call]
    exact ⟨by simp, (handler.quiet _ _ _).trans (keepsGet.trans keeps)⟩
  · rw [if_pos okGet] at call
    rw [call]
    exact ⟨okGet, keepsGet.trans keeps⟩

/-- A set or a get of a descriptor that is not one of an item fails and changes nothing. -/
theorem map_foreign (other : pointerVerify M.apis tItem = .success → tItem.ptApi ≠ M.ptApi) (w : ω) :
    ((mapSet M.apis (T.map handler) tItem w).1 ≠ .success ∧
      M.item (mapSet M.apis (T.map handler) tItem w).2 = M.item w) ∧
    (mapGet M.apis (T.map handler) tItem w).1.tStatus ≠ .success ∧
      M.item (mapGet M.apis (T.map handler) tItem w).2 = M.item w := by
  by_cases valid : pointerVerify M.apis tItem = .success
  · have lookup := T.mapGetWithKey_foreign handler quiet (other valid) w
    simp only [mapSet, mapGet, T.verify handler, valid, ne_eq, not_true_eq_false, if_false]
    generalize mapGetWithKey (T.map handler) tItem w = slot at lookup
    rw [if_pos lookup.1, if_pos lookup.1]
    exact ⟨lookup, lookup⟩
  · simp only [mapSet, mapGet, T.verify handler, valid, ne_eq, not_true_eq_false, if_false,
      not_false_eq_true, if_true]
    simp

end Foreign

/-- A set that succeeds changes one slot, which was empty or held an item with an equal key,
and now holds the item; if no callback fails, a get of the key that follows it designates that
slot, and succeeds unless the item itself tests empty. A set that fails changes nothing. -/
structure SetSeen (handler : Handler M) (w : ω) (c : Cell M) : Prop where
  stored : (mapSet M.apis (T.map handler) c.toPointer w).1 = .success → ∃ s,
    (T.null (T.contents w s) = true ∨ T.key (T.contents w s) = T.key (M.item w c.pvAddr)) ∧
    T.contents (mapSet M.apis (T.map handler) c.toPointer w).2 =
      Function.update (T.contents w) s (M.item w c.pvAddr) ∧
    (T.Answers → ∀ c' : Cell M,
      T.key (M.item (mapSet M.apis (T.map handler) c.toPointer w).2 c'.pvAddr) = T.key (M.item w c.pvAddr) →
      (mapGet M.apis (T.map handler) c'.toPointer (mapSet M.apis (T.map handler) c.toPointer w).2).1 =
        ⟨if T.null (M.item w c.pvAddr) then .dneError else .success, (T.array.slot s).toPointer⟩)
  failed : (mapSet M.apis (T.map handler) c.toPointer w).1 ≠ .success →
    T.contents (mapSet M.apis (T.map handler) c.toPointer w).2 = T.contents w

theorem setSeen (handler : Handler M) (w : ω) (c : Cell M) : T.SetSeen handler w c := by
  have spec := T.mapSet_spec handler c (w := w) rfl
  have follow := fun c' own => T.mapGet_spec handler c' (k := T.key (M.item w c.pvAddr))
    (w := (mapSet M.apis (T.map handler) c.toPointer w).2) own
  constructor
  all_goals generalize mapSet M.apis (T.map handler) c.toPointer w = r at spec follow
  · intro ok
    rcases spec with ⟨failed, -⟩ | ⟨d, found, -, written⟩
    · exact absurd ok failed
    have next := T.contents_slot _ written
    refine ⟨_, ?_, next, fun answers c' own => ?_⟩
    · obtain ⟨-, stops, -⟩ := Probing.find_eq_some.1 found
      rwa [Probing.stopsAt, Bool.or_eq_true, decide_eq_true_eq] at stops
    · have again := Probing.find_update found (x := M.item w c.pvAddr) (.inr rfl)
      rw [← next] at again
      rcases (follow c' own).2 answers with ⟨none_, -⟩ | ⟨d', found', here⟩
      · rw [none_] at again
        contradiction
      · obtain rfl : d' = d := Option.some.inj (found'.symm.trans again)
        rw [here, next, Function.update_self]
  · intro failed
    rcases spec with ⟨-, same, -⟩ | ⟨d, -, ok, -⟩
    · exact T.contents_congr same
    · exact absurd ok failed

/-- On every table and for every descriptor: a set changes at most the slot of the key, where
a get finds the item unless it tests empty; a get changes nothing, and answers absent exactly
if the probe misses the key; what is no item's descriptor is turned away. -/
theorem map_set_get (handler : Handler M) (w : ω) :
    (∀ c : Cell M, T.SetSeen handler w c) ∧
    (∀ c : Cell M, let r := mapGet M.apis (T.map handler) c.toPointer w
      T.contents r.2 = T.contents w ∧
      (T.Answers → (r.1.tStatus = .dneError ∨ r.1.tStatus = .tableFullError ↔
        T.Misses w (T.key (M.item w c.pvAddr))))) ∧
    (∀ tItem : Pointer, (∀ w, M.item (T.hashable.hash.deref tItem w).2 = M.item w) →
      (pointerVerify M.apis tItem = .success → tItem.ptApi ≠ M.ptApi) →
      (mapSet M.apis (T.map handler) tItem w).1 ≠ .success ∧
      T.contents (mapSet M.apis (T.map handler) tItem w).2 = T.contents w ∧
      (mapGet M.apis (T.map handler) tItem w).1.tStatus ≠ .success ∧
      T.contents (mapGet M.apis (T.map handler) tItem w).2 = T.contents w) := by
  refine ⟨T.setSeen handler w, fun c => ⟨?_, fun answers => ?_⟩, fun tItem quiet other => ?_⟩
  · exact T.contents_congr (T.mapGet_spec handler c rfl).1
  · exact T.mapGet_absent_iff handler c rfl answers
  · obtain ⟨⟨failed, same⟩, failed', same'⟩ := T.map_foreign handler quiet other w
    exact ⟨failed, T.contents_congr same, failed', T.contents_congr same'⟩

end LibJuno.Ds.KeyTable

namespace LibJuno.Ds

open Memory

/-- The variable holds an entry for key 15, and the table one for key 5 in the slot that both
hash to. -/
def plainEntries : Nat → Option (Nat × Nat) := fun a =>
  if a = 1 then some (15, 200) else if a = 7 then some (5, 100) else none

/-- A set goes past the entry of the other key, and the get finds what it stored. -/
theorem map_set_get_plain :
    let r := mapSet (plainMemory _).apis (plainTable.keys.map (noPlainHandler _)) plainVariable.toPointer
      plainEntries
    ∃ s, plainTable.keys.contents r.2 =
        Function.update (plainTable.keys.contents plainEntries) s (some (15, 200)) ∧
      (mapGet (plainMemory _).apis (plainTable.keys.map (noPlainHandler _)) plainVariable.toPointer r.2).1 =
        ⟨.success, (plainTable.array.slot s).toPointer⟩ := by
  have seen := (plainTable.keys.map_set_get (noPlainHandler _) plainEntries).1 plainVariable.toCell
  obtain ⟨s, -, next, found⟩ := seen.stored rfl
  exact ⟨s, next, found plainTable.answers plainVariable.toCell rfl⟩

/-- A set of an entry that itself tests empty succeeds, and the get behind it finds nothing. -/
theorem map_set_empty :
    let r := mapSet (plainMemory _).apis (plainTable.keys.map (noPlainHandler _)) plainVariable.toPointer
      fun _ => none
    r.1 = .success ∧ (mapGet (plainMemory _).apis (plainTable.keys.map (noPlainHandler _))
      plainVariable.toPointer r.2).1.tStatus = .dneError := by
  decide

end LibJuno.Ds
