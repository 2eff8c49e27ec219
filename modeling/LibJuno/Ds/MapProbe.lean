import LibJuno.Ds.Map
import LibJuno.Lib.CyclicWalk

/-!
# The probe sequence of the map

`(iHash + i) % zCapacity` in `size_t` arithmetic, as `JunoDs_MapGetWithKey` and
`JunoDs_MapRemove` compute it. `probe_covers_iff` says when it visits every slot, and so when
`JUNO_STATUS_TABLE_FULL_ERROR` means that the table is full.
-/

namespace LibJuno.Ds.MapTable

open Memory

variable {ω α κ : Type} {M : ItemMemory ω α} [DecidableEq κ] (T : MapTable M κ)

/-- The slots that the probe for the key visits, in order. -/
def probed (k : κ) : List Nat := (List.range T.array.zCapacity).map fun i => T.layout.path k i

/-- The probe for the key covers the table: it visits every slot once, and a set of the key
reports a full table only when every slot holds some other key. -/
structure ProbeCovers (k : κ) : Prop where
  visits : (T.probed k).Perm (List.range T.array.zCapacity)
  full : ∀ (handler : Handler M) (c : Cell M) (w : ω), T.key (M.item w c.pvAddr) = k →
    (mapSet M.apis (T.map handler) c.toPointer w).1 = .tableFullError →
      ∀ s, T.null (T.contents w s) = false ∧ T.key (T.contents w s) ≠ k

/-- The probe is a walk around the slots, on numbers of `size_t`. -/
theorem probed_eq (k : κ) :
    T.probed k = CyclicWalk.walk (sizeMax + 1) T.array.zCapacity (T.hashOf k) := rfl

/-- A set reports a full table when no slot that the probe visits stops it. -/
theorem mapSet_full (handler : Handler M) (c : Cell M) {k : κ} {w : ω} (own : T.key (M.item w c.pvAddr) = k)
    (full : (mapSet M.apis (T.map handler) c.toPointer w).1 = .tableFullError) :
    ∀ i, i < T.array.zCapacity → T.null (T.contents w (T.layout.path k i)) = false ∧
      T.key (T.contents w (T.layout.path k i)) ≠ k := by
  have spec := T.keys.mapSet_spec handler c own
  rcases spec with ⟨-, -, missed⟩ | ⟨d, -, ok, -⟩
  · obtain ⟨none_, -⟩ := missed T.answers fun d w => T.copy_ok d c w
    intro i hi
    have goes : Probing.stopsAt T.layout (T.contents w) k i = false :=
      Bool.eq_false_iff.2 (List.find?_eq_none.1 none_ i (List.mem_range.2 hi))
    rwa [Probing.stopsAt, Bool.or_eq_false_iff, decide_eq_false_iff_not] at goes
  · have full : (mapSet M.apis (T.keys.map handler) c.toPointer w).1 = .tableFullError := full
    rw [ok] at full
    contradiction

/-- The probe for a key covers the table exactly if the sums of hash and step do not wrap, or
the capacity divides the size of `size_t`. -/
theorem probe_covers_iff (k : κ) (size : T.hashOf k ≤ sizeMax) :
    T.ProbeCovers k ↔ T.hashOf k + T.array.zCapacity ≤ sizeMax + 1 ∨ T.array.zCapacity ∣ sizeMax + 1 := by
  have walks : (T.probed k).Perm (List.range T.array.zCapacity) ↔
      T.hashOf k + T.array.zCapacity ≤ sizeMax + 1 ∨ T.array.zCapacity ∣ sizeMax + 1 := by
    rw [probed_eq]
    exact CyclicWalk.walk_perm_iff (Nat.lt_succ_of_le size) T.pos
  rw [← walks]
  refine ⟨ProbeCovers.visits, fun visits => ⟨visits, fun handler c w own full s => ?_⟩⟩
  obtain ⟨i, hi, here⟩ := List.mem_map.1 (visits.mem_iff.2 (List.mem_range.2 s.2))
  have slot : T.layout.path k i = s := Fin.ext here
  rw [← slot]
  exact T.mapSet_full handler c own full i (List.mem_range.1 hi)

end LibJuno.Ds.MapTable

namespace LibJuno.Ds

open Memory

/-- A hash near 0 in a table of ten slots. -/
theorem probe_covers_iff_low : plainTable.ProbeCovers 5 :=
  (plainTable.probe_covers_iff 5 (by decide)).2 (.inl (by decide))

/-- Every slot but the last holds an entry, and the variable one for the last hash of all. -/
def nineEntries : Nat → Option (Nat × Nat) := fun a =>
  if a = 1 then some (18446744073709551615, 0) else if 2 ≤ a ∧ a ≤ 10 then some (a, 0) else none

/-- The probe for the last hash of all looks at slot 5 twice and never at slot 9: a set
reports a full table although slot 9 is empty. -/
theorem probe_misses_slot :
    plainTable.probed 18446744073709551615 = [5, 0, 1, 2, 3, 4, 5, 6, 7, 8] ∧
      (mapSet (plainMemory _).apis (plainTable.map (noPlainHandler _)) plainVariable.toPointer
        nineEntries).1 = .tableFullError ∧
      ¬plainTable.ProbeCovers 18446744073709551615 := by
  refine ⟨by decide, by decide, fun covers => ?_⟩
  have stored := (covers.full (noPlainHandler _) plainVariable.toCell nineEntries (by decide) (by decide)
    ⟨9, by decide⟩).1
  revert stored
  decide

end LibJuno.Ds
