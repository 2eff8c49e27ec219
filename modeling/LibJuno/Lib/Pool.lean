import Mathlib.Data.List.Nodup
import Mathlib.Data.List.Perm.Basic

/-!
# Pools carved in order

A pool hands out units whose names are `name 0, name 1, …`, carved in this order.
`Pool name carved live free`: the units carved so far are each either live (handed
out) or free (waiting to be handed out again), and none is both or twice in one list.
The four moves of an allocator keep it: carve a unit, reuse a free one, shelve a live
one, and give back the unit carved last.
-/

/-- The units below `carved` are split between `live` and `free`. -/
def Pool {α : Type*} (name : Nat → α) (carved : Nat) (live free : List α) : Prop :=
  (live ++ free).Perm ((List.range carved).map name)

namespace Pool

variable {α : Type*} {name : Nat → α} {carved : Nat} {live free : List α}

theorem empty : Pool name 0 [] [] := List.Perm.refl _

/-- A new unit is carved and put on the free list. -/
theorem carve (pool : Pool name carved live free) :
    Pool name (carved + 1) live (free ++ [name carved]) := by
  unfold Pool at *
  rw [List.range_succ, List.map_append, ← List.append_assoc]
  exact pool.append_right _

/-- The last unit of the free list is handed out. -/
theorem reuse {x : α} (pool : Pool name carved live (free ++ [x])) :
    Pool name carved (x :: live) free := by
  unfold Pool at *
  apply List.Perm.trans _ pool
  rw [← List.append_assoc, List.cons_append]
  exact (List.perm_append_singleton x (live ++ free)).symm

section Release

variable [DecidableEq α]

/-- A live unit is put on the free list. -/
theorem shelve {x : α} (member : x ∈ live) (pool : Pool name carved live free) :
    Pool name carved (live.erase x) (free ++ [x]) := by
  unfold Pool at *
  apply List.Perm.trans _ pool
  rw [← List.append_assoc]
  apply (List.perm_append_singleton x _).trans
  rw [← List.cons_append]
  exact (List.perm_cons_erase member).symm.append_right free

/-- The unit carved last is given back. -/
theorem shrink (member : name carved ∈ live) (pool : Pool name (carved + 1) live free) :
    Pool name carved (live.erase (name carved)) free := by
  unfold Pool at *
  rw [List.range_succ, List.map_append] at pool
  have split : (name carved :: (live.erase (name carved) ++ free)).Perm
      (name carved :: (List.range carved).map name) := by
    rw [← List.cons_append]
    apply ((List.perm_cons_erase member).symm.append_right free).trans
    exact pool.trans (List.perm_append_singleton _ _)
  exact split.cons_inv

end Release

theorem length (pool : Pool name carved live free) : live.length + free.length = carved := by
  have lengths := List.Perm.length_eq pool
  simpa using lengths

theorem mem_iff (pool : Pool name carved live free) {x : α} :
    x ∈ live ∨ x ∈ free ↔ ∃ k, k < carved ∧ x = name k := by
  rw [← List.mem_append, List.Perm.mem_iff pool]
  simp [eq_comm]

theorem of_live (pool : Pool name carved live free) {x : α} (member : x ∈ live) :
    ∃ k, k < carved ∧ x = name k := pool.mem_iff.1 (.inl member)

theorem of_free (pool : Pool name carved live free) {x : α} (member : x ∈ free) :
    ∃ k, k < carved ∧ x = name k := pool.mem_iff.1 (.inr member)

/-- A carved unit that is not live is free. -/
theorem free_iff (pool : Pool name carved live free) {x : α} (idle : x ∉ live) :
    x ∈ free ↔ ∃ k, k < carved ∧ x = name k := by
  rw [← pool.mem_iff]
  simp [idle]

theorem nodup (distinct : Function.Injective name) (pool : Pool name carved live free) :
    (live ++ free).Nodup :=
  (List.Perm.nodup_iff pool).2 (List.nodup_range.map distinct)

theorem disjoint (distinct : Function.Injective name) (pool : Pool name carved live free)
    {x : α} (member : x ∈ live) : x ∉ free := by
  intro both
  exact List.disjoint_of_nodup_append (pool.nodup distinct) member both

end Pool
