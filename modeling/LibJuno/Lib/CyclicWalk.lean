import Mathlib.Order.Interval.Finset.Nat

/-!
# A walk around a ring, on numbers that wrap

A walk visits `(h + i) mod n` for `i < n`. If the sum is taken on numbers that wrap at `W`
first, the walk still visits every residue exactly if the sum does not wrap or the wrap is
a whole number of rounds (`walk_perm_iff`).
-/

namespace CyclicWalk

/-- The `i`-th step from `h` around a ring of `n`, the sum wrapping at `W`. -/
def step (W n h i : Nat) : Nat := (h + i) % W % n

/-- The walk of `n` steps. -/
def walk (W n h : Nat) : List Nat := (List.range n).map (step W n h)

/-- A walk whose sums do not wrap visits every residue. -/
theorem ring_perm (n h : Nat) : ((List.range n).map fun i => (h + i) % n).Perm (List.range n) := by
  have rounds := Nat.multiset_Ico_map_mod h n
  have sums : Multiset.Ico h (h + n) = ((List.range n).map fun i => h + i : List Nat) := by
    rw [← List.range'_eq_map_range]
    show ((List.range' h (h + n - h) : List Nat) : Multiset Nat) = _
    rw [Nat.add_sub_cancel_left]
  rw [sums, Multiset.map_coe, List.map_map] at rounds
  exact Multiset.coe_eq_coe.1 rounds

section Wrapped

variable {W n h : Nat}

/-- Two steps that meet leave a residue out. -/
theorem not_perm_of_meet {i j : Nat} (hi : i < n) (hj : j < n) (other : i ≠ j)
    (meet : step W n h i = step W n h j) : ¬(walk W n h).Perm (List.range n) := by
  intro perm
  have distinct : (walk W n h).Nodup := perm.nodup_iff.2 List.nodup_range
  exact other (List.inj_on_of_nodup_map distinct (List.mem_range.2 hi) (List.mem_range.2 hj) meet)

/-- A residue that no step visits. -/
theorem not_perm_of_missing {r : Nat} (hr : r < n) (missing : ∀ i, i < n → step W n h i ≠ r) :
    ¬(walk W n h).Perm (List.range n) := by
  intro perm
  obtain ⟨i, hi, here⟩ := List.mem_map.1 (perm.mem_iff.2 (List.mem_range.2 hr))
  exact missing i (List.mem_range.1 hi) here

/-- The walk visits every residue exactly if its sums do not wrap, or wrap by a whole number
of rounds. -/
theorem walk_perm_iff (below : h < W) (pos : 0 < n) :
    (walk W n h).Perm (List.range n) ↔ h + n ≤ W ∨ n ∣ W := by
  constructor
  · intro perm
    by_contra neither
    obtain ⟨wraps, uneven⟩ := not_or.1 neither
    have rest : 0 < W % n := Nat.pos_of_ne_zero fun zero => uneven (Nat.dvd_of_mod_eq_zero zero)
    have short : W % n < n := Nat.mod_lt W pos
    have le : W % n ≤ W := Nat.mod_le W n
    -- the sum wraps to 0 at step `W - h`
    have wrap : step W n h (W - h) = 0 := by
      rw [step, Nat.add_sub_cancel' (Nat.le_of_lt below), Nat.mod_self, Nat.zero_mod]
    rcases Nat.lt_or_ge (W - h) (W % n) with late | early
    · -- the residue `n - 1` is behind the last step before the wrap, and after it out of reach
      refine not_perm_of_missing (Nat.sub_lt pos Nat.one_pos) (fun i hi here => ?_) perm
      rcases Nat.lt_or_ge i (W - h) with before | behind
      · have rounds := Nat.div_add_mod W n
        have place : h + i = W % n - (W - h - i) + n * (W / n) := by omega
        rw [step, Nat.mod_eq_of_lt (by omega : h + i < W), place, Nat.add_mul_mod_self_left,
          Nat.mod_eq_of_lt (by omega)] at here
        omega
      · have low : (h + i) % W ≤ h + i - W := by
          rw [Nat.mod_eq_sub_mod (by omega)]
          exact Nat.mod_le _ _
        have lower : step W n h i ≤ (h + i) % W := Nat.mod_le _ _
        omega
    · -- the residue 0 was visited before the wrap, `W % n` steps earlier
      have before : step W n h (W - h - W % n) = 0 := by
        have place : h + (W - h - W % n) = W - W % n := by omega
        rw [step, place, Nat.mod_eq_of_lt (by omega : W - W % n < W)]
        exact Nat.sub_mod_eq_zero_of_mod_eq (Nat.mod_mod W n).symm
      exact not_perm_of_meet (by omega) (by omega) (by omega) (before.trans wrap.symm) perm
  · intro covers
    have unwrapped : ∀ i, i < n → step W n h i = (h + i) % n := by
      intro i hi
      rcases covers with fits | rounds
      · rw [step, Nat.mod_eq_of_lt (by omega : h + i < W)]
      · exact Nat.mod_mod_of_dvd _ rounds
    rw [walk, List.map_congr_left fun i hi => unwrapped i (List.mem_range.1 hi)]
    exact ring_perm n h

end Wrapped

end CyclicWalk
