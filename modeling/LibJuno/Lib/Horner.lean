import Mathlib.Algebra.Regular.Basic
import Mathlib.Algebra.Ring.Regular
import Mathlib.Data.List.Induction
import Mathlib.Tactic.Ring

/-!
# Hashes by Horner's rule

`h ↦ h * m + x` over the items of a message, in any commutative ring. A later item changes
the hash by a bijection when `m` is regular, so two messages that differ inside a window only
collide exactly when their windows do on their own.
-/

namespace Horner

section Semiring

variable {R : Type*} [CommSemiring R] (m : R)

/-- The hash of a message from a seed. -/
def run (seed : R) (xs : List R) : R := xs.foldl (fun h x => h * m + x) seed

@[simp] theorem run_nil (seed : R) : run m seed [] = seed := rfl

@[simp] theorem run_cons (seed x : R) (xs : List R) : run m seed (x :: xs) = run m (seed * m + x) xs := rfl

theorem run_append (seed : R) (xs ys : List R) : run m seed (xs ++ ys) = run m (run m seed xs) ys :=
  List.foldl_append ..

/-- The seed is carried by a power of the multiplier. -/
theorem run_seed (seed : R) (xs : List R) : run m seed xs = seed * m ^ xs.length + run m 0 xs := by
  induction xs generalizing seed with
  | nil => simp
  | cons x xs ih =>
    rw [run_cons, run_cons, ih, ih (0 * m + x), List.length_cons]
    ring

end Semiring

section Ring

variable {R : Type*} [CommRing R] {m : R} (regular : IsRegular m)

include regular

theorem run_left_injective (xs : List R) {a b : R} (same : run m a xs = run m b xs) : a = b := by
  rw [run_seed, run_seed m b] at same
  exact (regular.pow xs.length).right (add_right_cancel same)

/-- What surrounds a window does not matter for a collision. -/
theorem run_window_iff (seed : R) (before after : List R) {u u' : List R} (length : u.length = u'.length) :
    run m seed (before ++ u ++ after) = run m seed (before ++ u' ++ after) ↔ run m 0 u = run m 0 u' := by
  rw [run_append, run_append, run_append, run_append, run_seed m _ u, run_seed m _ u', length]
  constructor
  · intro same
    exact add_left_cancel (run_left_injective regular after same)
  · intro same
    rw [same]

end Ring

section Numbers

/-- A numeral with small digits has a bounded value. -/
theorem run_le (base : Nat) {digit : Nat} {xs : List Nat} (small : ∀ x ∈ xs, x ≤ digit) :
    run (base + 1) 0 xs * base + digit ≤ digit * (base + 1) ^ xs.length := by
  induction xs using List.reverseRecOn with
  | nil => simp
  | append_singleton xs x ih =>
    have before := ih fun y member => small y (List.mem_append_left _ member)
    have last : x ≤ digit := small x (by simp)
    rw [run_append, run_cons, run_nil, List.length_append, List.length_singleton]
    have scaled : (run (base + 1) 0 xs * base + digit) * (base + 1) ≤
        digit * (base + 1) ^ xs.length * (base + 1) := Nat.mul_le_mul_right _ before
    have place : x * base ≤ digit * base := Nat.mul_le_mul_right _ last
    calc (run (base + 1) 0 xs * (base + 1) + x) * base + digit
        = run (base + 1) 0 xs * base * (base + 1) + x * base + digit := by ring
      _ ≤ run (base + 1) 0 xs * base * (base + 1) + digit * base + digit := by omega
      _ = (run (base + 1) 0 xs * base + digit) * (base + 1) := by ring
      _ ≤ digit * (base + 1) ^ (xs.length + 1) := by rw [pow_succ, ← mul_assoc]; exact scaled

end Numbers

end Horner
