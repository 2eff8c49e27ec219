import Mathlib.Algebra.Order.Group.Abs
import Mathlib.Algebra.Order.Ring.Int
import Mathlib.Tactic.Ring

/-!
# Rescaling with rounding

A fraction counted in parts of `1/a` is rescaled to parts of `1/b` by `rescale a b`,
rounding to nearest with halves up. Going to a finer scale and back loses nothing. Where
`a` is odd there are no halves, and the rescaled count is `Nearest`.
-/

/-- `x` parts of `1/a` in parts of `1/b`, rounded to nearest. -/
def rescale (a b x : Nat) : Nat := (x * b + a / 2) / a

/-- The scaled value is within half a part of the exact one. -/
theorem rescale_bounds {a : Nat} (b x : Nat) (pos : 0 < a) :
    rescale a b x * a ≤ x * b + a / 2 ∧ x * b + a / 2 < rescale a b x * a + a := by
  unfold rescale
  constructor
  · exact Nat.div_mul_le_self _ _
  · have lt := Nat.lt_div_mul_add pos (a := x * b + a / 2)
    exact lt

/-- A proper fraction stays proper. -/
theorem rescale_lt {a b x : Nat} (proper : x < a) (finer : a < b) : rescale a b x < b := by
  unfold rescale
  rw [Nat.div_lt_iff_lt_mul (by omega)]
  have le : (x + 1) * b ≤ a * b := Nat.mul_le_mul_right b proper
  have expand : (x + 1) * b = x * b + b := by ring
  have swap : b * a = a * b := Nat.mul_comm b a
  omega

/-- Rescaling to a finer scale and back gives the count one started from. -/
theorem rescale_rescale {a b : Nat} (x : Nat) (pos : 0 < a) (finer : a < b) :
    rescale b a (rescale a b x) = x := by
  obtain ⟨low, high⟩ := rescale_bounds b x pos
  show (rescale a b x * a + b / 2) / b = x
  apply Nat.div_eq_of_lt_le
  · omega
  · have expand : (x + 1) * b = x * b + b := by ring
    omega

/-- `x` is the integer nearest to `p / q`: no other is as near. -/
def Nearest (p q x : Nat) : Prop := ∀ y : Int, y ≠ x → |(x : Int) * q - p| < |y * q - p|

/-- An integer off by less than a half is the nearest one. -/
theorem nearest_of_lt_half {p q x : Nat} (low : 2 * (x * q) < 2 * p + q)
    (high : 2 * p < 2 * (x * q) + q) : Nearest p q x := by
  intro y other
  have far : y * q ≤ x * q - q ∨ (x : Int) * q + q ≤ y * q := by
    rcases lt_or_gt_of_ne other with below | above
    · left
      have le : (y + 1) * q ≤ x * q := Int.mul_le_mul_of_nonneg_right below (Int.natCast_nonneg q)
      have expand : (y + 1) * (q : Int) = y * q + q := by ring
      omega
    · right
      have le : ((x : Int) + 1) * q ≤ y * q :=
        Int.mul_le_mul_of_nonneg_right above (Int.natCast_nonneg q)
      have expand : ((x : Int) + 1) * q = x * q + q := by ring
      omega
  have cast : ((x * q : Nat) : Int) = x * q := Nat.cast_mul x q
  rw [abs_lt]
  constructor
  · rw [neg_lt]
    rcases far with below | above
    · have side := neg_abs_le (y * (q : Int) - p)
      omega
    · have side := le_abs_self (y * (q : Int) - p)
      omega
  · rcases far with below | above
    · have side := neg_abs_le (y * (q : Int) - p)
      omega
    · have side := le_abs_self (y * (q : Int) - p)
      omega

/-- Out of an odd number of parts the rescaled count is the nearest one. -/
theorem rescale_nearest {a : Nat} (b x : Nat) (odd : a % 2 = 1) :
    Nearest (x * b) a (rescale a b x) := by
  obtain ⟨low, high⟩ := rescale_bounds b x (show 0 < a by omega)
  apply nearest_of_lt_half
  · omega
  · omega

theorem rescale_mono {a b x y : Nat} (le : x ≤ y) : rescale a b x ≤ rescale a b y := by
  have product : x * b ≤ y * b := Nat.mul_le_mul_right b le
  exact Nat.div_le_div_right (by omega)

/-- A fraction of at most one stays one. -/
theorem rescale_le {a b x : Nat} (pos : 0 < a) (le : x ≤ a) : rescale a b x ≤ b := by
  have most := rescale_mono (a := a) (b := b) le
  have whole : rescale a b a = b := by
    unfold rescale
    rw [Nat.mul_add_div pos, Nat.div_eq_of_lt (by omega), Nat.add_zero]
  omega
