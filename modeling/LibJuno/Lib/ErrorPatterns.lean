import LibJuno.Lib.ShiftRegister
import Mathlib

/-!
# Error patterns of a shift register

A register that ignores a cleared bit is linear: whether two messages of one length leave
the same register depends on the bits in which they differ only (`feed_eq_iff`). Three facts
on such a pattern follow. One flipped bit is always seen; an odd number is seen when the
feedback keeps the parity of the register; and two are seen unless their distance is a
period of the shift (`feed_two`). The period of a shift towards the least significant bit is
found by squaring (`lsbPower_eq`), and its mirror image has the same one.
-/

namespace ShiftRegister

variable {w : Nat} {R : ShiftRegister w}

/-- The positions in which two messages differ. -/
def pattern (bits bits' : List Bool) : List Bool := List.zipWith xor bits bits'

@[simp] theorem pattern_cons (b b' : Bool) (bits bits' : List Bool) :
    pattern (b :: bits) (b' :: bits') = (b ^^ b') :: pattern bits bits' := rfl

theorem shift_zero (R : ShiftRegister w) : R.shift 0#w = 0#w := by
  have linear := R.shift_xor 0#w 0#w
  rw [BitVec.xor_self, BitVec.xor_self] at linear
  exact linear

theorem iterate_shift_zero (R : ShiftRegister w) (n : Nat) : R.shift^[n] 0#w = 0#w :=
  Function.iterate_fixed R.shift_zero n

/-- Only the cleared register is shifted to the cleared one. -/
theorem iterate_shift_eq_zero (R : ShiftRegister w) {n : Nat} {x : BitVec w}
    (cleared : R.shift^[n] x = 0#w) : x = 0#w :=
  R.iterate_shift_injective n (cleared.trans (R.iterate_shift_zero n).symm)

section Linear

variable (blank : R.line [false] = 0#w)

include blank

theorem line_xor (b b' : Bool) : R.line [b ^^ b'] = R.line [b] ^^^ R.line [b'] := by
  cases b <;> cases b' <;> simp [blank]

theorem feed_xor {bits bits' : List Bool} (lengths : bits.length = bits'.length) (c c' : BitVec w) :
    R.feed (c ^^^ c') (pattern bits bits') = R.feed c bits ^^^ R.feed c' bits' := by
  induction bits generalizing bits' c c' with
  | nil =>
    cases bits' with
    | nil => rfl
    | cons => simp at lengths
  | cons b bits ih =>
    cases bits' with
    | nil => simp at lengths
    | cons b' bits' =>
      have swap : c ^^^ c' ^^^ R.line [b ^^ b'] = (c ^^^ R.line [b]) ^^^ (c' ^^^ R.line [b']) := by
        rw [line_xor blank]
        ac_rfl
      rw [pattern_cons, feed_cons, feed_cons, feed_cons, swap, R.shift_xor]
      exact ih (by simpa using lengths) _ _

/-- Two messages are told apart when the register is told apart from the cleared one by
the bits in which they differ. -/
theorem feed_eq_iff {bits bits' : List Bool} (lengths : bits.length = bits'.length) (c : BitVec w) :
    R.feed c bits = R.feed c bits' ↔ R.feed 0#w (pattern bits bits') = 0#w := by
  have linear := feed_xor blank lengths c c
  rw [BitVec.xor_self] at linear
  rw [linear, BitVec.xor_eq_zero_iff]

/-- Cleared bits only shift. -/
theorem feed_blank (n : Nat) (c : BitVec w) : R.feed c (List.replicate n false) = R.shift^[n] c := by
  induction n generalizing c with
  | zero => rfl
  | succ n ih =>
    rw [List.replicate_succ, feed_cons, ih, blank, BitVec.xor_zero]
    rfl

theorem line_true_ne_zero (pos : 0 < w) : R.line [true] ≠ 0#w := by
  intro cleared
  have same := R.line_injective [true] [false] rfl pos (cleared.trans blank.symm)
  simp at same

end Linear

/-- A pattern with a set bit, cut before the first one. -/
theorem exists_first {bits : List Bool} {k : Nat} (count : bits.count true = k + 1) :
    ∃ n rest, bits = List.replicate n false ++ true :: rest ∧ rest.count true = k := by
  induction bits with
  | nil => simp at count
  | cons b bits ih =>
    cases b with
    | true => exact ⟨0, bits, rfl, by simpa using count⟩
    | false =>
      obtain ⟨n, rest, rfl, left⟩ := ih (by simpa using count)
      exact ⟨n + 1, rest, rfl, left⟩

theorem eq_replicate_of_count_zero {bits : List Bool} (count : bits.count true = 0) :
    bits = List.replicate bits.length false := by
  apply List.eq_replicate_of_mem
  intro b member
  cases b with
  | false => rfl
  | true => exact absurd member (List.count_eq_zero.1 count)

section Weights

variable (blank : R.line [false] = 0#w)

include blank

/-- What is left of a pattern after its first set bit. -/
theorem feed_first (n : Nat) (rest : List Bool) :
    R.feed 0#w (List.replicate n false ++ true :: rest) = R.feed (R.shift (R.line [true])) rest := by
  rw [feed_append, feed_blank blank, R.iterate_shift_zero, feed_cons, BitVec.zero_xor]

/-- One flipped bit is seen. -/
theorem feed_one (pos : 0 < w) {bits : List Bool} (one : bits.count true = 1) :
    R.feed 0#w bits ≠ 0#w := by
  obtain ⟨n, rest, rfl, none⟩ := exists_first one
  rw [feed_first blank, eq_replicate_of_count_zero none, feed_blank blank]
  intro cleared
  have first : R.shift^[1] (R.line [true]) = 0#w := R.iterate_shift_eq_zero cleared
  exact line_true_ne_zero blank pos (R.iterate_shift_eq_zero first)

/-- Two flipped bits are seen unless the shift repeats over the distance between them. -/
theorem feed_two {bits : List Bool} (two : bits.count true = 2)
    (fresh : ∀ d, 0 < d → d < bits.length → R.shift^[d] (R.line [true]) ≠ R.line [true]) :
    R.feed 0#w bits ≠ 0#w := by
  obtain ⟨n, rest, rfl, one⟩ := exists_first two
  obtain ⟨d, rest, rfl, none⟩ := exists_first one
  rw [feed_first blank, feed_append, feed_blank blank, feed_cons,
    eq_replicate_of_count_zero none, feed_blank blank]
  intro cleared
  -- the second set bit finds what `d + 1` shifts have made of the first
  have second : R.shift^[1] (R.shift^[d + 1] (R.line [true]) ^^^ R.line [true]) = 0#w :=
    R.iterate_shift_eq_zero cleared
  have sum := BitVec.xor_eq_zero_iff.1 (R.iterate_shift_eq_zero second)
  refine fresh (d + 1) (by omega) ?_ sum
  simp only [List.length_append, List.length_replicate, List.length_cons]
  omega

end Weights

/-- A linear reading of the register that a shift keeps and a message bit changes. -/
structure Parity (R : ShiftRegister w) where
  read : BitVec w → ZMod 2
  read_xor : ∀ x y, read (x ^^^ y) = read x + read y
  read_shift : ∀ x, read (R.shift x) = read x
  read_line : ∀ b, read (R.line [b]) = if b then 1 else 0

namespace Parity

variable (P : Parity R)

theorem read_zero : P.read 0#w = 0 := by
  have linear := P.read_xor 0#w 0#w
  rw [BitVec.xor_self] at linear
  exact left_eq_add.1 linear

/-- The parity of the register is that of the bits it was fed. -/
theorem read_feed (bits : List Bool) (c : BitVec w) :
    P.read (R.feed c bits) = P.read c + (bits.count true : Nat) := by
  induction bits generalizing c with
  | nil => simp
  | cons b bits ih =>
    rw [feed_cons, ih, P.read_shift, P.read_xor, P.read_line]
    cases b
    · simp
    · simp [add_assoc, add_comm]

/-- An odd number of flipped bits is seen. -/
theorem feed_odd (P : Parity R) {bits : List Bool} (odd : bits.count true % 2 = 1) :
    R.feed 0#w bits ≠ 0#w := by
  intro cleared
  have fed := P.read_feed bits 0#w
  rw [cleared, P.read_zero, zero_add] at fed
  have even : 2 ∣ bits.count true := (ZMod.natCast_eq_zero_iff _ _).1 fed.symm
  omega

end Parity

theorem mirror_blank (blank : R.line [false] = 0#w) : R.mirror.line [false] = 0#w := by
  change (R.line [false]).reverse = 0#w
  rw [blank]
  simp

/-- The mirror image of a register runs in step with it. -/
theorem mirror_feed (bits : List Bool) (c : BitVec w) :
    R.mirror.feed c bits = (R.feed c.reverse bits).reverse := by
  induction bits generalizing c with
  | nil => simp
  | cons b bits ih =>
    rw [feed_cons, feed_cons, ih]
    simp only [mirror, reverse_xor, BitVec.reverse_reverse_eq]

theorem mirror_feed_zero_iff (bits : List Bool) :
    R.mirror.feed 0#w bits = 0#w ↔ R.feed 0#w bits = 0#w := by
  have zero : (0#w).reverse = 0#w := by simp
  rw [mirror_feed, zero]
  constructor
  · intro cleared
    exact reverse_injective (cleared.trans zero.symm)
  · intro cleared
    rw [cleared, zero]

end ShiftRegister

section Period

variable {α : Type}

/-- A point that returns after `n` steps, but after no proper quotient of `n` by a prime, has
period `n`. -/
theorem iterate_ne_of_prime_quotients {f : α → α} {x : α} {n : Nat} (returns : f^[n] x = x)
    (proper : ∀ p, p.Prime → p ∣ n → f^[n / p] x ≠ x) {d : Nat} (pos : 0 < d) (short : d < n) :
    f^[d] x ≠ x := by
  intro early
  obtain ⟨k, factored⟩ := Function.IsPeriodicPt.minimalPeriod_dvd returns
  have least : Function.minimalPeriod f x ≤ d := Function.IsPeriodicPt.minimalPeriod_le pos early
  have other : k ≠ 1 := by
    rintro rfl
    omega
  obtain ⟨p, prime, q, rfl⟩ := Nat.exists_prime_and_dvd other
  have quotient : n / p = Function.minimalPeriod f x * q := by
    apply Nat.div_eq_of_eq_mul_left prime.pos
    rw [factored]
    ring
  apply proper p prime
  · exact ⟨Function.minimalPeriod f x * q, by rw [factored]; ring⟩
  · rw [quotient]
    exact (Function.isPeriodicPt_minimalPeriod f x).mul_const q

end Period

section LeastFirst

variable {w : Nat} {poly : BitVec w}

theorem lsbRegister_blank (top : poly.msb = true) : (lsbRegister poly top).line [false] = 0#w := by
  change lsbLine [false] = 0#w
  simp [lsbLine]

/-- The register whose top bit alone is set. -/
def lsbUnit : BitVec w := BitVec.twoPow w (w - 1)

/-- A sum of shifts of `y`, one for each set bit. -/
def lsbSum (poly : BitVec w) : List Bool → BitVec w → BitVec w
  | [], _ => 0#w
  | b :: bs, y => (if b then y else 0#w) ^^^ lsbShift poly (lsbSum poly bs y)

/-- The sum of the shifts of `y` that `x` is of the unit. -/
def lsbMul (poly x y : BitVec w) : BitVec w := lsbSum poly ((List.range w).map x.getMsbD) y

/-- `n` shifts of the unit, by squaring; `k` bounds the binary digits of `n`. -/
def lsbPower (poly : BitVec w) : Nat → Nat → BitVec w
  | 0, _ => lsbUnit
  | k + 1, n =>
    let half := lsbPower poly k (n / 2)
    let square := lsbMul poly half half
    if n % 2 = 1 then lsbShift poly square else square

theorem getMsbD_lsbUnit (i : Nat) : (lsbUnit : BitVec w).getMsbD i = (decide (i < w) && decide (i = 0)) := by
  rw [lsbUnit, BitVec.getMsbD_eq_getLsbD, BitVec.getLsbD_twoPow]
  by_cases inside : i < w
  · by_cases first : i = 0
    · simp [first]
    · simp [inside, first]
      omega
  · simp [inside]

theorem lsbShift_of_clear {x : BitVec w} (clear : x.getLsbD 0 = false) : lsbShift poly x = x >>> 1 := by
  rw [lsbShift, clear]
  simp

/-- While no bit falls out, a sum of shifts of the unit is laid out bit by bit. -/
theorem getMsbD_lsbSum_unit {bits : List Bool} (short : bits.length ≤ w) (i : Nat) :
    (lsbSum poly bits lsbUnit).getMsbD i = bits.getD i false := by
  induction bits generalizing i with
  | nil => simp [lsbSum]
  | cons b bits ih =>
    have shorter : bits.length < w := short
    have clear : (lsbSum poly bits lsbUnit).getLsbD 0 = false := by
      have beyond : bits[w - 1 - 0]? = none := List.getElem?_eq_none (by omega)
      rw [BitVec.getLsbD_eq_getMsbD, ih (by omega), List.getD_eq_getElem?_getD, beyond]
      simp
    rw [lsbSum, BitVec.getMsbD_xor, lsbShift_of_clear clear, BitVec.getMsbD_ushiftRight,
      ih (by omega)]
    have pos : 0 < w := by omega
    cases i with
    | zero => cases b <;> simp [getMsbD_lsbUnit, pos]
    | succ i =>
      have inside : bits[i]?.getD false = true → i + 1 < w := by
        intro set
        by_contra beyond
        rw [List.getElem?_eq_none (by omega)] at set
        simp at set
      cases b <;> simpa [getMsbD_lsbUnit] using inside

theorem lsbMul_unit (x : BitVec w) : lsbMul poly x lsbUnit = x := by
  apply BitVec.eq_of_getMsbD_eq
  intro i inside
  rw [lsbMul, getMsbD_lsbSum_unit (by simp)]
  simp [inside]

theorem iterate_lsbShift_xor (n : Nat) (x y : BitVec w) :
    (lsbShift poly)^[n] (x ^^^ y) = (lsbShift poly)^[n] x ^^^ (lsbShift poly)^[n] y := by
  induction n generalizing x y with
  | zero => rfl
  | succ n ih =>
    rw [Function.iterate_succ_apply, lsbShift_xor, ih]
    rfl

theorem lsbSum_iterate (bits : List Bool) (n : Nat) (y : BitVec w) :
    lsbSum poly bits ((lsbShift poly)^[n] y) = (lsbShift poly)^[n] (lsbSum poly bits y) := by
  have zero : (lsbShift poly)^[n] 0#w = 0#w := Function.iterate_fixed (by simp [lsbShift]) n
  induction bits with
  | nil => exact zero.symm
  | cons b bits ih =>
    rw [lsbSum, lsbSum, ih, iterate_lsbShift_xor,
      (Function.Commute.iterate_self (lsbShift poly) n).symm.eq]
    cases b <;> simp [zero]

/-- The product adds the numbers of shifts. -/
theorem lsbMul_iterate (m n : Nat) :
    lsbMul poly ((lsbShift poly)^[m] lsbUnit) ((lsbShift poly)^[n] lsbUnit) =
      (lsbShift poly)^[n + m] lsbUnit := by
  rw [lsbMul, lsbSum_iterate, Function.iterate_add_apply]
  exact congrArg _ (lsbMul_unit _)

theorem lsbPower_eq {k n : Nat} (digits : n < 2 ^ k) :
    lsbPower poly k n = (lsbShift poly)^[n] lsbUnit := by
  induction k generalizing n with
  | zero =>
    obtain rfl : n = 0 := by simpa using digits
    rfl
  | succ k ih =>
    have half : n / 2 < 2 ^ k := by
      rw [Nat.pow_succ] at digits
      omega
    rw [lsbPower, ih half, lsbMul_iterate]
    split
    · have double : n / 2 + n / 2 + 1 = n := by omega
      rw [← Function.iterate_succ_apply' (lsbShift poly), Nat.succ_eq_add_one, double]
    · have double : n / 2 + n / 2 = n := by omega
      rw [double]

/-- The bit that is about to fall out comes from the unit. -/
theorem iterate_lsbUnit (pos : 0 < w) : (lsbShift poly)^[w - 1] lsbUnit = lsbLine [true] := by
  have clear : ∀ i, i < w - 1 → (lsbUnit : BitVec w).getLsbD i = false := by
    intro i short
    rw [lsbUnit, BitVec.getLsbD_twoPow]
    simp
    omega
  rw [lsbShift_iterate_clear poly clear]
  apply BitVec.eq_of_getLsbD_eq
  intro i inside
  rw [getLsbD_lsbLine, BitVec.getLsbD_ushiftRight, lsbUnit, BitVec.getLsbD_twoPow]
  cases i with
  | zero => simp [pos]
  | succ i => simp [inside]

/-- The period of the register, checked by squaring: `n` shifts return to the unit, and no
quotient of `n` by one of its prime factors does. -/
theorem lsbRegister_fresh (top : poly.msb = true) {k n : Nat} (digits : n < 2 ^ k)
    {factors : List Nat} (primes : ∀ p ∈ factors, p.Prime) (factored : factors.prod = n)
    (returns : lsbPower poly k n = lsbUnit)
    (proper : ∀ p ∈ factors, lsbPower poly k (n / p) ≠ lsbUnit) {d : Nat} (pos : 0 < d)
    (short : d < n) :
    (lsbRegister poly top).shift^[d] ((lsbRegister poly top).line [true]) ≠
      (lsbRegister poly top).line [true] := by
  have wide : 0 < w := Nat.pos_of_ne_zero (by rintro rfl; simp [BitVec.msb] at top)
  change (lsbShift poly)^[d] (lsbLine [true]) ≠ lsbLine [true]
  rw [lsbPower_eq digits] at returns
  intro early
  rw [← iterate_lsbUnit wide, ← Function.iterate_add_apply, Nat.add_comm,
    Function.iterate_add_apply] at early
  refine iterate_ne_of_prime_quotients returns ?_ pos short
    ((lsbShift_injective top).iterate (w - 1) early)
  intro p prime divides
  rw [← lsbPower_eq (Nat.lt_of_le_of_lt (Nat.div_le_self n p) digits)]
  apply proper p
  rw [← factored] at divides
  exact mem_list_primes_of_dvd_prod prime.prime (fun q member => (primes q member).prime) divides

/-- The sum of the bits of a register. -/
def lsbParity (x : BitVec w) : ZMod 2 := ∑ i ∈ Finset.range w, if x.getLsbD i then 1 else 0

theorem lsbParity_xor (x y : BitVec w) : lsbParity (x ^^^ y) = lsbParity x + lsbParity y := by
  unfold lsbParity
  rw [← Finset.sum_add_distrib]
  apply Finset.sum_congr rfl
  intro i _
  rw [BitVec.getLsbD_xor]
  cases x.getLsbD i <;> cases y.getLsbD i <;> decide

/-- The bit that falls out is replaced by the bits of the polynomial. -/
theorem lsbParity_shift (odd : lsbParity poly = 1) (x : BitVec w) :
    lsbParity (lsbShift poly x) = lsbParity x := by
  have moved : lsbParity (x >>> 1) + (if x.getLsbD 0 then 1 else 0) = lsbParity x := by
    have all := Finset.sum_range_succ' (fun i => if x.getLsbD i then (1 : ZMod 2) else 0) w
    rw [Finset.sum_range_succ, BitVec.getLsbD_of_ge x w (Nat.le_refl w)] at all
    simp only [Bool.false_eq_true, if_false, add_zero] at all
    rw [lsbParity, lsbParity, all]
    congr 1
    apply Finset.sum_congr rfl
    intro i _
    rw [BitVec.getLsbD_ushiftRight, Nat.add_comm]
  rw [lsbShift, lsbParity_xor, ← moved]
  congr 1
  cases x.getLsbD 0
  · simp [lsbParity]
  · simpa using odd

/-- A polynomial with an odd number of set bits keeps the parity. -/
def lsbRegisterParity (top : poly.msb = true) (odd : lsbParity poly = 1) :
    ShiftRegister.Parity (lsbRegister poly top) where
  read := lsbParity
  read_xor := lsbParity_xor
  read_shift := lsbParity_shift odd
  read_line b := by
    have wide : 0 < w := Nat.pos_of_ne_zero (by rintro rfl; simp [BitVec.msb] at top)
    change lsbParity (lsbLine [b]) = _
    unfold lsbParity
    simp only [getLsbD_lsbLine]
    cases b
    · apply Finset.sum_eq_zero
      intro i _
      cases i <;> simp
    · rw [Finset.sum_eq_single_of_mem 0 (by simpa using wide)]
      · simp [wide]
      · intro i _ other
        obtain ⟨i, rfl⟩ := Nat.exists_eq_succ_of_ne_zero other
        simp

end LeastFirst
