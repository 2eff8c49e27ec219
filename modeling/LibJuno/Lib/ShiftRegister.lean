import Mathlib.Data.List.Basic
import Mathlib.Logic.Function.Iterate

/-!
# Linear feedback shift registers

A register of `w` bits takes message bits one at a time: a bit is added (exclusive or) to
one end, and the register is shifted with feedback. `ShiftRegister` says what this needs: the shift is
linear and loses nothing, and bits laid out along the register enter one after the other.
Then up to `w` bits enter at once as a block (`feed_eq`), no feeding forgets the register
it started from (`feed_injective`), and two messages that differ within `w` bits leave
different registers (`feed_burst`). The two registers of cyclic redundancy checks, least
and most significant bit first, are instances, with the table step of eight bits.
-/

/-- A shift with feedback, and the layout of message bits along the register. -/
structure ShiftRegister (w : Nat) where
  shift : BitVec w → BitVec w
  line : List Bool → BitVec w
  shift_xor : ∀ x y, shift (x ^^^ y) = shift x ^^^ shift y
  shift_injective : Function.Injective shift
  line_nil : line [] = 0#w
  shift_line : ∀ b bs, bs.length < w → shift (line (b :: bs)) = shift (line [b]) ^^^ line bs
  line_injective : ∀ bs bs', bs.length = bs'.length → bs.length ≤ w → line bs = line bs' → bs = bs'

namespace ShiftRegister

variable {w : Nat} (R : ShiftRegister w)

/-- The bits enter one at a time. -/
def feed (c : BitVec w) (bits : List Bool) : BitVec w :=
  bits.foldl (fun c b => R.shift (c ^^^ R.line [b])) c

@[simp] theorem feed_nil (c : BitVec w) : R.feed c [] = c := rfl

@[simp] theorem feed_cons (c : BitVec w) (b : Bool) (bits : List Bool) :
    R.feed c (b :: bits) = R.feed (R.shift (c ^^^ R.line [b])) bits := rfl

theorem feed_append (c : BitVec w) (bits bits' : List Bool) :
    R.feed c (bits ++ bits') = R.feed (R.feed c bits) bits' := List.foldl_append

theorem iterate_shift_xor (n : Nat) (x y : BitVec w) :
    R.shift^[n] (x ^^^ y) = R.shift^[n] x ^^^ R.shift^[n] y := by
  induction n generalizing x y with
  | zero => rfl
  | succ n ih => rw [Function.iterate_succ_apply, R.shift_xor, ih]; rfl

/-- Up to `w` bits enter as one block. -/
theorem feed_eq {bits : List Bool} (short : bits.length ≤ w) (c : BitVec w) :
    R.feed c bits = R.shift^[bits.length] (c ^^^ R.line bits) := by
  induction bits generalizing c with
  | nil => simp [R.line_nil]
  | cons b bits ih =>
    have shorter : bits.length < w := short
    rw [feed_cons, ih (Nat.le_of_lt shorter), List.length_cons, Function.iterate_succ_apply,
      R.shift_xor, R.shift_xor c, R.shift_line b bits shorter, BitVec.xor_assoc]

theorem iterate_shift_injective (n : Nat) : Function.Injective R.shift^[n] :=
  R.shift_injective.iterate n

/-- The same bits keep different registers different. -/
theorem feed_injective (bits : List Bool) : Function.Injective fun c => R.feed c bits := by
  induction bits with
  | nil => exact fun _ _ same => same
  | cons b bits ih =>
    intro c c' same
    have shifted := R.shift_injective (ih same)
    exact (BitVec.xor_left_inj _).1 shifted

/-- Up to `w` bits can be read back from the register. -/
theorem feed_bits_injective {bits bits' : List Bool} (c : BitVec w)
    (lengths : bits.length = bits'.length) (short : bits.length ≤ w)
    (same : R.feed c bits = R.feed c bits') : bits = bits' := by
  rw [R.feed_eq short, R.feed_eq (lengths ▸ short), ← lengths] at same
  have lines := R.iterate_shift_injective _ same
  exact R.line_injective bits bits' lengths short ((BitVec.xor_right_inj _).1 lines)

/-- Messages of one length that differ, but only within `w` bits, leave different registers. -/
theorem feed_burst (c : BitVec w) {front burst burst' back : List Bool}
    (lengths : burst.length = burst'.length) (short : burst.length ≤ w) (differ : burst ≠ burst') :
    R.feed c (front ++ burst ++ back) ≠ R.feed c (front ++ burst' ++ back) := by
  intro same
  rw [feed_append, feed_append, feed_append, feed_append] at same
  exact differ (R.feed_bits_injective _ lengths short (R.feed_injective back same))

end ShiftRegister

section LeastFirst

variable {w : Nat}

/-- A shift towards the least significant bit; the bit that falls out feeds back. -/
def lsbShift (poly x : BitVec w) : BitVec w := (x >>> 1) ^^^ (if x.getLsbD 0 then poly else 0#w)

/-- The bits from the least significant one on. -/
def lsbLine : List Bool → BitVec w
  | [] => 0#w
  | b :: bs => (if b then 1#w else 0#w) ^^^ (lsbLine bs <<< 1)

theorem getLsbD_lsbShift (poly x : BitVec w) (i : Nat) :
    (lsbShift poly x).getLsbD i = (x.getLsbD (i + 1) ^^ (x.getLsbD 0 && poly.getLsbD i)) := by
  unfold lsbShift
  rw [BitVec.getLsbD_xor, BitVec.getLsbD_ushiftRight, Nat.add_comm 1 i]
  cases x.getLsbD 0 <;> simp

theorem getLsbD_lsbLine (bs : List Bool) (i : Nat) :
    (lsbLine bs : BitVec w).getLsbD i = (decide (i < w) && bs.getD i false) := by
  induction bs generalizing i with
  | nil => simp [lsbLine]
  | cons b bs ih =>
    rw [lsbLine, BitVec.getLsbD_xor, BitVec.getLsbD_shiftLeft, ih]
    cases i with
    | zero => cases b <;> simp
    | succ i => cases b <;> grind

theorem lsbShift_xor (poly x y : BitVec w) :
    lsbShift poly (x ^^^ y) = lsbShift poly x ^^^ lsbShift poly y := by
  apply BitVec.eq_of_getLsbD_eq
  intro i _
  simp only [getLsbD_lsbShift, BitVec.getLsbD_xor]
  cases x.getLsbD 0 <;> cases y.getLsbD 0 <;> cases poly.getLsbD i <;> simp

/-- With the top bit of the polynomial set, the shift can be undone. -/
theorem lsbShift_injective {poly : BitVec w} (top : poly.msb = true) :
    Function.Injective (lsbShift poly) := by
  intro x y same
  have pos : 0 < w := Nat.pos_of_ne_zero (by rintro rfl; simp [BitVec.msb] at top)
  have bits : ∀ i, (lsbShift poly x).getLsbD i = (lsbShift poly y).getLsbD i := by simp [same]
  simp only [getLsbD_lsbShift] at bits
  -- the top bit of the result is the bit that fell out
  have low : x.getLsbD 0 = y.getLsbD 0 := by
    have last := bits (w - 1)
    rw [BitVec.msb_eq_getLsbD_last] at top
    rw [BitVec.getLsbD_of_ge x _ (by omega), BitVec.getLsbD_of_ge y _ (by omega), top] at last
    simpa using last
  apply BitVec.eq_of_getLsbD_eq
  intro i _
  cases i with
  | zero => exact low
  | succ i =>
    have next := bits i
    rw [low] at next
    simpa using next

theorem lsbShift_line (poly : BitVec w) (b : Bool) {bs : List Bool} (short : bs.length < w) :
    lsbShift poly (lsbLine (b :: bs)) = lsbShift poly (lsbLine [b]) ^^^ lsbLine bs := by
  apply BitVec.eq_of_getLsbD_eq
  intro i inside
  simp only [getLsbD_lsbShift, BitVec.getLsbD_xor, getLsbD_lsbLine]
  by_cases last : i + 1 < w
  · simp only [last, inside, List.getD_cons_succ, List.getD_cons_zero, decide_true, Bool.true_and]
    cases poly.getLsbD i <;> cases b <;> simp
    all_goals grind
  · have beyond : bs[i]? = none := List.getElem?_eq_none (by omega)
    simp [last, beyond]

theorem lsbLine_injective (bs bs' : List Bool) (lengths : bs.length = bs'.length)
    (short : bs.length ≤ w) (same : (lsbLine bs : BitVec w) = lsbLine bs') : bs = bs' := by
  apply List.ext_getElem lengths
  intro i here here'
  have bit := congrArg (fun x => BitVec.getLsbD x i) same
  simp only [getLsbD_lsbLine] at bit
  simpa [here, here', Nat.lt_of_lt_of_le here short] using bit

/-- The register of a check that takes the least significant bit first. -/
def lsbRegister (poly : BitVec w) (top : poly.msb = true) : ShiftRegister w where
  shift := lsbShift poly
  line := lsbLine
  shift_xor := lsbShift_xor poly
  shift_injective := lsbShift_injective top
  line_nil := rfl
  shift_line b _ short := lsbShift_line poly b short
  line_injective := lsbLine_injective

end LeastFirst

section MostFirst

variable {w : Nat}

theorem reverse_xor (x y : BitVec w) : (x ^^^ y).reverse = x.reverse ^^^ y.reverse := by
  apply BitVec.eq_of_getLsbD_eq
  intro i _
  rw [BitVec.getLsbD_xor, BitVec.getLsbD_reverse, BitVec.getLsbD_reverse, BitVec.getLsbD_reverse,
    BitVec.getMsbD_xor]

theorem reverse_injective : Function.Injective (BitVec.reverse (w := w)) :=
  Function.LeftInverse.injective fun _ => BitVec.reverse_reverse_eq

/-- The register with its bits in the opposite order. -/
def ShiftRegister.mirror (R : ShiftRegister w) : ShiftRegister w where
  shift x := (R.shift x.reverse).reverse
  line bs := (R.line bs).reverse
  shift_xor x y := by rw [reverse_xor, R.shift_xor, reverse_xor]
  shift_injective x y same := reverse_injective (R.shift_injective (reverse_injective same))
  line_nil := by rw [R.line_nil]; simp
  shift_line b bs short := by
    rw [BitVec.reverse_reverse_eq, BitVec.reverse_reverse_eq, R.shift_line b bs short, reverse_xor]
  line_injective bs bs' lengths short same :=
    R.line_injective bs bs' lengths short (reverse_injective same)

/-- A shift towards the most significant bit; the bit that falls out feeds back. -/
def msbShift (poly x : BitVec w) : BitVec w := (x <<< 1) ^^^ (if x.msb then poly else 0#w)

/-- The mirror image of a shift towards the least significant bit. -/
theorem msbShift_eq_mirror (poly x : BitVec w) :
    msbShift poly x = (lsbShift poly.reverse x.reverse).reverse := by
  apply BitVec.eq_of_getMsbD_eq
  intro i inside
  rw [BitVec.getMsbD_reverse, getLsbD_lsbShift, BitVec.getLsbD_reverse, BitVec.getLsbD_reverse,
    BitVec.getLsbD_reverse, msbShift, BitVec.getMsbD_xor, BitVec.getMsbD_shiftLeft,
    ← BitVec.msb_eq_getMsbD_zero]
  cases x.msb <;> simp

/-- The register of a check that takes the most significant bit first. -/
def msbRegister (poly : BitVec w) (odd : poly.getLsbD 0 = true) : ShiftRegister w :=
  (lsbRegister poly.reverse (by rw [BitVec.msb_reverse]; exact odd)).mirror

theorem msbRegister_shift (poly : BitVec w) (odd : poly.getLsbD 0 = true) :
    (msbRegister poly odd).shift = msbShift poly := by
  funext x
  exact (msbShift_eq_mirror poly x).symm

end MostFirst

section Bytes

variable {w : Nat}

/-- The bits of a byte, least significant first. -/
def lsbBits (byte : BitVec 8) : List Bool := (List.range 8).map byte.getLsbD

/-- The bits of a byte, most significant first. -/
def msbBits (byte : BitVec 8) : List Bool := (List.range 8).map byte.getMsbD

theorem lsbLine_lsbBits (byte : BitVec 8) :
    lsbLine (lsbBits byte) = byte.setWidth w := by
  apply BitVec.eq_of_getLsbD_eq
  intro i inside
  rw [getLsbD_lsbLine, BitVec.getLsbD_setWidth]
  by_cases bit : i < 8
  · simp [lsbBits, inside, bit]
  · simp [lsbBits, bit, BitVec.getLsbD_of_ge byte i (by omega)]

theorem reverse_lsbLine_msbBits (byte : BitVec 8) (wide : 8 ≤ w) :
    (lsbLine (msbBits byte)).reverse = byte.setWidth w <<< (w - 8) := by
  apply BitVec.eq_of_getMsbD_eq
  intro i inside
  rw [BitVec.getMsbD_reverse, getLsbD_lsbLine, BitVec.getMsbD_shiftLeft, BitVec.getMsbD_setWidth]
  by_cases bit : i < 8
  · simp [msbBits, inside, bit]
    grind
  · simp [msbBits, bit]
    grind

/-- While the low bits are clear, shifting only moves. -/
theorem lsbShift_iterate_clear (poly : BitVec w) {y : BitVec w} {n : Nat}
    (clear : ∀ i, i < n → y.getLsbD i = false) : (lsbShift poly)^[n] y = y >>> n := by
  induction n with
  | zero => simp
  | succ n ih =>
    rw [Function.iterate_succ_apply', ih fun i lt => clear i (Nat.lt_succ_of_lt lt), lsbShift]
    have low : (y >>> n).getLsbD 0 = false := by
      rw [BitVec.getLsbD_ushiftRight]
      exact clear n (Nat.lt_succ_self n)
    rw [low, BitVec.shiftRight_add]
    simp

/-- Eight shifts move the upper bits and replace the lower byte by eight shifts of it. -/
theorem lsbShift_eight (poly : BitVec w) (top : poly.msb = true) (x : BitVec w) :
    (lsbShift poly)^[8] x = (x >>> 8) ^^^ (lsbShift poly)^[8] ((x.setWidth 8).setWidth w) := by
  have split : x = (x >>> 8 <<< 8) ^^^ (x.setWidth 8).setWidth w := by
    apply BitVec.eq_of_getLsbD_eq
    intro i inside
    by_cases low : i < 8
    · simp [low, inside]
    · simp [low, inside]
      grind
  have linear := (lsbRegister poly top).iterate_shift_xor 8 (x >>> 8 <<< 8) ((x.setWidth 8).setWidth w)
  rw [← split] at linear
  have moved : (lsbShift poly)^[8] (x >>> 8 <<< 8) = x >>> 8 := by
    rw [lsbShift_iterate_clear poly fun i lt => by simp [lt]]
    apply BitVec.eq_of_getLsbD_eq
    intro i inside
    simp
    grind
  calc (lsbShift poly)^[8] x
      = (lsbShift poly)^[8] (x >>> 8 <<< 8) ^^^ (lsbShift poly)^[8] ((x.setWidth 8).setWidth w) := linear
    _ = (x >>> 8) ^^^ (lsbShift poly)^[8] ((x.setWidth 8).setWidth w) := by rw [moved]

theorem msbShift_iterate (poly x : BitVec w) (n : Nat) :
    (msbShift poly)^[n] x = ((lsbShift poly.reverse)^[n] x.reverse).reverse := by
  induction n with
  | zero => simp
  | succ n ih =>
    rw [Function.iterate_succ_apply', Function.iterate_succ_apply', ih, msbShift_eq_mirror,
      BitVec.reverse_reverse_eq]

/-- Eight shifts move the lower bits and replace the upper byte by eight shifts of it. -/
theorem msbShift_eight (poly : BitVec w) (odd : poly.getLsbD 0 = true) (wide : 8 ≤ w)
    (x : BitVec w) :
    (msbShift poly)^[8] x = (x <<< 8) ^^^
      (msbShift poly)^[8] (((x >>> (w - 8)).setWidth 8).setWidth w <<< (w - 8)) := by
  have top : poly.reverse.msb = true := by rw [BitVec.msb_reverse]; exact odd
  have moved : (x.reverse >>> 8).reverse = x <<< 8 := by
    apply BitVec.eq_of_getMsbD_eq
    intro i _
    rw [BitVec.getMsbD_reverse, BitVec.getLsbD_ushiftRight, BitVec.getLsbD_reverse,
      BitVec.getMsbD_shiftLeft, Nat.add_comm]
  have upper : (x.reverse.setWidth 8).setWidth w =
      (((x >>> (w - 8)).setWidth 8).setWidth w <<< (w - 8)).reverse := by
    apply BitVec.eq_of_getLsbD_eq
    intro i inside
    rw [BitVec.getLsbD_reverse, BitVec.getMsbD_shiftLeft, BitVec.getMsbD_setWidth,
      BitVec.getMsbD_setWidth, BitVec.getMsbD_ushiftRight, BitVec.getLsbD_setWidth,
      BitVec.getLsbD_setWidth, BitVec.getLsbD_reverse]
    by_cases low : i < 8
    · simp [low, inside]
      grind
    · simp [low]
      grind
  rw [msbShift_iterate, lsbShift_eight _ top, reverse_xor, moved, upper, ← msbShift_iterate]

/-- A byte enters the register: one step of the table that holds eight shifts of every byte. -/
theorem lsbRegister_feed_byte {poly : BitVec w} (top : poly.msb = true) (wide : 8 ≤ w)
    (c : BitVec w) (byte : BitVec 8) :
    (lsbRegister poly top).feed c (lsbBits byte) = (c >>> 8) ^^^
      (lsbShift poly)^[8] (((c ^^^ byte.setWidth w).setWidth 8).setWidth w) := by
  have short : (lsbBits byte).length ≤ w := wide
  have block : (lsbRegister poly top).feed c (lsbBits byte) =
      (lsbShift poly)^[8] (c ^^^ lsbLine (lsbBits byte)) := (lsbRegister poly top).feed_eq short c
  have upper : (c ^^^ byte.setWidth w) >>> 8 = c >>> 8 := by
    apply BitVec.eq_of_getLsbD_eq
    intro i _
    simp
  calc (lsbRegister poly top).feed c (lsbBits byte)
      = (lsbShift poly)^[8] (c ^^^ lsbLine (lsbBits byte)) := block
    _ = (lsbShift poly)^[8] (c ^^^ byte.setWidth w) := by rw [lsbLine_lsbBits]
    _ = _ := by rw [lsbShift_eight poly top, upper]

/-- The same for the most significant bit first. -/
theorem msbRegister_feed_byte {poly : BitVec w} (odd : poly.getLsbD 0 = true) (wide : 8 ≤ w)
    (c : BitVec w) (byte : BitVec 8) :
    (msbRegister poly odd).feed c (msbBits byte) = (c <<< 8) ^^^
      (msbShift poly)^[8] (((c >>> (w - 8)).setWidth 8 ^^^ byte).setWidth w <<< (w - 8)) := by
  have short : (msbBits byte).length ≤ w := wide
  have block : (msbRegister poly odd).feed c (msbBits byte) =
      (msbRegister poly odd).shift^[8] (c ^^^ (lsbLine (msbBits byte)).reverse) :=
    (msbRegister poly odd).feed_eq short c
  rw [msbRegister_shift] at block
  have lower : (c ^^^ byte.setWidth w <<< (w - 8)) <<< 8 = c <<< 8 := by
    apply BitVec.eq_of_getLsbD_eq
    intro i inside
    simp
    grind
  have upper : ((c ^^^ byte.setWidth w <<< (w - 8)) >>> (w - 8)).setWidth 8 =
      (c >>> (w - 8)).setWidth 8 ^^^ byte := by
    apply BitVec.eq_of_getLsbD_eq
    intro i inside
    simp
    grind
  calc (msbRegister poly odd).feed c (msbBits byte)
      = (msbShift poly)^[8] (c ^^^ (lsbLine (msbBits byte)).reverse) := block
    _ = (msbShift poly)^[8] (c ^^^ byte.setWidth w <<< (w - 8)) := by
      rw [reverse_lsbLine_msbBits byte wide]
    _ = _ := by rw [msbShift_eight poly odd wide, lower, upper]

end Bytes
