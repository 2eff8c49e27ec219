import LibJuno.Crc.Update
import LibJuno.Lib.ErrorPatterns
import Mathlib.Tactic.NormNum.Prime

/-!
# What a receiver can rely on

A frame is a message with its check behind it, in the byte order of the check. Running the
same function over the whole frame leaves a constant exactly when the trailer is the check
of the message (`crc_checks_frames`). Which differences between two messages go unseen
depends on the flipped bits only: the 16-bit checks see every odd number of flips, and up to
three in messages of at most 4095 bytes; the 32-bit ones one flip, and two in messages of at
most 2^29 - 1 bytes (`crc_distance`).
-/

namespace LibJuno.Crc

section Frames

variable {w : Nat}

/-- The bytes of a check, the least significant first. -/
def lsbTrailer : Nat → BitVec w → List (BitVec 8)
  | 0, _ => []
  | n + 1, crc => crc.setWidth 8 :: lsbTrailer n (crc >>> 8)

/-- The bytes of a check, the most significant first. -/
def msbTrailer : Nat → BitVec w → List (BitVec 8)
  | 0, _ => []
  | n + 1, crc => (crc >>> (w - 8)).setWidth 8 :: msbTrailer n (crc <<< 8)

@[simp] theorem lsbTrailer_length (n : Nat) (crc : BitVec w) : (lsbTrailer n crc).length = n := by
  induction n generalizing crc with
  | zero => rfl
  | succ n ih => simp [lsbTrailer, ih]

@[simp] theorem msbTrailer_length (n : Nat) (crc : BitVec w) : (msbTrailer n crc).length = n := by
  induction n generalizing crc with
  | zero => rfl
  | succ n ih => simp [msbTrailer, ih]

theorem getD_lsbTrailer (n : Nat) (crc : BitVec w) (i : Nat) :
    ((lsbTrailer n crc).flatMap lsbBits).getD i false = (decide (i < 8 * n) && crc.getLsbD i) := by
  induction n generalizing crc i with
  | zero => simp [lsbTrailer]
  | succ n ih =>
    rw [lsbTrailer, List.flatMap_cons, List.getD_eq_getElem?_getD, List.getElem?_append]
    have eight : (lsbBits (crc.setWidth 8)).length = 8 := rfl
    rw [eight]
    split
    case isTrue first =>
      have inside : i < 8 * (n + 1) := by omega
      simp [lsbBits, first, inside]
    case isFalse later =>
      rw [← List.getD_eq_getElem?_getD, ih, BitVec.getLsbD_ushiftRight]
      have place : 8 + (i - 8) = i := by omega
      have same : i - 8 < 8 * n ↔ i < 8 * (n + 1) := by omega
      simp only [place, same]

theorem getD_msbTrailer (wide : 8 ≤ w) (n : Nat) (crc : BitVec w) (i : Nat) :
    ((msbTrailer n crc).flatMap msbBits).getD i false = (decide (i < 8 * n) && crc.getMsbD i) := by
  induction n generalizing crc i with
  | zero => simp [msbTrailer]
  | succ n ih =>
    rw [msbTrailer, List.flatMap_cons, List.getD_eq_getElem?_getD, List.getElem?_append]
    have eight : (msbBits ((crc >>> (w - 8)).setWidth 8)).length = 8 := rfl
    rw [eight]
    split
    case isTrue first =>
      have inside : i < 8 * (n + 1) := by omega
      have below : 7 - i < 8 := by omega
      have place : w - 8 + (7 - i) = w - 1 - i := by omega
      have within : i < w := by omega
      simp [msbBits, first, inside, BitVec.getMsbD_eq_getLsbD, place, within, below]
    case isFalse later =>
      rw [← List.getD_eq_getElem?_getD, ih, BitVec.getMsbD_shiftLeft]
      have place : i - 8 + 8 = i := by omega
      have same : i - 8 < 8 * n ↔ i < 8 * (n + 1) := by omega
      simp only [place, same]

/-- A trailer laid out along the register is the check it was made from. -/
theorem lsbLine_trailer {n : Nat} (whole : 8 * n = w) (crc : BitVec w) :
    lsbLine ((lsbTrailer n crc).flatMap lsbBits) = crc := by
  apply BitVec.eq_of_getLsbD_eq
  intro i inside
  rw [getLsbD_lsbLine, getD_lsbTrailer]
  simp [inside, whole]

theorem msbLine_trailer {n : Nat} (whole : 8 * n = w) (wide : 8 ≤ w) (crc : BitVec w) :
    (lsbLine ((msbTrailer n crc).flatMap msbBits)).reverse = crc := by
  apply BitVec.eq_of_getMsbD_eq
  intro i inside
  rw [BitVec.getMsbD_reverse, getLsbD_lsbLine, getD_msbTrailer wide]
  simp [inside, whole]

/-- The frame of a message is what leaves the residue: with the right number of bytes behind
the message, the result is `residue` exactly when they are the check of the message. -/
def ChecksFrames (update : BitVec w → Ref (List (BitVec 8)) → BitVec w)
    (trailer : BitVec w → List (BitVec 8)) (residue : BitVec w) : Prop :=
  ∀ iCrc message tail, message ≠ [] → 8 * tail.length = w →
    (update iCrc (Ref.to (message ++ tail)) = residue ↔
      tail = trailer (update iCrc (Ref.to message)))

variable {body : BitVec w → BitVec 8 → BitVec w} {finish : BitVec w → BitVec w}
  {R : ShiftRegister w} {bits : BitVec 8 → List Bool} {trailer : BitVec w → List (BitVec 8)}

theorem crcUpdate_checksFrames {mask : BitVec w} {n : Nat} (whole : 8 * n = w)
    (feeds : ∀ c byte, body c byte = R.feed c (bits byte))
    (eight : ∀ byte, (bits byte).length = 8) (distinct : Function.Injective bits)
    (finished : ∀ r, finish r = r ^^^ mask) (sized : ∀ crc, (trailer crc).length = n)
    (laid : ∀ crc, R.line ((trailer crc).flatMap bits) = crc) :
    ChecksFrames (crcUpdate body finish) trailer (finish (R.shift^[w] mask)) := by
  intro iCrc message tail data bytes
  have frame : message ++ tail ≠ [] := List.append_ne_nil_of_left_ne_nil data _
  have full : (tail.flatMap bits).length = w := by rw [flatMap_bits_length eight, bytes]
  rw [crcUpdate_of_ne_nil frame, crcUpdate_of_ne_nil data, List.foldl_append,
    foldl_eq_feed feeds tail, R.feed_eq (Nat.le_of_eq full), full]
  generalize message.foldl body iCrc = crc
  have unfinished : ∀ x y, finish x = finish y ↔ x = y := by
    intro x y
    rw [finished, finished, BitVec.xor_left_inj]
  rw [unfinished, (R.iterate_shift_injective w).eq_iff]
  constructor
  · intro residue
    -- the trailer and the tail lay out the same register
    have line : R.line (tail.flatMap bits) = R.line ((trailer (finish crc)).flatMap bits) := by
      rw [laid, finished, ← residue, ← BitVec.xor_assoc, BitVec.xor_self, BitVec.zero_xor]
    have lengths : tail.length = (trailer (finish crc)).length := by
      rw [sized]
      omega
    apply flatMap_bits_injective eight distinct lengths
    apply R.line_injective _ _ _ (Nat.le_of_eq full) line
    rw [flatMap_bits_length eight, flatMap_bits_length eight, lengths]
  · rintro rfl
    rw [laid, finished, ← BitVec.xor_assoc, BitVec.xor_self, BitVec.zero_xor]

end Frames

section Flips

/-- The number of bits in which two messages of one length differ. -/
def flips (message message' : List (BitVec 8)) : Nat :=
  (List.zipWith (fun byte byte' => (lsbBits (byte ^^^ byte')).count true) message message').sum

@[simp] theorem flips_cons (byte byte' : BitVec 8) (message message' : List (BitVec 8)) :
    flips (byte :: message) (byte' :: message') =
      (lsbBits (byte ^^^ byte')).count true + flips message message' := by
  simp [flips]

/-- A layout of the bits of a byte in some order. -/
def Orders (bits : BitVec 8 → List Bool) : Prop :=
  ∀ byte byte', (ShiftRegister.pattern (bits byte) (bits byte')).count true =
    (lsbBits (byte ^^^ byte')).count true

theorem lsbBits_orders : Orders lsbBits := by
  intro byte byte'
  have same : ShiftRegister.pattern (lsbBits byte) (lsbBits byte') = lsbBits (byte ^^^ byte') := by
    simp [ShiftRegister.pattern, lsbBits, List.zipWith_map]
  rw [same]

theorem msbBits_orders : Orders msbBits := by
  intro byte byte'
  have same : ShiftRegister.pattern (msbBits byte) (msbBits byte') =
      (lsbBits (byte ^^^ byte')).reverse := by
    simp [ShiftRegister.pattern, lsbBits, msbBits, List.range_succ, BitVec.getMsbD_eq_getLsbD]
  rw [same, List.count_reverse]

variable {bits : BitVec 8 → List Bool}

/-- The pattern of two messages has a set bit for each flipped one. -/
theorem count_pattern (eight : ∀ byte, (bits byte).length = 8) (orders : Orders bits)
    {message message' : List (BitVec 8)} (lengths : message.length = message'.length) :
    (ShiftRegister.pattern (message.flatMap bits) (message'.flatMap bits)).count true =
      flips message message' := by
  induction message generalizing message' with
  | nil =>
    cases message' with
    | nil => rfl
    | cons => simp at lengths
  | cons byte message ih =>
    cases message' with
    | nil => simp at lengths
    | cons byte' message' =>
      have heads : (bits byte).length = (bits byte').length := by rw [eight, eight]
      have tails := @ih message' (by simpa using lengths)
      rw [List.flatMap_cons, List.flatMap_cons, ShiftRegister.pattern, List.zipWith_append heads,
        List.count_append, flips_cons, ← orders, ← tails]
      rfl

/-- Two messages of one length that differ in a number of bits that `seen` allows have
different checks. -/
def DetectsFlips {w : Nat} (update : BitVec w → Ref (List (BitVec 8)) → BitVec w)
    (seen : Nat → Nat → Prop) : Prop :=
  ∀ iCrc message message', message.length = message'.length →
    seen message.length (flips message message') →
    update iCrc (Ref.to message) ≠ update iCrc (Ref.to message')

/-- What the 16-bit checks see: an odd number of flips, and up to three of them in a message of
at most 4095 bytes. -/
def seen16 (length flipped : Nat) : Prop :=
  flipped % 2 = 1 ∨ (0 < flipped ∧ flipped ≤ 3 ∧ length ≤ 4095)

/-- What the 32-bit checks see: one flip, or two in a message of at most 2^29 - 1 bytes. -/
def seen32 (length flipped : Nat) : Prop := flipped = 1 ∨ (flipped = 2 ∧ length ≤ 536870911)

section Detects

variable {w : Nat} {body : BitVec w → BitVec 8 → BitVec w} {finish : BitVec w → BitVec w}
  {R : ShiftRegister w} {seen : Nat → Nat → Prop}

/-- A register that no seen pattern clears detects the flips. -/
theorem crcUpdate_detectsFlips (blank : R.line [false] = 0#w)
    (feeds : ∀ c byte, body c byte = R.feed c (bits byte))
    (eight : ∀ byte, (bits byte).length = 8) (orders : Orders bits)
    (finished : Function.Injective finish)
    (shows : ∀ length flipped, seen length flipped → 0 < flipped)
    (marks : ∀ n pattern, pattern.length = 8 * n → seen n (pattern.count true) →
      R.feed 0#w pattern ≠ 0#w) :
    DetectsFlips (crcUpdate body finish) seen := by
  intro iCrc message message' lengths flipped
  have count := count_pattern eight orders lengths
  have nonempty : ∀ b : List (BitVec 8), b.length = message.length → b ≠ [] := by
    rintro b length rfl
    obtain rfl : message = [] := List.length_eq_zero_iff.1 length.symm
    obtain rfl : message' = [] := List.length_eq_zero_iff.1 lengths.symm
    exact absurd (shows _ _ flipped) (Nat.lt_irrefl 0)
  rw [crcUpdate_of_ne_nil (nonempty message rfl), crcUpdate_of_ne_nil (nonempty message' lengths.symm)]
  intro same
  have registers := finished same
  rw [foldl_eq_feed feeds, foldl_eq_feed feeds] at registers
  have sized : (message.flatMap bits).length = (message'.flatMap bits).length := by
    rw [flatMap_bits_length eight, flatMap_bits_length eight, lengths]
  refine marks message.length _ ?_ ?_ ((ShiftRegister.feed_eq_iff blank sized iCrc).1 registers)
  · rw [ShiftRegister.pattern, List.length_zipWith, ← sized, flatMap_bits_length eight, Nat.min_self]
  · rw [count]
    exact flipped

end Detects

end Flips

section Members

theorem prime_of_mem_16 : ∀ p ∈ [7, 31, 151], p.Prime := by
  norm_num

theorem prime_of_mem_32 : ∀ p ∈ [3, 5, 17, 257, 65537], p.Prime := by
  norm_num

/-- No pattern the 16-bit checks see clears the register of a polynomial of odd weight and
period 32767. -/
theorem lsbRegister_marks16 {poly : BitVec 16} (top : poly.msb = true) (odd : lsbParity poly = 1)
    (returns : lsbPower poly 15 32767 = lsbUnit)
    (proper : ∀ p ∈ [7, 31, 151], lsbPower poly 15 (32767 / p) ≠ lsbUnit) (n : Nat)
    (pattern : List Bool) (length : pattern.length = 8 * n) (seen : seen16 n (pattern.count true)) :
    (lsbRegister poly top).feed 0#16 pattern ≠ 0#16 := by
  have P := lsbRegisterParity top odd
  rcases seen with flipped | ⟨some, few, short⟩
  · exact P.feed_odd flipped
  · by_cases two : pattern.count true = 2
    · apply ShiftRegister.feed_two (lsbRegister_blank top) two
      intro d pos inside
      exact lsbRegister_fresh top (by decide) prime_of_mem_16 (by decide) returns proper pos (by omega)
    · exact P.feed_odd (by omega)

/-- The same for a polynomial of period 2^32 - 1. -/
theorem lsbRegister_marks32 {poly : BitVec 32} (top : poly.msb = true)
    (returns : lsbPower poly 32 4294967295 = lsbUnit)
    (proper : ∀ p ∈ [3, 5, 17, 257, 65537], lsbPower poly 32 (4294967295 / p) ≠ lsbUnit) (n : Nat)
    (pattern : List Bool) (length : pattern.length = 8 * n) (seen : seen32 n (pattern.count true)) :
    (lsbRegister poly top).feed 0#32 pattern ≠ 0#32 := by
  rcases seen with one | ⟨two, short⟩
  · exact ShiftRegister.feed_one (lsbRegister_blank top) (by decide) one
  · apply ShiftRegister.feed_two (lsbRegister_blank top) two
    intro d pos inside
    exact lsbRegister_fresh top (by decide) prime_of_mem_32 (by decide) returns proper pos (by omega)

theorem msbRegister_blank {w : Nat} {poly : BitVec w} (odd : poly.getLsbD 0 = true) :
    (msbRegister poly odd).line [false] = 0#w :=
  ShiftRegister.mirror_blank (lsbRegister_blank _)

theorem seen16_pos (length flipped : Nat) (seen : seen16 length flipped) : 0 < flipped := by
  rcases seen with odd | ⟨some, _, _⟩ <;> omega

theorem seen32_pos (length flipped : Nat) (seen : seen32 length flipped) : 0 < flipped := by
  rcases seen with one | ⟨two, _⟩ <;> omega

theorem arc_marks (n : Nat) (pattern : List Bool) (length : pattern.length = 8 * n)
    (seen : seen16 n (pattern.count true)) :
    (lsbRegister (0xA001 : BitVec 16) (by decide)).feed 0#16 pattern ≠ 0#16 :=
  lsbRegister_marks16 _ (by decide) (by decide +kernel) (by decide +kernel) n pattern length seen

theorem kermit_marks (n : Nat) (pattern : List Bool) (length : pattern.length = 8 * n)
    (seen : seen16 n (pattern.count true)) :
    (lsbRegister (0x8408 : BitVec 16) (by decide)).feed 0#16 pattern ≠ 0#16 :=
  lsbRegister_marks16 _ (by decide) (by decide +kernel) (by decide +kernel) n pattern length seen

theorem zip_marks (n : Nat) (pattern : List Bool) (length : pattern.length = 8 * n)
    (seen : seen32 n (pattern.count true)) :
    (lsbRegister (0xEDB88320 : BitVec 32) (by decide)).feed 0#32 pattern ≠ 0#32 :=
  lsbRegister_marks32 _ (by decide +kernel) (by decide +kernel) n pattern length seen

/-- The check that shifts left is the mirror image of the one named after Kermit. -/
theorem ccitt_marks (n : Nat) (pattern : List Bool) (length : pattern.length = 8 * n)
    (seen : seen16 n (pattern.count true)) :
    (msbRegister (0x1021 : BitVec 16) (by decide)).feed 0#16 pattern ≠ 0#16 := by
  have reversed : (0x1021 : BitVec 16).reverse = 0x8408 := by decide
  intro cleared
  have mirrored := (ShiftRegister.mirror_feed_zero_iff pattern).1 cleared
  revert mirrored
  apply lsbRegister_marks16 _ _ _ _ n pattern length seen
  all_goals rw [reversed]
  · decide
  · decide +kernel
  · decide +kernel

/-- The 32-bit check that shifts left is the mirror image of the one of zip. -/
theorem ccitt32_marks (n : Nat) (pattern : List Bool) (length : pattern.length = 8 * n)
    (seen : seen32 n (pattern.count true)) :
    (msbRegister (0x04C11DB7 : BitVec 32) (by decide)).feed 0#32 pattern ≠ 0#32 := by
  have reversed : (0x04C11DB7 : BitVec 32).reverse = 0xEDB88320 := by decide +kernel
  intro cleared
  have mirrored := (ShiftRegister.mirror_feed_zero_iff pattern).1 cleared
  revert mirrored
  apply lsbRegister_marks32 _ _ _ n pattern length seen
  all_goals rw [reversed]
  · decide +kernel
  · decide +kernel

/-- A receiver that runs the check over message and trailer accepts exactly the trailers that
are the check of the message: the register is then cleared, or the constant of zip. -/
theorem crc_checks_frames :
    ChecksFrames crcArcUpdate (lsbTrailer 2) 0 ∧
    ChecksFrames crcKermitUpdate (lsbTrailer 2) 0 ∧
    ChecksFrames crcBinhexUpdate (msbTrailer 2) 0 ∧
    ChecksFrames crcCcittUpdate (msbTrailer 2) 0 ∧
    ChecksFrames crcCcitt32Update (msbTrailer 4) 0 ∧
    ChecksFrames crcZipUpdate (lsbTrailer 4) 0x2144DF1C := by
  have lsb : ∀ byte, (lsbBits byte).length = 8 := fun _ => rfl
  have msb : ∀ byte, (msbBits byte).length = 8 := fun _ => rfl
  have unmasked : ∀ {w : Nat} (r : BitVec w), id r = r ^^^ 0#w := by simp
  refine ⟨?_, ?_, ?_, ?_, ?_, ?_⟩
  · have frames := crcUpdate_checksFrames (n := 2) rfl arc_feeds lsb lsbBits_injective unmasked
      (lsbTrailer_length 2) (lsbLine_trailer rfl)
    rwa [ShiftRegister.iterate_shift_zero] at frames
  · have frames := crcUpdate_checksFrames (n := 2) rfl kermit_feeds lsb lsbBits_injective unmasked
      (lsbTrailer_length 2) (lsbLine_trailer rfl)
    rwa [ShiftRegister.iterate_shift_zero] at frames
  · have frames := crcUpdate_checksFrames (n := 2) rfl binhex_feeds msb msbBits_injective unmasked
      (msbTrailer_length 2) (msbLine_trailer rfl (by decide))
    rwa [ShiftRegister.iterate_shift_zero] at frames
  · have frames := crcUpdate_checksFrames (n := 2) rfl ccitt_feeds msb msbBits_injective unmasked
      (msbTrailer_length 2) (msbLine_trailer rfl (by decide))
    rwa [ShiftRegister.iterate_shift_zero] at frames
  · have frames := crcUpdate_checksFrames (n := 4) rfl ccitt32_feeds msb msbBits_injective unmasked
      (msbTrailer_length 4) (msbLine_trailer rfl (by decide))
    rwa [ShiftRegister.iterate_shift_zero] at frames
  · have residue : (lsbRegister (0xEDB88320 : BitVec 32) (by decide)).shift^[32] 0xFFFFFFFF ^^^
        0xFFFFFFFF = 0x2144DF1C := by decide +kernel
    rw [← residue]
    exact crcUpdate_checksFrames (n := 4) rfl zip_feeds lsb lsbBits_injective (fun _ => rfl)
      (lsbTrailer_length 4) (lsbLine_trailer rfl)

/-- Messages of one length whose difference is an odd number of flipped bits, or at most
three within 4095 bytes, have different 16-bit checks; one flip, or two within 2^29 - 1
bytes, are seen by the 32-bit checks. -/
theorem crc_distance :
    DetectsFlips crcArcUpdate seen16 ∧ DetectsFlips crcKermitUpdate seen16 ∧
    DetectsFlips crcBinhexUpdate seen16 ∧ DetectsFlips crcCcittUpdate seen16 ∧
    DetectsFlips crcCcitt32Update seen32 ∧ DetectsFlips crcZipUpdate seen32 := by
  have lsb : ∀ byte, (lsbBits byte).length = 8 := fun _ => rfl
  have msb : ∀ byte, (msbBits byte).length = 8 := fun _ => rfl
  refine ⟨?_, ?_, ?_, ?_, ?_, ?_⟩
  · exact crcUpdate_detectsFlips (lsbRegister_blank _) arc_feeds lsb lsbBits_orders
      Function.injective_id seen16_pos arc_marks
  · exact crcUpdate_detectsFlips (lsbRegister_blank _) kermit_feeds lsb lsbBits_orders
      Function.injective_id seen16_pos kermit_marks
  · exact crcUpdate_detectsFlips (msbRegister_blank _) binhex_feeds msb msbBits_orders
      Function.injective_id seen16_pos ccitt_marks
  · exact crcUpdate_detectsFlips (msbRegister_blank _) ccitt_feeds msb msbBits_orders
      Function.injective_id seen16_pos ccitt_marks
  · exact crcUpdate_detectsFlips (msbRegister_blank _) ccitt32_feeds msb msbBits_orders
      Function.injective_id seen32_pos ccitt32_marks
  · apply crcUpdate_detectsFlips (lsbRegister_blank _) zip_feeds lsb lsbBits_orders _
      seen32_pos zip_marks
    intro r r' same
    exact (BitVec.xor_left_inj _).1 same

end Members

end LibJuno.Crc
