import LibJuno.Crc.Tables
import LibJuno.Lib.ShiftRegister
import LibJuno.Status

/-!
# The cyclic redundancy checks

`juno_arc.c`, `juno_binhex.c`, `juno_ccitt.c`, `juno_ccitt32.c`, `juno_kermit.c` and
`juno_zip.c`: loops over the bytes of the data with one table look-up each. They agree with
the definition that takes one message bit at a time (`crc_matches_reference`), so that a
message can be fed in chunks, and an error burst of at most the width of the register is
always seen (`crc_detects_bursts`).
-/

namespace LibJuno.Crc

section Operations

variable {w : Nat}

/-- The loop body of the checks that shift right. -/
def lsbTableStep (mask : BitVec w) (crctab : List (BitVec w)) (crc : BitVec w) (byte : BitVec 8) :
    BitVec w :=
  ((crc >>> 8) &&& mask) ^^^ crctab.getD ((crc &&& 0xff) ^^^ byte.setWidth w).toNat 0

/-- The loop body of the checks that shift left. -/
def msbTableStep (mask : BitVec w) (crctab : List (BitVec w)) (crc : BitVec w) (byte : BitVec 8) :
    BitVec w :=
  ((crc <<< 8) &&& mask) ^^^ crctab.getD (((crc >>> (w - 8)) &&& 0xff) ^^^ byte.setWidth w).toNat 0

/-- The function around a loop body: no data gives 0, and `finish` is applied to the result.
The data is the `zDataSize` bytes behind `pcData`. -/
def crcUpdate (body : BitVec w → BitVec 8 → BitVec w) (finish : BitVec w → BitVec w)
    (iCrc : BitVec w) (pcData : Ref (List (BitVec 8))) : BitVec w :=
  if !(pcData.nonNull && pcData.deref.length ≠ 0) then 0
  else finish (pcData.deref.foldl body iCrc)

end Operations

/-- `Juno_CrcArcUpdate`. -/
def crcArcUpdate : BitVec 16 → Ref (List (BitVec 8)) → BitVec 16 :=
  crcUpdate (lsbTableStep m1_16 arcCrctab) id

/-- `Juno_CrcKermitUpdate`. -/
def crcKermitUpdate : BitVec 16 → Ref (List (BitVec 8)) → BitVec 16 :=
  crcUpdate (lsbTableStep m1_16 kermitCrctab) id

/-- `Juno_CrcBinhexUpdate`. -/
def crcBinhexUpdate : BitVec 16 → Ref (List (BitVec 8)) → BitVec 16 :=
  crcUpdate (msbTableStep m2_16 binhexCrctab) id

/-- `Juno_CrcCcittUpdate`. -/
def crcCcittUpdate : BitVec 16 → Ref (List (BitVec 8)) → BitVec 16 :=
  crcUpdate (msbTableStep m2_16 ccittCrctab) id

/-- `Juno_CrcCcitt32Update`. -/
def crcCcitt32Update : BitVec 32 → Ref (List (BitVec 8)) → BitVec 32 :=
  crcUpdate (msbTableStep m2_32 ccitt32Crctab) id

/-- `Juno_CrcZipUpdate`. -/
def crcZipUpdate : BitVec 32 → Ref (List (BitVec 8)) → BitVec 32 :=
  crcUpdate (lsbTableStep m1_32 zipCrctab) (· ^^^ 0xFFFFFFFF)

section Reference

variable {w : Nat}

/-- One message bit through the polynomial, towards the least significant bit. -/
def lsbBitStep (poly crc : BitVec w) (bit : Bool) : BitVec w :=
  if crc.getLsbD 0 ^^ bit then (crc >>> 1) ^^^ poly else crc >>> 1

/-- One message bit through the polynomial, towards the most significant bit. -/
def msbBitStep (poly crc : BitVec w) (bit : Bool) : BitVec w :=
  if crc.msb ^^ bit then (crc <<< 1) ^^^ poly else crc <<< 1

/-- A reflected check: the bits of each byte from the least significant one on. -/
def lsbReference (poly crc : BitVec w) (message : List (BitVec 8)) : BitVec w :=
  (message.flatMap lsbBits).foldl (lsbBitStep poly) crc

/-- A check that takes the bits of each byte from the most significant one on. -/
def msbReference (poly crc : BitVec w) (message : List (BitVec 8)) : BitVec w :=
  (message.flatMap msbBits).foldl (msbBitStep poly) crc

variable {poly : BitVec w}

theorem lsbReference_eq_feed (top : poly.msb = true) (crc : BitVec w) (message : List (BitVec 8)) :
    lsbReference poly crc message = (lsbRegister poly top).feed crc (message.flatMap lsbBits) := by
  have step : ∀ c bit, lsbBitStep poly c bit = lsbShift poly (c ^^^ lsbLine [bit]) := by
    intro c bit
    have pos : 0 < w := Nat.pos_of_ne_zero (by rintro rfl; simp [BitVec.msb] at top)
    have cleared : lsbShift poly (lsbLine [bit]) = if bit then poly else 0#w := by
      apply BitVec.eq_of_getLsbD_eq
      intro i _
      rw [getLsbD_lsbShift, getLsbD_lsbLine, getLsbD_lsbLine]
      cases bit <;> simp [pos]
    rw [lsbShift_xor, cleared, lsbBitStep, lsbShift]
    cases c.getLsbD 0 <;> cases bit
    case true.true =>
      -- the bit shifted out and the message bit cancel
      show c >>> 1 = (c >>> 1 ^^^ poly) ^^^ poly
      rw [BitVec.xor_assoc, BitVec.xor_self, BitVec.xor_zero]
    all_goals simp
  unfold lsbReference ShiftRegister.feed
  congr 1
  funext c bit
  exact step c bit

theorem msbReference_eq_feed (odd : poly.getLsbD 0 = true) (crc : BitVec w)
    (message : List (BitVec 8)) :
    msbReference poly crc message = (msbRegister poly odd).feed crc (message.flatMap msbBits) := by
  have step : ∀ c bit, msbBitStep poly c bit =
      (msbRegister poly odd).shift (c ^^^ (lsbLine [bit] : BitVec w).reverse) := by
    intro c bit
    have pos : 0 < w := Nat.pos_of_ne_zero (by rintro rfl; simp at odd)
    have cleared : msbShift poly ((lsbLine [bit] : BitVec w).reverse) = if bit then poly else 0#w := by
      rw [msbShift_eq_mirror, BitVec.reverse_reverse_eq]
      apply BitVec.eq_of_getMsbD_eq
      intro i _
      rw [BitVec.getMsbD_reverse, getLsbD_lsbShift, getLsbD_lsbLine, getLsbD_lsbLine,
        BitVec.getLsbD_reverse]
      cases bit <;> simp [pos]
    rw [(msbRegister poly odd).shift_xor, msbRegister_shift, cleared, msbBitStep, msbShift]
    cases c.msb <;> cases bit
    case true.true =>
      -- the bit shifted out and the message bit cancel
      show c <<< 1 = (c <<< 1 ^^^ poly) ^^^ poly
      rw [BitVec.xor_assoc, BitVec.xor_self, BitVec.xor_zero]
    all_goals simp
  unfold msbReference ShiftRegister.feed
  congr 1
  funext c bit
  exact step c bit

end Reference

section Tables

variable {w : Nat}

/-- The table of a check that shifts right: eight shifts of every byte. -/
def lsbTable (poly : BitVec w) : List (BitVec w) :=
  (List.range 256).map fun i => (lsbShift poly)^[8] (BitVec.ofNat w i)

/-- The table of a check that shifts left: eight shifts of every byte from the top. -/
def msbTable (poly : BitVec w) : List (BitVec w) :=
  (List.range 256).map fun i => (msbShift poly)^[8] (BitVec.ofNat w i <<< (w - 8))

theorem getD_range_map (entry : Nat → BitVec w) (byte : BitVec 8) :
    ((List.range 256).map entry).getD byte.toNat 0 = entry byte.toNat := by
  have inside : byte.toNat < 256 := byte.isLt
  simp [inside]

/-- Adding a byte to the masked register is taking a byte of the sum. -/
theorem index_eq (wide : 8 ≤ w) (c : BitVec w) (byte : BitVec 8) :
    ((c &&& 0xff) ^^^ byte.setWidth w).toNat = (c.setWidth 8 ^^^ byte).toNat := by
  have low : (c &&& 0xff) ^^^ byte.setWidth w = (c.setWidth 8 ^^^ byte).setWidth w := by
    apply BitVec.eq_of_getLsbD_eq
    intro i inside
    have mask : (0xff : BitVec w).getLsbD i = decide (i < 8) := by
      have literal : (0xff : BitVec w) = BitVec.ofNat w (2 ^ 8 - 1) := rfl
      rw [literal, BitVec.getLsbD_ofNat, Nat.testBit_two_pow_sub_one]
      simp [inside]
    rw [BitVec.getLsbD_xor, BitVec.getLsbD_and, mask]
    by_cases bit : i < 8
    · simp [bit, inside]
    · simp [bit, BitVec.getLsbD_of_ge byte i (by omega)]
  rw [low]
  exact BitVec.toNat_setWidth_of_le wide

/-- A table step that shifts right is the feeding of a byte. -/
theorem lsbTableStep_eq_feed {poly mask : BitVec w} (top : poly.msb = true) (wide : 8 ≤ w)
    (kept : ∀ i, i < w - 8 → mask.getLsbD i = true) (c : BitVec w) (byte : BitVec 8) :
    lsbTableStep mask (lsbTable poly) c byte = (lsbRegister poly top).feed c (lsbBits byte) := by
  have masked : (c >>> 8) &&& mask = c >>> 8 := by
    apply BitVec.eq_of_getLsbD_eq
    intro i _
    rw [BitVec.getLsbD_and, BitVec.getLsbD_ushiftRight]
    by_cases bit : i < w - 8
    · rw [kept i bit, Bool.and_true]
    · rw [BitVec.getLsbD_of_ge c (8 + i) (by omega), Bool.false_and]
  have sum : (c ^^^ byte.setWidth w).setWidth 8 = c.setWidth 8 ^^^ byte := by
    rw [BitVec.setWidth_xor, BitVec.setWidth_setWidth_of_le _ wide, BitVec.setWidth_eq]
  rw [lsbTableStep, masked, index_eq wide, lsbTable, getD_range_map, BitVec.ofNat_toNat,
    lsbRegister_feed_byte top wide, sum]

/-- A table step that shifts left is the feeding of a byte. -/
theorem msbTableStep_eq_feed {poly mask : BitVec w} (odd : poly.getLsbD 0 = true) (wide : 8 ≤ w)
    (kept : ∀ i, i < w - 8 → mask.getLsbD (8 + i) = true) (c : BitVec w) (byte : BitVec 8) :
    msbTableStep mask (msbTable poly) c byte = (msbRegister poly odd).feed c (msbBits byte) := by
  have masked : (c <<< 8) &&& mask = c <<< 8 := by
    apply BitVec.eq_of_getLsbD_eq
    intro i inside
    rw [BitVec.getLsbD_and, BitVec.getLsbD_shiftLeft]
    by_cases bit : i < 8
    · simp [bit]
    · have set := kept (i - 8) (by omega)
      rw [Nat.add_sub_cancel' (Nat.le_of_not_lt bit)] at set
      rw [set, Bool.and_true]
  rw [msbTableStep, masked, index_eq wide, msbTable, getD_range_map, BitVec.ofNat_toNat,
    msbRegister_feed_byte odd wide]

end Tables

theorem arcCrctab_eq : arcCrctab = lsbTable 0xA001 := by decide +kernel

theorem kermitCrctab_eq : kermitCrctab = lsbTable 0x8408 := by decide +kernel

theorem zipCrctab_eq : zipCrctab = lsbTable 0xEDB88320 := by decide +kernel

theorem binhexCrctab_eq : binhexCrctab = msbTable 0x1021 := by decide +kernel

theorem ccittCrctab_eq : ccittCrctab = msbTable 0x1021 := by decide +kernel

theorem ccitt32Crctab_eq : ccitt32Crctab = msbTable 0x04C11DB7 := by decide +kernel

section Laws

variable {w : Nat}

/-- On data, the function returns what the reference does. -/
def Agrees (update : BitVec w → Ref (List (BitVec 8)) → BitVec w)
    (reference : BitVec w → List (BitVec 8) → BitVec w) : Prop :=
  ∀ iCrc message, message ≠ [] → update iCrc (Ref.to message) = reference iCrc message

/-- Chunks with data, each fed with the resumed result of the one before, give what one call
on all the data gives. -/
def Streams (update : BitVec w → Ref (List (BitVec 8)) → BitVec w) (resume : BitVec w → BitVec w) :
    Prop :=
  ∀ iCrc chunk chunks, (∀ c ∈ chunk :: chunks, c ≠ []) →
    chunks.foldl (fun r c => update (resume r) (Ref.to c)) (update iCrc (Ref.to chunk)) =
      update iCrc (Ref.to (chunk :: chunks).flatten)

/-- Messages that differ, but only within `width` consecutive bytes, have different results. -/
def DetectsBursts (update : BitVec w → Ref (List (BitVec 8)) → BitVec w) (width : Nat) : Prop :=
  ∀ iCrc front burst burst' back, burst.length = burst'.length → burst.length ≤ width →
    burst ≠ burst' → update iCrc (Ref.to (front ++ burst ++ back)) ≠
      update iCrc (Ref.to (front ++ burst' ++ back))

variable {body : BitVec w → BitVec 8 → BitVec w} {finish resume : BitVec w → BitVec w}

theorem crcUpdate_of_ne_nil {message : List (BitVec 8)} (data : message ≠ []) (iCrc : BitVec w) :
    crcUpdate body finish iCrc (Ref.to message) = finish (message.foldl body iCrc) := by
  have length : message.length ≠ 0 := mt List.length_eq_zero_iff.1 data
  unfold crcUpdate
  rw [if_neg (by simp [Ref.to, length])]
  rfl

/-- When `resume` undoes `finish`, the chunks run through one register. -/
theorem crcUpdate_streams (undo : ∀ r, resume (finish r) = r) :
    Streams (crcUpdate body finish) resume := by
  intro iCrc chunk chunks data
  have first : chunk ≠ [] := data chunk List.mem_cons_self
  have whole : (chunk :: chunks).flatten ≠ [] := by
    rw [List.flatten_cons]
    exact List.append_ne_nil_of_left_ne_nil first _
  rw [crcUpdate_of_ne_nil first, crcUpdate_of_ne_nil whole, List.flatten_cons, List.foldl_append]
  have rest : ∀ c ∈ chunks, c ≠ [] := fun c member => data c (List.mem_cons_of_mem _ member)
  generalize chunk.foldl body iCrc = crc
  clear data first whole
  -- after each chunk the accumulator is the finished register
  induction chunks generalizing crc with
  | nil => rfl
  | cons c chunks ih =>
    rw [List.foldl_cons, undo, crcUpdate_of_ne_nil (rest c List.mem_cons_self), List.flatten_cons,
      List.foldl_append]
    exact ih (fun c' member => rest c' (List.mem_cons_of_mem _ member)) _

section Register

variable {R : ShiftRegister w} {bits : BitVec 8 → List Bool}

/-- A loop whose body feeds a byte feeds the bits of the data. -/
theorem foldl_eq_feed (feeds : ∀ c byte, body c byte = R.feed c (bits byte))
    (message : List (BitVec 8)) (c : BitVec w) :
    message.foldl body c = R.feed c (message.flatMap bits) := by
  induction message generalizing c with
  | nil => rfl
  | cons byte message ih =>
    rw [List.foldl_cons, ih, feeds, List.flatMap_cons, R.feed_append]

theorem flatMap_bits_length (eight : ∀ byte, (bits byte).length = 8) (message : List (BitVec 8)) :
    (message.flatMap bits).length = 8 * message.length := by
  induction message with
  | nil => rfl
  | cons byte message ih =>
    rw [List.flatMap_cons, List.length_append, eight, ih, List.length_cons]
    omega

/-- Different bytes make different bits. -/
theorem flatMap_bits_injective (eight : ∀ byte, (bits byte).length = 8)
    (distinct : Function.Injective bits) {message message' : List (BitVec 8)}
    (lengths : message.length = message'.length)
    (same : message.flatMap bits = message'.flatMap bits) : message = message' := by
  induction message generalizing message' with
  | nil => exact (List.length_eq_zero_iff.1 lengths.symm).symm
  | cons byte message ih =>
    cases message' with
    | nil => simp at lengths
    | cons byte' message' =>
      rw [List.flatMap_cons, List.flatMap_cons] at same
      obtain ⟨head, tail⟩ := List.append_inj same (by rw [eight, eight])
      rw [distinct head, ih (Nat.succ.inj lengths) tail]

/-- A burst of at most as many bits as the register has is detected. -/
theorem crcUpdate_detectsBursts {width : Nat} (feeds : ∀ c byte, body c byte = R.feed c (bits byte))
    (eight : ∀ byte, (bits byte).length = 8) (distinct : Function.Injective bits)
    (finished : Function.Injective finish) (fits : 8 * width ≤ w) :
    DetectsBursts (crcUpdate body finish) width := by
  intro iCrc front burst burst' back lengths short differ
  have nonempty : ∀ b : List (BitVec 8), b.length = burst.length → front ++ b ++ back ≠ [] := by
    intro b length empty
    rw [List.append_eq_nil_iff, List.append_eq_nil_iff] at empty
    have none : burst = [] := List.length_eq_zero_iff.1 (by rw [← length, empty.1.2]; rfl)
    have none' : burst' = [] := List.length_eq_zero_iff.1 (by rw [← lengths, none]; rfl)
    exact differ (none.trans none'.symm)
  rw [crcUpdate_of_ne_nil (nonempty burst rfl), crcUpdate_of_ne_nil (nonempty burst' lengths.symm)]
  intro same
  have registers := finished same
  rw [foldl_eq_feed feeds, foldl_eq_feed feeds] at registers
  simp only [List.flatMap_append] at registers
  apply R.feed_burst iCrc _ _ _ registers
  · rw [flatMap_bits_length eight, flatMap_bits_length eight, lengths]
  · rw [flatMap_bits_length eight]
    omega
  · exact fun bitsSame => differ (flatMap_bits_injective eight distinct lengths bitsSame)

end Register

end Laws

theorem lsbBits_injective : Function.Injective lsbBits := by
  intro byte byte' same
  have lines := congrArg (lsbLine (w := 8)) same
  simpa [lsbLine_lsbBits] using lines

theorem msbBits_injective : Function.Injective msbBits := by
  intro byte byte' same
  have lines := congrArg (fun bs => (lsbLine (w := 8) bs).reverse) same
  simpa [reverse_lsbLine_msbBits] using lines

section Members

variable (c : BitVec 16) (c' : BitVec 32) (byte : BitVec 8)

theorem arc_feeds : lsbTableStep m1_16 arcCrctab c byte =
    (lsbRegister 0xA001 (by decide)).feed c (lsbBits byte) := by
  rw [arcCrctab_eq]
  exact lsbTableStep_eq_feed (by decide) (by decide) (by decide) c byte

theorem kermit_feeds : lsbTableStep m1_16 kermitCrctab c byte =
    (lsbRegister 0x8408 (by decide)).feed c (lsbBits byte) := by
  rw [kermitCrctab_eq]
  exact lsbTableStep_eq_feed (by decide) (by decide) (by decide) c byte

theorem zip_feeds : lsbTableStep m1_32 zipCrctab c' byte =
    (lsbRegister 0xEDB88320 (by decide)).feed c' (lsbBits byte) := by
  rw [zipCrctab_eq]
  exact lsbTableStep_eq_feed (by decide) (by decide) (by decide) c' byte

theorem binhex_feeds : msbTableStep m2_16 binhexCrctab c byte =
    (msbRegister 0x1021 (by decide)).feed c (msbBits byte) := by
  rw [binhexCrctab_eq]
  exact msbTableStep_eq_feed (by decide) (by decide) (by decide) c byte

theorem ccitt_feeds : msbTableStep m2_16 ccittCrctab c byte =
    (msbRegister 0x1021 (by decide)).feed c (msbBits byte) := by
  rw [ccittCrctab_eq]
  exact msbTableStep_eq_feed (by decide) (by decide) (by decide) c byte

theorem ccitt32_feeds : msbTableStep m2_32 ccitt32Crctab c' byte =
    (msbRegister 0x04C11DB7 (by decide)).feed c' (msbBits byte) := by
  rw [ccitt32Crctab_eq]
  exact msbTableStep_eq_feed (by decide) (by decide) (by decide) c' byte

end Members

section Reflected

variable {w : Nat} {body : BitVec w → BitVec 8 → BitVec w} {finish : BitVec w → BitVec w}
  {poly : BitVec w}

theorem crcUpdate_agrees_lsb (top : poly.msb = true)
    (feeds : ∀ c byte, body c byte = (lsbRegister poly top).feed c (lsbBits byte)) :
    Agrees (crcUpdate body finish) fun iCrc message => finish (lsbReference poly iCrc message) := by
  intro iCrc message data
  rw [crcUpdate_of_ne_nil data, foldl_eq_feed feeds, ← lsbReference_eq_feed top]

theorem crcUpdate_agrees_msb (odd : poly.getLsbD 0 = true)
    (feeds : ∀ c byte, body c byte = (msbRegister poly odd).feed c (msbBits byte)) :
    Agrees (crcUpdate body finish) fun iCrc message => finish (msbReference poly iCrc message) := by
  intro iCrc message data
  rw [crcUpdate_of_ne_nil data, foldl_eq_feed feeds, ← msbReference_eq_feed odd]

end Reflected

/-- Each table-driven function is the shift of one message bit at a time through its
polynomial, and may be fed in chunks. -/
theorem crc_matches_reference :
    (Agrees crcArcUpdate (lsbReference 0xA001) ∧ Streams crcArcUpdate id) ∧
    (Agrees crcKermitUpdate (lsbReference 0x8408) ∧ Streams crcKermitUpdate id) ∧
    (Agrees crcBinhexUpdate (msbReference 0x1021) ∧ Streams crcBinhexUpdate id) ∧
    (Agrees crcCcittUpdate (msbReference 0x1021) ∧ Streams crcCcittUpdate id) ∧
    (Agrees crcCcitt32Update (msbReference 0x04C11DB7) ∧ Streams crcCcitt32Update id) ∧
    (Agrees crcZipUpdate (fun iCrc message => lsbReference 0xEDB88320 iCrc message ^^^ 0xFFFFFFFF) ∧
      Streams crcZipUpdate (· ^^^ 0xFFFFFFFF)) := by
  refine ⟨⟨?_, ?_⟩, ⟨?_, ?_⟩, ⟨?_, ?_⟩, ⟨?_, ?_⟩, ⟨?_, ?_⟩, ⟨?_, ?_⟩⟩
  · exact crcUpdate_agrees_lsb _ arc_feeds
  · exact crcUpdate_streams fun _ => rfl
  · exact crcUpdate_agrees_lsb _ kermit_feeds
  · exact crcUpdate_streams fun _ => rfl
  · exact crcUpdate_agrees_msb _ binhex_feeds
  · exact crcUpdate_streams fun _ => rfl
  · exact crcUpdate_agrees_msb _ ccitt_feeds
  · exact crcUpdate_streams fun _ => rfl
  · exact crcUpdate_agrees_msb _ ccitt32_feeds
  · exact crcUpdate_streams fun _ => rfl
  · exact crcUpdate_agrees_lsb _ zip_feeds
  · exact crcUpdate_streams fun r => by rw [BitVec.xor_assoc, BitVec.xor_self, BitVec.xor_zero]

/-- The check value of the nine digits, in two chunks. -/
example : crcArcUpdate (crcArcUpdate 0 (Ref.to [0x31, 0x32, 0x33, 0x34]))
    (Ref.to [0x35, 0x36, 0x37, 0x38, 0x39]) = 0xBB3D := by decide +kernel

/-- Two messages that differ only within two consecutive bytes (four for the 32-bit checks)
have different checks, whatever surrounds the window. -/
theorem crc_detects_bursts :
    DetectsBursts crcArcUpdate 2 ∧ DetectsBursts crcBinhexUpdate 2 ∧
    DetectsBursts crcCcittUpdate 2 ∧ DetectsBursts crcKermitUpdate 2 ∧
    DetectsBursts crcCcitt32Update 4 ∧ DetectsBursts crcZipUpdate 4 := by
  have lsb : ∀ byte, (lsbBits byte).length = 8 := fun _ => rfl
  have msb : ∀ byte, (msbBits byte).length = 8 := fun _ => rfl
  refine ⟨?_, ?_, ?_, ?_, ?_, ?_⟩
  · exact crcUpdate_detectsBursts arc_feeds lsb lsbBits_injective Function.injective_id (Nat.le_refl _)
  · exact crcUpdate_detectsBursts binhex_feeds msb msbBits_injective Function.injective_id (Nat.le_refl _)
  · exact crcUpdate_detectsBursts ccitt_feeds msb msbBits_injective Function.injective_id (Nat.le_refl _)
  · exact crcUpdate_detectsBursts kermit_feeds lsb lsbBits_injective Function.injective_id (Nat.le_refl _)
  · exact crcUpdate_detectsBursts ccitt32_feeds msb msbBits_injective Function.injective_id (Nat.le_refl _)
  · apply crcUpdate_detectsBursts zip_feeds lsb lsbBits_injective _ (Nat.le_refl _)
    intro r r' same
    exact (BitVec.xor_left_inj _).1 same

end LibJuno.Crc
