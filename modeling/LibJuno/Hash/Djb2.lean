import Mathlib.Data.BitVec
import LibJuno.Lib.Horner
import LibJuno.Status

/-!
# The djb2 hash

`hash/hash_djb2.h`, on a 64-bit `size_t`. The multiplier 33 is a unit modulo 2^64, so a
collision of two messages that agree outside a window is a collision of the windows, and
windows of up to twelve bytes collide exactly when they are the same number in base 33.
-/

namespace LibJuno.Hash

/-- The loop body of `JunoHash_Djb2`. -/
def djb2Step (zHash : BitVec 64) (byte : BitVec 8) : BitVec 64 := ((zHash <<< 5) + zHash) + byte.setWidth 64

/-- `JunoHash_Djb2` on the `zBuffSize` bytes behind `pcBuff`. A null pointer is an error, also
for an empty buffer. -/
def junoHashDjb2 (pcBuff : Ref (List (BitVec 8))) : Result (BitVec 64) :=
  if !pcBuff.nonNull then ⟨.nullptrError, 0⟩
  else ⟨.success, pcBuff.deref.foldl djb2Step 5381⟩

/-- A byte as a digit. -/
def digits (bytes : List (BitVec 8)) : List (BitVec 64) := bytes.map fun b => b.setWidth 64

/-- The number that the bytes are in base 33. -/
def base33 (bytes : List (BitVec 8)) : Nat := Horner.run 33 0 (bytes.map BitVec.toNat)

theorem djb2Step_eq (zHash : BitVec 64) (byte : BitVec 8) :
    djb2Step zHash byte = zHash * 33 + byte.setWidth 64 := by
  unfold djb2Step
  congr 1
  bv_omega

/-- The loop is Horner's rule. -/
theorem djb2_horner (zHash : BitVec 64) (bytes : List (BitVec 8)) :
    bytes.foldl djb2Step zHash = Horner.run 33 zHash (digits bytes) := by
  unfold Horner.run digits
  rw [List.foldl_map]
  congr 1
  funext h b
  exact djb2Step_eq h b

/-- 33 has an inverse modulo 2^64. -/
theorem regular_33 : IsRegular (33 : BitVec 64) := by
  have unit : IsUnit (33 : BitVec 64) := by
    refine IsUnit.of_mul_eq_one 0x0f83e0f83e0f83e1 ?_
    decide
  exact unit.isRegular

theorem toNat_horner (bytes : List (BitVec 8)) :
    (Horner.run 33 0 (digits bytes) : BitVec 64).toNat = base33 bytes % 2 ^ 64 := by
  unfold base33 digits
  induction bytes using List.reverseRecOn with
  | nil => rfl
  | append_singleton bytes b ih =>
    rw [List.map_append, List.map_append, Horner.run_append, Horner.run_append]
    simp only [List.map_cons, List.map_nil, Horner.run_cons, Horner.run_nil]
    rw [BitVec.toNat_add, BitVec.toNat_mul, ih, BitVec.toNat_setWidth]
    have small : b.toNat < 256 := b.isLt
    have wide : (33 : BitVec 64).toNat = 33 := rfl
    rw [wide]
    omega

/-- Twelve bytes are less than 2^64 in base 33. -/
theorem base33_lt {bytes : List (BitVec 8)} (short : bytes.length ≤ 12) : base33 bytes < 2 ^ 64 := by
  have small : ∀ x ∈ bytes.map BitVec.toNat, x ≤ 255 := by
    intro x member
    obtain ⟨b, -, rfl⟩ := List.mem_map.1 member
    have := b.isLt
    omega
  have bound := Horner.run_le 32 small
  rw [List.length_map] at bound
  have power : 33 ^ bytes.length ≤ 33 ^ 12 := Nat.pow_le_pow_right (by decide) short
  have value : base33 bytes * 32 + 255 ≤ 255 * 33 ^ bytes.length := bound
  have most : 255 * 33 ^ bytes.length ≤ 255 * 33 ^ 12 := Nat.mul_le_mul_left _ power
  norm_num at most
  omega

/-- Two messages that agree outside a window collide exactly when the windows are the same
number in base 33 modulo 2^64; up to twelve bytes wide, when they are the same number. -/
theorem djb2_collides_iff (before u u' after : List (BitVec 8)) (length : u.length = u'.length) :
    (junoHashDjb2 (.to (before ++ u ++ after)) = junoHashDjb2 (.to (before ++ u' ++ after)) ↔
      base33 u % 2 ^ 64 = base33 u' % 2 ^ 64) ∧
    (u.length ≤ 12 →
      (junoHashDjb2 (.to (before ++ u ++ after)) = junoHashDjb2 (.to (before ++ u' ++ after)) ↔
        base33 u = base33 u')) := by
  have windows : junoHashDjb2 (.to (before ++ u ++ after)) = junoHashDjb2 (.to (before ++ u' ++ after)) ↔
      base33 u % 2 ^ 64 = base33 u' % 2 ^ 64 := by
    unfold junoHashDjb2 Ref.to
    simp only [Bool.not_true, Bool.false_eq_true, if_false, Result.mk.injEq, true_and, djb2_horner]
    unfold digits
    simp only [List.map_append]
    rw [Horner.run_window_iff regular_33 _ _ _ (by simpa using length)]
    rw [← toNat_horner, ← toNat_horner, ← BitVec.toNat_inj]
    rfl
  refine ⟨windows, fun short => ?_⟩
  rw [windows, Nat.mod_eq_of_lt (base33_lt short), Nat.mod_eq_of_lt (base33_lt (length ▸ short))]

/-- `ab` and `bA` are the same number in base 33, so they collide in every context. -/
theorem djb2_collides_ab :
    junoHashDjb2 (.to ([1] ++ [97, 98] ++ [2])) = junoHashDjb2 (.to ([1] ++ [98, 65] ++ [2])) :=
  ((djb2_collides_iff [1] [97, 98] [98, 65] [2] rfl).2 (by decide)).2 (by decide)

end LibJuno.Hash
