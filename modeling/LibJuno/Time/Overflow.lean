import LibJuno.Time.Duration

/-!
# Seconds that do not fit

`JunoTime_AddTime` and the three conversions of a count report success whatever comes of the
32-bit seconds, unlike the opposite conversions, which guard both their overflows. What is
lost is a multiple of `2 ^ 32` seconds, so a success is true exactly where the seconds of the
exact result fit: `time_overflow_iff`.
-/

namespace LibJuno.Time

section Overflow

variable {ω : Type}

/-- The value of a sum. One that does not fit is `2 ^ 32` seconds short. -/
theorem addTime_value (root : TimeRoot ω) (a d : Timestamp) :
    val (addTime (Ref.to root) (Ref.to a) d).2 + (if Fits a d then 0 else 4294967296 * subsecsMax) =
      val a + val d := by
  obtain ⟨t, sum, seconds, parts⟩ := addTime_eq root a d
  have bounds : a.iSeconds.toNat < 4294967296 ∧ d.iSeconds.toNat < 4294967296 :=
    ⟨a.iSeconds.isLt, d.iSeconds.isLt⟩
  by_cases fits : Fits a d
  · obtain ⟨t', sum', value, -⟩ := addTime_fields root fits
    rw [sum', if_pos fits, Nat.add_zero]
    exact value
  · rw [sum, if_neg fits]
    unfold Fits at fits
    unfold val
    rw [seconds, parts]
    by_cases carry : subsecsMax ≤ a.iSubSeconds.toNat + d.iSubSeconds.toNat
    · rw [if_pos carry] at fits ⊢
      rw [if_pos carry]
      unfold subsecsMax at *
      omega
    · rw [if_neg carry] at fits ⊢
      rw [if_neg carry]
      unfold subsecsMax at *
      omega

/-- The seconds of a converted count are the exact ones, reduced to 32 bits. -/
theorem unitsToTimestamp_seconds (iPerSec : BitVec 64) (root : TimeRoot ω) (iCount : BitVec 64) :
    (unitsToTimestamp iPerSec (Ref.to root) iCount).tStatus = .success ∧
      (unitsToTimestamp iPerSec (Ref.to root) iCount).tOk.iSeconds.toNat =
        iCount.toNat / iPerSec.toNat % 4294967296 := by
  simp [unitsToTimestamp, Ref.to]

/-- A success of `JunoTime_AddTime` means that the result has the value of the sum. -/
def AddSound (ptTime : Ref (TimeRoot ω)) (ptRetTime : Ref Timestamp) (tTimeToAdd : Timestamp) : Prop :=
  let r := addTime ptTime ptRetTime tTimeToAdd
  r.1 = .success → val r.2 = val ptRetTime.deref + val tTimeToAdd

/-- A success of a conversion to timestamps means that the seconds of the result are those
of the count. -/
def ConversionSound (toTimestamp : Ref (TimeRoot ω) → BitVec 64 → Result Timestamp) (perSec : Nat)
    (ptTime : Ref (TimeRoot ω)) (n : BitVec 64) : Prop :=
  let r := toTimestamp ptTime n
  r.tStatus = .success → r.tOk.iSeconds.toNat = n.toNat / perSec

theorem addSound_iff (ptTime : Ref (TimeRoot ω)) (ptRetTime : Ref Timestamp) (tTimeToAdd : Timestamp) :
    AddSound ptTime ptRetTime tTimeToAdd ↔
      (ptTime.nonNull = true → ptRetTime.nonNull = true → Fits ptRetTime.deref tTimeToAdd) := by
  obtain ⟨_ | _, root⟩ := ptTime
  · simp [AddSound, addTime]
  obtain ⟨_ | _, a⟩ := ptRetTime
  · simp [AddSound, addTime]
  have value := addTime_value root a tTimeToAdd
  obtain ⟨t, sum, -⟩ := addTime_eq root a tTimeToAdd
  have success : (addTime (Ref.to root) (Ref.to a) tTimeToAdd).1 = .success := by rw [sum]
  show (_ → val (addTime (Ref.to root) (Ref.to a) tTimeToAdd).2 = _) ↔ (_ → _ → Fits a tTimeToAdd)
  constructor
  · intro sound _ _
    by_contra wraps
    rw [if_neg wraps, ← sound success] at value
    unfold subsecsMax at value
    omega
  · intro fits _
    rw [if_pos (fits rfl rfl), Nat.add_zero] at value
    exact value

theorem conversionSound_iff (iPerSec : BitVec 64) (ptTime : Ref (TimeRoot ω)) (n : BitVec 64) :
    ConversionSound (unitsToTimestamp iPerSec) iPerSec.toNat ptTime n ↔
      (ptTime.nonNull = true → n.toNat / iPerSec.toNat < 4294967296) := by
  obtain ⟨_ | _, root⟩ := ptTime
  · simp [ConversionSound, unitsToTimestamp]
  obtain ⟨success, seconds⟩ := unitsToTimestamp_seconds iPerSec root n
  show (_ → (unitsToTimestamp iPerSec (Ref.to root) n).tOk.iSeconds.toNat = _) ↔ _
  rw [seconds]
  constructor
  · intro sound _
    rw [← sound success]
    exact Nat.mod_lt _ (by decide)
  · intro fits _
    exact Nat.mod_eq_of_lt (fits rfl)

/-- `JunoTime_AddTime` reports a sum exactly where its seconds, with the carry of the parts,
are below `2 ^ 32`, and a conversion reports the seconds of a count exactly where these are.
No success is wrong that comes of a null pointer, since there is none. -/
theorem time_overflow_iff (ptTime : Ref (TimeRoot ω)) :
    (∀ ptRetTime d, AddSound ptTime ptRetTime d ↔
      (ptTime.nonNull = true → ptRetTime.nonNull = true → Fits ptRetTime.deref d)) ∧
    (∀ n, ConversionSound nanosToTimestamp 1000000000 ptTime n ↔
      (ptTime.nonNull = true → n.toNat / 1000000000 < 4294967296)) ∧
    (∀ n, ConversionSound microsToTimestamp 1000000 ptTime n ↔
      (ptTime.nonNull = true → n.toNat / 1000000 < 4294967296)) ∧
    ∀ n, ConversionSound millisToTimestamp 1000 ptTime n ↔
      (ptTime.nonNull = true → n.toNat / 1000 < 4294967296) := by
  refine ⟨addSound_iff ptTime, fun n => ?_, fun n => ?_, fun n => ?_⟩
  · exact conversionSound_iff 1000000000 ptTime n
  · exact conversionSound_iff 1000000 ptTime n
  · exact conversionSound_iff 1000 ptTime n

end Overflow

/-- A time module without a failure handler. -/
def quietTime : Ref (TimeRoot Unit) := Ref.to ⟨⟨false, fun _ _ w => w⟩⟩

/-- One second, or one part of a second, after the last one, and the first count of each
unit that overflows. -/
theorem time_overflows :
    addTime quietTime (Ref.to ⟨4294967295, 0⟩) ⟨1, 0⟩ = (.success, ⟨0, 0⟩) ∧
      ¬AddSound quietTime (Ref.to ⟨4294967295, 0⟩) ⟨1, 0⟩ ∧
      ¬AddSound quietTime (Ref.to ⟨4294967295, 4294967294⟩) ⟨0, 1⟩ ∧
      ¬ConversionSound nanosToTimestamp 1000000000 quietTime 4294967296000000000 ∧
      ¬ConversionSound microsToTimestamp 1000000 quietTime 4294967296000000 ∧
      ¬ConversionSound millisToTimestamp 1000 quietTime 4294967296000 := by
  refine ⟨by decide, fun sound => ?_, fun sound => ?_, fun sound => ?_, fun sound => ?_,
    fun sound => ?_⟩
  all_goals exact absurd (sound rfl) (by decide)

end LibJuno.Time
