import LibJuno.Lib.Rescale
import LibJuno.Time.Timestamp

/-!
# Durations in nanoseconds, microseconds and milliseconds

The integer conversions of `juno_time.c`. A count of units and a timestamp share the whole
seconds; the rest is rescaled between parts of `1 / U` and of `1 / giSUBSECS_MAX` of a second,
with rounding, in 64 bits. `durationRoundTrip` follows every product and sum of both ways.
-/

namespace LibJuno.Time

section Conversions

variable {ω : Type}

/-- A timestamp in units of which `iPerSec` make a second. Both overflows are guarded and
reported with the given texts. -/
def timestampToUnits (iPerSec : BitVec 64) (secondsText fractionText : String)
    (ptTime : Ref (TimeRoot ω)) (tTime : Timestamp) (w : ω) : Result (BitVec 64) × ω :=
  if !ptTime.nonNull then (⟨.nullptrError, 0⟩, w)
  else
    let iMax : BitVec 64 := ~~~0
    let iFrac := (tTime.iSubSeconds.setWidth 64 * iPerSec + (giSubsecsMax / 2).setWidth 64) /
      giSubsecsMax.setWidth 64
    if tTime.iSeconds.setWidth 64 > iMax / iPerSec then
      (⟨.invalidDataError, 0⟩, fail ptTime.deref.failureHandler .invalidDataError secondsText w)
    else
      let iBase := tTime.iSeconds.setWidth 64 * iPerSec
      if iFrac > iMax - iBase then
        (⟨.invalidDataError, 0⟩, fail ptTime.deref.failureHandler .invalidDataError fractionText w)
      else (⟨.success, iBase + iFrac⟩, w)

/-- The timestamp of a count of units of which `iPerSec` make a second. -/
def unitsToTimestamp (iPerSec : BitVec 64) (ptTime : Ref (TimeRoot ω)) (iCount : BitVec 64) :
    Result Timestamp :=
  if !ptTime.nonNull then ⟨.nullptrError, ⟨0, 0⟩⟩
  else
    let iFraction := iCount % iPerSec
    ⟨.success, (iCount / iPerSec).setWidth 32,
      ((iFraction * giSubsecsMax.setWidth 64 + iPerSec / 2) / iPerSec).setWidth 32⟩

/-- `JunoTime_TimestampToNanos`. -/
def timestampToNanos : Ref (TimeRoot ω) → Timestamp → ω → Result (BitVec 64) × ω :=
  timestampToUnits 1000000000 "Overflow when converting nanos (seconds)"
    "Overflow when converting nanos (fraction)"

/-- `JunoTime_TimestampToMicros`. -/
def timestampToMicros : Ref (TimeRoot ω) → Timestamp → ω → Result (BitVec 64) × ω :=
  timestampToUnits 1000000 "Overflow when converting micros (seconds)"
    "Overflow when converting micros (fraction)"

/-- `JunoTime_TimestampToMillis`. -/
def timestampToMillis : Ref (TimeRoot ω) → Timestamp → ω → Result (BitVec 64) × ω :=
  timestampToUnits 1000 "Overflow when converting millis (seconds)"
    "Overflow when converting millis (fraction)"

/-- `JunoTime_NanosToTimestamp`. -/
def nanosToTimestamp : Ref (TimeRoot ω) → BitVec 64 → Result Timestamp :=
  unitsToTimestamp 1000000000

/-- `JunoTime_MicrosToTimestamp`. -/
def microsToTimestamp : Ref (TimeRoot ω) → BitVec 64 → Result Timestamp :=
  unitsToTimestamp 1000000

/-- `JunoTime_MillisToTimestamp`. -/
def millisToTimestamp : Ref (TimeRoot ω) → BitVec 64 → Result Timestamp :=
  unitsToTimestamp 1000

end Conversions

/-- 64-bit counts end here. -/
def countEnd : Nat := 18446744073709551616

section RoundTrip

variable {ω : Type} (toTimestamp : Ref (TimeRoot ω) → BitVec 64 → Result Timestamp)
  (ofTimestamp : Ref (TimeRoot ω) → Timestamp → ω → Result (BitVec 64) × ω)

/-- The count `n` goes through a canonical timestamp and comes back, and the products and
sums of both conversions stay below `2 ^ 64`. -/
structure RoundTrip (root : TimeRoot ω) (perSec : Nat) (n : BitVec 64) : Prop where
  converts : (toTimestamp (Ref.to root) n).tStatus = .success
  seconds : (toTimestamp (Ref.to root) n).tOk.iSeconds.toNat = n.toNat / perSec
  canonical : Canonical (toTimestamp (Ref.to root) n).tOk
  back : ∀ w, ofTimestamp (Ref.to root) (toTimestamp (Ref.to root) n).tOk w = (⟨.success, n⟩, w)
  scaled : n.toNat % perSec * subsecsMax + perSec / 2 < countEnd
  unscaled : (toTimestamp (Ref.to root) n).tOk.iSubSeconds.toNat * perSec + subsecsMax / 2 < countEnd
  total : (toTimestamp (Ref.to root) n).tOk.iSeconds.toNat * perSec +
    ((toTimestamp (Ref.to root) n).tOk.iSubSeconds.toNat * perSec + subsecsMax / 2) / subsecsMax <
      countEnd

end RoundTrip

section Units

variable {ω : Type} {perSec : BitVec 64}

/-- The conversion from units, without wrap-around: the fraction is rescaled. -/
theorem unitsToTimestamp_fields (root : TimeRoot ω) (n : BitVec 64) (pos : 0 < perSec.toNat)
    (coarse : perSec.toNat < subsecsMax) (fits : n.toNat / perSec.toNat < 4294967296) :
    ∃ t, unitsToTimestamp perSec (Ref.to root) n = ⟨.success, t⟩ ∧
      t.iSeconds.toNat = n.toNat / perSec.toNat ∧
      t.iSubSeconds.toNat = rescale perSec.toNat subsecsMax (n.toNat % perSec.toNat) := by
  have proper := Nat.mod_lt n.toNat pos
  have small := rescale_lt proper coarse
  have product : n.toNat % perSec.toNat * subsecsMax + perSec.toNat / 2 < countEnd := by
    unfold subsecsMax countEnd at *
    omega
  refine ⟨_, rfl, ?_, ?_⟩
  · rw [BitVec.toNat_setWidth, BitVec.toNat_udiv]
    exact Nat.mod_eq_of_lt fits
  · have wide : (giSubsecsMax.setWidth 64).toNat = subsecsMax := rfl
    have two : (2 : BitVec 64).toNat = 2 := rfl
    have productLt : n.toNat % perSec.toNat * subsecsMax < 2 ^ 64 := by
      unfold countEnd at product
      omega
    have sumLt : n.toNat % perSec.toNat * subsecsMax + perSec.toNat / 2 < 2 ^ 64 := by
      unfold countEnd at product
      omega
    rw [BitVec.toNat_setWidth, BitVec.toNat_udiv, BitVec.toNat_add, BitVec.toNat_mul,
      BitVec.toNat_umod, BitVec.toNat_udiv, wide, two, Nat.mod_eq_of_lt productLt,
      Nat.mod_eq_of_lt sumLt]
    apply Nat.mod_eq_of_lt
    show rescale perSec.toNat subsecsMax (n.toNat % perSec.toNat) < 2 ^ 32
    unfold subsecsMax at *
    omega

/-- The scaled parts and the rounding term stay below `2 ^ 64`. -/
theorem dividend_lt (t : Timestamp) (coarse : perSec.toNat < subsecsMax) :
    t.iSubSeconds.toNat * perSec.toNat + subsecsMax / 2 < 2 ^ 64 := by
  have parts : t.iSubSeconds.toNat ≤ subsecsMax := Nat.le_of_lt_succ t.iSubSeconds.isLt
  have product : t.iSubSeconds.toNat * perSec.toNat ≤ subsecsMax * (subsecsMax - 1) :=
    Nat.mul_le_mul parts (Nat.le_sub_one_of_lt coarse)
  unfold subsecsMax at *
  omega

/-- The conversion to units, without wrap-around, of a timestamp that stands for a 64-bit count. -/
theorem timestampToUnits_eq {secondsText fractionText : String} (root : TimeRoot ω) {t : Timestamp}
    {n : BitVec 64} (pos : 0 < perSec.toNat) (coarse : perSec.toNat < subsecsMax)
    (count : t.iSeconds.toNat * perSec.toNat +
      rescale subsecsMax perSec.toNat t.iSubSeconds.toNat = n.toNat) (w : ω) :
    timestampToUnits perSec secondsText fractionText (Ref.to root) t w = (⟨.success, n⟩, w) := by
  have wide : (giSubsecsMax.setWidth 64).toNat = subsecsMax := rfl
  have half : ((giSubsecsMax / 2).setWidth 64).toNat = subsecsMax / 2 := rfl
  have top : (~~~0 : BitVec 64).toNat = 18446744073709551615 := rfl
  have bound := n.isLt
  have seconds : (t.iSeconds.setWidth 64).toNat = t.iSeconds.toNat := by
    rw [BitVec.toNat_setWidth]
    exact Nat.mod_eq_of_lt (by have := t.iSeconds.isLt; omega)
  have parts : (t.iSubSeconds.setWidth 64).toNat = t.iSubSeconds.toNat := by
    rw [BitVec.toNat_setWidth]
    exact Nat.mod_eq_of_lt (by have := t.iSubSeconds.isLt; omega)
  have sumLt := dividend_lt t coarse
  have productLt : t.iSubSeconds.toNat * perSec.toNat < 2 ^ 64 := by omega
  have baseLt : t.iSeconds.toNat * perSec.toNat < 2 ^ 64 := by omega
  have frac : ((t.iSubSeconds.setWidth 64 * perSec + (giSubsecsMax / 2).setWidth 64) /
      giSubsecsMax.setWidth 64).toNat = rescale subsecsMax perSec.toNat t.iSubSeconds.toNat := by
    rw [BitVec.toNat_udiv, BitVec.toNat_add, BitVec.toNat_mul, parts, half, wide,
      Nat.mod_eq_of_lt productLt, Nat.mod_eq_of_lt sumLt]
    rfl
  have base : (t.iSeconds.setWidth 64 * perSec).toNat = t.iSeconds.toNat * perSec.toNat := by
    rw [BitVec.toNat_mul, seconds, Nat.mod_eq_of_lt baseLt]
  have secondsFit : ¬ t.iSeconds.setWidth 64 > ~~~0 / perSec := by
    rw [gt_iff_lt, BitVec.lt_def, BitVec.toNat_udiv, seconds, top, Nat.not_lt]
    rw [Nat.le_div_iff_mul_le pos]
    omega
  have fractionFits : ¬ (t.iSubSeconds.setWidth 64 * perSec + (giSubsecsMax / 2).setWidth 64) /
      giSubsecsMax.setWidth 64 > ~~~0 - t.iSeconds.setWidth 64 * perSec := by
    rw [gt_iff_lt, BitVec.lt_def, BitVec.toNat_sub, frac, base, top]
    omega
  unfold timestampToUnits
  rw [if_neg (by simp [Ref.to])]
  dsimp only
  rw [if_neg secondsFit, if_neg fractionFits]
  have total : t.iSeconds.setWidth 64 * perSec +
      (t.iSubSeconds.setWidth 64 * perSec + (giSubsecsMax / 2).setWidth 64) /
        giSubsecsMax.setWidth 64 = n := by
    apply BitVec.eq_of_toNat_eq
    rw [BitVec.toNat_add, base, frac, count]
    exact Nat.mod_eq_of_lt bound
  rw [total]

/-- Any unit of which a second has at least one and fewer than `giSUBSECS_MAX` round-trips. -/
theorem units_roundTrip {secondsText fractionText : String} (root : TimeRoot ω) {n : BitVec 64}
    (pos : 0 < perSec.toNat) (coarse : perSec.toNat < subsecsMax)
    (fits : n.toNat / perSec.toNat < 4294967296) :
    RoundTrip (unitsToTimestamp perSec) (timestampToUnits perSec secondsText fractionText)
      root perSec.toNat n := by
  have proper : n.toNat % perSec.toNat < perSec.toNat := Nat.mod_lt _ pos
  have bound := n.isLt
  have divides := Nat.div_add_mod n.toNat perSec.toNat
  rw [Nat.mul_comm] at divides
  obtain ⟨t, conversion, seconds, parts⟩ := unitsToTimestamp_fields root n pos coarse fits
  have canonical : Canonical t := by
    unfold Canonical
    rw [parts]
    exact rescale_lt proper coarse
  have unscaled : rescale subsecsMax perSec.toNat t.iSubSeconds.toNat = n.toNat % perSec.toNat := by
    rw [parts]
    exact rescale_rescale _ pos coarse
  rw [show rescale subsecsMax perSec.toNat t.iSubSeconds.toNat =
    (t.iSubSeconds.toNat * perSec.toNat + subsecsMax / 2) / subsecsMax from rfl] at unscaled
  constructor
  case converts => rw [conversion]
  case seconds => rw [conversion, seconds]
  case canonical => rw [conversion]; exact canonical
  case back =>
    intro w
    rw [conversion]
    apply timestampToUnits_eq root pos coarse
    show t.iSeconds.toNat * perSec.toNat +
      (t.iSubSeconds.toNat * perSec.toNat + subsecsMax / 2) / subsecsMax = n.toNat
    rw [seconds, unscaled, divides]
  case scaled =>
    unfold subsecsMax countEnd at *
    omega
  case unscaled =>
    rw [conversion]
    exact dividend_lt t coarse
  case total =>
    rw [conversion]
    dsimp only
    rw [unscaled, seconds, divides]
    exact bound

end Units

/-- Every 64-bit count whose seconds fit in 32 bits is recovered from its timestamp, and no
64-bit product or sum on the way wraps. -/
theorem duration_round_trip {ω : Type} (root : TimeRoot ω) (n : BitVec 64) :
    (n.toNat / 1000000000 < 4294967296 →
      RoundTrip nanosToTimestamp timestampToNanos root 1000000000 n) ∧
    (n.toNat / 1000000 < 4294967296 →
      RoundTrip microsToTimestamp timestampToMicros root 1000000 n) ∧
    (n.toNat / 1000 < 4294967296 →
      RoundTrip millisToTimestamp timestampToMillis root 1000 n) := by
  refine ⟨fun fits => ?_, fun fits => ?_, fun fits => ?_⟩
  · exact units_roundTrip root (by decide) (by decide) fits
  · exact units_roundTrip root (by decide) (by decide) fits
  · exact units_roundTrip root (by decide) (by decide) fits

/-- The last nanosecond before the seconds overflow. -/
theorem duration_round_trip_last (root : TimeRoot Unit) :
    RoundTrip nanosToTimestamp timestampToNanos root 1000000000 4294967295999999999 :=
  (duration_round_trip root 4294967295999999999).1 (by decide)

end LibJuno.Time
