import LibJuno.Status
import Mathlib.Tactic.Ring

/-!
# Timestamps and their arithmetic

`time_api.h` and the arithmetic of `juno_time.c`. A timestamp counts seconds and parts of
`1 / giSUBSECS_MAX` of a second, each in 32 bits that wrap. It is canonical when the parts
are less than a second; canonical timestamps are the numbers `val` below
`2 ^ 32 * giSUBSECS_MAX`, and addition, subtraction and the comparisons are those of the
numbers.
-/

namespace LibJuno.Time

/-- `JUNO_TIMESTAMP_T`. -/
structure Timestamp where
  iSeconds : BitVec 32
  iSubSeconds : BitVec 32
  deriving DecidableEq, Repr

/-- `JUNO_TIME_ROOT_T`, without the vtable that no function here goes through. -/
structure TimeRoot (ω : Type) where
  failureHandler : FailureHandler ω

/-- `giSUBSECS_MAX`. -/
def giSubsecsMax : BitVec 32 := ~~~0

section Operations

variable {ω : Type}

/-- `JunoTime_AddTime`: the status and the timestamp behind `ptRetTime`. -/
def addTime (ptTime : Ref (TimeRoot ω)) (ptRetTime : Ref Timestamp) (tTimeToAdd : Timestamp) :
    Status × Timestamp :=
  if !(ptTime.nonNull && ptRetTime.nonNull) then (.nullptrError, ptRetTime.deref)
  else
    let iSeconds := ptRetTime.deref.iSeconds + tTimeToAdd.iSeconds
    let iDifference := giSubsecsMax - ptRetTime.deref.iSubSeconds
    if tTimeToAdd.iSubSeconds < iDifference then
      (.success, ⟨iSeconds, ptRetTime.deref.iSubSeconds + tTimeToAdd.iSubSeconds⟩)
    else
      (.success, ⟨iSeconds + 1, tTimeToAdd.iSubSeconds - iDifference⟩)

/-- `JunoTime_SubtractTime`: a negative difference is saturated to zero and reported. -/
def subtractTime (ptTime : Ref (TimeRoot ω)) (ptRetTime : Ref Timestamp)
    (tTimeToSubtract : Timestamp) (w : ω) : Status × Timestamp × ω :=
  if !(ptTime.nonNull && ptRetTime.nonNull) then (.nullptrError, ptRetTime.deref, w)
  else
    let t := ptRetTime.deref
    if t.iSeconds < tTimeToSubtract.iSeconds ∨
        (t.iSeconds = tTimeToSubtract.iSeconds ∧ t.iSubSeconds < tTimeToSubtract.iSubSeconds) then
      (.invalidDataError, ⟨0, 0⟩,
        fail ptTime.deref.failureHandler .invalidDataError "Subtracting invalid time" w)
    else
      let iSeconds := t.iSeconds - tTimeToSubtract.iSeconds
      if t.iSubSeconds < tTimeToSubtract.iSubSeconds then
        (.success,
          ⟨iSeconds - 1, giSubsecsMax - (tTimeToSubtract.iSubSeconds - t.iSubSeconds)⟩, w)
      else
        (.success, ⟨iSeconds, t.iSubSeconds - tTimeToSubtract.iSubSeconds⟩, w)

end Operations

/-- `JunoTime_TimestampGreaterThan`. -/
def timestampGreaterThan (tLeft tRight : Timestamp) : Bool :=
  decide (tLeft.iSeconds > tRight.iSeconds) ||
    (decide (tLeft.iSeconds = tRight.iSeconds) && decide (tLeft.iSubSeconds > tRight.iSubSeconds))

/-- `JunoTime_TimestampLessThan`. -/
def timestampLessThan (tLeft tRight : Timestamp) : Bool :=
  decide (tLeft.iSeconds < tRight.iSeconds) ||
    (decide (tLeft.iSeconds = tRight.iSeconds) && decide (tLeft.iSubSeconds < tRight.iSubSeconds))

/-- `JunoTime_TimestampEquals`. -/
def timestampEquals (tLeft tRight : Timestamp) : Bool :=
  decide (tLeft.iSeconds = tRight.iSeconds) && decide (tLeft.iSubSeconds = tRight.iSubSeconds)

/-- Parts of a second: the value of `giSUBSECS_MAX`. -/
def subsecsMax : Nat := 4294967295

/-- The exact duration in parts of a second. -/
def val (t : Timestamp) : Nat := t.iSeconds.toNat * subsecsMax + t.iSubSeconds.toNat

/-- The parts are less than a second. -/
def Canonical (t : Timestamp) : Prop := t.iSubSeconds.toNat < subsecsMax

/-- The seconds of the exact sum, with the carry of the parts, are below `2 ^ 32`. -/
def Fits (a d : Timestamp) : Prop :=
  a.iSeconds.toNat + d.iSeconds.toNat +
    (if subsecsMax ≤ a.iSubSeconds.toNat + d.iSubSeconds.toNat then 1 else 0) < 4294967296

instance (t : Timestamp) : Decidable (Canonical t) := inferInstanceAs (Decidable (_ < _))

instance (a d : Timestamp) : Decidable (Fits a d) := inferInstanceAs (Decidable (_ < _))

/-- A sum whose value has its seconds below `2 ^ 32` fits. -/
theorem fits_of_val {a d : Timestamp} (h : (val a + val d) / subsecsMax < 4294967296) :
    Fits a d := by
  unfold Fits
  unfold val subsecsMax at *
  split <;> omega

theorem timestamp_ext {a b : Timestamp} (seconds : a.iSeconds.toNat = b.iSeconds.toNat)
    (parts : a.iSubSeconds.toNat = b.iSubSeconds.toNat) : a = b := by
  cases a; cases b
  simp only [Timestamp.mk.injEq]
  exact ⟨BitVec.eq_of_toNat_eq seconds, BitVec.eq_of_toNat_eq parts⟩

/-- On canonical timestamps the value determines both fields. -/
theorem val_injective {a b : Timestamp} (ha : Canonical a) (hb : Canonical b)
    (h : val a = val b) : a = b := by
  unfold Canonical val subsecsMax at *
  have seconds : a.iSeconds.toNat = b.iSeconds.toNat := by omega
  exact timestamp_ext seconds (by omega)

/-- The values are ordered as the seconds, then as the parts. -/
theorem val_lt_iff {a b : Timestamp} (ha : Canonical a) (hb : Canonical b) :
    val a < val b ↔ a.iSeconds < b.iSeconds ∨
      (a.iSeconds = b.iSeconds ∧ a.iSubSeconds < b.iSubSeconds) := by
  unfold Canonical val subsecsMax at *
  rw [BitVec.lt_def, BitVec.lt_def, ← BitVec.toNat_inj]
  omega

section Exact

variable {ω : Type} (root : TimeRoot ω)

/-- The fields of a sum: the seconds wrap, the parts do not. -/
theorem addTime_eq (a d : Timestamp) :
    ∃ t, addTime (Ref.to root) (Ref.to a) d = (.success, t) ∧
      t.iSeconds.toNat = (a.iSeconds.toNat + d.iSeconds.toNat +
        (if subsecsMax ≤ a.iSubSeconds.toNat + d.iSubSeconds.toNat then 1 else 0)) % 4294967296 ∧
      t.iSubSeconds.toNat = a.iSubSeconds.toNat + d.iSubSeconds.toNat -
        (if subsecsMax ≤ a.iSubSeconds.toNat + d.iSubSeconds.toNat then subsecsMax else 0) := by
  have ha := a.iSubSeconds.isLt
  have hd := d.iSubSeconds.isLt
  have difference : (giSubsecsMax - a.iSubSeconds).toNat = subsecsMax - a.iSubSeconds.toNat := by
    unfold giSubsecsMax subsecsMax
    bv_omega
  by_cases room : d.iSubSeconds < giSubsecsMax - a.iSubSeconds
  · refine ⟨⟨a.iSeconds + d.iSeconds, a.iSubSeconds + d.iSubSeconds⟩, ?_, ?_⟩
    · simp [addTime, Ref.to, room]
    · rw [BitVec.lt_def, difference] at room
      have below : ¬subsecsMax ≤ a.iSubSeconds.toNat + d.iSubSeconds.toNat := by
        unfold subsecsMax at *
        omega
      rw [if_neg below, if_neg below]
      unfold subsecsMax at *
      simp only [BitVec.toNat_add]
      omega
  · refine ⟨⟨a.iSeconds + d.iSeconds + 1, d.iSubSeconds - (giSubsecsMax - a.iSubSeconds)⟩, ?_, ?_⟩
    · simp [addTime, Ref.to, room]
    · rw [BitVec.lt_def, difference] at room
      have full : subsecsMax ≤ a.iSubSeconds.toNat + d.iSubSeconds.toNat := by
        unfold subsecsMax at *
        omega
      have one : (1 : BitVec 32).toNat = 1 := rfl
      rw [if_pos full, if_pos full]
      constructor
      · simp only [BitVec.toNat_add, one]
        omega
      · rw [BitVec.toNat_sub, difference]
        unfold subsecsMax at *
        omega

/-- A sum that fits is exact. -/
theorem addTime_fields {a d : Timestamp} (h : Fits a d) :
    ∃ t, addTime (Ref.to root) (Ref.to a) d = (.success, t) ∧ val t = val a + val d ∧
      (Canonical a → Canonical d → Canonical t) := by
  obtain ⟨t, sum, seconds, parts⟩ := addTime_eq root a d
  unfold Fits at h
  refine ⟨t, sum, ?_, fun ha hd => ?_⟩
  · unfold val subsecsMax at *
    rw [seconds, parts]
    split at h
    · rw [if_pos ‹_›, if_pos ‹_›]
      omega
    · rw [if_neg ‹_›, if_neg ‹_›]
      omega
  · unfold Canonical subsecsMax at *
    rw [parts]
    split <;> omega

/-- The difference of canonical timestamps, when it is not negative. -/
theorem subtractTime_fields {a d : Timestamp} (ha : Canonical a) (hd : Canonical d)
    (le : val d ≤ val a) (w : ω) :
    ∃ t, subtractTime (Ref.to root) (Ref.to a) d w = (.success, t, w) ∧
      val t = val a - val d ∧ Canonical t := by
  have order : ¬ (a.iSeconds < d.iSeconds ∨
      (a.iSeconds = d.iSeconds ∧ a.iSubSeconds < d.iSubSeconds)) := by
    rw [← val_lt_iff ha hd]
    omega
  have hs := a.iSeconds.isLt
  unfold Canonical val subsecsMax at *
  by_cases borrow : a.iSubSeconds < d.iSubSeconds
  · refine ⟨⟨a.iSeconds - d.iSeconds - 1, giSubsecsMax - (d.iSubSeconds - a.iSubSeconds)⟩, ?_, ?_⟩
    · unfold subtractTime
      rw [if_neg (by simp [Ref.to])]
      exact (if_neg order).trans (if_pos borrow)
    · rw [BitVec.lt_def] at borrow
      have one : (1 : BitVec 32).toNat = 1 := rfl
      have seconds : (a.iSeconds - d.iSeconds - 1).toNat =
          a.iSeconds.toNat - d.iSeconds.toNat - 1 := by
        simp only [BitVec.toNat_sub, one]
        omega
      have parts : (giSubsecsMax - (d.iSubSeconds - a.iSubSeconds)).toNat =
          4294967295 - (d.iSubSeconds.toNat - a.iSubSeconds.toNat) := by
        unfold giSubsecsMax
        bv_omega
      dsimp only
      rw [seconds, parts]
      omega
  · refine ⟨⟨a.iSeconds - d.iSeconds, a.iSubSeconds - d.iSubSeconds⟩, ?_, ?_⟩
    · unfold subtractTime
      rw [if_neg (by simp [Ref.to])]
      exact (if_neg order).trans (if_neg borrow)
    · rw [BitVec.lt_def] at borrow
      simp only [BitVec.toNat_sub]
      omega

/-- A negative difference is refused: zero is left behind and the handler is told. -/
theorem subtractTime_negative {a d : Timestamp} (ha : Canonical a) (hd : Canonical d)
    (lt : val a < val d) (w : ω) :
    subtractTime (Ref.to root) (Ref.to a) d w = (.invalidDataError, ⟨0, 0⟩,
      fail root.failureHandler .invalidDataError "Subtracting invalid time" w) := by
  rw [val_lt_iff ha hd] at lt
  unfold subtractTime
  rw [if_neg (by simp [Ref.to])]
  exact if_pos lt

end Exact

theorem lessThan_iff {a d : Timestamp} (ha : Canonical a) (hd : Canonical d) :
    timestampLessThan a d = true ↔ val a < val d := by
  rw [val_lt_iff ha hd]
  simp [timestampLessThan]

theorem greaterThan_eq_lessThan (a d : Timestamp) :
    timestampGreaterThan a d = timestampLessThan d a := by
  unfold timestampGreaterThan timestampLessThan
  simp only [gt_iff_lt, eq_comm]

theorem equals_iff {a d : Timestamp} (ha : Canonical a) (hd : Canonical d) :
    timestampEquals a d = true ↔ val a = val d := by
  unfold timestampEquals
  rw [Bool.and_eq_true, decide_eq_true_eq, decide_eq_true_eq]
  constructor
  · rintro ⟨seconds, parts⟩
    rw [val, val, seconds, parts]
  · intro h
    have same := val_injective ha hd h
    exact ⟨congrArg _ same, congrArg _ same⟩

/-- Addition and subtraction are exact, undo each other, and a difference is refused
exactly when it is negative; the comparisons compare the values. -/
theorem timestamp_exact {ω : Type} (root : TimeRoot ω) :
    (∀ a d, Fits a d →
      ∃ t, addTime (Ref.to root) (Ref.to a) d = (.success, t) ∧ val t = val a + val d ∧
        (Canonical a → Canonical d →
          Canonical t ∧ ∀ w, subtractTime (Ref.to root) (Ref.to t) d w = (.success, a, w))) ∧
    (∀ a d, Canonical a → Canonical d → ∀ w,
      let r := subtractTime (Ref.to root) (Ref.to a) d w
      (r.1 = .invalidDataError ∧ r.2.1 = ⟨0, 0⟩ ↔ val a < val d) ∧
      (¬ val a < val d → r.1 = .success ∧ Canonical r.2.1 ∧ val r.2.1 = val a - val d ∧
        addTime (Ref.to root) (Ref.to r.2.1) d = (.success, a)) ∧
      (timestampLessThan a d = true ↔ val a < val d) ∧
      (timestampGreaterThan a d = true ↔ val a > val d) ∧
      (timestampEquals a d = true ↔ val a = val d)) := by
  constructor
  · intro a d fits
    obtain ⟨t, sum, value, canonical⟩ := addTime_fields root fits
    refine ⟨t, sum, value, fun ha hd => ⟨canonical ha hd, fun w => ?_⟩⟩
    have le : val d ≤ val t := by omega
    obtain ⟨back, difference, backValue, backCanonical⟩ :=
      subtractTime_fields root (canonical ha hd) hd le w
    have same : back = a := val_injective backCanonical ha (by omega)
    rw [difference, same]
  · intro a d ha hd w
    refine ⟨?_, ?_, lessThan_iff ha hd, ?_, equals_iff ha hd⟩
    · constructor
      · intro refused
        apply Nat.lt_of_not_le
        intro le
        obtain ⟨t, difference, -, -⟩ := subtractTime_fields root ha hd le w
        rw [difference] at refused
        have wrong : Status.success = .invalidDataError := refused.1
        cases wrong
      · intro lt
        rw [subtractTime_negative root ha hd lt]
        exact ⟨rfl, rfl⟩
    · intro notLess
      have le : val d ≤ val a := Nat.le_of_not_lt notLess
      obtain ⟨t, difference, value, canonical⟩ := subtractTime_fields root ha hd le w
      rw [difference]
      have fits : Fits t d := by
        apply fits_of_val
        have seconds := a.iSeconds.isLt
        have sum : val t + val d = val a := by omega
        rw [sum]
        unfold Canonical val subsecsMax at *
        omega
      obtain ⟨back, sum, backValue, backCanonical⟩ := addTime_fields root fits
      have same : back = a := val_injective (backCanonical canonical hd) ha (by omega)
      exact ⟨rfl, canonical, value, by rw [sum, same]⟩
    · rw [greaterThan_eq_lessThan]
      exact lessThan_iff hd ha

/-- A sum with a carry, taken back again. -/
theorem timestamp_exact_carry (root : TimeRoot Unit) :
    ∃ t, addTime (Ref.to root) (Ref.to ⟨1, 4294967290⟩) ⟨0, 10⟩ = (.success, t) ∧
      subtractTime (Ref.to root) (Ref.to t) ⟨0, 10⟩ () = (.success, ⟨1, 4294967290⟩, ()) := by
  obtain ⟨t, sum, -, back⟩ := (timestamp_exact root).1 ⟨1, 4294967290⟩ ⟨0, 10⟩ (by decide)
  exact ⟨t, sum, (back (by decide) (by decide)).2 ()⟩

end LibJuno.Time
