import LibJuno.Time.Duration

/-!
# Timestamps as integers

`JunoTime_TimestampToNanos` and its siblings on every timestamp, canonical or not. The
overflow guards are never taken: 32 bits of seconds leave room for the units of all of
them, and the rounded parts of a second are at most one second more. `giSUBSECS_MAX` is
odd, so that no fraction lies halfway, and a fraction that rounds up to a whole second
reaches the next one without passing it.
-/

namespace LibJuno.Time

section Rounding

variable {ω : Type}

/-- The conversion succeeds on `t` and reports nothing, its products and sums stay below
`2 ^ 64`, and the count is that of the whole seconds and of the units nearest to the rest. -/
structure RoundsToNearest (ofTimestamp : Ref (TimeRoot ω) → Timestamp → ω → Result (BitVec 64) × ω)
    (root : TimeRoot ω) (perSec : Nat) (t : Timestamp) : Prop where
  dividend : t.iSubSeconds.toNat * perSec + subsecsMax / 2 < countEnd
  base : t.iSeconds.toNat * perSec < countEnd
  total : t.iSeconds.toNat * perSec +
    (t.iSubSeconds.toNat * perSec + subsecsMax / 2) / subsecsMax < countEnd
  converts : ∃ count : BitVec 64, (∀ w, ofTimestamp (Ref.to root) t w = (⟨.success, count⟩, w)) ∧
    ∃ units, Nearest (t.iSubSeconds.toNat * perSec) subsecsMax units ∧
      count.toNat = t.iSeconds.toNat * perSec + units

variable {perSec : BitVec 64} {secondsText fractionText : String}

/-- A count: the seconds and the rescaled rest, as `JunoTime_TimestampToNanos` adds them. -/
def unitsOf (perSec : Nat) (t : Timestamp) : Nat :=
  t.iSeconds.toNat * perSec + rescale subsecsMax perSec t.iSubSeconds.toNat

/-- A unit below a part of a second leaves room for all seconds and one more. -/
theorem unitsOf_lt (t : Timestamp) {n : Nat} (coarse : n < subsecsMax) : unitsOf n t < countEnd := by
  have seconds : t.iSeconds.toNat ≤ subsecsMax := Nat.le_of_lt_succ t.iSeconds.isLt
  have parts : t.iSubSeconds.toNat ≤ subsecsMax := Nat.le_of_lt_succ t.iSubSeconds.isLt
  have rest : rescale subsecsMax n t.iSubSeconds.toNat ≤ n := rescale_le (by decide) parts
  have whole : t.iSeconds.toNat * n ≤ subsecsMax * n := Nat.mul_le_mul_right n seconds
  unfold unitsOf subsecsMax countEnd at *
  omega

theorem ofNat_unitsOf (t : Timestamp) {n : Nat} (coarse : n < subsecsMax) :
    (BitVec.ofNat 64 (unitsOf n t)).toNat = unitsOf n t := by
  rw [BitVec.toNat_ofNat]
  exact Nat.mod_eq_of_lt (unitsOf_lt t coarse)

theorem timestampToUnits_unitsOf (root : TimeRoot ω) (t : Timestamp) (pos : 0 < perSec.toNat)
    (coarse : perSec.toNat < subsecsMax) (w : ω) :
    timestampToUnits perSec secondsText fractionText (Ref.to root) t w =
      (⟨.success, BitVec.ofNat 64 (unitsOf perSec.toNat t)⟩, w) := by
  apply timestampToUnits_eq root pos coarse
  rw [ofNat_unitsOf t coarse]
  rfl

/-- Any unit of which a second has at least one and fewer than `giSUBSECS_MAX` is rounded to. -/
theorem units_roundsToNearest (root : TimeRoot ω) (t : Timestamp) (pos : 0 < perSec.toNat)
    (coarse : perSec.toNat < subsecsMax) :
    RoundsToNearest (timestampToUnits perSec secondsText fractionText) root perSec.toNat t := by
  have total : unitsOf perSec.toNat t < countEnd := unitsOf_lt t coarse
  constructor
  case dividend => exact dividend_lt t coarse
  case base => exact Nat.lt_of_le_of_lt (Nat.le_add_right _ _) total
  case total => exact total
  case converts =>
    refine ⟨BitVec.ofNat 64 (unitsOf perSec.toNat t), timestampToUnits_unitsOf root t pos coarse,
      rescale subsecsMax perSec.toNat t.iSubSeconds.toNat, rescale_nearest _ _ (by decide), ?_⟩
    exact ofNat_unitsOf t coarse

/-- Later canonical timestamps have no smaller count, also where the earlier one rounds up
to a whole second. -/
theorem unitsOf_mono (n : Nat) {a b : Timestamp} (ha : Canonical a) (hb : Canonical b)
    (le : val a ≤ val b) : unitsOf n a ≤ unitsOf n b := by
  unfold Canonical val at *
  by_cases same : a.iSeconds.toNat = b.iSeconds.toNat
  · rw [same] at le
    have rest : rescale subsecsMax n a.iSubSeconds.toNat ≤ rescale subsecsMax n b.iSubSeconds.toNat :=
      rescale_mono (by omega)
    unfold unitsOf
    rw [same]
    omega
  · have before : a.iSeconds.toNat + 1 ≤ b.iSeconds.toNat := by
      unfold subsecsMax at *
      omega
    have rest : rescale subsecsMax n a.iSubSeconds.toNat ≤ n := rescale_le (by decide) (Nat.le_of_lt ha)
    calc a.iSeconds.toNat * n + rescale subsecsMax n a.iSubSeconds.toNat
        ≤ a.iSeconds.toNat * n + n := Nat.add_le_add_left rest _
      _ = (a.iSeconds.toNat + 1) * n := by ring
      _ ≤ b.iSeconds.toNat * n := Nat.mul_le_mul_right n before
      _ ≤ unitsOf n b := Nat.le_add_right _ _

/-- The conversion keeps the order of `JunoTime_TimestampGreaterThan` on canonical timestamps. -/
def KeepsOrder (ofTimestamp : Ref (TimeRoot ω) → Timestamp → ω → Result (BitVec 64) × ω)
    (root : TimeRoot ω) : Prop :=
  ∀ a b w, Canonical a → Canonical b → timestampGreaterThan a b = false →
    (ofTimestamp (Ref.to root) a w).1.tOk.toNat ≤ (ofTimestamp (Ref.to root) b w).1.tOk.toNat

theorem units_keepsOrder (root : TimeRoot ω) (pos : 0 < perSec.toNat)
    (coarse : perSec.toNat < subsecsMax) :
    KeepsOrder (timestampToUnits perSec secondsText fractionText) root := by
  intro a b w ha hb notGreater
  have le : val a ≤ val b := by
    apply Nat.le_of_not_lt
    rw [← lessThan_iff hb ha, ← greaterThan_eq_lessThan, notGreater]
    exact Bool.false_ne_true
  rw [timestampToUnits_unitsOf root a pos coarse, timestampToUnits_unitsOf root b pos coarse]
  dsimp only
  rw [ofNat_unitsOf a coarse, ofNat_unitsOf b coarse]
  exact unitsOf_mono _ ha hb le

/-- Every timestamp converts to the nearest count of nanoseconds, microseconds and
milliseconds, no 64-bit product or sum on the way wraps, and the order is kept. -/
theorem timestamp_rounds (root : TimeRoot ω) :
    (∀ t, RoundsToNearest timestampToNanos root 1000000000 t ∧
      RoundsToNearest timestampToMicros root 1000000 t ∧
      RoundsToNearest timestampToMillis root 1000 t) ∧
    KeepsOrder timestampToNanos root ∧ KeepsOrder timestampToMicros root ∧
      KeepsOrder timestampToMillis root := by
  refine ⟨fun t => ⟨?_, ?_, ?_⟩, ?_, ?_, ?_⟩
  · exact units_roundsToNearest root t (by decide) (by decide)
  · exact units_roundsToNearest root t (by decide) (by decide)
  · exact units_roundsToNearest root t (by decide) (by decide)
  · exact units_keepsOrder root (by decide) (by decide)
  · exact units_keepsOrder root (by decide) (by decide)
  · exact units_keepsOrder root (by decide) (by decide)

end Rounding

/-- The last part before a second rounds up to it, and the second itself is not below. -/
example (root : TimeRoot Unit) :
    (timestampToMillis (Ref.to root) ⟨7, 4294967294⟩ ()).1.tOk = 8000 ∧
      (timestampToMillis (Ref.to root) ⟨8, 0⟩ ()).1.tOk = 8000 := by
  constructor <;> rfl

end LibJuno.Time
