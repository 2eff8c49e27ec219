import Mathlib.Order.Basic

/-!
# Loops that may break

One turn of a loop goes on with a state or stops with one. A run takes turns as long as it
has fuel; `Ends` is that some fuel is enough. There is a rule for the turns that are known,
one for a measure that every turn lowers and one for an invariant that no turn stops in.
-/

/-- What one turn of a loop does. -/
inductive Turn (σ : Type*) where
  | next (s : σ)
  | stop (s : σ)

/-- At most so many turns. -/
def loop {σ : Type*} (turn : σ → Turn σ) : Nat → σ → Option σ
  | 0, _ => none
  | fuel + 1, s =>
    match turn s with
    | .next s' => loop turn fuel s'
    | .stop s' => some s'

/-- The loop ends in `r`. -/
def Ends {σ : Type*} (turn : σ → Turn σ) (s r : σ) : Prop := ∃ fuel, loop turn fuel s = some r

namespace Ends

variable {σ : Type*} {turn : σ → Turn σ} {s s' r : σ}

theorem next_iff (step : turn s = .next s') : Ends turn s r ↔ Ends turn s' r := by
  constructor
  · rintro ⟨fuel, run⟩
    cases fuel with
    | zero => cases run
    | succ fuel =>
      rw [loop, step] at run
      exact ⟨fuel, run⟩
  · rintro ⟨fuel, run⟩
    refine ⟨fuel + 1, ?_⟩
    rw [loop, step]
    exact run

theorem stop_iff (step : turn s = .stop s') : Ends turn s r ↔ r = s' := by
  constructor
  · rintro ⟨fuel, run⟩
    cases fuel with
    | zero => cases run
    | succ fuel =>
      rw [loop, step] at run
      exact (Option.some.inj run).symm
  · rintro rfl
    refine ⟨1, ?_⟩
    rw [loop, step]

/-- A loop ends in one state. -/
theorem unique {r' : σ} (h : Ends turn s r) (h' : Ends turn s r') : r = r' := by
  obtain ⟨fuel, run⟩ := h
  induction fuel generalizing s with
  | zero => cases run
  | succ fuel ih =>
    rw [loop] at run
    cases step : turn s with
    | next s' =>
      rw [step] at run
      exact ih ((next_iff step).1 h') run
    | stop s' =>
      rw [step] at run
      rw [(stop_iff step).1 h', ← Option.some.inj run]

/-- Turns that go through the states `at_ 0, at_ 1, ...` up to the `n`-th. -/
theorem through_iff {at_ : Nat → σ} {n : Nat}
    (steps : ∀ k < n, turn (at_ k) = .next (at_ (k + 1))) :
    Ends turn (at_ 0) r ↔ Ends turn (at_ n) r := by
  induction n with
  | zero => exact Iff.rfl
  | succ n ih =>
    rw [ih fun k before => steps k (Nat.lt_succ_of_lt before)]
    exact next_iff (steps n (Nat.lt_succ_self n))

/-- A measure that every turn lowers is fuel enough. -/
theorem loop_measure (measure : σ → Nat)
    (lowers : ∀ s s', turn s = .next s' → measure s' < measure s) (s : σ) {fuel : Nat}
    (enough : measure s < fuel) : ∃ r, loop turn fuel s = some r := by
  induction fuel generalizing s with
  | zero => exact absurd enough (Nat.not_lt_zero _)
  | succ fuel ih =>
    rw [loop]
    cases step : turn s with
    | next s' =>
      exact ih s' (Nat.lt_of_lt_of_le (lowers s s' step) (Nat.le_of_lt_succ enough))
    | stop s' => exact ⟨s', rfl⟩

/-- So the loop ends. -/
theorem of_measure (measure : σ → Nat)
    (lowers : ∀ s s', turn s = .next s' → measure s' < measure s) (s : σ) : ∃ r, Ends turn s r := by
  obtain ⟨r, run⟩ := loop_measure measure lowers s (Nat.lt_succ_self (measure s))
  exact ⟨r, measure s + 1, run⟩

/-- A loop does not end that only goes on while an invariant holds, and keeps it. -/
theorem never {I : σ → Prop} (goes_on : ∀ s, I s → ∃ s', turn s = .next s' ∧ I s')
    (start : I s) : ¬Ends turn s r := by
  rintro ⟨fuel, run⟩
  induction fuel generalizing s with
  | zero => cases run
  | succ fuel ih =>
    obtain ⟨s', step, keeps⟩ := goes_on s start
    rw [loop, step] at run
    exact ih keeps run

/-- A loop ends by a turn that stops, in a state that has what every turn before it keeps. -/
theorem last {P : σ → Prop} (next : ∀ s s', P s → turn s = .next s' → P s') (start : P s)
    (ends : Ends turn s r) : ∃ s', P s' ∧ turn s' = .stop r := by
  obtain ⟨fuel, run⟩ := ends
  induction fuel generalizing s with
  | zero => cases run
  | succ fuel ih =>
    rw [loop] at run
    cases step : turn s with
    | next s' =>
      rw [step] at run
      exact ih (next s s' start step) run
    | stop s' =>
      rw [step] at run
      rw [← Option.some.inj run]
      exact ⟨s, start, step⟩

/-- What every turn keeps holds at the end. -/
theorem keeps {P : σ → Prop} (next : ∀ s s', P s → turn s = .next s' → P s')
    (stop : ∀ s s', P s → turn s = .stop s' → P s') (start : P s) (ends : Ends turn s r) : P r := by
  obtain ⟨s', holds, step⟩ := ends.last next start
  exact stop s' r holds step

end Ends
