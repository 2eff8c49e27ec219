import Mathlib.Data.List.Basic
import Mathlib.Order.Basic

/-!
# Deterministic machines, their runs and their refinements

A program whose operations are called one after another is a `Machine`: an input
takes a state to an output and the next state. `run` folds a list of inputs and
`trace` pairs each input with its output. What one step keeps, every run keeps
(`invariant`). A specification is a labelled step relation; a machine whose steps
are steps of the specification under an abstraction function has only traces of
the specification (`refines`).
-/

/-- A deterministic machine: an input takes a state to an output and the next state. -/
structure Machine (σ ι ο : Type*) where
  step : σ → ι → ο × σ

/-- Chains of labelled steps, the labels in order. -/
inductive StepChain {τ ε : Type*} (T : τ → ε → τ → Prop) : τ → List ε → τ → Prop where
  | nil (t : τ) : StepChain T t [] t
  | cons {t t' t'' : τ} {e : ε} {es : List ε} : T t e t' → StepChain T t' es t'' → StepChain T t (e :: es) t''

namespace StepChain

variable {τ ε : Type*} {T : τ → ε → τ → Prop}

/-- A chain over an appended list of labels splits at the seam. -/
theorem split {t t'' : τ} {es es' : List ε} (h : StepChain T t (es ++ es') t'') :
    ∃ t', StepChain T t es t' ∧ StepChain T t' es' t'' := by
  induction es generalizing t with
  | nil => exact ⟨t, .nil t, h⟩
  | cons e es ih =>
    cases h with
    | cons step rest =>
      obtain ⟨t', front, back⟩ := ih rest
      exact ⟨t', .cons step front, back⟩

theorem single {t t' : τ} {e : ε} (h : StepChain T t [e] t') : T t e t' := by
  cases h with
  | cons step rest => cases rest; exact step

end StepChain

namespace Machine

variable {σ ι ο : Type*} (M : Machine σ ι ο)

/-- The state after the inputs. -/
def run (s : σ) : List ι → σ
  | [] => s
  | i :: is => run (M.step s i).2 is

/-- Each input with the output it drew. -/
def trace (s : σ) : List ι → List (ι × ο)
  | [] => []
  | i :: is => (i, (M.step s i).1) :: trace (M.step s i).2 is

@[simp] theorem run_nil (s : σ) : M.run s [] = s := rfl

@[simp] theorem run_cons (s : σ) (i : ι) (is : List ι) :
    M.run s (i :: is) = M.run (M.step s i).2 is := rfl

@[simp] theorem trace_nil (s : σ) : M.trace s [] = [] := rfl

@[simp] theorem trace_cons (s : σ) (i : ι) (is : List ι) :
    M.trace s (i :: is) = (i, (M.step s i).1) :: M.trace (M.step s i).2 is := rfl

theorem run_append (s : σ) (is is' : List ι) : M.run s (is ++ is') = M.run (M.run s is) is' := by
  induction is generalizing s with
  | nil => rfl
  | cons i is ih => exact ih _

theorem trace_append (s : σ) (is is' : List ι) :
    M.trace s (is ++ is') = M.trace s is ++ M.trace (M.run s is) is' := by
  induction is generalizing s with
  | nil => rfl
  | cons i is ih => simp [ih]

/-- `P` holds of each input in the state that it finds. -/
def Along (P : σ → ι → Prop) (s : σ) : List ι → Prop
  | [] => True
  | i :: is => P s i ∧ Along P (M.step s i).2 is

variable {M} {P : σ → ι → Prop}

instance decidableAlong [∀ s i, Decidable (P s i)] (s : σ) (is : List ι) : Decidable (M.Along P s is) :=
  match is with
  | [] => .isTrue trivial
  | i :: is =>
    have := decidableAlong (M.step s i).2 is
    inferInstanceAs (Decidable (P s i ∧ M.Along P (M.step s i).2 is))

theorem along_of (h : ∀ s i, P s i) (s : σ) (is : List ι) : M.Along P s is := by
  induction is generalizing s with
  | nil => trivial
  | cons i is ih => exact ⟨h s i, ih _⟩

theorem Along.mono {Q : σ → ι → Prop} (weaker : ∀ s i, P s i → Q s i) {s : σ} {is : List ι}
    (h : M.Along P s is) : M.Along Q s is := by
  induction is generalizing s with
  | nil => trivial
  | cons i is ih => exact ⟨weaker s i h.1, ih h.2⟩

theorem Along.and {Q : σ → ι → Prop} {s : σ} {is : List ι} (h : M.Along P s is)
    (h' : M.Along Q s is) : M.Along (fun s i => P s i ∧ Q s i) s is := by
  induction is generalizing s with
  | nil => trivial
  | cons i is ih => exact ⟨⟨h.1, h'.1⟩, ih h.2 h'.2⟩

theorem along_append {s : σ} {is is' : List ι} :
    M.Along P s (is ++ is') ↔ M.Along P s is ∧ M.Along P (M.run s is) is' := by
  induction is generalizing s with
  | nil => simp [Along]
  | cons i is ih => simp [Along, ih, and_assoc]

/-- What holds along a run holds of each of its inputs. -/
theorem along_iff_split {s : σ} {is : List ι} :
    M.Along P s is ↔ ∀ front i rest, is = front ++ i :: rest → P (M.run s front) i := by
  induction is generalizing s with
  | nil => simp [Along]
  | cons i is ih =>
    rw [Along, ih]
    constructor
    · rintro ⟨first, rest⟩ front j back split
      cases front with
      | nil =>
        obtain ⟨rfl, rfl⟩ := List.cons.inj split
        exact first
      | cons k front =>
        obtain ⟨rfl, tail⟩ := List.cons.inj split
        exact rest front j back tail
    · intro all
      exact ⟨all [] i is rfl, fun front j back split => all (i :: front) j back (by rw [split]; rfl)⟩

/-- What every admissible step keeps holds after every run of admissible steps. -/
theorem invariant {I : σ → Prop} (keep : ∀ s i, I s → P s i → I (M.step s i).2)
    {s : σ} {is : List ι} (start : I s) (along : M.Along P s is) : I (M.run s is) := by
  induction is generalizing s with
  | nil => exact start
  | cons i is ih => exact ih (keep s i start along.1) along.2

/-- What every admissible step keeps is there at each step of a run of admissible steps. -/
theorem invariant_along {I : σ → Prop} (keep : ∀ s i, I s → P s i → I (M.step s i).2)
    {s : σ} {is : List ι} (start : I s) (along : M.Along P s is) :
    M.Along (fun s i => I s ∧ P s i) s is := by
  induction is generalizing s with
  | nil => trivial
  | cons i is ih => exact ⟨⟨start, along.1⟩, ih (keep s i start along.1) along.2⟩

/-- Two conditions that agree where `I` holds are met by the same runs, if the steps that
meet the second one keep `I`. -/
theorem along_congr {I : σ → Prop} {Q : σ → ι → Prop} (same : ∀ s i, I s → (P s i ↔ Q s i))
    (keep : ∀ s i, I s → Q s i → I (M.step s i).2) {s : σ} {is : List ι} (start : I s) :
    M.Along P s is ↔ M.Along Q s is := by
  induction is generalizing s with
  | nil => exact Iff.rfl
  | cons i is ih =>
    constructor
    · rintro ⟨here, rest⟩
      have here' := (same s i start).1 here
      exact ⟨here', (ih (keep s i start here')).1 rest⟩
    · rintro ⟨here, rest⟩
      exact ⟨(same s i start).2 here, (ih (keep s i start here)).2 rest⟩

/-- A machine whose admissible steps are steps of `T`, seen through `abs` and `event`,
has only chains of `T` as traces. -/
theorem refines {τ ε : Type*} {T : τ → ε → τ → Prop} {I : σ → Prop}
    (abs : σ → τ) (event : ι × ο → ε)
    (keep : ∀ s i, I s → P s i → I (M.step s i).2 ∧
      T (abs s) (event (i, (M.step s i).1)) (abs (M.step s i).2))
    {s : σ} {is : List ι} (start : I s) (along : M.Along P s is) :
    StepChain T (abs s) ((M.trace s is).map event) (abs (M.run s is)) := by
  induction is generalizing s with
  | nil => exact .nil _
  | cons i is ih =>
    obtain ⟨next, step⟩ := keep s i start along.1
    exact .cons step (ih next along.2)

/-- Two machines whose related states draw outputs of equal view and stay related
have the same list of views. -/
theorem views_eq {σ' ι' ο' γ : Type*} {N : Machine σ' ι' ο'} {R : σ → σ' → Prop}
    (input : ι → ι') (view : ι × ο → γ) (view' : ι' × ο' → γ)
    (keep : ∀ s t i, R s t → P s i →
      view (i, (M.step s i).1) = view' (input i, (N.step t (input i)).1) ∧
        R (M.step s i).2 (N.step t (input i)).2)
    {s : σ} {t : σ'} {is : List ι} (start : R s t) (along : M.Along P s is) :
    (M.trace s is).map view = (N.trace t (is.map input)).map view' := by
  induction is generalizing s t with
  | nil => rfl
  | cons i is ih =>
    obtain ⟨out, next⟩ := keep s t i start along.1
    simp only [trace_cons, List.map_cons, out]
    rw [ih next along.2]

end Machine
