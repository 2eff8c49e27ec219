import Mathlib.Logic.Function.Basic

/-!
# Independent parties in one run

Every event of a run is for one party or changes an environment that all of them read. A
party then ends where its own events lead it, each taken in the environment of its time: the
events of the others have no part in it.
-/

namespace Parallel

variable {ι ρ σ ε : Type*} [DecidableEq ι]

/-- An event of a run: a new environment, or something that happens to one party. -/
inductive Event (ι ρ ε : Type*) where
  | environment (r : ρ)
  | own (i : ι) (e : ε)

structure State (ι ρ σ : Type*) where
  environment : ρ
  parties : ι → σ

/-- A step of the run, when a party takes an event in an environment by `turn`. -/
def step (turn : ρ → σ → ε → σ) (s : State ι ρ σ) : Event ι ρ ε → State ι ρ σ
  | .environment r => { s with environment := r }
  | .own i e => { s with parties := Function.update s.parties i (turn s.environment (s.parties i) e) }

/-- The events of one party, with the environments that they are taken in. -/
def seenBy (i : ι) : ρ → List (Event ι ρ ε) → List (ρ × ε)
  | _, [] => []
  | _, .environment r :: es => seenBy i r es
  | r, .own j e :: es => if j = i then (r, e) :: seenBy i r es else seenBy i r es

/-- Where one party ends. -/
theorem parties_foldl (turn : ρ → σ → ε → σ) (es : List (Event ι ρ ε)) (s : State ι ρ σ) (i : ι) :
    (es.foldl (step turn) s).parties i =
      (seenBy i s.environment es).foldl (fun q x => turn x.1 q x.2) (s.parties i) := by
  induction es generalizing s with
  | nil => rfl
  | cons e es ih =>
    rw [List.foldl_cons, ih]
    cases e with
    | environment r => rfl
    | own j e =>
      rw [step, seenBy]
      dsimp only
      by_cases here : j = i
      · subst here
        rw [if_pos rfl, Function.update_self, List.foldl_cons]
      · rw [if_neg here, Function.update_of_ne (Ne.symm here)]

/-- What holds of a party at first and is kept by its turns holds of it in every run. -/
theorem parties_invariant {turn : ρ → σ → ε → σ} {P : σ → Prop}
    (kept : ∀ r q e, P q → P (turn r q e)) (es : List (Event ι ρ ε)) {s : State ι ρ σ}
    (first : ∀ i, P (s.parties i)) (i : ι) : P ((es.foldl (step turn) s).parties i) := by
  rw [parties_foldl]
  have start := first i
  generalize s.parties i = q at start
  generalize seenBy i s.environment es = xs
  induction xs generalizing q with
  | nil => exact start
  | cons x xs ih => exact ih _ (kept x.1 q x.2 start)

end Parallel
