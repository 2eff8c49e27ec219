import Mathlib.Data.List.Basic
import Mathlib.Logic.Relation

/-!
# Walks along parents

Every element has at most one parent, so the elements above another one are a chain: it ends
in an element without a parent, or it comes back to one that it has passed. A walk along it
marks what it passes. It can pass no more new elements with parents than there are, and when
it comes back it has passed the whole chain.
-/

namespace Ancestry

variable {τ : Type*} (parent : τ → Option τ)

/-- What is reached in so many steps. -/
def up : Nat → τ → Option τ
  | 0, a => some a
  | n + 1, a => (up n a).bind parent

/-- `b` is `a` or an ancestor of it. -/
def Above : τ → τ → Prop := Relation.ReflTransGen fun a b => parent a = some b

/-- `b` is where the chain from `a` ends. -/
def IsTop (a b : τ) : Prop := Above parent a b ∧ parent b = none

/-- Nothing on the chain from `a` is an ancestor of itself. -/
def AcyclicFrom (a : τ) : Prop :=
  ∀ b, Above parent a b → ¬Relation.TransGen (fun a b => parent a = some b) b b

/-- `t` is the first on the chain from `a` that has the property. -/
def Nearest (P : τ → Prop) (a t : τ) : Prop :=
  ∃ n, up parent n a = some t ∧ P t ∧ ∀ k < n, ∀ u, up parent k a = some u → ¬P u

/-- The marked elements are those that the first `n` steps from `a` have passed. -/
def Marks (a : τ) (n : Nat) (marked : List τ) : Prop :=
  ∀ t, t ∈ marked ↔ ∃ k < n, up parent k a = some t

variable {parent} {a b c t : τ} {n k m : Nat}

theorem up_add (n m : Nat) (a : τ) : up parent (n + m) a = (up parent n a).bind (up parent m) := by
  induction m with
  | zero => cases up parent n a <;> rfl
  | succ m ih =>
    rw [← Nat.add_assoc, up, ih, Option.bind_assoc]
    rfl

/-- The steps from the parent come after the first one. -/
theorem up_succ (n : Nat) (a : τ) : up parent (n + 1) a = (parent a).bind (up parent n) := by
  rw [Nat.add_comm, up_add]
  rfl

/-- Nothing is reached after the end. -/
theorem up_none (last : up parent n a = none) (later : n ≤ m) : up parent m a = none := by
  obtain ⟨d, rfl⟩ := Nat.exists_eq_add_of_le later
  rw [up_add, last, Option.bind_none]

theorem above_iff : Above parent a b ↔ ∃ n, up parent n a = some b := by
  constructor
  · intro above
    induction above with
    | refl => exact ⟨0, rfl⟩
    | tail _ step ih =>
      obtain ⟨n, here⟩ := ih
      refine ⟨n + 1, ?_⟩
      rw [up, here, Option.bind_some, step]
  · rintro ⟨n, here⟩
    induction n generalizing b with
    | zero => exact Option.some.inj here ▸ .refl
    | succ n ih =>
      obtain ⟨c, below, step⟩ := Option.bind_eq_some_iff.1 here
      exact (ih below).tail step

/-- What is reached in more than no steps is a proper ancestor. -/
theorem transGen_of_up (here : up parent (n + 1) a = some b) :
    Relation.TransGen (fun a b => parent a = some b) a b := by
  obtain ⟨c, below, step⟩ := Option.bind_eq_some_iff.1 here
  exact Relation.TransGen.tail' (above_iff.2 ⟨n, below⟩) step

section Tops

/-- A chain has one end. -/
theorem IsTop.unique (top : IsTop parent a b) (other : IsTop parent a c) : b = c := by
  have comparable := top.1.total_of_right_unique
    (fun _ _ _ step step' => Option.some.inj (step.symm.trans step')) other.1
  rcases comparable with onward | onward
  · rcases onward.cases_head with same | ⟨d, step, -⟩
    · exact same
    · exact absurd (top.2.symm.trans step) (Option.some_ne_none d).symm
  · rcases onward.cases_head with same | ⟨d, step, -⟩
    · exact same.symm
    · exact absurd (other.2.symm.trans step) (Option.some_ne_none d).symm

theorem IsTop.of_above (above : Above parent a b) (top : IsTop parent b c) : IsTop parent a c :=
  ⟨above.trans top.1, top.2⟩

theorem AcyclicFrom.above (acyclic : AcyclicFrom parent a) (above : Above parent a b) :
    AcyclicFrom parent b :=
  fun c onward => acyclic c (above.trans onward)

/-- A rank that every parent lowers excludes cycles. -/
theorem acyclicFrom_of_rank (rank : τ → Nat) (lower : ∀ a b, parent a = some b → rank b < rank a)
    (a : τ) : AcyclicFrom parent a := by
  intro b _ cycle
  have less : ∀ c, Relation.TransGen (fun a b => parent a = some b) b c → rank c < rank b := by
    intro c onward
    induction onward with
    | single step => exact lower _ _ step
    | tail _ step ih => exact Nat.lt_trans (lower _ _ step) ih
  exact Nat.lt_irrefl _ (less b cycle)

end Tops

section NearestOnes

variable {P : τ → Prop}

theorem Nearest.holds (nearest : Nearest parent P a t) : P t := nearest.elim fun _ first => first.2.1

theorem Nearest.above (nearest : Nearest parent P a t) : Above parent a t :=
  nearest.elim fun n first => above_iff.2 ⟨n, first.1⟩

theorem Nearest.here (holds : P a) : Nearest parent P a a := ⟨0, rfl, holds, nofun⟩

/-- An element without the property leaves the first one to its parent. -/
theorem Nearest.head (lacks : ¬P a) (step : parent a = some b) (nearest : Nearest parent P b t) :
    Nearest parent P a t := by
  obtain ⟨n, here, holds, before⟩ := nearest
  refine ⟨n + 1, by rw [up_succ, step, Option.bind_some, here], holds, fun k less u passed => ?_⟩
  cases k with
  | zero => exact Option.some.inj passed ▸ lacks
  | succ k =>
    rw [up_succ, step, Option.bind_some] at passed
    exact before k (Nat.lt_of_succ_lt_succ less) u passed

/-- What the first element has, and what passes from a parent to an element without the
property, holds where the chain starts. -/
theorem Nearest.induction {motive : τ → Prop} (nearest : Nearest parent P a t) (first : motive t)
    (head : ∀ a b, ¬P a → parent a = some b → motive b → motive a) : motive a := by
  obtain ⟨n, here, -, before⟩ := nearest
  induction n generalizing a with
  | zero => exact Option.some.inj here ▸ first
  | succ n ih =>
    rw [up_succ] at here
    obtain ⟨b, step, rest⟩ := Option.bind_eq_some_iff.1 here
    refine head a b (before 0 (Nat.succ_pos n) a rfl) step (ih rest fun k less u passed => ?_)
    exact before (k + 1) (Nat.succ_lt_succ less) u (by rw [up_succ, step, Option.bind_some, passed])

/-- There is one first element. -/
theorem Nearest.unique {t' : τ} (nearest : Nearest parent P a t) (other : Nearest parent P a t') :
    t = t' := by
  obtain ⟨n, here, holds, before⟩ := nearest
  obtain ⟨n', here', holds', before'⟩ := other
  rcases Nat.lt_trichotomy n n' with less | rfl | less
  · exact absurd holds (before' n less t here)
  · exact Option.some.inj (here.symm.trans here')
  · exact absurd holds' (before n' less t' here')

end NearestOnes

section Marking

variable {marked : List τ}

theorem marks_nil : Marks parent a 0 [] := by
  intro t
  simp

/-- One more step marks one more element. -/
theorem Marks.cons (marks : Marks parent a n marked) (here : up parent n a = some t) :
    Marks parent a (n + 1) (t :: marked) := by
  intro u
  rw [List.mem_cons, marks u]
  constructor
  · rintro (rfl | ⟨k, less, passed⟩)
    · exact ⟨n, Nat.lt_succ_self n, here⟩
    · exact ⟨k, Nat.lt_succ_of_lt less, passed⟩
  · rintro ⟨k, less, passed⟩
    rcases Nat.lt_succ_iff_lt_or_eq.1 less with less | rfl
    · exact .inr ⟨k, less, passed⟩
    · exact .inl (Option.some.inj (passed.symm.trans here))

/-- A walk that is over has marked the whole chain. -/
theorem Marks.of_last (marks : Marks parent a n marked) (last : up parent n a = none)
    (above : Above parent a t) : t ∈ marked := by
  obtain ⟨m, here⟩ := above_iff.1 above
  refine (marks t).2 ⟨m, ?_, here⟩
  by_contra late
  rw [up_none last (Nat.not_lt.1 late)] at here
  cases here

/-- So has a walk that comes back. -/
theorem Marks.of_again (marks : Marks parent a n marked) (here : up parent n a = some b)
    (again : b ∈ marked) (above : Above parent a t) : t ∈ marked := by
  induction above with
  | refl =>
    obtain ⟨k, less, -⟩ := (marks b).1 again
    exact (marks a).2 ⟨0, Nat.zero_lt_of_lt less, rfl⟩
  | @tail c d _ step ih =>
    -- the parent of a marked element is marked, or it is where the walk has come to
    obtain ⟨k, less, passed⟩ := (marks c).1 ih
    have onward : up parent (k + 1) a = some d := by rw [up, passed, Option.bind_some, step]
    rcases Nat.lt_or_eq_of_le (Nat.succ_le_of_lt less) with less | rfl
    · exact (marks _).2 ⟨k + 1, less, onward⟩
    · exact Option.some.inj (here.symm.trans onward) ▸ again

/-- A walk that comes back has gone around a cycle. -/
theorem Marks.cycle (marks : Marks parent a n marked) (here : up parent n a = some b)
    (again : b ∈ marked) : Relation.TransGen (fun a b => parent a = some b) b b := by
  obtain ⟨k, less, passed⟩ := (marks b).1 again
  obtain ⟨d, rfl⟩ := Nat.exists_eq_add_of_lt less
  rw [Nat.add_assoc, up_add, passed, Option.bind_some] at here
  exact transGen_of_up here

variable [DecidableEq τ]

/-- How many of the keys are not marked. -/
def unmarked (keys marked : List τ) : Nat := (keys.filter fun t => decide (t ∉ marked)).length

theorem unmarked_nil (keys : List τ) : unmarked keys [] = keys.length := by
  unfold unmarked
  simp

theorem unmarked_cons_le (keys marked : List τ) (t : τ) :
    unmarked keys (t :: marked) ≤ unmarked keys marked := by
  refine (List.monotone_filter_right keys ?_).length_le
  intro u free
  simp only [decide_eq_true_eq, List.mem_cons, not_or] at free ⊢
  exact free.2

/-- Marking a key leaves fewer. -/
theorem unmarked_cons_lt {keys : List τ} (key : t ∈ keys) (fresh : t ∉ marked) :
    unmarked keys (t :: marked) < unmarked keys marked := by
  unfold unmarked
  have among : t ∈ keys.filter fun u => decide (u ∉ marked) :=
    List.mem_filter.2 ⟨key, decide_eq_true fresh⟩
  have twice : (keys.filter fun u => decide (u ∉ t :: marked)) =
      (keys.filter fun u => decide (u ∉ marked)).filter fun u => decide (u ≠ t) := by
    rw [List.filter_filter]
    refine List.filter_congr fun u _ => ?_
    simp
  rw [twice]
  exact List.length_filter_lt_length_iff_exists.2 ⟨t, among, by simp⟩

end Marking

end Ancestry
