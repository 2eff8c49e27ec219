import Mathlib.Data.List.Basic

/-!
# Splitting at separators

A scanner goes over a text with a state. A symbol for which the state has no step separates
two pieces, or ends the last one. A piece is what the scanner passes in one go, so the pieces
of one scanner are those of another up to the first that the other does not pass so.
-/

namespace Pieces

variable {α τ : Type*} (step : τ → α → Option τ) (isEnd : α → Bool) (start : τ)

/-- The pieces of the text, after the given part of the first one; a piece at which the text
ends is none. -/
def pieces : List α → τ → List α → List (List α)
  | [], _, _ => []
  | a :: rest, st, piece =>
    match step st a with
    | some st' => pieces rest st' (piece ++ [a])
    | none => if isEnd a then [piece] else piece :: pieces rest start []

variable {step isEnd start}

theorem pieces_append {part : List α} {st st' : τ} (passed : part.foldlM step st = some st')
    (rest piece : List α) :
    pieces step isEnd start (part ++ rest) st piece =
      pieces step isEnd start rest st' (piece ++ part) := by
  induction part generalizing st piece with
  | nil =>
    cases passed
    rw [List.nil_append, List.append_nil]
  | cons a part ih =>
    rw [List.foldlM_cons] at passed
    obtain ⟨next, here, later⟩ := Option.bind_eq_some_iff.1 passed
    rw [List.cons_append, pieces, here]
    dsimp only
    rw [ih later, List.append_assoc]
    rfl

theorem pieces_separator {a : α} {st : τ} (separates : step st a = none) (rest piece : List α) :
    pieces step isEnd start (a :: rest) st piece =
      if isEnd a then [piece] else piece :: pieces step isEnd start rest start [] := by
  rw [pieces, separates]

/-- The first piece is passed, and a separator follows. -/
theorem passed_of_pieces {text piece x : List α} {st : τ} {more : List (List α)}
    (split : pieces step isEnd start text st piece = x :: more) :
    ∃ part a rest st', text = part ++ a :: rest ∧ x = piece ++ part ∧
      part.foldlM step st = some st' ∧ step st' a = none ∧
      more = if isEnd a then [] else pieces step isEnd start rest start [] := by
  induction text generalizing st piece with
  | nil => cases split
  | cons a text ih =>
    cases here : step st a with
    | some next =>
      rw [pieces, here] at split
      obtain ⟨part, b, rest, st', shape, first, passed, separates, others⟩ := ih split
      refine ⟨a :: part, b, rest, st', by rw [shape]; rfl, ?_, ?_, separates, others⟩
      · rw [first, List.append_assoc]
        rfl
      · rw [List.foldlM_cons, here]
        exact passed
    | none =>
      rw [pieces_separator here] at split
      refine ⟨[], a, text, st, rfl, ?_, rfl, here, ?_⟩
      · rw [List.append_nil]
        split at split
        · exact (List.cons.inj split).1.symm
        · exact (List.cons.inj split).1.symm
      · split at split
        · next ends => rw [if_pos ends]; exact (List.cons.inj split).2.symm
        · next goes_on => rw [if_neg goes_on]; exact (List.cons.inj split).2.symm

/-- When another piece follows, the separator does not end the text. -/
theorem passed_of_pieces_cons {text piece x y : List α} {st : τ} {more : List (List α)}
    (split : pieces step isEnd start text st piece = x :: y :: more) :
    ∃ part a rest st', text = part ++ a :: rest ∧ x = piece ++ part ∧
      part.foldlM step st = some st' ∧ step st' a = none ∧ isEnd a = false ∧
      pieces step isEnd start rest start [] = y :: more := by
  obtain ⟨part, a, rest, st', shape, first, passed, separates, others⟩ := passed_of_pieces split
  by_cases ends : isEnd a = true
  · rw [if_pos ends] at others
    cases others
  · rw [if_neg ends] at others
    exact ⟨part, a, rest, st', shape, first, passed, separates, Bool.eq_false_iff.2 ends, others.symm⟩

section Joined

variable [DecidableEq α] {sep : α}

/-- The pieces with the separator before each. -/
def joined (sep : α) (xs : List (List α)) : List α := xs.flatMap (sep :: ·)

theorem takeWhile_joined {x : List α} (plain : sep ∉ x) (xs : List (List α)) :
    (x ++ joined sep xs).takeWhile (fun a => decide (a ≠ sep)) = x := by
  have all : ∀ a ∈ x, decide (a ≠ sep) = true := by
    intro a member
    exact decide_eq_true fun same => plain (same ▸ member)
  rw [List.takeWhile_append_of_pos all]
  cases xs with
  | nil => exact List.append_nil x
  | cons y ys => simp [joined]

/-- Pieces without the separator are known from the text. -/
theorem joined_inj {xs ys : List (List α)} (plain : ∀ x ∈ xs, sep ∉ x) (plain' : ∀ y ∈ ys, sep ∉ y)
    (same : joined sep xs = joined sep ys) : xs = ys := by
  induction xs generalizing ys with
  | nil =>
    cases ys with
    | nil => rfl
    | cons y ys => cases same
  | cons x xs ih =>
    cases ys with
    | nil => cases same
    | cons y ys =>
      have rest : x ++ joined sep xs = y ++ joined sep ys := (List.cons.inj same).2
      have first : x = y := by
        rw [← takeWhile_joined (plain x List.mem_cons_self) xs, rest,
          takeWhile_joined (plain' y List.mem_cons_self) ys]
      subst first
      rw [ih (fun z member => plain z (List.mem_cons_of_mem _ member))
        (fun z member => plain' z (List.mem_cons_of_mem _ member)) (List.append_cancel_left rest)]

end Joined

end Pieces
