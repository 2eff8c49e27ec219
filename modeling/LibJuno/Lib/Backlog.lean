import Mathlib.Data.List.Induction
import Mathlib.Data.List.Infix
import Mathlib.Data.List.Sublists

/-!
# A backlog that success clears

A producer numbers its items, files each in a backlog of bounded size and forwards it. Only
when an item was forwarded is the backlog consumed. A full backlog refuses the item, and then
nothing is forwarded either, so nothing will ever clear it: the line is jammed. It jams
exactly when so many forwards in a row have failed as the backlog holds (`full_iff`).
-/

namespace Backlog

variable {α : Type*}

/-- The items produced so far, those in the backlog, those consumed and those forwarded. -/
structure Line (α : Type*) where
  count : Nat
  held : List α
  seen : List α
  sent : List α

def Line.start : Line α := ⟨0, [], [], []⟩

variable (size : Nat) (item : Nat → α)

/-- One turn; `ok` says whether a forward would succeed. -/
def step (s : Line α) (ok : Bool) : Line α :=
  if s.held.length < size then
    if ok then ⟨s.count + 1, [], s.seen ++ (s.held ++ [item s.count]), s.sent ++ [item s.count]⟩
    else ⟨s.count + 1, s.held ++ [item s.count], s.seen, s.sent⟩
  else { s with count := s.count + 1 }

def run (s : Line α) (oks : List Bool) : Line α := oks.foldl (step size item) s

/-- The first `n` items. -/
def items (n : Nat) : List α := (List.range n).map item

variable {size item} {s : Line α} {oks : List Bool} {ok : Bool}

theorem run_append (oks' : List Bool) :
    run size item s (oks ++ oks') = run size item (run size item s oks) oks' :=
  List.foldl_append

theorem run_concat : run size item s (oks ++ [ok]) = step size item (run size item s oks) ok := by
  rw [run_append]
  rfl

variable (size item) in
/-- What a turn does: it forwards, it files only, or it does nothing. -/
theorem step_cases (s : Line α) (ok : Bool) :
    (s.held.length < size ∧ ok = true ∧ step size item s ok =
      ⟨s.count + 1, [], s.seen ++ (s.held ++ [item s.count]), s.sent ++ [item s.count]⟩) ∨
    (s.held.length < size ∧ ok = false ∧
      step size item s ok = ⟨s.count + 1, s.held ++ [item s.count], s.seen, s.sent⟩) ∨
    (size ≤ s.held.length ∧ step size item s ok = { s with count := s.count + 1 }) := by
  unfold step
  by_cases room : s.held.length < size
  · rw [if_pos room]
    cases ok with
    | true => exact .inl ⟨room, rfl, rfl⟩
    | false => exact .inr (.inl ⟨room, rfl, rfl⟩)
  · rw [if_neg room]
    exact .inr (.inr ⟨by omega, rfl⟩)

variable (size item) in
theorem run_count (s : Line α) (oks : List Bool) :
    (run size item s oks).count = s.count + oks.length := by
  induction oks using List.reverseRecOn with
  | nil => rfl
  | append_singleton oks ok ih =>
    rw [run_concat, List.length_append, List.length_singleton, ← Nat.add_assoc, ← ih]
    rcases step_cases size item (run size item s oks) ok with
      ⟨-, -, next⟩ | ⟨-, -, next⟩ | ⟨-, next⟩ <;> rw [next]

/-- Where the items are: consumed or in the backlog, in order and without a gap, all of them as
long as there is room. What was forwarded was consumed. -/
structure Placed (size : Nat) (item : Nat → α) (s : Line α) : Prop where
  filed : ∃ n ≤ s.count, s.seen ++ s.held = items item n ∧ (s.held.length < size → n = s.count)
  sent : s.sent.Sublist s.seen
  bound : s.held.length ≤ size

variable (size item) in
theorem placed_start : Placed size item .start :=
  ⟨⟨0, Nat.le_refl 0, rfl, fun _ => rfl⟩, .slnil, Nat.zero_le _⟩

theorem items_succ (n : Nat) : items item (n + 1) = items item n ++ [item n] := by
  rw [items, List.range_succ, List.map_append]
  rfl

theorem Placed.step (placed : Placed size item s) : Placed size item (step size item s ok) := by
  obtain ⟨⟨n, le, filed, all⟩, sent, bound⟩ := placed
  rcases step_cases size item s ok with
    ⟨room, -, next⟩ | ⟨room, -, next⟩ | ⟨full, next⟩
  · cases all room
    rw [next]
    refine ⟨⟨s.count + 1, Nat.le_refl _, ?_, fun _ => rfl⟩, ?_, Nat.zero_le _⟩
    · rw [items_succ, ← filed, List.append_nil, List.append_assoc]
    · exact sent.append (List.sublist_append_right _ _)
  · cases all room
    rw [next]
    refine ⟨⟨s.count + 1, Nat.le_refl _, ?_, fun _ => rfl⟩, sent, ?_⟩
    · rw [items_succ, ← filed, List.append_assoc]
    · rw [List.length_append, List.length_singleton]
      exact room
  · rw [next]
    exact ⟨⟨n, Nat.le_succ_of_le le, filed, fun room => absurd room (Nat.not_lt.2 full)⟩, sent, bound⟩

theorem Placed.run (placed : Placed size item s) (oks : List Bool) :
    Placed size item (run size item s oks) := by
  induction oks using List.reverseRecOn with
  | nil => exact placed
  | append_singleton oks ok ih =>
    rw [run_concat]
    exact ih.step

section Jam

/-- A full backlog stays as it is. -/
theorem run_full (full : size ≤ s.held.length) (oks : List Bool) :
    run size item s oks = { s with count := s.count + oks.length } := by
  induction oks using List.reverseRecOn with
  | nil => rfl
  | append_singleton oks ok ih =>
    rw [run_concat, ih, step, if_neg (Nat.not_lt.2 full), List.length_append]
    rfl

variable (size item) in
/-- Failures fill the backlog, and nothing is consumed or forwarded. -/
theorem run_failures (k : Nat) (bound : s.held.length ≤ size) :
    let s' := run size item s (List.replicate k false)
    s'.seen = s.seen ∧ s'.sent = s.sent ∧ s'.held.length = min size (s.held.length + k) := by
  induction k with
  | zero => exact ⟨rfl, rfl, by simp [run, bound]⟩
  | succ k ih =>
    rw [List.replicate_succ', run_concat]
    obtain ⟨seen, sent, length⟩ := ih
    rcases step_cases size item (run size item s (List.replicate k false)) false
      with ⟨-, absurd, -⟩ | ⟨room, -, next⟩ | ⟨full, next⟩
    · cases absurd
    · rw [next]
      refine ⟨seen, sent, ?_⟩
      rw [List.length_append, List.length_singleton]
      omega
    · rw [next]
      exact ⟨seen, sent, by dsimp only; omega⟩

variable (size item) in
/-- The last turns are failures, as many as the backlog holds items, unless it jammed before. -/
theorem failures_of_held (oks : List Bool) :
    List.replicate (run size item .start oks).held.length false <:+ oks ∨
      List.replicate size false <:+: oks := by
  induction oks using List.reverseRecOn with
  | nil => exact .inl (List.suffix_refl _)
  | append_singleton oks ok ih =>
    rw [run_concat]
    rcases ih with tail | jam
    · rcases step_cases size item (run size item .start oks) ok with
        ⟨-, -, next⟩ | ⟨-, rfl, next⟩ | ⟨full, next⟩
      · rw [next]
        exact .inl (List.nil_suffix)
      · rw [next, List.length_append, List.length_singleton, List.replicate_succ']
        obtain ⟨front, split⟩ := tail
        exact .inl ⟨front, by rw [← List.append_assoc, split]⟩
      · have bound := (placed_start size item).run oks |>.bound
        rw [Nat.le_antisymm bound full] at tail
        exact .inr (tail.isInfix.trans (List.prefix_append _ _).isInfix)
    · exact .inr (jam.trans (List.prefix_append _ _).isInfix)

variable (size item) in
/-- The line jams exactly when as many forwards in a row fail as the backlog holds. -/
theorem full_iff (oks : List Bool) :
    (run size item .start oks).held.length = size ↔ List.replicate size false <:+: oks := by
  constructor
  · intro full
    rcases failures_of_held size item oks with tail | jam
    · rw [full] at tail
      exact tail.isInfix
    · exact jam
  · rintro ⟨front, back, rfl⟩
    have bound := (placed_start size item).run front |>.bound
    have filled := (run_failures size item size bound).2.2
    rw [Nat.min_eq_left (Nat.le_add_left _ _), ← run_append] at filled
    rw [run_append, run_full filled.ge]
    exact filled

end Jam

end Backlog
