import LibJuno.Lib.Machine
import Mathlib.Data.Multiset.AddSub

/-!
# Bounded priority queues

What a priority queue of at most `cap` items may do, as a step relation on the multiset
of items held: take an item in, give out one that may stay above all others, or refuse,
which it may do only when it is full or empty. A chain of such steps keeps the books
(`conserves`).
-/

namespace PriorityQueue

inductive Event (α : Type*) where
  | inserts (x : α)
  | pops (x : α)
  | full
  | empty

variable {α : Type*}

/-- A bounded priority queue whose extreme items are those that may stay above all. -/
inductive Step (above : α → α → Prop) (cap : Nat) : Multiset α → Event α → Multiset α → Prop where
  | inserts {s : Multiset α} (x : α) (room : s.card < cap) : Step above cap s (.inserts x) (x ::ₘ s)
  | pops {s : Multiset α} (x : α) (extreme : ∀ y ∈ x ::ₘ s, above x y) :
      Step above cap (x ::ₘ s) (.pops x) s
  | full {s : Multiset α} (no : cap ≤ s.card) : Step above cap s .full s
  | empty : Step above cap 0 .empty 0

/-- The items taken in. -/
def inserted : List (Event α) → Multiset α
  | [] => 0
  | .inserts x :: es => x ::ₘ inserted es
  | _ :: es => inserted es

/-- The items given out. -/
def popped : List (Event α) → Multiset α
  | [] => 0
  | .pops x :: es => x ::ₘ popped es
  | _ :: es => popped es

/-- What is held is what was held and taken in, less what was given out. -/
theorem conserves {above : α → α → Prop} {cap : Nat} {s s' : Multiset α} {es : List (Event α)}
    (chain : StepChain (Step above cap) s es s') : s' + popped es = s + inserted es := by
  induction chain with
  | nil => rfl
  | cons step rest ih =>
    cases step with
    | inserts x room =>
      rw [Multiset.cons_add] at ih
      simpa [popped, inserted, Multiset.add_cons] using ih
    | pops x extreme =>
      simp [popped, inserted, Multiset.add_cons, Multiset.cons_add, ih]
    | full no => exact ih
    | empty => exact ih

end PriorityQueue
