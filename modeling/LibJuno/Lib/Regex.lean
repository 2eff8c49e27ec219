import Mathlib.Data.List.Basic

/-!
# Backtracking regular expressions

Expressions with greedy and lazy repetition, numbered groups and zero-width tests of the
symbols around a position, matched as a backtracking engine does: `runs` lists the ways
to match from a position in the order in which they are tried, and the first one is taken.
`exec` is the search from a position on and `execAll` the search repeated from the end of
each match.
-/

inductive Regex (α : Type*) where
  | eps
  | sym (p : α → Bool)
  | seq (r t : Regex α)
  | alt (r t : Regex α)
  | star (greedy : Bool) (r : Regex α)
  | group (n : Nat) (r : Regex α)
  /-- Tests the symbol before and the symbol after the position. -/
  | around (p : Option α → Option α → Bool)

namespace Regex

variable {α : Type*}

/-- The groups captured so far, the latest first: number, start and end. -/
abbrev Captures := List (Nat × Nat × Nat)

/-- Up to `fuel` rounds of a body; a round that consumes nothing is not tried. -/
def rounds (greedy : Bool) (body : Nat → Captures → List (Nat × Captures)) :
    Nat → Nat → Captures → List (Nat × Captures)
  | 0, i, c => [(i, c)]
  | fuel + 1, i, c =>
    let further := (body i c).flatMap fun x =>
      if i < x.1 then rounds greedy body fuel x.1 x.2 else []
    if greedy then further ++ [(i, c)] else (i, c) :: further

/-- The ways to match from position `i` on, in the order of trial: the position after the
match and the captures. -/
def runs (s : List α) : Regex α → Nat → Captures → List (Nat × Captures)
  | eps, i, c => [(i, c)]
  | sym p, i, c =>
    match s[i]? with
    | some a => if p a then [(i + 1, c)] else []
    | none => []
  | seq r t, i, c => (runs s r i c).flatMap fun x => runs s t x.1 x.2
  | alt r t, i, c => runs s r i c ++ runs s t i c
  | star greedy r, i, c => rounds greedy (runs s r) (s.length - i) i c
  | group n r, i, c => (runs s r i c).map fun x => (x.1, (n, i, x.1) :: x.2)
  | around p, i, c => if p (if i = 0 then none else s[i - 1]?) s[i]? then [(i, c)] else []

/-- A match: where it starts, where it ends, and its groups. -/
structure Match where
  index : Nat
  stop : Nat
  captures : Captures
  deriving DecidableEq, Repr

/-- The text of a group; the last round of a repeated group counts. -/
def Match.group (m : Match) (s : List α) (n : Nat) : Option (List α) :=
  (m.captures.find? fun c => c.1 == n).map fun c => (s.drop c.2.1).take (c.2.2 - c.2.1)

/-- The position lies on a symbol of the match. -/
def Match.covers (m : Match) (i : Nat) : Bool := decide (m.index ≤ i) && decide (i < m.stop)

/-- The match that starts at `i`. -/
def matchAt (s : List α) (r : Regex α) (i : Nat) : Option Match :=
  (runs s r i []).head?.map fun x => ⟨i, x.1, x.2⟩

/-- The leftmost match that starts at `lastIndex` or later. -/
def exec (s : List α) (r : Regex α) (lastIndex : Nat) : Option Match :=
  (List.range' lastIndex (s.length + 1 - lastIndex)).findSome? (matchAt s r)

/-- The search repeated from the end of each match; an empty match ends it. -/
def execFrom (s : List α) (r : Regex α) : Nat → Nat → List Match
  | 0, _ => []
  | fuel + 1, lastIndex =>
    match exec s r lastIndex with
    | none => []
    | some m => if lastIndex < m.stop then m :: execFrom s r fuel m.stop else [m]

def execAll (s : List α) (r : Regex α) : List Match := execFrom s r (s.length + 1) 0

def test (s : List α) (r : Regex α) : Bool := (exec s r 0).isSome

/-- The symbols in sequence. -/
def lit [DecidableEq α] : List α → Regex α
  | [] => eps
  | a :: as => seq (sym fun x => decide (x = a)) (lit as)

/-- The first alternative that matches; no alternative never matches. -/
def anyOf : List (Regex α) → Regex α
  | [] => around fun _ _ => false
  | [r] => r
  | r :: rs => alt r (anyOf rs)

/-- One or more rounds. -/
def plus (greedy : Bool) (r : Regex α) : Regex α := seq r (star greedy r)

/-- A sequence of expressions. -/
def chain : List (Regex α) → Regex α
  | [] => eps
  | [r] => r
  | r :: rs => seq r (chain rs)

end Regex
