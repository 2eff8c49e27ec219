import Mathlib.Data.List.Basic

/-!
# Documents with tags

A document is text with tags in it, and a tag has quoted values. Reading one from left to right,
what the next symbol means depends on the place only: text up to the opening symbol of a tag, a
value up to the next quote. So a text without the one and a value without the other leave the
place as it is (`scan_text`, `scan_value`), whatever else they contain.
-/

namespace Markup

/-- The symbols that tags open and close with, and that values stand between. -/
structure Delimiters (α : Type*) where
  opening : α
  closing : α
  quote : α

/-- A tag: its values, each after the unquoted part before it, and the unquoted part after them. -/
structure Tag (α : Type*) where
  attributes : List (List α × List α)
  rest : List α
deriving DecidableEq

/-- Where the reader is, with what it has read of the tag. -/
inductive Place (α : Type*) where
  | text
  | tag (attributes : List (List α × List α)) (name : List α)
  | quoted (attributes : List (List α × List α)) (name value : List α)
deriving DecidableEq

variable {α : Type*} [DecidableEq α] (d : Delimiters α)

/-- One symbol: where it leads, and the tag that it closes. -/
def step : Place α → α → Place α × List (Tag α)
  | .text, c => if c = d.opening then (.tag [] [], []) else (.text, [])
  | .tag attributes name, c =>
    if c = d.closing then (.text, [⟨attributes, name⟩])
    else if c = d.quote then (.quoted attributes name [], [])
    else (.tag attributes (name ++ [c]), [])
  | .quoted attributes name value, c =>
    if c = d.quote then (.tag (attributes ++ [(name, value)]) [], [])
    else (.quoted attributes name (value ++ [c]), [])

/-- Where a text leads, and the tags that it closes. -/
def scan : Place α → List α → Place α × List (Tag α)
  | p, [] => (p, [])
  | p, c :: s =>
    let x := step d p c
    let y := scan x.1 s
    (y.1, x.2 ++ y.2)

/-- The tags of a document. -/
def tags (s : List α) : List (Tag α) := (scan d .text s).2

variable {d} {p q r : Place α} {s s' : List α} {attributes : List (List α × List α)}
  {name value : List α} {ts ts' : List (Tag α)}

theorem scan_append (p : Place α) (s s' : List α) :
    scan d p (s ++ s') =
      ((scan d (scan d p s).1 s').1, (scan d p s).2 ++ (scan d (scan d p s).1 s').2) := by
  induction s generalizing p with
  | nil => rfl
  | cons c s ih => simp only [List.cons_append, scan, ih, List.append_assoc]

/-- Two texts, one after the other. -/
theorem scan_trans (first : scan d p s = (q, ts)) (second : scan d q s' = (r, ts')) :
    scan d p (s ++ s') = (r, ts ++ ts') := by
  rw [scan_append, first, second]

theorem scan_text (plain : d.opening ∉ s) : scan d .text s = (.text, []) := by
  induction s with
  | nil => rfl
  | cons c s ih =>
    rw [List.mem_cons, not_or] at plain
    rw [scan, step, if_neg (Ne.symm plain.1), ih plain.2, List.nil_append]

theorem scan_value (plain : d.quote ∉ s) :
    scan d (.quoted attributes name value) s = (.quoted attributes name (value ++ s), []) := by
  induction s generalizing value with
  | nil => rw [scan, List.append_nil]
  | cons c s ih =>
    rw [List.mem_cons, not_or] at plain
    rw [scan, step, if_neg (Ne.symm plain.1), ih plain.2, List.append_assoc, List.singleton_append,
      List.nil_append]

end Markup
