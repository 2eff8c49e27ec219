import Mathlib.Data.List.Basic

/-!
# Scanners

A scanner goes through a text from the left: where a token starts it goes on behind it, and
where none does it skips one symbol. `Visits` is that it comes to a place. It comes to every
place that is not inside one of its tokens, and no two tokens share a place.
-/

namespace Scanner

/-- A token and where it lies. -/
@[ext]
structure Lexeme (κ : Type*) where
  name : κ
  start : Nat
  stop : Nat
deriving DecidableEq

variable {κ : Type*} (scan : Nat → Option (κ × Nat)) (length : Nat)

/-- Where the scanner goes from a place. -/
def next (o : Nat) : Nat :=
  match scan o with
  | some x => x.2
  | none => o + 1

def lexFrom : Nat → Nat → List (Lexeme κ)
  | 0, _ => []
  | fuel + 1, o =>
    if o < length then
      match scan o with
      | some x => ⟨x.1, o, x.2⟩ :: lexFrom fuel x.2
      | none => lexFrom fuel (o + 1)
    else []

/-- The tokens of the text. Every token has a symbol, so there are no more than symbols. -/
def lexemes : List (Lexeme κ) := lexFrom scan length length 0

/-- The scanner comes to a place. -/
inductive Visits : Nat → Prop where
  | start : Visits 0
  | step {o : Nat} : Visits o → o < length → Visits (next scan o)

/-- No token is empty. -/
def Progresses : Prop := ∀ o x, scan o = some x → o < x.2

variable {scan length}

theorem next_of_some {o : Nat} {x : κ × Nat} (h : scan o = some x) : next scan o = x.2 := by
  rw [next, h]

theorem next_of_none {o : Nat} (h : scan o = none) : next scan o = o + 1 := by
  rw [next, h]

theorem Progresses.lt_next (progress : Progresses scan) (o : Nat) : o < next scan o := by
  cases h : scan o with
  | none =>
    rw [next_of_none h]
    exact Nat.lt_succ_self o
  | some x =>
    rw [next_of_some h]
    exact progress o x h

/-- What is scanned at a place the scanner comes to stays in the list. -/
theorem Visits.suffix {o : Nat} (progress : Progresses scan) (h : Visits scan length o) :
    ∃ fuel, length ≤ o + fuel ∧ lexFrom scan length fuel o <:+ lexemes scan length := by
  induction h with
  | start => exact ⟨length, by omega, List.suffix_refl _⟩
  | @step o visited inside ih =>
    obtain ⟨fuel, enough, suffix⟩ := ih
    obtain ⟨fuel, rfl⟩ : ∃ n, fuel = n + 1 := ⟨fuel - 1, by omega⟩
    have forward := progress.lt_next o
    refine ⟨fuel, by omega, List.IsSuffix.trans ?_ suffix⟩
    rw [lexFrom, if_pos inside]
    cases h : scan o with
    | none =>
      have skips : lexFrom scan length fuel (next scan o) = lexFrom scan length fuel (o + 1) := by
        rw [next_of_none h]
      exact skips ▸ List.suffix_refl _
    | some x =>
      rw [next_of_some h]
      exact List.suffix_cons _ _

theorem visits_of_mem_lexFrom {l : Lexeme κ} {fuel o : Nat} (visited : Visits scan length o)
    (member : l ∈ lexFrom scan length fuel o) :
    Visits scan length l.start ∧ l.start < length ∧ scan l.start = some (l.name, l.stop) := by
  induction fuel generalizing o with
  | zero => cases member
  | succ fuel ih =>
    rw [lexFrom] at member
    split at member
    · next inside =>
      have later := Visits.step visited inside
      cases h : scan o with
      | none =>
        rw [h] at member
        rw [next_of_none h] at later
        exact ih later member
      | some x =>
        rw [h] at member
        rw [next_of_some h] at later
        rcases List.mem_cons.1 member with rfl | rest
        · exact ⟨visited, inside, h⟩
        · exact ih later rest
    · cases member

/-- The tokens are what is scanned at the places the scanner comes to. -/
theorem mem_lexemes_iff (progress : Progresses scan) {l : Lexeme κ} :
    l ∈ lexemes scan length ↔
      Visits scan length l.start ∧ l.start < length ∧ scan l.start = some (l.name, l.stop) := by
  constructor
  · exact visits_of_mem_lexFrom Visits.start
  · rintro ⟨visited, inside, scanned⟩
    obtain ⟨fuel, enough, suffix⟩ := visited.suffix progress
    obtain ⟨fuel, rfl⟩ : ∃ n, fuel = n + 1 := ⟨fuel - 1, by omega⟩
    apply suffix.subset
    rw [lexFrom, if_pos inside, scanned]
    exact List.mem_cons_self

/-- The scanner comes to a place, or a token goes on over it. -/
theorem visits_or_inside (progress : Progresses scan) {p : Nat} (inside : p ≤ length) :
    Visits scan length p ∨ ∃ l ∈ lexemes scan length, l.start < p ∧ p < l.stop := by
  induction p with
  | zero => exact .inl .start
  | succ p ih =>
    rcases ih (Nat.le_of_succ_le inside) with visited | ⟨l, member, before, after⟩
    · have later := Visits.step visited inside
      cases h : scan p with
      | none =>
        rw [next_of_none h] at later
        exact .inl later
      | some x =>
        rw [next_of_some h] at later
        have forward := progress p x h
        rcases Nat.eq_or_lt_of_le forward with same | further
        · rw [← same] at later
          exact .inl later
        · exact .inr ⟨⟨x.1, p, x.2⟩, (mem_lexemes_iff progress).2 ⟨visited, inside, h⟩,
            Nat.lt_succ_self p, further⟩
    · rcases Nat.eq_or_lt_of_le (Nat.succ_le_of_lt after) with same | further
      · obtain ⟨visited, started, scanned⟩ := (mem_lexemes_iff progress).1 member
        have later := Visits.step visited started
        rw [next_of_some scanned, ← same] at later
        exact .inl later
      · exact .inr ⟨l, member, Nat.lt_succ_of_lt before, further⟩

/-- The scanner does not come to a place between one that it comes to and the next. -/
theorem Visits.next_le (progress : Progresses scan) {a b : Nat} (ha : Visits scan length a)
    (hb : Visits scan length b) (below : a < b) : next scan a ≤ b := by
  induction total : a + b using Nat.strongRecOn generalizing a b with
  | ind n ih =>
    cases hb with
    | start => exact absurd below (Nat.not_lt_zero a)
    | @step o visited inside =>
      have forward := progress.lt_next o
      rcases Nat.lt_trichotomy a o with before | rfl | behind
      · have := ih (a + o) (by omega) ha visited before rfl
        omega
      · exact Nat.le_refl _
      · have := ih (o + a) (by omega) visited ha behind rfl
        omega

/-- No token goes on over a place that the scanner comes to. -/
theorem not_inside_of_visits (progress : Progresses scan) {l : Lexeme κ} {p : Nat}
    (member : l ∈ lexemes scan length) (visited : Visits scan length p) :
    ¬(l.start < p ∧ p < l.stop) := by
  rintro ⟨before, after⟩
  obtain ⟨started, -, scanned⟩ := (mem_lexemes_iff progress).1 member
  have := started.next_le progress visited before
  rw [next_of_some scanned] at this
  omega

/-- Two tokens that share a place are one. -/
theorem eq_of_overlap (progress : Progresses scan) {l l' : Lexeme κ}
    (member : l ∈ lexemes scan length) (member' : l' ∈ lexemes scan length)
    (overlap : l.start < l'.stop) (overlap' : l'.start < l.stop) : l = l' := by
  have here := (mem_lexemes_iff progress).1 member
  have here' := (mem_lexemes_iff progress).1 member'
  rcases Nat.lt_trichotomy l.start l'.start with before | same | behind
  · exact absurd ⟨before, overlap'⟩ (not_inside_of_visits progress member here'.1)
  · have scanned := here.2.2
    rw [same, here'.2.2] at scanned
    have parts := Prod.mk.inj (Option.some.inj scanned)
    exact Lexeme.ext parts.1.symm same parts.2.symm
  · exact absurd ⟨behind, overlap⟩ (not_inside_of_visits progress member' here.1)

/-- A place the scanner comes to is the start of the text, the end of a token, or behind a
symbol where no token starts. -/
theorem Visits.before (progress : Progresses scan) {p : Nat} (h : Visits scan length p) :
    p = 0 ∨ (∃ l ∈ lexemes scan length, l.stop = p) ∨ ∃ o, o + 1 = p ∧ scan o = none := by
  cases h with
  | start => exact .inl rfl
  | @step o visited inside =>
    cases h : scan o with
    | none => exact .inr (.inr ⟨o, (next_of_none h).symm, h⟩)
    | some x =>
      rw [next_of_some h]
      exact .inr (.inl ⟨⟨x.1, o, x.2⟩, (mem_lexemes_iff progress).2 ⟨visited, inside, h⟩, rfl⟩)

section Spelling

variable {α : Type*} {text : List α}

/-- The symbols of a token. -/
def Lexeme.image (text : List α) (l : Lexeme κ) : List α := (text.drop l.start).take (l.stop - l.start)

/-- The tokens are in the order of the text. -/
theorem pairwise_lexemes (progress : Progresses scan) :
    (lexemes scan length).Pairwise fun l l' => l.stop ≤ l'.start := by
  have later : ∀ fuel o, ∀ l ∈ lexFrom scan length fuel o, o ≤ l.start := by
    intro fuel
    induction fuel with
    | zero => intro o l member; cases member
    | succ fuel ih =>
      intro o l member
      rw [lexFrom] at member
      split at member
      · cases h : scan o with
        | none =>
          rw [h] at member
          have := ih (o + 1) l member
          omega
        | some x =>
          rw [h] at member
          have forward := progress o x h
          rcases List.mem_cons.1 member with rfl | rest
          · exact Nat.le_refl o
          · have := ih x.2 l rest
            omega
      · cases member
  have ordered : ∀ fuel o, (lexFrom scan length fuel o).Pairwise fun l l' => l.stop ≤ l'.start := by
    intro fuel
    induction fuel with
    | zero => intro o; exact .nil
    | succ fuel ih =>
      intro o
      rw [lexFrom]
      split
      · cases h : scan o with
        | none => exact ih (o + 1)
        | some x => exact .cons (fun l member => later fuel x.2 l member) (ih x.2)
      · exact .nil
  exact ordered length 0

/-- Where a token starts at every place that the scanner comes to, the tokens spell the text. -/
theorem images_lexemes (progress : Progresses scan) (bound : ∀ o < text.length, ∀ x, scan o = some x → x.2 ≤ text.length)
    (all : ∀ o < text.length, Visits scan text.length o → scan o ≠ none) :
    (lexemes scan text.length).flatMap (Lexeme.image text) = text := by
  have rest : ∀ fuel o, text.length ≤ o + fuel → Visits scan text.length o →
      (lexFrom scan text.length fuel o).flatMap (Lexeme.image text) = text.drop o := by
    intro fuel
    induction fuel with
    | zero =>
      intro o enough _
      rw [List.drop_eq_nil_of_le (by omega)]
      rfl
    | succ fuel ih =>
      intro o enough visited
      rw [lexFrom]
      split
      · next inside =>
        cases h : scan o with
        | none => exact absurd h (all o inside visited)
        | some x =>
          have forward := progress o x h
          have within := bound o inside x h
          have onward := ih x.2 (by omega) (next_of_some h ▸ visited.step inside)
          dsimp only
          rw [List.flatMap_cons, onward, Lexeme.image]
          dsimp only
          have split : text.drop x.2 = (text.drop o).drop (x.2 - o) := by
            rw [List.drop_drop, Nat.add_sub_cancel' (Nat.le_of_lt forward)]
          rw [split, List.take_append_drop]
      · rw [List.drop_eq_nil_of_le (by omega)]
        rfl
  exact rest text.length 0 (by omega) .start

end Spelling

end Scanner
