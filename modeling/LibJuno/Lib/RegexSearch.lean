import LibJuno.Lib.RegexRuns

/-!
# Repeated searches

A repeated search takes the leftmost match, then the leftmost one from its end on, and so on;
here for expressions that do not match the empty word. Its matches do not overlap. Where the
expression matches a match of the search starts, unless an earlier one goes on over the place.
-/

namespace Regex

variable {α : Type*} {s : List α} {r : Regex α} {m m' : Match}

/-- The first success in a range of places. -/
theorem findSome?_range' {γ : Type*} {f : Nat → Option γ} {i n : Nat} {x : γ} :
    (List.range' i n).findSome? f = some x ↔
      ∃ j, i ≤ j ∧ j < i + n ∧ f j = some x ∧ ∀ k, i ≤ k → k < j → f k = none := by
  induction n generalizing i with
  | zero =>
    refine iff_of_false (fun found => by cases found) ?_
    rintro ⟨j, above, below, -⟩
    omega
  | succ n ih =>
    rw [List.range'_succ, List.findSome?_cons]
    cases here : f i with
    | some y =>
      dsimp only
      constructor
      · intro same
        exact ⟨i, Nat.le_refl i, by omega, here.trans same, fun k above below => by omega⟩
      · rintro ⟨j, above, -, found, nothing⟩
        rcases Nat.eq_or_lt_of_le above with rfl | later
        · rw [← here, found]
        · rw [nothing i (Nat.le_refl i) later] at here
          cases here
    | none =>
      dsimp only
      rw [ih]
      constructor
      · rintro ⟨j, above, below, found, nothing⟩
        refine ⟨j, by omega, by omega, found, fun k from_start before => ?_⟩
        rcases Nat.eq_or_lt_of_le from_start with rfl | later
        · exact here
        · exact nothing k later before
      · rintro ⟨j, above, below, found, nothing⟩
        have later : i < j := by
          apply Nat.lt_of_le_of_ne above
          rintro rfl
          rw [here] at found
          cases found
        exact ⟨j, later, by omega, found, fun k from_start => nothing k (Nat.le_of_succ_le from_start)⟩

/-- The search finds the leftmost match. -/
theorem exec_eq_some_iff {i : Nat} (inside : i ≤ s.length) : exec s r i = some m ↔
    i ≤ m.index ∧ m.index ≤ s.length ∧ matchAt s r m.index = some m ∧
      ∀ k, i ≤ k → k < m.index → matchAt s r k = none := by
  rw [exec, findSome?_range']
  constructor
  · rintro ⟨j, above, below, found, nothing⟩
    obtain rfl := (mem_of_matchAt found).1
    exact ⟨above, by omega, found, nothing⟩
  · rintro ⟨above, below, found, nothing⟩
    exact ⟨m.index, above, by omega, found, nothing⟩

/-- A place from which the repeated search goes on. -/
inductive Reaches (s : List α) (r : Regex α) : Nat → Prop where
  | start : Reaches s r 0
  | next {i : Nat} {m : Match} : Reaches s r i → exec s r i = some m → Reaches s r m.stop

theorem Reaches.le_length {i : Nat} (h : Reaches s r i) : i ≤ s.length := by
  induction h with
  | start => exact Nat.zero_le _
  | next _ found inside =>
    have here := (exec_eq_some_iff inside).1 found
    exact stop_le_of_mem_runs (mem_of_matchAt here.2.2.1).2 here.2.1

section Nonempty

variable (nonempty : nullable r = false)
include nonempty

theorem index_lt_stop (found : matchAt s r m.index = some m) : m.index < m.stop := by
  have member := (mem_of_matchAt found).2
  apply Nat.lt_of_le_of_ne (le_of_mem_runs member)
  intro same
  rw [nullable_of_mem_runs member same.symm] at nonempty
  cases nonempty

theorem lt_stop_of_exec {i : Nat} (inside : i ≤ s.length) (found : exec s r i = some m) :
    i < m.stop := by
  have here := (exec_eq_some_iff inside).1 found
  have := index_lt_stop nonempty here.2.2.1
  omega

theorem mem_execFrom {fuel i : Nat} (reached : Reaches s r i) (member : m ∈ execFrom s r fuel i) :
    ∃ j, i ≤ j ∧ Reaches s r j ∧ exec s r j = some m := by
  induction fuel generalizing i with
  | zero => cases member
  | succ fuel ih =>
    rw [execFrom] at member
    cases found : exec s r i with
    | none =>
      rw [found] at member
      cases member
    | some first =>
      have further := lt_stop_of_exec nonempty (reached.le_length) found
      rw [found] at member
      dsimp only at member
      rw [if_pos further] at member
      rcases List.mem_cons.1 member with rfl | rest
      · exact ⟨i, Nat.le_refl i, reached, found⟩
      · obtain ⟨j, above, later, found'⟩ := ih (reached.next found) rest
        exact ⟨j, by omega, later, found'⟩

theorem Reaches.suffix {i : Nat} (h : Reaches s r i) :
    ∃ fuel, s.length < i + fuel ∧ execFrom s r fuel i <:+ execAll s r := by
  induction h with
  | start => exact ⟨s.length + 1, by omega, List.suffix_refl _⟩
  | @next i m reached found ih =>
    obtain ⟨fuel, enough, suffix⟩ := ih
    have inside := reached.le_length
    have further := lt_stop_of_exec nonempty inside found
    obtain ⟨fuel, rfl⟩ : ∃ n, fuel = n + 1 := ⟨fuel - 1, by omega⟩
    refine ⟨fuel, by omega, List.IsSuffix.trans ?_ suffix⟩
    rw [execFrom, found]
    dsimp only
    rw [if_pos further]
    exact List.suffix_cons _ _

/-- The matches are what is found from the places that the search comes to. -/
theorem mem_execAll_iff : m ∈ execAll s r ↔ ∃ i, Reaches s r i ∧ exec s r i = some m := by
  constructor
  · intro member
    obtain ⟨j, -, reached, found⟩ := mem_execFrom nonempty .start member
    exact ⟨j, reached, found⟩
  · rintro ⟨i, reached, found⟩
    obtain ⟨fuel, enough, suffix⟩ := reached.suffix nonempty
    have inside := reached.le_length
    obtain ⟨fuel, rfl⟩ : ∃ n, fuel = n + 1 := ⟨fuel - 1, by omega⟩
    apply suffix.subset
    rw [execFrom, found]
    dsimp only
    rw [if_pos (lt_stop_of_exec nonempty inside found)]
    exact List.mem_cons_self

theorem matchAt_of_mem (member : m ∈ execAll s r) : matchAt s r m.index = some m := by
  obtain ⟨i, reached, found⟩ := (mem_execAll_iff nonempty).1 member
  exact ((exec_eq_some_iff (reached.le_length)).1 found).2.2.1

theorem apart_execFrom {fuel i : Nat} (reached : Reaches s r i) (member : m ∈ execFrom s r fuel i)
    (member' : m' ∈ execFrom s r fuel i) : m = m' ∨ m.stop ≤ m'.index ∨ m'.stop ≤ m.index := by
  induction fuel generalizing i with
  | zero => cases member
  | succ fuel ih =>
    cases found : exec s r i with
    | none =>
      rw [execFrom, found] at member
      cases member
    | some first =>
      have further := lt_stop_of_exec nonempty (reached.le_length) found
      have later : ∀ x ∈ execFrom s r fuel first.stop, first.stop ≤ x.index := by
        intro x listed
        obtain ⟨j, above, reached', found'⟩ := mem_execFrom nonempty (reached.next found) listed
        have := ((exec_eq_some_iff (reached'.le_length)).1 found').1
        omega
      rw [execFrom, found] at member member'
      dsimp only at member member'
      rw [if_pos further] at member member'
      rcases List.mem_cons.1 member with rfl | rest
      · rcases List.mem_cons.1 member' with rfl | rest'
        · exact .inl rfl
        · exact .inr (.inl (later m' rest'))
      · rcases List.mem_cons.1 member' with rfl | rest'
        · exact .inr (.inr (later m rest))
        · exact ih (reached.next found) rest rest'

/-- No two matches share a place. -/
theorem apart_of_mem (member : m ∈ execAll s r) (member' : m' ∈ execAll s r) :
    m = m' ∨ m.stop ≤ m'.index ∨ m'.stop ≤ m.index :=
  apart_execFrom nonempty .start member member'

/-- The match that is found under a place. -/
theorem find_covers_iff {i : Nat} :
    (execAll s r).find? (fun m => m.covers i) = some m ↔ m ∈ execAll s r ∧ m.covers i = true := by
  constructor
  · intro found
    exact ⟨List.mem_of_find?_eq_some found, List.find?_some (p := (Match.covers · i)) found⟩
  · rintro ⟨member, covers⟩
    cases found : (execAll s r).find? fun m => m.covers i with
    | none =>
      have := List.find?_eq_none.1 found m member
      exact absurd covers this
    | some m' =>
      have covers' := List.find?_some (p := (Match.covers · i)) found
      simp only [Match.covers, Bool.and_eq_true, decide_eq_true_eq] at covers covers'
      rcases apart_of_mem nonempty (List.mem_of_find?_eq_some found) member with same | before | behind
      · rw [same]
      · omega
      · omega

/-- Where the expression matches, the search has the match or one that goes on over the place. -/
theorem mem_or_over (found : matchAt s r m.index = some m) (inside : m.index ≤ s.length) :
    m ∈ execAll s r ∨ ∃ m' ∈ execAll s r, m'.index < m.index ∧ m.index < m'.stop := by
  have from_here : ∀ n i, m.index = i + n → Reaches s r i →
      m ∈ execAll s r ∨ ∃ m' ∈ execAll s r, m'.index < m.index ∧ m.index < m'.stop := by
    intro n
    induction n using Nat.strongRecOn with
    | ind n ih =>
      intro i distance reached
      have bound := reached.le_length
      obtain ⟨first, found'⟩ : ∃ first, exec s r i = some first := by
        apply Option.isSome_iff_exists.1
        rw [exec, List.findSome?_isSome_iff]
        exact ⟨m.index, List.mem_range'_1.2 ⟨by omega, by omega⟩, by rw [found]; rfl⟩
      have here := (exec_eq_some_iff bound).1 found'
      have member : first ∈ execAll s r := (mem_execAll_iff nonempty).2 ⟨i, reached, found'⟩
      have further := index_lt_stop nonempty here.2.2.1
      rcases Nat.lt_trichotomy first.index m.index with before | same | behind
      · rcases Nat.lt_or_ge m.index first.stop with passes | done
        · exact .inr ⟨first, member, before, passes⟩
        · exact ih (m.index - first.stop) (by omega) first.stop (by omega) (reached.next found')
      · have matched := here.2.2.1
        rw [same, found] at matched
        rw [Option.some.inj matched]
        exact .inl member
      · rw [here.2.2.2 m.index (by omega) behind] at found
        cases found
  exact from_here m.index 0 (Nat.zero_add _).symm .start

end Nonempty

end Regex
