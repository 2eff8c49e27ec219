import Mathlib.Data.List.TakeWhile
import Mathlib.Logic.Relation
import LibJuno.Lib.Regex

/-!
# What expressions can match

A match goes forward and stays inside the text. Repetition of a set of symbols stops anywhere
in the longest run of them; greedy repetition tries its end first, so in front of something
that does not start with such a symbol only the longest run counts. Whether the empty word
matches, and which symbols a match can have in it or at its end, is read off the expression.
-/

namespace Regex

variable {α : Type*} {s : List α}

section Spans

/-- From `i` to `j` is the longest run of such symbols. -/
structure Span (s : List α) (p : α → Bool) (i j : Nat) : Prop where
  le : i ≤ j
  inside : ∀ k, i ≤ k → k < j → ∃ a, s[k]? = some a ∧ p a = true
  stops : ∀ a, s[j]? = some a → p a = false

/-- From `i` to `j` all are such symbols. -/
structure Run (s : List α) (p : α → Bool) (i j : Nat) : Prop where
  le : i ≤ j
  inside : ∀ k, i ≤ k → k < j → ∃ a, s[k]? = some a ∧ p a = true

instance (s : List α) (p : α → Bool) (i j : Nat) : Decidable (Run s p i j) :=
  decidable_of_iff (i ≤ j ∧ ∀ k < j, i ≤ k → s[k]?.any p = true) <| by
    simp only [Option.any_eq_true]
    exact ⟨fun h => ⟨h.1, fun k above below => h.2 k below above⟩,
      fun h => ⟨h.le, fun k below above => h.inside k above below⟩⟩

variable {p : α → Bool} {i j : Nat}

/-- A run that such a symbol does not follow is the longest. -/
theorem Run.span {a : α} (run : Run s p i j) (here : s[j]? = some a) (other : p a = false) :
    Span s p i j := by
  refine ⟨run.le, run.inside, fun b there => ?_⟩
  rw [here] at there
  rw [← Option.some.inj there]
  exact other

theorem exists_span (s : List α) (p : α → Bool) (i : Nat) : ∃ j, Span s p i j := by
  by_cases goes_on : ∃ a, s[i]? = some a ∧ p a = true
  · obtain ⟨a, here, holds⟩ := goes_on
    have bound : i < s.length := (List.getElem?_eq_some_iff.1 here).1
    obtain ⟨j, span⟩ := exists_span s p (i + 1)
    refine ⟨j, by have := span.le; omega, fun k from_start below => ?_, span.stops⟩
    rcases Nat.eq_or_lt_of_le from_start with rfl | later
    · exact ⟨a, here, holds⟩
    · exact span.inside k later below
  · refine ⟨i, Nat.le_refl i, fun k from_start below => by omega, fun a here => ?_⟩
    exact Bool.eq_false_iff.2 fun holds => goes_on ⟨a, here, holds⟩
termination_by s.length - i

theorem Span.unique {j' : Nat} (span : Span s p i j) (span' : Span s p i j') : j = j' := by
  rcases Nat.lt_trichotomy j j' with below | same | above
  · obtain ⟨a, here, holds⟩ := span'.inside j span.le below
    rw [span.stops a here] at holds
    cases holds
  · exact same
  · obtain ⟨a, here, holds⟩ := span.inside j' span'.le above
    rw [span'.stops a here] at holds
    cases holds

/-- The run from a later place in it. -/
theorem Span.later {k : Nat} (span : Span s p i j) (from_start : i ≤ k) (within : k ≤ j) :
    Span s p k j :=
  ⟨within, fun n above below => span.inside n (Nat.le_trans from_start above) below, span.stops⟩

theorem Span.le_length (span : Span s p i j) (inside : i ≤ s.length) : j ≤ s.length := by
  rcases Nat.eq_or_lt_of_le span.le with same | longer
  · omega
  · obtain ⟨a, here, -⟩ := span.inside (j - 1) (by omega) (by omega)
    have := (List.getElem?_eq_some_iff.1 here).1
    omega

/-- A run of some of the symbols does not go beyond the longest run of them all. -/
theorem Run.le_of_span {q : α → Bool} {n : Nat} (run : Run s q i n) (span : Span s p i j)
    (some_of : ∀ a, q a = true → p a = true) : n ≤ j := by
  by_contra beyond
  obtain ⟨a, here, holds⟩ := run.inside j span.le (Nat.lt_of_not_le beyond)
  have other := span.stops a here
  rw [some_of a holds] at other
  cases other

theorem Span.run (span : Span s p i j) : Run s p i j := ⟨span.le, span.inside⟩

theorem Span.lt_of_here {a : α} (span : Span s p i j) (here : s[i]? = some a) (holds : p a = true) :
    i < j := by
  apply Nat.lt_of_le_of_ne span.le
  rintro rfl
  rw [span.stops a here] at holds
  cases holds

theorem runs_sym_hit {a : α} (here : s[i]? = some a) (holds : p a = true) (c : Captures) :
    runs s (.sym p) i c = [(i + 1, c)] := by
  unfold runs
  rw [here]
  exact if_pos holds

theorem runs_sym_stuck (fails : ∀ a, s[i]? = some a → p a = false) (c : Captures) :
    runs s (.sym p) i c = [] := by
  unfold runs
  cases here : s[i]? with
  | none => rfl
  | some a => exact if_neg (by rw [fails a here]; exact Bool.false_ne_true)

/-- The stops of a repetition in a run of so many symbols, in the order of trial. -/
def stops (greedy : Bool) (i n : Nat) : List Nat :=
  if greedy then (List.range' i (n + 1)).reverse else List.range' i (n + 1)

theorem rounds_sym (greedy : Bool) (c : Captures) {n fuel : Nat} (enough : n ≤ fuel)
    (span : Span s p i (i + n)) :
    rounds greedy (runs s (.sym p)) fuel i c = (stops greedy i n).map (·, c) := by
  induction n generalizing i fuel with
  | zero =>
    cases fuel with
    | zero => cases greedy <;> rfl
    | succ fuel =>
      rw [rounds, runs_sym_stuck (i := i) span.stops]
      cases greedy <;> rfl
  | succ n ih =>
    obtain ⟨fuel, rfl⟩ : ∃ m, fuel = m + 1 := ⟨fuel - 1, by omega⟩
    obtain ⟨a, here, holds⟩ := span.inside i (Nat.le_refl i) (by omega)
    have rest : Span s p (i + 1) (i + 1 + n) := by
      rw [Nat.add_assoc, Nat.add_comm 1 n]
      exact span.later (Nat.le_succ i) (by omega)
    have list : List.range' i (n + 1 + 1) = i :: List.range' (i + 1) (n + 1) := rfl
    rw [rounds, runs_sym_hit here holds, List.flatMap_cons, List.flatMap_nil, List.append_nil,
      if_pos (Nat.lt_succ_self i), ih (by omega) rest]
    cases greedy with
    | false => rfl
    | true =>
      unfold stops
      rw [if_pos rfl, if_pos rfl, if_pos rfl, list, List.reverse_cons, List.map_append]
      rfl

theorem runs_star_sym (greedy : Bool) (span : Span s p i j) (c : Captures) :
    runs s (.star greedy (.sym p)) i c = (stops greedy i (j - i)).map (·, c) := by
  have shape : i + (j - i) = j := Nat.add_sub_of_le span.le
  rw [runs]
  by_cases inside : i ≤ s.length
  · have bound := span.le_length inside
    exact rounds_sym greedy c (by omega) (by rw [shape]; exact span)
  · have same : j = i := by
      rcases Nat.eq_or_lt_of_le span.le with same | longer
      · exact same.symm
      · obtain ⟨a, here, -⟩ := span.inside i (Nat.le_refl i) longer
        have := (List.getElem?_eq_some_iff.1 here).1
        omega
    rw [same, Nat.sub_self]
    exact rounds_sym greedy c (Nat.zero_le _) (by rw [Nat.add_zero, ← same]; exact same ▸ span)

/-- Greedy repetition of a set of symbols: from the longest run down to none. -/
theorem runs_star_greedy (span : Span s p i j) (c : Captures) :
    runs s (.star true (.sym p)) i c = ((List.range' i (j - i + 1)).reverse).map (·, c) :=
  runs_star_sym true span c

/-- Lazy repetition: from none up to the longest run. -/
theorem runs_star_lazy (span : Span s p i j) (c : Captures) :
    runs s (.star false (.sym p)) i c = (List.range' i (j - i + 1)).map (·, c) :=
  runs_star_sym false span c

theorem head_star_greedy_self (span : Span s p i j) (c : Captures) :
    (runs s (.star true (.sym p)) i c).head? = some (j, c) := by
  rw [runs_star_greedy span, List.range'_1_concat, List.reverse_append, Nat.add_sub_of_le span.le]
  rfl

/-- In front of something that starts with no such symbol, only the longest run counts. -/
theorem head_star_greedy {r : Regex α} (span : Span s p i j) (c : Captures)
    (stuck : ∀ k, i ≤ k → k < j → runs s r k c = []) :
    (runs s (.seq (.star true (.sym p)) r) i c).head? = (runs s r j c).head? := by
  rw [runs, runs_star_greedy span, List.head?_flatMap]
  have longest : ((List.range' i (j - i + 1)).reverse) = j :: (List.range' i (j - i)).reverse := by
    rw [List.range'_1_concat, List.reverse_append, Nat.add_sub_of_le span.le]
    rfl
  rw [longest, List.map_cons, List.findSome?_cons]
  cases first : (runs s r j c).head? with
  | some x => rfl
  | none =>
    dsimp only
    rw [List.findSome?_eq_none_iff]
    intro x member
    obtain ⟨k, shorter, rfl⟩ := List.mem_map.1 member
    have bounds := List.mem_range'_1.1 (List.mem_reverse.1 shorter)
    dsimp only
    rw [stuck k bounds.1 (by omega)]
    rfl

/-- One symbol of the set is there. -/
theorem head_plus_greedy {r : Regex α} (span : Span s p i j) (longer : i < j) (c : Captures)
    (stuck : ∀ k, i ≤ k → k < j → runs s r k c = []) :
    (runs s (.seq (.plus true (.sym p)) r) i c).head? = (runs s r j c).head? := by
  obtain ⟨a, here, holds⟩ := span.inside i (Nat.le_refl i) longer
  have later := head_star_greedy (span.later (Nat.le_succ i) longer) c
    fun k from_start below => stuck k (Nat.le_of_succ_le from_start) below
  rw [runs] at later
  rw [runs, plus, runs, runs_sym_hit here holds, List.flatMap_cons, List.flatMap_nil, List.append_nil]
  exact later

theorem head_plus_greedy_self (span : Span s p i j) (longer : i < j) (c : Captures) :
    (runs s (.plus true (.sym p)) i c).head? = some (j, c) := by
  obtain ⟨a, here, holds⟩ := span.inside i (Nat.le_refl i) longer
  rw [plus, runs, runs_sym_hit here holds, List.flatMap_cons, List.flatMap_nil, List.append_nil]
  exact head_star_greedy_self (span.later (Nat.le_succ i) longer) c

theorem matchAt_plus_greedy (span : Span s p i j) (longer : i < j) :
    matchAt s (.plus true (.sym p)) i = some ⟨i, j, []⟩ := by
  rw [matchAt, head_plus_greedy_self span longer]
  rfl

theorem runs_plus_stuck (fails : ∀ a, s[i]? = some a → p a = false) (greedy : Bool) (r : Regex α)
    (c : Captures) : runs s (.seq (.plus greedy (.sym p)) r) i c = [] := by
  rw [runs, plus, runs, runs_sym_stuck fails]
  rfl

theorem span_takeWhile (s : List α) (p : α → Bool) (i : Nat) :
    Span s p i (i + ((s.drop i).takeWhile p).length) := by
  have parts : ∀ n, s[i + n]? = ((s.drop i).takeWhile p ++ (s.drop i).dropWhile p)[n]? := by
    intro n
    rw [List.takeWhile_append_dropWhile, List.getElem?_drop]
  refine ⟨Nat.le_add_right _ _, fun k from_start below => ?_, fun a here => ?_⟩
  · obtain ⟨n, rfl⟩ := Nat.exists_eq_add_of_le from_start
    have within : n < ((s.drop i).takeWhile p).length := by omega
    refine ⟨((s.drop i).takeWhile p)[n], ?_, List.mem_takeWhile_imp (List.getElem_mem within)⟩
    rw [parts, List.getElem?_append_left within, List.getElem?_eq_getElem within]
  · have next := List.head?_dropWhile_not p (s.drop i)
    rw [parts, List.getElem?_append_right (Nat.le_refl _), Nat.sub_self, ← List.head?_eq_getElem?]
      at here
    rw [here] at next
    simpa using next

end Spans

/-- All trials that succeed at all give the same, and one does. -/
theorem findSome?_eq_of_forall {β γ : Type*} {f : β → Option γ} {l : List β} {y : γ}
    (same : ∀ x ∈ l, f x = none ∨ f x = some y) (one : ∃ x ∈ l, f x = some y) :
    l.findSome? f = some y := by
  induction l with
  | nil =>
    obtain ⟨x, member, -⟩ := one
    cases member
  | cons x l ih =>
    rw [List.findSome?_cons]
    rcases same x List.mem_cons_self with nothing | found
    · rw [nothing]
      apply ih fun z member => same z (List.mem_cons_of_mem x member)
      obtain ⟨z, member, found⟩ := one
      rcases List.mem_cons.1 member with rfl | later
      · rw [nothing] at found
        cases found
      · exact ⟨z, later, found⟩
    · rw [found]

/-- Only the trial of one element can succeed. -/
theorem findSome?_eq_of_only {β γ : Type*} {f : β → Option γ} {l : List β} {x : β} (member : x ∈ l)
    (only : ∀ y ∈ l, y ≠ x → f y = none) : l.findSome? f = f x := by
  cases found : f x with
  | none =>
    rw [List.findSome?_eq_none_iff]
    intro y listed
    by_cases same : y = x
    · rw [same, found]
    · exact only y listed same
  | some z =>
    refine findSome?_eq_of_forall (fun y listed => ?_) ⟨x, member, found⟩
    by_cases same : y = x
    · exact .inr (by rw [same, found])
    · exact .inl (only y listed same)

section Literals

variable [DecidableEq α] {a : α} {as : List α} {i : Nat}

theorem runs_seq_nil {r : Regex α} (c : Captures) : runs s (.seq (lit []) r) i c = runs s r i c := by
  rw [runs, lit, runs, List.flatMap_cons, List.flatMap_nil, List.append_nil]

theorem runs_lit_cons (here : s[i]? = some a) (c : Captures) :
    runs s (lit (a :: as)) i c = runs s (lit as) (i + 1) c := by
  rw [lit, runs, runs, here]
  simp

theorem runs_lit_stuck (other : s[i]? ≠ some a) (c : Captures) : runs s (lit (a :: as)) i c = [] := by
  rw [lit, runs, runs]
  cases here : s[i]? with
  | none => rfl
  | some b =>
    have differ : b ≠ a := by
      rintro rfl
      exact other here
    simp [differ]

theorem runs_seq_cons {r : Regex α} (here : s[i]? = some a) (c : Captures) :
    runs s (.seq (lit (a :: as)) r) i c = runs s (.seq (lit as) r) (i + 1) c := by
  rw [runs, runs_lit_cons here, runs]

theorem runs_seq_stuck {r : Regex α} (other : s[i]? ≠ some a) (c : Captures) :
    runs s (.seq (lit (a :: as)) r) i c = [] := by
  rw [runs, runs_lit_stuck other]
  rfl

end Literals

section Shape

/-- The empty word may match. -/
def nullable : Regex α → Bool
  | eps => true
  | sym _ => false
  | seq r t => nullable r && nullable t
  | alt r t => nullable r || nullable t
  | star _ _ => true
  | group _ r => nullable r
  | around _ => true

/-- A match may have the symbol in it. -/
def mayHave (u : α) : Regex α → Bool
  | eps => false
  | sym p => p u
  | seq r t => mayHave u r || mayHave u t
  | alt r t => mayHave u r || mayHave u t
  | star _ r => mayHave u r
  | group _ r => mayHave u r
  | around _ => false

/-- A match may end with the symbol. -/
def mayEnd (u : α) : Regex α → Bool
  | eps => false
  | sym p => p u
  | seq r t => mayEnd u t || (nullable t && mayEnd u r)
  | alt r t => mayEnd u r || mayEnd u t
  | star _ r => mayEnd u r
  | group _ r => mayEnd u r
  | around _ => false

variable {i : Nat} {c : Captures} {x : Nat × Captures} {u : α}

theorem mem_runs_sym {p : α → Bool} (member : x ∈ runs s (.sym p) i c) :
    ∃ a, s[i]? = some a ∧ p a = true ∧ x = (i + 1, c) := by
  unfold runs at member
  cases here : s[i]? with
  | none =>
    rw [here] at member
    cases member
  | some a =>
    rw [here] at member
    dsimp only at member
    split at member
    · next holds => exact ⟨a, rfl, holds, List.mem_singleton.1 member⟩
    · cases member

theorem mem_runs_seq {r t : Regex α} :
    x ∈ runs s (.seq r t) i c ↔ ∃ y ∈ runs s r i c, x ∈ runs s t y.1 y.2 := by
  rw [runs, List.mem_flatMap]

theorem mem_runs_around {p : Option α → Option α → Bool} (member : x ∈ runs s (.around p) i c) :
    x = (i, c) := by
  rw [runs] at member
  by_cases holds : p (if i = 0 then none else s[i - 1]?) s[i]? = true
  · rw [if_pos holds] at member
    exact List.mem_singleton.1 member
  · rw [if_neg holds] at member
    cases member

/-- What holds of no round and is kept by every round that consumes something. -/
theorem rounds_induct {body : Nat → Captures → List (Nat × Captures)}
    {motive : Nat × Captures → Nat × Captures → Prop} (stay : ∀ x, motive x x)
    (step : ∀ i c y z, y ∈ body i c → i < y.1 → motive y z → motive (i, c) z) (greedy : Bool)
    {fuel : Nat} (member : x ∈ rounds greedy body fuel i c) : motive (i, c) x := by
  induction fuel generalizing i c with
  | zero =>
    rw [List.mem_singleton.1 member]
    exact stay (i, c)
  | succ fuel ih =>
    have parts : x ∈ (body i c).flatMap (fun y =>
        if i < y.1 then rounds greedy body fuel y.1 y.2 else []) ∨ x = (i, c) := by
      rw [rounds] at member
      split at member
      · exact (List.mem_append.1 member).imp_right List.mem_singleton.1
      · exact (List.mem_cons.1 member).symm
    rcases parts with further | rfl
    · obtain ⟨y, round, later⟩ := List.mem_flatMap.1 further
      split at later
      · next longer => exact step i c y x round longer (ih later)
      · cases later
    · exact stay (i, c)

/-- What relates each position to itself and to the one after its symbol, and goes on from
where it came to, relates the ends of every match. -/
theorem runs_induct {motive : Nat → Nat → Prop} (stay : ∀ i, motive i i)
    (one : ∀ i a, s[i]? = some a → motive i (i + 1))
    (on : ∀ i j k, motive i j → motive j k → motive i k) {r : Regex α} (member : x ∈ runs s r i c) :
    motive i x.1 := by
  induction r generalizing i c x with
  | eps =>
    rw [List.mem_singleton.1 member]
    exact stay i
  | sym p =>
    obtain ⟨a, here, -, rfl⟩ := mem_runs_sym member
    exact one i a here
  | seq r t ihr iht =>
    obtain ⟨y, first, second⟩ := mem_runs_seq.1 member
    exact on i y.1 x.1 (ihr first) (iht second)
  | alt r t ihr iht =>
    rcases List.mem_append.1 member with left | right
    · exact ihr left
    · exact iht right
  | star greedy r ih =>
    exact rounds_induct (motive := fun x y => motive x.1 y.1) (fun x => stay x.1)
      (fun i c y z round _ later => on i y.1 z.1 (ih round) later) greedy member
  | group n r ih =>
    obtain ⟨y, inner, rfl⟩ := List.mem_map.1 member
    have reached : motive i y.1 := ih inner
    exact reached
  | around p =>
    rw [mem_runs_around member]
    exact stay i

theorem le_of_mem_runs {r : Regex α} (member : x ∈ runs s r i c) : i ≤ x.1 :=
  runs_induct (motive := fun i j => i ≤ j) Nat.le_refl (fun i _ _ => Nat.le_succ i)
    (fun _ _ _ first second => Nat.le_trans first second) member

theorem stop_le_of_mem_runs {r : Regex α} (member : x ∈ runs s r i c) (inside : i ≤ s.length) :
    x.1 ≤ s.length := by
  have stays : i ≤ s.length → x.1 ≤ s.length := by
    refine runs_induct (motive := fun i j => i ≤ s.length → j ≤ s.length) ?_ ?_ ?_ member
    · intro i inside
      exact inside
    · intro i a here _
      exact (List.getElem?_eq_some_iff.1 here).1
    · intro i j k first second inside
      exact second (first inside)
  exact stays inside

theorem nullable_of_mem_runs {r : Regex α} (member : x ∈ runs s r i c) (empty : x.1 = i) :
    nullable r = true := by
  induction r generalizing i c x with
  | eps => rfl
  | sym p =>
    obtain ⟨a, -, -, rfl⟩ := mem_runs_sym member
    exact absurd empty (Nat.succ_ne_self i)
  | seq r t ihr iht =>
    obtain ⟨y, first, second⟩ := mem_runs_seq.1 member
    have forward := le_of_mem_runs first
    have forward' := le_of_mem_runs second
    rw [nullable, ihr first (by omega), iht second (by omega)]
    rfl
  | alt r t ihr iht =>
    rcases List.mem_append.1 member with left | right
    · rw [nullable, ihr left empty, Bool.true_or]
    · rw [nullable, iht right empty, Bool.or_true]
  | star greedy r ih => rfl
  | group n r ih =>
    obtain ⟨y, inner, rfl⟩ := List.mem_map.1 member
    have stays : y.1 = i := empty
    exact ih inner stays
  | around p => rfl

theorem mayHave_of_mem_runs {r : Regex α} (member : x ∈ runs s r i c) {k : Nat} (from_start : i ≤ k)
    (below : k < x.1) (here : s[k]? = some u) : mayHave u r = true := by
  induction r generalizing i c x with
  | eps =>
    rw [List.mem_singleton.1 member] at below
    exact absurd from_start (Nat.not_le_of_lt below)
  | sym p =>
    obtain ⟨a, first, holds, rfl⟩ := mem_runs_sym member
    have same : k = i := by
      dsimp only at below
      omega
    rw [same, first] at here
    rw [mayHave, ← Option.some.inj here]
    exact holds
  | seq r t ihr iht =>
    obtain ⟨y, first, second⟩ := mem_runs_seq.1 member
    rw [mayHave, Bool.or_eq_true]
    rcases Nat.lt_or_ge k y.1 with early | late
    · exact .inl (ihr first from_start early)
    · exact .inr (iht second late below)
  | alt r t ihr iht =>
    rw [mayHave, Bool.or_eq_true]
    rcases List.mem_append.1 member with left | right
    · exact .inl (ihr left from_start below)
    · exact .inr (iht right from_start below)
  | star greedy r ih =>
    refine rounds_induct (motive := fun x y => x.1 ≤ k → k < y.1 → mayHave u r = true) ?_ ?_ greedy
      member from_start below
    · intro x from_start below
      exact absurd from_start (Nat.not_le_of_lt below)
    · intro i c y z round longer later from_start below
      rcases Nat.lt_or_ge k y.1 with early | late
      · exact ih round from_start early
      · exact later late below
  | group n r ih =>
    obtain ⟨y, inner, rfl⟩ := List.mem_map.1 member
    exact ih inner from_start below
  | around p =>
    rw [mem_runs_around member] at below
    exact absurd from_start (Nat.not_le_of_lt below)

theorem mayEnd_of_mem_runs {r : Regex α} (member : x ∈ runs s r i c) (longer : i < x.1)
    (last : s[x.1 - 1]? = some u) : mayEnd u r = true := by
  induction r generalizing i c x with
  | eps =>
    rw [List.mem_singleton.1 member] at longer
    exact absurd longer (Nat.lt_irrefl i)
  | sym p =>
    obtain ⟨a, first, holds, rfl⟩ := mem_runs_sym member
    rw [Nat.add_sub_cancel, first] at last
    rw [mayEnd, ← Option.some.inj last]
    exact holds
  | seq r t ihr iht =>
    obtain ⟨y, first, second⟩ := mem_runs_seq.1 member
    rw [mayEnd, Bool.or_eq_true, Bool.and_eq_true]
    rcases Nat.eq_or_lt_of_le (le_of_mem_runs second) with same | further
    · refine .inr ⟨nullable_of_mem_runs second same.symm, ihr first ?_ ?_⟩
      · rw [same]
        exact longer
      · rw [same]
        exact last
    · exact .inl (iht second further last)
  | alt r t ihr iht =>
    rw [mayEnd, Bool.or_eq_true]
    rcases List.mem_append.1 member with left | right
    · exact .inl (ihr left longer last)
    · exact .inr (iht right longer last)
  | star greedy r ih =>
    have ends : i ≤ x.1 ∧ (i < x.1 → s[x.1 - 1]? = some u → mayEnd u r = true) := by
      refine rounds_induct (motive := fun x y => x.1 ≤ y.1 ∧ (x.1 < y.1 → s[y.1 - 1]? = some u →
        mayEnd u r = true)) (fun x => ?_) (fun i c y z round longer later => ?_) greedy member
      · exact ⟨Nat.le_refl x.1, fun longer => absurd longer (Nat.lt_irrefl x.1)⟩
      · refine ⟨longer.le.trans later.1, fun _ last => ?_⟩
        rcases Nat.eq_or_lt_of_le later.1 with same | further
        · exact ih round longer (by rw [same]; exact last)
        · exact later.2 further last
    exact ends.2 longer last
  | group n r ih =>
    obtain ⟨y, inner, rfl⟩ := List.mem_map.1 member
    exact ih inner longer last
  | around p =>
    rw [mem_runs_around member] at longer
    exact absurd longer (Nat.lt_irrefl i)

end Shape

section Members

variable {i : Nat} {c : Captures} {x : Nat × Captures}

theorem mem_runs_sym_of {p : α → Bool} {a : α} (here : s[i]? = some a) (holds : p a = true) :
    (i + 1, c) ∈ runs s (.sym p) i c := by
  rw [runs_sym_hit here holds]
  exact List.mem_singleton_self _

theorem mem_rounds_self (greedy : Bool) (body : Nat → Captures → List (Nat × Captures))
    (fuel i : Nat) (c : Captures) : (i, c) ∈ rounds greedy body fuel i c := by
  cases fuel with
  | zero => exact List.mem_singleton_self _
  | succ fuel =>
    rw [rounds]
    split
    · exact List.mem_append_right _ (List.mem_singleton_self _)
    · exact List.mem_cons_self

theorem mem_rounds_of {greedy : Bool} {body : Nat → Captures → List (Nat × Captures)} {fuel : Nat}
    {y : Nat × Captures} (round : y ∈ body i c) (longer : i < y.1)
    (later : x ∈ rounds greedy body fuel y.1 y.2) : x ∈ rounds greedy body (fuel + 1) i c := by
  have further : x ∈ (body i c).flatMap fun y =>
      if i < y.1 then rounds greedy body fuel y.1 y.2 else [] :=
    List.mem_flatMap.2 ⟨y, round, by rw [if_pos longer]; exact later⟩
  rw [rounds]
  split
  · exact List.mem_append_left _ further
  · exact List.mem_cons_of_mem _ further

/-- Repetition of a set of symbols stops after any number of them. -/
theorem mem_runs_star_sym {greedy : Bool} {p : α → Bool} :
    x ∈ runs s (.star greedy (.sym p)) i c ↔
      x.2 = c ∧ Run s p i x.1 := by
  constructor
  · intro member
    refine rounds_induct (motive := fun x y => y.2 = x.2 ∧ Run s p x.1 y.1) (fun x => ?_)
      (fun i c y z round longer later => ?_) greedy member
    · exact ⟨rfl, Nat.le_refl x.1, fun k from_start below => absurd from_start (Nat.not_le_of_lt below)⟩
    · obtain ⟨a, here, holds, rfl⟩ := mem_runs_sym round
      obtain ⟨same, forward, inside⟩ := later
      refine ⟨same, (Nat.le_succ i).trans forward, fun k from_start below => ?_⟩
      rcases Nat.eq_or_lt_of_le from_start with rfl | further
      · exact ⟨a, here, holds⟩
      · exact inside k further below
  · rintro ⟨rfl, forward, inside⟩
    have rest : ∀ fuel i, i ≤ x.1 → x.1 - i ≤ fuel → (∀ k, i ≤ k → k < x.1 →
        ∃ a, s[k]? = some a ∧ p a = true) → x ∈ rounds greedy (runs s (.sym p)) fuel i x.2 := by
      intro fuel
      induction fuel with
      | zero =>
        intro i forward enough _
        have same : x.1 = i := by omega
        rw [← same]
        exact mem_rounds_self greedy _ 0 x.1 x.2
      | succ fuel ih =>
        intro i forward enough inside
        rcases Nat.eq_or_lt_of_le forward with rfl | further
        · exact mem_rounds_self greedy _ _ x.1 x.2
        · obtain ⟨a, here, holds⟩ := inside i (Nat.le_refl i) further
          exact mem_rounds_of (mem_runs_sym_of here holds) (Nat.lt_succ_self i)
            (ih (i + 1) further (by omega) fun k from_start => inside k (Nat.le_of_succ_le from_start))
    refine rest _ i forward ?_ inside
    rcases Nat.eq_or_lt_of_le forward with same | further
    · omega
    · obtain ⟨a, here, -⟩ := inside (x.1 - 1) (by omega) (by omega)
      have := (List.getElem?_eq_some_iff.1 here).1
      omega

theorem le_of_steps {Step : Nat → Nat → Prop} (forward : ∀ i j, Step i j → i ≤ j) {i j : Nat}
    (steps : Relation.ReflTransGen Step i j) : i ≤ j := by
  induction steps with
  | refl => exact Nat.le_refl i
  | tail _ step ih => exact ih.trans (forward _ _ step)

/-- Repetition of an expression that makes steps and captures nothing. -/
theorem mem_runs_star {greedy : Bool} {r : Regex α} {Step : Nat → Nat → Prop}
    (forward : ∀ i j, Step i j → i < j ∧ j ≤ s.length)
    (round : ∀ i c y, y ∈ runs s r i c ↔ y.2 = c ∧ Step i y.1) :
    x ∈ runs s (.star greedy r) i c ↔ x.2 = c ∧ Relation.ReflTransGen Step i x.1 := by
  constructor
  · intro member
    refine rounds_induct (motive := fun x y => y.2 = x.2 ∧ Relation.ReflTransGen Step x.1 y.1)
      (fun x => ⟨rfl, .refl⟩) (fun i c y z step _ later => ?_) greedy member
    obtain ⟨same, first⟩ := (round i c y).1 step
    exact ⟨later.1.trans same, .head first later.2⟩
  · rintro ⟨rfl, steps⟩
    have rest : ∀ fuel, x.1 - i ≤ fuel → x ∈ rounds greedy (runs s r) fuel i x.2 := by
      induction steps using Relation.ReflTransGen.head_induction_on with
      | refl => exact fun fuel _ => mem_rounds_self greedy _ fuel x.1 x.2
      | @head i j first rest ih =>
        intro fuel enough
        have ahead := (forward i j first).1
        have beyond := le_of_steps (fun i j step => (forward i j step).1.le) rest
        obtain ⟨fuel, rfl⟩ : ∃ n, fuel = n + 1 := ⟨fuel - 1, by omega⟩
        exact mem_rounds_of ((round i x.2 (j, x.2)).2 ⟨rfl, first⟩) ahead (ih fuel (by omega))
    refine rest _ ?_
    rcases Relation.ReflTransGen.cases_tail steps with same | ⟨j, -, last⟩
    · omega
    · have := (forward j x.1 last).2
      omega

theorem mem_runs_group {n : Nat} {r : Regex α} :
    x ∈ runs s (.group n r) i c ↔ ∃ y ∈ runs s r i c, x = (y.1, (n, i, y.1) :: y.2) := by
  rw [runs, List.mem_map]
  exact exists_congr fun y => and_congr_right fun _ => eq_comm

theorem mem_runs_plus_sym {greedy : Bool} {p : α → Bool} :
    x ∈ runs s (.plus greedy (.sym p)) i c ↔ x.2 = c ∧ i < x.1 ∧ Run s p i x.1 := by
  rw [plus, mem_runs_seq]
  constructor
  · rintro ⟨y, first, rest⟩
    obtain ⟨a, here, holds, rfl⟩ := mem_runs_sym first
    obtain ⟨same, forward, inside⟩ := mem_runs_star_sym.1 rest
    refine ⟨same, forward, (Nat.le_succ i).trans forward, fun k from_start below => ?_⟩
    rcases Nat.eq_or_lt_of_le from_start with rfl | further
    · exact ⟨a, here, holds⟩
    · exact inside k further below
  · rintro ⟨same, longer, run⟩
    obtain ⟨a, here, holds⟩ := run.inside i (Nat.le_refl i) longer
    exact ⟨(i + 1, c), mem_runs_sym_of here holds, mem_runs_star_sym.2
      ⟨same, longer, fun k from_start => run.inside k (Nat.le_of_succ_le from_start)⟩⟩

theorem mem_runs_alt {r t : Regex α} :
    x ∈ runs s (.alt r t) i c ↔ x ∈ runs s r i c ∨ x ∈ runs s t i c := by
  rw [runs, List.mem_append]

theorem mem_runs_lit [DecidableEq α] {as : List α} :
    x ∈ runs s (lit as) i c ↔ x = (i + as.length, c) ∧ as <+: s.drop i := by
  induction as generalizing i with
  | nil =>
    rw [lit, runs, List.mem_singleton]
    exact (and_iff_left List.nil_prefix).symm
  | cons a as ih =>
    by_cases here : s[i]? = some a
    · rw [runs_lit_cons here, ih]
      have first : s.drop i = a :: s.drop (i + 1) := by
        obtain ⟨bound, same⟩ := List.getElem?_eq_some_iff.1 here
        rw [List.drop_eq_getElem_cons bound, same]
      have moved : i + 1 + as.length = i + (as.length + 1) := by omega
      rw [first, List.cons_prefix_cons, List.length_cons, moved, and_iff_right rfl]
    · rw [runs_lit_stuck here]
      constructor
      · intro member
        cases member
      · rintro ⟨-, rest, same⟩
        have first : (s.drop i)[0]? = some a := by
          rw [← same]
          rfl
        rw [List.getElem?_drop] at first
        exact absurd first here

theorem mem_runs_lit_one [DecidableEq α] {a : α} :
    x ∈ runs s (lit [a]) i c ↔ x = (i + 1, c) ∧ s[i]? = some a := by
  rw [mem_runs_lit, List.singleton_prefix_iff_head?_eq_some, List.head?_drop]
  rfl

theorem mem_runs_lit_two [DecidableEq α] {a b : α} :
    x ∈ runs s (lit [a, b]) i c ↔ x = (i + 2, c) ∧ s[i]? = some a ∧ s[i + 1]? = some b := by
  have parts : lit [a, b] = seq (sym fun x => decide (x = a)) (lit [b]) := rfl
  rw [parts, mem_runs_seq]
  constructor
  · rintro ⟨y, first, second⟩
    obtain ⟨a', here, same, rfl⟩ := mem_runs_sym first
    obtain ⟨rfl, next⟩ := mem_runs_lit_one.1 second
    rw [of_decide_eq_true same] at here
    exact ⟨rfl, here, next⟩
  · rintro ⟨rfl, here, next⟩
    exact ⟨(i + 1, c), mem_runs_sym_of here (decide_eq_true rfl), mem_runs_lit_one.2 ⟨rfl, next⟩⟩

/-- Some alternative matches. -/
theorem mem_runs_anyOf {rs : List (Regex α)} :
    x ∈ runs s (anyOf rs) i c ↔ ∃ r ∈ rs, x ∈ runs s r i c := by
  induction rs with
  | nil =>
    have never : ¬x ∈ runs s (anyOf []) i c := by
      rw [anyOf, runs, if_neg Bool.false_ne_true]
      exact List.not_mem_nil
    refine iff_of_false never ?_
    rintro ⟨r, member, -⟩
    cases member
  | cons r rs ih =>
    rw [List.exists_mem_cons_iff]
    cases rs with
    | nil =>
      rw [anyOf]
      exact (or_iff_left fun ⟨r, member, _⟩ => List.not_mem_nil member).symm
    | cons t rs =>
      rw [anyOf, mem_runs_alt, ih]
      exact List.cons_ne_nil t rs

theorem mem_of_matchAt {r : Regex α} {m : Match} (h : matchAt s r i = some m) :
    m.index = i ∧ (m.stop, m.captures) ∈ runs s r i [] := by
  obtain ⟨x, first, rfl⟩ := Option.map_eq_some_iff.1 h
  exact ⟨rfl, List.mem_of_head? first⟩

theorem matchAt_isSome {r : Regex α} :
    (matchAt s r i).isSome = true ↔ ∃ x, x ∈ runs s r i [] := by
  rw [matchAt, Option.isSome_map, List.isSome_head?]
  constructor
  · intro nonempty
    exact List.exists_mem_of_ne_nil _ (by simpa using nonempty)
  · rintro ⟨x, member⟩
    simpa using List.ne_nil_of_mem member

/-- A search finds the match at its start if there is one, and else none that starts there. -/
theorem exec_index {r : Regex α} {m : Match} (inside : i ≤ s.length) :
    exec s r i = some m ∧ m.index = i ↔ matchAt s r i = some m := by
  have first : List.range' i (s.length + 1 - i) =
      i :: List.range' (i + 1) (s.length - i) := by
    rw [Nat.succ_sub inside]
    rfl
  rw [exec, first, List.findSome?_cons]
  cases here : matchAt s r i with
  | some m' =>
    dsimp only
    refine ⟨And.left, fun same => ⟨same, ?_⟩⟩
    rw [← Option.some.inj same]
    exact (mem_of_matchAt here).1
  | none =>
    refine iff_of_false ?_ (fun found => by cases found)
    rintro ⟨found, same⟩
    obtain ⟨k, later, found⟩ := List.exists_of_findSome?_eq_some found
    have bounds := List.mem_range'_1.1 later
    rw [(mem_of_matchAt found).1] at same
    omega

end Members

end Regex
