import LibJuno.Parser.Lexer

/-!
# Preprocessor directives

Where a directive is one token. The custom pattern of `HashDirective` matches at an offset
exactly if a directive line starts there (`hashDirective_iff`), and then up to the end of its
logical line. But the lexer comes to the start of an indented line only if that is the start
of the text: the white space before takes the newline and the indentation together.
-/

namespace LibJuno.Parser

open Indexer

section Lines

/-- A space, a tab or a carriage return. -/
def isTrailing (u : UInt16) : Prop := u = 32 ∨ u = 9 ∨ u = 13

instance : DecidablePred isTrailing := fun _ => inferInstanceAs (Decidable (_ ∨ _))

/-- Before the position there is a backslash, with nothing but trailing blanks between. -/
def Escaped (text : CodeUnits) (k : Nat) : Prop :=
  ∃ b < k, text[b]? = some 92 ∧ ∀ i, b < i → i < k → ∃ u, text[i]? = some u ∧ isTrailing u

/-- The logical line through `q` ends at `e`: its newlines before are escaped. -/
structure LogicalEnd (text : CodeUnits) (q e : Nat) : Prop where
  after : q < e
  continued : ∀ k, q ≤ k → k < e → text[k]? = some 10 → Escaped text k
  ends : e = text.length ∨ text[e]? = some 10 ∧ ¬Escaped text e

/-- Spaces and tabs. -/
def Blank (text : CodeUnits) (i j : Nat) : Prop :=
  ∀ k, i ≤ k → k < j → ∃ u, text[k]? = some u ∧ isIndent u = true

instance (text : CodeUnits) (k : Nat) : Decidable (Escaped text k) :=
  decidable_of_iff (∃ b < k, text[b]? = some 92 ∧ ∀ i < k, b < i →
    text[i]?.any (fun u => decide (isTrailing u)) = true) <| by
      simp only [Escaped, Option.any_eq_true, decide_eq_true_iff]
      exact exists_congr fun b => and_congr_right fun _ => and_congr_right fun _ =>
        ⟨fun h i above below => h i below above, fun h i below above => h i above below⟩

instance (text : CodeUnits) (i j : Nat) : Decidable (Blank text i j) :=
  decidable_of_iff (∀ k < j, i ≤ k → text[k]?.any isIndent = true) <| by
    simp only [Blank, Option.any_eq_true]
    exact ⟨fun h k above below => h k below above, fun h k below above => h k above below⟩

instance (text : CodeUnits) (q e : Nat) : Decidable (LogicalEnd text q e) :=
  decidable_of_iff (q < e ∧ (∀ k < e, q ≤ k → text[k]? = some 10 → Escaped text k) ∧
    (e = text.length ∨ text[e]? = some 10 ∧ ¬Escaped text e))
    ⟨fun h => ⟨h.1, fun k above below => h.2.1 k below above, h.2.2⟩,
      fun h => ⟨h.after, fun k below above => h.continued k above below, h.ends⟩⟩

/-- A line starts at `p`, its first character that is no blank is the `#` at `q`, a keyword
follows, and the logical line ends at `e`. -/
structure DirectiveLine (text : CodeUnits) (p q e : Nat) : Prop where
  begins : p = 0 ∨ text[p - 1]? = some 10
  le : p ≤ q
  indented : Blank text p q
  hash : text[q]? = some 35
  keyword : ∃ a, q < a ∧ Blank text (q + 1) a ∧ ∃ k ∈ directiveKeywords, utf16 k <+: text.drop a
  logical : LogicalEnd text q e

variable {text : CodeUnits} {p q q' e e' : Nat}

theorem Blank.ne {i j k : Nat} {u : UInt16} (h : Blank text i j) (solid : isIndent u = false)
    (above : i ≤ k) (below : k < j) : text[k]? ≠ some u := by
  intro there
  obtain ⟨v, here, blank⟩ := h k above below
  rw [there] at here
  rw [← Option.some.inj here, solid] at blank
  cases blank

theorem LogicalEnd.le_length (h : LogicalEnd text q e) : e ≤ text.length := by
  rcases h.ends with same | ⟨here, -⟩
  · exact same.le
  · exact (List.getElem?_eq_some_iff.1 here).1.le

theorem LogicalEnd.not_lt (h : LogicalEnd text q e) (h' : LogicalEnd text q' e') (behind : q' ≤ e) :
    ¬e < e' := by
  intro below
  have bound := h'.le_length
  rcases h.ends with same | ⟨here, stops⟩
  · omega
  · exact stops (h'.continued e behind below here)

/-- A logical line has one end. -/
theorem LogicalEnd.unique (h : LogicalEnd text q e) (h' : LogicalEnd text q' e') (behind : q ≤ q')
    (within : q' < e) : e = e' := by
  have one := h.not_lt h' within.le
  have other := h'.not_lt h (behind.trans h'.after.le)
  omega

theorem DirectiveLine.le_length (h : DirectiveLine text p q e) : p ≤ text.length := by
  have := (List.getElem?_eq_some_iff.1 h.hash).1
  have := h.le
  omega

theorem DirectiveLine.hash_unique (h : DirectiveLine text p q e) (h' : DirectiveLine text p q' e') :
    q = q' := by
  have first : ∀ {q q' e e'}, DirectiveLine text p q e → DirectiveLine text p q' e' → ¬q < q' := by
    intro q q' e e' h h' below
    exact h'.indented.ne (by decide) h.le below h.hash
  have one := first h h'
  have other := first h' h
  omega

theorem DirectiveLine.unique (h : DirectiveLine text p q e) (h' : DirectiveLine text p q' e') :
    e = e' := by
  obtain rfl := h.hash_unique h'
  exact h.logical.unique h'.logical (Nat.le_refl q) h.logical.after

end Lines

section LookBack

variable {text s : CodeUnits} {k : Nat}

theorem lookBack_iff (inside : k ≤ s.length) : lookBack s k = true ↔ Escaped s k := by
  induction k with
  | zero =>
    refine iff_of_false Bool.false_ne_true ?_
    rintro ⟨b, below, -⟩
    exact Nat.not_lt_zero b below
  | succ k ih =>
    have here : s[k]? = some s[k] := List.getElem?_eq_getElem inside
    rw [lookBack, here]
    dsimp only
    split
    · next trailing =>
      rw [ih (Nat.le_of_succ_le inside)]
      constructor
      · rintro ⟨b, below, slash, blanks⟩
        refine ⟨b, Nat.lt_succ_of_lt below, slash, fun i above upto => ?_⟩
        rcases Nat.lt_succ_iff_lt_or_eq.1 upto with before | rfl
        · exact blanks i above before
        · exact ⟨_, here, trailing⟩
      · rintro ⟨b, below, slash, blanks⟩
        rcases Nat.lt_succ_iff_lt_or_eq.1 below with before | rfl
        · exact ⟨b, before, slash, fun i above upto => blanks i above (Nat.lt_succ_of_lt upto)⟩
        · rw [here] at slash
          rw [Option.some.inj slash] at trailing
          exact absurd trailing (by decide)
    · next solid =>
      rw [decide_eq_true_iff]
      constructor
      · intro slash
        refine ⟨k, Nat.lt_succ_self k, by rw [here, slash], fun i above upto => ?_⟩
        omega
      · rintro ⟨b, below, slash, blanks⟩
        rcases Nat.lt_succ_iff_lt_or_eq.1 below with before | rfl
        · obtain ⟨u, same, trailing⟩ := blanks k before (Nat.lt_succ_self k)
          rw [here] at same
          rw [Option.some.inj same] at solid
          exact absurd trailing solid
        · rw [here] at slash
          exact Option.some.inj slash

/-- Behind the `#` the rest of the text from the line's start on says as much as the text. -/
theorem escaped_drop {o h : Nat} (hash : (text.drop o)[h]? = some 35) (behind : h < k) :
    Escaped (text.drop o) k ↔ Escaped text (o + k) := by
  have shift : ∀ i, (text.drop o)[i]? = text[o + i]? := fun i => List.getElem?_drop
  constructor
  · rintro ⟨b, below, slash, blanks⟩
    rw [shift] at slash
    refine ⟨o + b, by omega, slash, fun i above upto => ?_⟩
    obtain ⟨j, rfl⟩ := Nat.exists_eq_add_of_le (show o ≤ i by omega)
    rw [← shift]
    exact blanks j (by omega) (by omega)
  · rintro ⟨b, below, slash, blanks⟩
    rw [shift] at hash
    have later : o + h ≤ b := by
      by_contra before
      obtain ⟨u, here, trailing⟩ := blanks (o + h) (by omega) (by omega)
      rw [hash] at here
      rw [← Option.some.inj here] at trailing
      exact absurd trailing (by unfold isTrailing; decide)
    obtain ⟨j, rfl⟩ := Nat.exists_eq_add_of_le (show o ≤ b by omega)
    refine ⟨j, by omega, by rw [shift, slash], fun i above upto => ?_⟩
    rw [shift]
    exact blanks (o + i) (by omega) (by omega)

theorem directiveTurn_next {i j : Nat} (step : directiveTurn s i = .next j) :
    j = i + 1 ∧ i < s.length ∧ (s[i]? = some 10 → lookBack s i = true) := by
  unfold directiveTurn at step
  cases here : s[i]? with
  | none =>
    rw [here] at step
    cases step
  | some ch =>
    rw [here] at step
    have bound := (List.getElem?_eq_some_iff.1 here).1
    dsimp only at step
    split at step
    · split at step
      · next escaped => exact ⟨(Turn.next.inj step).symm, bound, fun _ => escaped⟩
      · cases step
    · next other =>
      exact ⟨(Turn.next.inj step).symm, bound, fun newline => absurd (Option.some.inj newline) other⟩

theorem directiveTurn_stop {i j : Nat} (step : directiveTurn s i = .stop j) :
    j = i ∧ (s[i]? = none ∨ s[i]? = some 10 ∧ ¬lookBack s i = true) := by
  unfold directiveTurn at step
  cases here : s[i]? with
  | none =>
    rw [here] at step
    exact ⟨(Turn.stop.inj step).symm, .inl rfl⟩
  | some ch =>
    rw [here] at step
    dsimp only at step
    split at step
    · next newline =>
      split at step
      · cases step
      · next stops => exact ⟨(Turn.stop.inj step).symm, .inr ⟨by rw [newline], stops⟩⟩
    · cases step

/-- The loop goes on up to the first newline that is not escaped. -/
theorem exists_loop_directiveTurn {pos : Nat} (inside : pos ≤ s.length) :
    ∃ r, loop (directiveTurn s) (s.length + 1) pos = some r ∧ pos ≤ r ∧ r ≤ s.length ∧
      (∀ k, pos ≤ k → k < r → s[k]? = some 10 → Escaped s k) ∧
      (r = s.length ∨ s[r]? = some 10 ∧ ¬Escaped s r) := by
  have lowers : ∀ i j, directiveTurn s i = .next j → s.length - j < s.length - i := by
    intro i j step
    obtain ⟨rfl, bound, -⟩ := directiveTurn_next step
    omega
  obtain ⟨r, run⟩ : ∃ r, loop (directiveTurn s) (s.length + 1) pos = some r :=
    Ends.loop_measure (fun i => s.length - i) lowers pos (by omega)
  have keeps : ∀ i j, (pos ≤ i ∧ i ≤ s.length ∧ ∀ k, pos ≤ k → k < i → s[k]? = some 10 → Escaped s k) →
      directiveTurn s i = .next j →
      pos ≤ j ∧ j ≤ s.length ∧ ∀ k, pos ≤ k → k < j → s[k]? = some 10 → Escaped s k := by
    rintro i j ⟨forward, -, continued⟩ step
    obtain ⟨rfl, bound, escaped⟩ := directiveTurn_next step
    refine ⟨Nat.le_succ_of_le forward, bound, fun k above below newline => ?_⟩
    rcases Nat.lt_succ_iff_lt_or_eq.1 below with before | rfl
    · exact continued k above before newline
    · exact (lookBack_iff bound.le).1 (escaped newline)
  obtain ⟨i, ⟨forward, bound, continued⟩, stops⟩ := Ends.last keeps
    ⟨Nat.le_refl pos, inside, fun k above below => by omega⟩ ⟨_, run⟩
  obtain ⟨rfl, why⟩ := directiveTurn_stop stops
  refine ⟨r, run, forward, bound, continued, ?_⟩
  rcases why with past | ⟨newline, unescaped⟩
  · have := List.getElem?_eq_none_iff.1 past
    exact .inl (by omega)
  · exact .inr ⟨newline, fun escaped => unescaped ((lookBack_iff bound).2 escaped)⟩

end LookBack

section Matching

variable {text s : CodeUnits} {p q e : Nat}

theorem utf16_hash : utf16 "#" = [35] := by decide

/-- What `_hashDirectiveRe` matches at the start of a text. -/
theorem mem_runs_hashDirectiveRe {x : Nat × Regex.Captures} :
    x ∈ Regex.runs s hashDirectiveRe 0 [] ↔
      ∃ h a, Blank s 0 h ∧ s[h]? = some 35 ∧ h < a ∧ Blank s (h + 1) a ∧
        ∃ k ∈ directiveKeywords, x = (a + (utf16 k).length, []) ∧ utf16 k <+: s.drop a := by
  have hash : ∀ {i : Nat} {c : Regex.Captures} {y : Nat × Regex.Captures},
      y ∈ Regex.runs s (Pattern.text "#") i c ↔ y = (i + 1, c) ∧ s[i]? = some 35 := by
    intro i c y
    unfold Pattern.text
    rw [utf16_hash, Regex.mem_runs_lit_one]
  unfold hashDirectiveRe
  simp only [Regex.chain, Regex.mem_runs_seq, Regex.mem_runs_star_sym, Regex.mem_runs_anyOf, hash]
  constructor
  · rintro ⟨⟨h, _⟩, ⟨rfl, -, indented⟩, _, ⟨rfl, here⟩, ⟨a, _⟩, ⟨rfl, behind, blank⟩, r, member, found⟩
    obtain ⟨k, known, rfl⟩ := List.mem_map.1 member
    exact ⟨h, a, indented, here, behind, blank, k, known, Regex.mem_runs_lit.1 found⟩
  · rintro ⟨h, a, indented, here, behind, blank, k, known, found⟩
    exact ⟨(h, []), ⟨rfl, Nat.zero_le h, indented⟩, _, ⟨rfl, here⟩, (a, []), ⟨rfl, behind, blank⟩,
      _, List.mem_map_of_mem known, Regex.mem_runs_lit.2 found⟩

theorem keyword_no_newline : ∀ k ∈ directiveKeywords, 10 ∉ utf16 k := by decide

theorem blank_drop {o i j : Nat} : Blank (text.drop o) i j ↔ Blank text (o + i) (o + j) := by
  constructor
  · intro blank k above below
    obtain ⟨n, rfl⟩ := Nat.exists_eq_add_of_le (show o ≤ k by omega)
    rw [← List.getElem?_drop]
    exact blank n (by omega) (by omega)
  · intro blank k above below
    rw [List.getElem?_drop]
    exact blank (o + k) (by omega) (by omega)

/-- The rest of a directive from what the expression matched on. -/
theorem logicalEnd_drop {h a r : Nat} {k : String} (hash : (text.drop p)[h]? = some 35)
    (behind : h < a) (blank : Blank (text.drop p) (h + 1) a) (known : k ∈ directiveKeywords)
    (found : utf16 k <+: (text.drop p).drop a) (after : a + (utf16 k).length ≤ r)
    (continued : ∀ i, a + (utf16 k).length ≤ i → i < r → (text.drop p)[i]? = some 10 →
      Escaped (text.drop p) i)
    (ends : r = (text.drop p).length ∨ (text.drop p)[r]? = some 10 ∧ ¬Escaped (text.drop p) r) :
    LogicalEnd text (p + h) (p + r) := by
  have escaped : ∀ i, h < i → (Escaped (text.drop p) i ↔ Escaped text (p + i)) :=
    fun i later => escaped_drop hash later
  refine ⟨by omega, fun n above below newline => ?_, ?_⟩
  · obtain ⟨i, rfl⟩ := Nat.exists_eq_add_of_le (show p ≤ n by omega)
    rw [← List.getElem?_drop] at newline
    rcases Nat.lt_or_ge i (a + (utf16 k).length) with early | late
    · exfalso
      rcases Nat.eq_or_lt_of_le (show h ≤ i by omega) with rfl | later
      · rw [hash] at newline
        cases newline
      · rcases Nat.lt_or_ge i a with between | within
        · exact blank.ne (by decide) later between newline
        · obtain ⟨j, rfl⟩ := Nat.exists_eq_add_of_le within
          have bound : j < (utf16 k).length := by omega
          have letter := List.prefix_iff_getElem?.1 found j bound
          rw [List.getElem?_drop, newline] at letter
          apply keyword_no_newline k known
          rw [Option.some.inj letter]
          exact List.getElem_mem bound
    · rw [← escaped i (by omega)]
      exact continued i late (by omega) newline
  · have bound := (List.getElem?_eq_some_iff.1 hash).1
    rw [List.length_drop] at bound ends
    rcases ends with same | ⟨newline, stops⟩
    · exact .inl (by omega)
    · rw [List.getElem?_drop] at newline
      exact .inr ⟨newline, fun h' => stops ((escaped r (by omega)).2 h')⟩

/-- What the custom pattern looks at: the character before, the expression, then the loop. -/
theorem hashDirective_eq_some {image : CodeUnits} : hashDirective text p = some image ↔
    (p = 0 ∨ text[p - 1]? = some 10) ∧
      ∃ m r, Regex.matchAt (text.drop p) hashDirectiveRe 0 = some m ∧
        loop (directiveTurn (text.drop p)) ((text.drop p).length + 1) m.stop = some r ∧
        (text.drop p).take r = image := by
  unfold hashDirective
  by_cases other : p ≠ 0 ∧ text[p - 1]? ≠ some 10
  · rw [if_pos other]
    refine iff_of_false (fun h => by cases h) ?_
    rintro ⟨begins, -⟩
    exact begins.elim other.1 other.2
  · have begins : p = 0 ∨ text[p - 1]? = some 10 := by
      by_cases first : p = 0
      · exact .inl first
      · exact .inr (not_not.1 fun differs => other ⟨first, differs⟩)
    rw [if_neg other, and_iff_right begins]
    dsimp only
    constructor
    · intro h
      split at h
      · cases h
      · next m found =>
        split at h
        · cases h
        · next starts =>
          obtain ⟨r, run, same⟩ := Option.map_eq_some_iff.1 h
          exact ⟨m, r, (Regex.exec_index (Nat.zero_le _)).1 ⟨found, not_not.1 starts⟩, run, same⟩
    · rintro ⟨m, r, here, run, rfl⟩
      have found := (Regex.exec_index (Nat.zero_le _)).2 here
      rw [found.1]
      dsimp only
      rw [if_neg (not_not.2 found.2), run]
      rfl

/-- The custom pattern matches where a directive line starts, and up to its end. -/
theorem directiveLine_of_hashDirective {image : CodeUnits} (h : hashDirective text p = some image) :
    ∃ q, DirectiveLine text p q (p + image.length) := by
  obtain ⟨begins, m, r, here, run, rfl⟩ := hashDirective_eq_some.1 h
  obtain ⟨n, a, indented, hash, behind, blank, k, known, same, keyword⟩ :=
    mem_runs_hashDirectiveRe.1 (Regex.mem_of_matchAt here).2
  have stop : m.stop = a + (utf16 k).length := (Prod.mk.inj same).1
  have inside : m.stop ≤ (text.drop p).length :=
    Regex.stop_le_of_mem_runs (Regex.mem_of_matchAt here).2 (Nat.zero_le _)
  obtain ⟨r', run', after, within, continued, ends⟩ := exists_loop_directiveTurn inside
  rw [run] at run'
  obtain rfl := Option.some.inj run'
  rw [stop] at after continued
  rw [List.length_take_of_le within]
  refine ⟨p + n, begins, Nat.le_add_right p n, ?_, ?_, ?_, ?_⟩
  · have := blank_drop.1 indented
    rwa [Nat.add_zero] at this
  · rw [← List.getElem?_drop]
    exact hash
  · refine ⟨p + a, by omega, ?_, k, known, ?_⟩
    · have := blank_drop.1 blank
      rwa [← Nat.add_assoc] at this
    · rw [← List.drop_drop]
      exact keyword
  · exact logicalEnd_drop hash behind blank known keyword after continued ends

theorem hashDirective_of_line (line : DirectiveLine text p q e) :
    ∃ image, hashDirective text p = some image ∧ p + image.length = e := by
  obtain ⟨a, behind, blank, k, known, keyword⟩ := line.keyword
  obtain ⟨n, rfl⟩ := Nat.exists_eq_add_of_le line.le
  obtain ⟨b, rfl⟩ := Nat.exists_eq_add_of_le (show p ≤ a by omega)
  have member : (b + (utf16 k).length, []) ∈ Regex.runs (text.drop p) hashDirectiveRe 0 [] := by
    refine mem_runs_hashDirectiveRe.2 ⟨n, b, blank_drop.2 line.indented, ?_, by omega,
      blank_drop.2 blank, k, known, rfl, ?_⟩
    · rw [List.getElem?_drop]
      exact line.hash
    · rw [List.drop_drop]
      exact keyword
  obtain ⟨m, here⟩ := Option.isSome_iff_exists.1 (Regex.matchAt_isSome.2 ⟨_, member⟩)
  obtain ⟨r, run, -⟩ := exists_loop_directiveTurn
    (Regex.stop_le_of_mem_runs (Regex.mem_of_matchAt here).2 (Nat.zero_le _))
  have matched := hashDirective_eq_some.2 ⟨line.begins, m, r, here, run, rfl⟩
  obtain ⟨q', line'⟩ := directiveLine_of_hashDirective matched
  exact ⟨_, matched, line'.unique line⟩

end Matching

section Tokens

variable {text : CodeUnits} {p q e : Nat} {l : Scanner.Lexeme String}

theorem scanToken_progresses : Scanner.Progresses (scanToken text) := by
  intro o x h
  rcases scanToken_cases h with ⟨-, image, matched, same⟩ | ⟨-, stops⟩ | ⟨r, rule, -, stops⟩
  · obtain ⟨q, line⟩ := directiveLine_of_hashDirective matched
    have := line.le
    have := line.logical.after
    omega
  · exact lt_of_stopsAt stops rfl
  · exact lt_of_stopsAt stops (not_nullable_of_rule rule)

theorem mem_lexemes : l ∈ lexemes text ↔ Scanner.Visits (scanToken text) text.length l.start ∧
    l.start < text.length ∧ scanToken text l.start = some (l.name, l.stop) :=
  Scanner.mem_lexemes_iff scanToken_progresses

/-- Before it comes to the place the lexer takes a token of that name that goes on over it. -/
def RunsInto (text : CodeUnits) (name : String) (p : Nat) : Prop :=
  ∃ o < p, Scanner.Visits (scanToken text) text.length o ∧
    ∃ stop > p, scanToken text o = some (name, stop)

theorem runsInto_iff {name : String} (inside : p ≤ text.length) :
    RunsInto text name p ↔ ∃ l ∈ lexemes text, l.name = name ∧ l.start < p ∧ p < l.stop := by
  constructor
  · rintro ⟨o, before, visited, stop, after, scanned⟩
    exact ⟨⟨name, o, stop⟩, mem_lexemes.2 ⟨visited, by dsimp only; omega, scanned⟩, rfl, before, after⟩
  · rintro ⟨l, member, rfl, before, after⟩
    obtain ⟨visited, -, scanned⟩ := mem_lexemes.1 member
    exact ⟨l.start, before, visited, l.stop, after, scanned⟩

/-- Checked on the list of tokens. -/
theorem not_runsInto_of_lexemes {names : List String} (inside : p ≤ text.length)
    (none_over : ∀ l ∈ lexemes text, l.start < p → p < l.stop → l.name ∉ names) :
    ∀ name ∈ names, ¬RunsInto text name p := by
  intro name listed runs
  obtain ⟨l, member, rfl, before, after⟩ := (runsInto_iff inside).1 runs
  exact none_over l member before after listed

/-- A directive token is a directive line. -/
theorem directiveLine_of_mem (member : l ∈ lexemes text) (name : l.name = "HashDirective") :
    ∃ q, DirectiveLine text l.start q l.stop := by
  rcases scanToken_cases (mem_lexemes.1 member).2.2 with
    ⟨-, image, matched, same⟩ | ⟨other, -⟩ | ⟨r, rule, other, -⟩
  · obtain ⟨q, line⟩ := directiveLine_of_hashDirective matched
    rw [same] at line
    exact ⟨q, line⟩
  · have other : l.name = "WhiteSpace" := other
    rw [name] at other
    exact absurd other (by decide)
  · exact absurd (other.trans name) (ne_hashDirective_of_rule rule)

/-- Where the lexer comes to the start of a directive line it takes it. -/
theorem mem_lexemes_of_visits (line : DirectiveLine text p q e)
    (visited : Scanner.Visits (scanToken text) text.length p) :
    ⟨"HashDirective", p, e⟩ ∈ lexemes text := by
  obtain ⟨image, matched, same⟩ := hashDirective_of_line line
  have inside := (List.getElem?_eq_some_iff.1 line.hash).1
  have := line.le
  refine mem_lexemes.2 ⟨visited, by dsimp only; omega, ?_⟩
  have first : TokenType.matchAt text p ⟨"HashDirective", .custom hashDirective, none, false⟩ =
      some ("HashDirective", e) := by
    rw [TokenType.matchAt, TokenPattern.stopAt, matched, ← same]
    rfl
  rw [scanToken, allTokens, List.findSome?_cons, first]

/-- The lexer does not come to the start of an indented line behind another. -/
theorem not_visits_of_indented (line : DirectiveLine text p q e) (later : p ≠ 0) (indented : p < q) :
    ¬Scanner.Visits (scanToken text) text.length p := by
  intro visited
  have newline := line.begins.resolve_left later
  obtain ⟨u, here, blank⟩ := line.indented p (Nat.le_refl p) indented
  rcases visited.before scanToken_progresses with first | ⟨l, member, rfl⟩ | ⟨o, rfl, nothing⟩
  · exact later first
  · have scanned := (mem_lexemes.1 member).2.2
    have longer : l.start < l.stop := scanToken_progresses _ _ scanned
    rcases scanToken_cases scanned with ⟨name, -⟩ | ⟨-, stops⟩ | ⟨r, rule, -, stops⟩
    · obtain ⟨q', before⟩ := directiveLine_of_mem member name
      rcases before.logical.ends with past | ⟨newline', -⟩
      · have := (List.getElem?_eq_some_iff.1 here).1
        omega
      · rw [here] at newline'
        rw [Option.some.inj newline'] at blank
        cases blank
    · have solid := not_white_at_stop stops here
      rw [isIndent, Bool.or_eq_true] at blank
      rw [isWhite] at solid
      rcases blank with space | tab <;> simp_all
    · have ends := mayEnd_of_stopsAt stops longer newline
      rw [not_mayEnd_newline_of_rule rule] at ends
      cases ends
  · exact scanToken_of_white newline rfl nothing

/-- What can go on over the start of a line that starts with `#`. -/
theorem name_of_inside (member : l ∈ lexemes text) (before : l.start < p) (after : p < l.stop)
    (newline : text[p - 1]? = some 10) (hash : text[p]? = some 35) :
    l.name = "HashDirective" ∨ l.name ∈ ["BlockComment", "StringLiteral", "CharLiteral"] := by
  rcases scanToken_cases (mem_lexemes.1 member).2.2 with ⟨name, -⟩ | ⟨-, stops⟩ | ⟨r, rule, same, stops⟩
  · exact .inl name
  · have white : Regex.mayHave 35 whiteSpaceRe = true :=
      mayHave_of_stopsAt stops before.le after hash
    exact absurd white (by decide)
  · have first := mayHave_of_stopsAt stops (by omega) (by omega) newline
    have second := mayHave_of_stopsAt stops before.le after hash
    have same : r.1 = l.name := same
    rw [← same]
    exact .inr (name_of_rule_newline_hash rule first second)

/-- A directive that goes on over the start of a directive line ends where that does. -/
theorem stop_of_continued (member : l ∈ lexemes text) (name : l.name = "HashDirective")
    (before : l.start < p) (after : p < l.stop) (line : DirectiveLine text p q e) : l.stop = e := by
  obtain ⟨q', earlier⟩ := directiveLine_of_mem member name
  have newline := line.begins.resolve_left (by omega)
  have above : q' < p := by
    by_contra later
    exact earlier.indented.ne (by decide) (show l.start ≤ p - 1 by omega) (by omega) newline
  have within : q < l.stop := by
    by_contra early
    rcases earlier.logical.ends with past | ⟨newline', -⟩
    · have := (List.getElem?_eq_some_iff.1 line.hash).1
      omega
    · rcases Nat.eq_or_lt_of_le (Nat.not_lt.1 early) with same | between
      · rw [same, line.hash] at newline'
        cases newline'
      · exact line.indented.ne (by decide) after.le between newline'
  have := line.le
  exact earlier.logical.unique line.logical (by omega) within

/-- One token holds the `#` at `q` and ends at `e`, a directive, and no other is on the line
from `p` to `e`. -/
def OneDirective (text : CodeUnits) (p q e : Nat) : Prop :=
  ∃ l ∈ tokenize text, l.name = "HashDirective" ∧ l.start ≤ q ∧ l.stop = e ∧
    ∀ t ∈ tokenize text, t.start < e → p < t.stop → t = l

theorem oneDirective_of_mem (member : l ∈ lexemes text) (name : l.name = "HashDirective")
    (before : l.start ≤ p) (line : DirectiveLine text p q e) (stop : l.stop = e) :
    OneDirective text p q e := by
  have kept : l ∈ tokenize text := List.mem_filter.2 ⟨member, by rw [name]; decide +kernel⟩
  refine ⟨l, kept, name, before.trans line.le, stop, fun t other starts ends => ?_⟩
  exact Scanner.eq_of_overlap scanToken_progresses (List.mem_filter.1 other).1 member (by omega)
    (by omega)

/-- A directive token that holds the `#` of a directive line does not start within the line. -/
theorem start_le_line (line : DirectiveLine text p q e) (member : l ∈ lexemes text)
    (name : l.name = "HashDirective") (starts : l.start ≤ q) : l.start ≤ p := by
  by_contra later
  obtain ⟨q', line'⟩ := directiveLine_of_mem member name
  exact line.indented.ne (by decide) (show p ≤ l.start - 1 by omega) (by omega)
    (line'.begins.resolve_left (by omega))

theorem oneDirective_of_continued (line : DirectiveLine text p q e)
    (runs : RunsInto text "HashDirective" p) : OneDirective text p q e := by
  obtain ⟨l, member, name, before, after⟩ := (runsInto_iff line.le_length).1 runs
  exact oneDirective_of_mem member name before.le line (stop_of_continued member name before after line)

/-- The lexer comes to the start of a line that starts with the `#`, unless something with
newlines in it goes on over it. -/
theorem visits_of_flush (line : DirectiveLine text p p e)
    (outside : ∀ name ∈ ["HashDirective", "BlockComment", "StringLiteral", "CharLiteral"],
      ¬RunsInto text name p) : Scanner.Visits (scanToken text) text.length p := by
  rcases Scanner.visits_or_inside scanToken_progresses line.le_length with
    visited | ⟨l, member, before, after⟩
  · exact visited
  · exfalso
    apply outside l.name
    · rcases name_of_inside member before after (line.begins.resolve_left (by omega)) line.hash with
        name | names
      · rw [name]
        exact List.mem_cons_self
      · exact List.mem_cons_of_mem _ names
    · exact (runsInto_iff line.le_length).2 ⟨l, member, rfl, before, after⟩

/-- Outside of comments and strings a directive line is one token exactly if it is not
indented, or starts the text, or goes on from an earlier directive, and no character literal
goes on over its start. -/
theorem hash_directive_iff (line : DirectiveLine text p q e)
    (outside : ∀ name ∈ ["LineComment", "BlockComment", "StringLiteral"], ¬RunsInto text name p) :
    OneDirective text p q e ↔ (p = 0 ∨ q = p ∨ RunsInto text "HashDirective" p) ∧
      ¬RunsInto text "CharLiteral" p := by
  have inside := line.le_length
  have le := line.le
  constructor
  · rintro ⟨l, kept, name, starts, rfl, -⟩
    have member := (List.mem_filter.1 kept).1
    have after := line.logical.after
    have begins := start_le_line line member name starts
    constructor
    · rcases Nat.eq_or_lt_of_le begins with same | before
      · by_contra indented
        rw [not_or, not_or] at indented
        apply not_visits_of_indented line indented.1 (by omega)
        rw [← same]
        exact (mem_lexemes.1 member).1
      · exact .inr (.inr ((runsInto_iff inside).2 ⟨l, member, name, before, by omega⟩))
    · intro literal
      obtain ⟨l', member', name', before', after'⟩ := (runsInto_iff inside).1 literal
      have same : l' = l :=
        Scanner.eq_of_overlap scanToken_progresses member' member (by omega) (by omega)
      rw [same, name] at name'
      exact absurd name' (by decide)
  · rintro ⟨condition, noLiteral⟩
    by_cases runs : RunsInto text "HashDirective" p
    · exact oneDirective_of_continued line runs
    · have visited : Scanner.Visits (scanToken text) text.length p := by
        rcases condition with rfl | rfl | continued
        · exact .start
        · apply visits_of_flush line
          simp only [List.forall_mem_cons]
          exact ⟨runs, outside _ (by decide), outside _ (by decide), noLiteral, List.forall_mem_nil _⟩
        · exact absurd continued runs
      exact oneDirective_of_mem (mem_lexemes_of_visits line visited) rfl (Nat.le_refl p) line rfl

instance : Decidable (OneDirective text p q e) :=
  inferInstanceAs (Decidable (∃ l ∈ tokenize text, _))

theorem hash_directive_iff_continued :
    OneDirective (utf16 "a\n#if x \\ \n  y\nb") 2 2 14 := by
  have line : DirectiveLine (utf16 "a\n#if x \\ \n  y\nb") 2 2 14 :=
    ⟨.inr (by decide), Nat.le_refl 2, by decide, by decide,
      ⟨3, by decide, by decide, "if", by decide, by decide⟩, by decide +kernel⟩
  have nothing : ∀ name ∈ ["LineComment", "BlockComment", "StringLiteral", "CharLiteral"],
      ¬RunsInto (utf16 "a\n#if x \\ \n  y\nb") name 2 :=
    not_runsInto_of_lexemes (by decide) (by decide +kernel)
  refine (hash_directive_iff line fun name listed => nothing name ?_).2
    ⟨.inr (.inl rfl), nothing _ (by decide)⟩
  exact List.mem_append_left ["CharLiteral"] listed

/-- An indented directive is not one token. -/
theorem hash_directive_lost : DirectiveLine (utf16 "a\n  #define X") 2 4 13 ∧
    (∀ name ∈ ["LineComment", "BlockComment", "StringLiteral"],
      ¬RunsInto (utf16 "a\n  #define X") name 2) ∧
    ¬OneDirective (utf16 "a\n  #define X") 2 4 13 := by
  refine ⟨⟨.inr (by decide), by decide, by decide, by decide, ?_, by decide +kernel⟩,
    not_runsInto_of_lexemes (by decide) (by decide +kernel), by decide +kernel⟩
  exact ⟨5, by decide, by decide, "define", by decide, by decide⟩

end Tokens

end LibJuno.Parser
