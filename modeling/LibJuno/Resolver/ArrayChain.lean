import LibJuno.Lib.RegexSearch
import LibJuno.Resolver.FrontEnds

/-!
# Calls through a subscript

What the pattern `word[expr](accessors)->field(` takes for a call. From a word with an opening
bracket it goes on to the first closing bracket that a call hangs on, whichever bracket that
closes. So a subscript earlier on the line that is no call takes the call of a later one.
-/

namespace LibJuno.Resolver

open Indexer Regex

section Shapes

variable (text : CodeUnits)

/-- `->` or `.` from `a` to `b`. -/
def AccessOp (a b : Nat) : Prop :=
  text[a]? = some 45 ∧ text[a + 1]? = some 62 ∧ b = a + 2 ∨ text[a]? = some 46 ∧ b = a + 1

/-- A member access: an operator and a word, each after blanks. -/
def Access (i j : Nat) : Prop :=
  ∃ a b c, Run text isSpace i a ∧ AccessOp text a b ∧ Run text isSpace b c ∧ c < j ∧
    Run text isWord c j

/-- The word from `i` to `w` has an opening bracket at `b` behind it. -/
structure Head (i w b : Nat) : Prop where
  nonempty : i < w
  word : Run text isWord i w
  blanks : Run text isSpace w b
  opening : text[b]? = some 91

/-- From `p` on the word from `c` to `j` is called, with the parenthesis at `k`. -/
structure Called (p c j k : Nat) : Prop where
  arrow : ∃ a, Run text isSpace p a ∧ text[a]? = some 45 ∧ text[a + 1]? = some 62 ∧
    Run text isSpace (a + 2) c
  nonempty : c < j
  word : Run text isWord c j
  blanks : Run text isSpace j k
  paren : text[k]? = some 40

/-- A call hangs on the closing bracket at `r`: member accesses up to `p`, then the call. -/
structure Tail (r p c j k : Nat) : Prop where
  closing : text[r]? = some 93
  accesses : Relation.ReflTransGen (Access text) (r + 1) p
  called : Called text p c j k

/-- Some call hangs on the bracket. -/
def HasTail (r : Nat) : Prop := ∃ p c j k, Tail text r p c j k

end Shapes

section Parsing

variable {text : CodeUnits} {i j p p' c c' j' k k' : Nat}

/-- A word is followed by something else. -/
def WordEnds (text : CodeUnits) (j : Nat) : Prop := ∃ u, text[j]? = some u ∧ isWord u = false

theorem wordEnds_of_blanks {a : Nat} {u : UInt16} (blanks : Run text isSpace i a)
    (here : text[a]? = some u) (other : isWord u = false) : WordEnds text i := by
  rcases Nat.eq_or_lt_of_le blanks.le with same | longer
  · rw [same]
    exact ⟨u, here, other⟩
  · obtain ⟨v, first, blank⟩ := blanks.inside i (Nat.le_refl i) longer
    exact ⟨v, first, not_word_of_space blank⟩

theorem not_space_of_word {u : UInt16} (word : isWord u = true) : isSpace u = false := by
  rw [Bool.eq_false_iff]
  intro blank
  rw [not_word_of_space blank] at word
  cases word

/-- The blanks in front of something else. -/
theorem blanks_unique {a a' : Nat} {u u' : UInt16} (blanks : Run text isSpace i a)
    (here : text[a]? = some u) (other : isSpace u = false) (blanks' : Run text isSpace i a')
    (here' : text[a']? = some u') (other' : isSpace u' = false) : a = a' :=
  (blanks.span here other).unique (blanks'.span here' other')

theorem word_start {c j : Nat} (longer : c < j) (word : Run text isWord c j) :
    ∃ u, text[c]? = some u ∧ isSpace u = false := by
  obtain ⟨u, here, inWord⟩ := word.inside c (Nat.le_refl c) longer
  exact ⟨u, here, not_space_of_word inWord⟩

theorem word_unique {i j j' : Nat} (word : Run text isWord i j) (ends : WordEnds text j)
    (word' : Run text isWord i j') (ends' : WordEnds text j') : j = j' := by
  obtain ⟨u, here, other⟩ := ends
  obtain ⟨u', here', other'⟩ := ends'
  exact (word.span here other).unique (word'.span here' other')

theorem AccessOp.start {a b : Nat} (op : AccessOp text a b) :
    ∃ u, text[a]? = some u ∧ (u = 45 ∨ u = 46) := by
  rcases op with ⟨dash, -, -⟩ | ⟨dot, -⟩
  · exact ⟨45, dash, .inl rfl⟩
  · exact ⟨46, dot, .inr rfl⟩

theorem op_not_space {u : UInt16} (op : u = 45 ∨ u = 46) : isSpace u = false := by
  rcases op with rfl | rfl <;> decide

theorem op_not_word {u : UInt16} (op : u = 45 ∨ u = 46) : isWord u = false := by
  rcases op with rfl | rfl <;> decide

theorem AccessOp.unique {a b b' : Nat} (op : AccessOp text a b) (op' : AccessOp text a b') :
    b = b' := by
  rcases op with ⟨dash, -, rfl⟩ | ⟨dot, rfl⟩
  · rcases op' with ⟨-, -, rfl⟩ | ⟨dot', rfl⟩
    · rfl
    · rw [dash] at dot'
      cases dot'
  · rcases op' with ⟨dash', -, rfl⟩ | ⟨-, rfl⟩
    · rw [dot] at dash'
      cases dash'
    · rfl

/-- A word in front of an access is over. -/
theorem Access.wordEnds (access : Access text i j) : WordEnds text i := by
  obtain ⟨a, b, c, blanks, op, -⟩ := access
  obtain ⟨u, here, operator⟩ := op.start
  exact wordEnds_of_blanks blanks here (op_not_word operator)

theorem Access.unique (access : Access text i j) (ends : WordEnds text j) (access' : Access text i j')
    (ends' : WordEnds text j') : j = j' := by
  obtain ⟨a, b, c, blanks, op, between, longer, word⟩ := access
  obtain ⟨a', b', c', blanks', op', between', longer', word'⟩ := access'
  obtain ⟨u, here, operator⟩ := op.start
  obtain ⟨u', here', operator'⟩ := op'.start
  obtain rfl := blanks_unique blanks here (op_not_space operator) blanks' here' (op_not_space operator')
  obtain rfl := op.unique op'
  obtain ⟨v, first, solid⟩ := word_start longer word
  obtain ⟨v', first', solid'⟩ := word_start longer' word'
  obtain rfl := blanks_unique between first solid between' first' solid'
  exact word_unique word ends word' ends'

/-- What follows is an access or the parenthesis of a call. -/
theorem Access.not_paren (access : Access text i j) (blanks : Run text isSpace i k)
    (paren : text[k]? = some 40) : False := by
  obtain ⟨a, b, c, blanks', op, -⟩ := access
  obtain ⟨u, here, operator⟩ := op.start
  obtain rfl := blanks_unique blanks paren (by decide) blanks' here (op_not_space operator)
  rw [paren] at here
  rw [← Option.some.inj here] at operator
  exact absurd operator (by decide)

/-- A call is an access, too. -/
theorem Called.access (called : Called text p c j k) : Access text p j := by
  obtain ⟨a, blanks, dash, angle, between⟩ := called.arrow
  exact ⟨a, a + 2, c, blanks, .inl ⟨dash, angle, rfl⟩, between, called.nonempty, called.word⟩

theorem Called.wordEnds (called : Called text p c j k) : WordEnds text j :=
  wordEnds_of_blanks called.blanks called.paren (by decide)

theorem wordEnds_of_accesses {q : Nat} (accesses : Relation.ReflTransGen (Access text) q p)
    (called : Called text p c j k) : WordEnds text q := by
  rcases Relation.ReflTransGen.cases_head accesses with rfl | ⟨q', first, -⟩
  · exact called.access.wordEnds
  · exact first.wordEnds

/-- At the end of the accesses nothing but the call follows. -/
theorem Called.last {q : Nat} (called : Called text p c j k)
    (accesses : Relation.ReflTransGen (Access text) p q) (called' : Called text q c' j' k') : p = q := by
  rcases Relation.ReflTransGen.cases_head accesses with same | ⟨i, first, rest⟩
  · exact same
  · exfalso
    obtain rfl := called.access.unique called.wordEnds first (wordEnds_of_accesses rest called')
    rcases Relation.ReflTransGen.cases_head rest with rfl | ⟨i, second, -⟩
    · exact called'.access.not_paren called.blanks called.paren
    · exact second.not_paren called.blanks called.paren

theorem Called.unique (called : Called text p c j k) (called' : Called text p c' j' k') :
    c = c' ∧ j = j' ∧ k = k' := by
  obtain rfl := called.access.unique called.wordEnds called'.access called'.wordEnds
  obtain rfl := blanks_unique called.blanks called.paren (by decide) called'.blanks called'.paren (by decide)
  obtain ⟨a, blanks, dash, -, between⟩ := called.arrow
  obtain ⟨a', blanks', dash', -, between'⟩ := called'.arrow
  obtain rfl := blanks_unique blanks dash (by decide) blanks' dash' (by decide)
  obtain ⟨v, first, solid⟩ := word_start called.nonempty called.word
  obtain ⟨v', first', solid'⟩ := word_start called'.nonempty called'.word
  exact ⟨blanks_unique between first solid between' first' solid', rfl, rfl⟩

/-- From a place on there is one way to read accesses and a call. -/
theorem accesses_unique {q : Nat} (accesses : Relation.ReflTransGen (Access text) q p)
    (called : Called text p c j k) (accesses' : Relation.ReflTransGen (Access text) q p')
    (called' : Called text p' c' j' k') : p = p' := by
  induction accesses using Relation.ReflTransGen.head_induction_on with
  | refl => exact called.last accesses' called'
  | head first rest ih =>
    rcases Relation.ReflTransGen.cases_head accesses' with rfl | ⟨i, first', rest'⟩
    · exact (called'.last (Relation.ReflTransGen.head first rest) called).symm
    · obtain rfl := first.unique (wordEnds_of_accesses rest called) first'
        (wordEnds_of_accesses rest' called')
      exact ih rest'

theorem Tail.unique {r : Nat} (tail : Tail text r p c j k) (tail' : Tail text r p' c' j' k') :
    p = p' ∧ c = c' ∧ j = j' ∧ k = k' := by
  obtain rfl := accesses_unique tail.accesses tail.called tail'.accesses tail'.called
  exact ⟨rfl, tail.called.unique tail'.called⟩

theorem Head.unique {w w' b b' : Nat} (head : Head text i w b) (head' : Head text i w' b') :
    w = w' ∧ b = b' := by
  obtain rfl := word_unique head.word (wordEnds_of_blanks head.blanks head.opening (by decide))
    head'.word (wordEnds_of_blanks head'.blanks head'.opening (by decide))
  exact ⟨rfl, blanks_unique head.blanks head.opening (by decide) head'.blanks head'.opening (by decide)⟩

end Parsing

section Matching

variable {text : CodeUnits} {i p c j k r : Nat} {cs : Captures} {x : Nat × Captures}

/-- `\]((?:\s*(?:->|\.)\s*\w+)*)\s*->\s*(\w+)\s*\(` -/
def tailRe : Regex UInt16 := .seq (Pattern.text "]") (.seq accessors calledField)

theorem arrayRe_eq : arrayRe = .seq (.group 1 Pattern.word) (.seq Pattern.spaces
    (.seq (Pattern.text "[") (.seq (.star false (.sym isNotNewline)) tailRe))) := rfl

theorem mem_runs_arrow {y : Nat × Captures} : y ∈ runs text (Pattern.text "->") i cs ↔
    y = (i + 2, cs) ∧ text[i]? = some 45 ∧ text[i + 1]? = some 62 :=
  mem_runs_lit_two

theorem mem_runs_accessOp {y : Nat × Captures} :
    y ∈ runs text accessOp i cs ↔ y.2 = cs ∧ AccessOp text i y.1 := by
  have dot : y ∈ runs text (Pattern.text ".") i cs ↔ y = (i + 1, cs) ∧ text[i]? = some 46 :=
    mem_runs_lit_one
  rw [accessOp, mem_runs_alt, mem_runs_arrow, dot]
  constructor
  · rintro (⟨rfl, dash, angle⟩ | ⟨rfl, here⟩)
    · exact ⟨rfl, .inl ⟨dash, angle, rfl⟩⟩
    · exact ⟨rfl, .inr ⟨here, rfl⟩⟩
  · rintro ⟨rfl, ⟨dash, angle, same⟩ | ⟨here, same⟩⟩
    · exact .inl ⟨Prod.ext same rfl, dash, angle⟩
    · exact .inr ⟨Prod.ext same rfl, here⟩

theorem Access.forward {i j : Nat} (access : Access text i j) : i < j ∧ j ≤ text.length := by
  obtain ⟨a, b, c, blanks, op, between, longer, word⟩ := access
  obtain ⟨u, here, -⟩ := word.inside (j - 1) (by omega) (by omega)
  have bound := (List.getElem?_eq_some_iff.1 here).1
  have := blanks.le
  have := between.le
  rcases op with ⟨-, -, rfl⟩ | ⟨-, rfl⟩ <;> omega

theorem mem_runs_accessors : x ∈ runs text accessors i cs ↔
    ∃ p, Relation.ReflTransGen (Access text) i p ∧ x = (p, (2, i, p) :: cs) := by
  have round : ∀ i cs y, y ∈ runs text (.chain [Pattern.spaces,
      accessOp, Pattern.spaces, Pattern.word]) i cs ↔
      y.2 = cs ∧ Access text i y.1 := by
    intro i cs y
    unfold Pattern.spaces Pattern.word
    simp only [Regex.chain, mem_runs_seq, mem_runs_star_sym, mem_runs_accessOp, mem_runs_plus_sym]
    constructor
    · rintro ⟨⟨a, _⟩, ⟨rfl, blanks⟩, ⟨b, _⟩, ⟨rfl, op⟩, ⟨c, _⟩, ⟨rfl, between⟩, rfl, longer, word⟩
      exact ⟨rfl, a, b, c, blanks, op, between, longer, word⟩
    · rintro ⟨rfl, a, b, c, blanks, op, between, longer, word⟩
      exact ⟨(a, _), ⟨rfl, blanks⟩, (b, _), ⟨rfl, op⟩, (c, _), ⟨rfl, between⟩, rfl, longer, word⟩
  unfold accessors
  rw [mem_runs_group]
  simp only [mem_runs_star (fun i j => Access.forward) round]
  constructor
  · rintro ⟨⟨p, _⟩, ⟨rfl, accesses⟩, rfl⟩
    exact ⟨p, accesses, rfl⟩
  · rintro ⟨p, accesses, rfl⟩
    exact ⟨(p, cs), ⟨rfl, accesses⟩, rfl⟩

theorem mem_runs_calledField : x ∈ runs text calledField i cs ↔
    ∃ c j k, Called text i c j k ∧ x = (k + 1, (3, c, j) :: cs) := by
  have paren : ∀ {i : Nat} {cs : Captures} {y : Nat × Captures},
      y ∈ runs text (Pattern.text "(") i cs ↔ y = (i + 1, cs) ∧ text[i]? = some 40 := mem_runs_lit_one
  unfold calledField Pattern.spaces Pattern.word
  simp only [Regex.chain, mem_runs_seq, mem_runs_star_sym, mem_runs_arrow, mem_runs_group,
    mem_runs_plus_sym, paren]
  constructor
  · rintro ⟨⟨a, _⟩, ⟨rfl, blanks⟩, _, ⟨rfl, dash, angle⟩, ⟨c, _⟩, ⟨rfl, between⟩, _,
      ⟨⟨j, _⟩, ⟨rfl, longer, word⟩, rfl⟩, ⟨k, _⟩, ⟨rfl, blanks'⟩, rfl, here⟩
    exact ⟨c, j, k, ⟨⟨a, blanks, dash, angle, between⟩, longer, word, blanks', here⟩, rfl⟩
  · rintro ⟨c, j, k, ⟨⟨a, blanks, dash, angle, between⟩, longer, word, blanks', here⟩, rfl⟩
    exact ⟨(a, cs), ⟨rfl, blanks⟩, _, ⟨rfl, dash, angle⟩, (c, cs), ⟨rfl, between⟩, _,
      ⟨(j, cs), ⟨rfl, longer, word⟩, rfl⟩, (k, _), ⟨rfl, blanks'⟩, rfl, here⟩

theorem mem_runs_tailRe : x ∈ runs text tailRe r cs ↔
    ∃ p c j k, Tail text r p c j k ∧ x = (k + 1, (3, c, j) :: (2, r + 1, p) :: cs) := by
  have bracket : ∀ {y : Nat × Captures},
      y ∈ runs text (Pattern.text "]") r cs ↔ y = (r + 1, cs) ∧ text[r]? = some 93 := mem_runs_lit_one
  unfold tailRe
  simp only [mem_runs_seq, mem_runs_accessors, mem_runs_calledField, bracket]
  constructor
  · rintro ⟨_, ⟨rfl, closing⟩, _, ⟨p, accesses, rfl⟩, c, j, k, called, rfl⟩
    exact ⟨p, c, j, k, ⟨closing, accesses, called⟩, rfl⟩
  · rintro ⟨p, c, j, k, ⟨closing, accesses, called⟩, rfl⟩
    exact ⟨_, ⟨rfl, closing⟩, _, ⟨p, accesses, rfl⟩, c, j, k, called, rfl⟩

/-- The tail on a bracket, if there is one, is what the expression takes there. -/
theorem head_runs_tailRe (tail : Tail text r p c j k) (cs : Captures) :
    (runs text tailRe r cs).head? = some (k + 1, (3, c, j) :: (2, r + 1, p) :: cs) := by
  have member : (k + 1, (3, c, j) :: (2, r + 1, p) :: cs) ∈ runs text tailRe r cs :=
    mem_runs_tailRe.2 ⟨p, c, j, k, tail, rfl⟩
  cases first : (runs text tailRe r cs).head? with
  | none =>
    rw [List.head?_eq_none_iff] at first
    rw [first] at member
    cases member
  | some y =>
    obtain ⟨p', c', j', k', tail', rfl⟩ := mem_runs_tailRe.1 (List.mem_of_head? first)
    obtain ⟨rfl, rfl, rfl, rfl⟩ := tail.unique tail'
    rfl

theorem runs_tailRe_stuck (nothing : ¬HasTail text r) (cs : Captures) : runs text tailRe r cs = [] := by
  rw [List.eq_nil_iff_forall_not_mem]
  intro y member
  obtain ⟨p, c, j, k, tail, -⟩ := mem_runs_tailRe.1 member
  exact nothing ⟨p, c, j, k, tail⟩

/-- The match of a call with these parts. -/
def callMatch (i w r p c j k : Nat) : Match := ⟨i, k + 1, [(3, c, j), (2, r + 1, p), (1, i, w)]⟩

/-- The first bracket behind `b` that a call hangs on is at `r`, on the same line. -/
structure FirstTail (text : CodeUnits) (b r : Nat) : Prop where
  lt : b < r
  clear : Run text isNotNewline (b + 1) r
  first : ∀ n, b < n → n < r → ¬HasTail text n

/-- The lazy wildcard stops at that bracket. -/
theorem head_runs_lazy {b : Nat} (tail : Tail text r p c j k) (first : FirstTail text b r)
    (cs : Captures) : (runs text (.seq (.star false (.sym isNotNewline)) tailRe) (b + 1) cs).head? =
      some (k + 1, (3, c, j) :: (2, r + 1, p) :: cs) := by
  obtain ⟨e, span⟩ := exists_span text isNotNewline (b + 1)
  have within : r ≤ e := first.clear.le_of_span span fun u plain => plain
  have above := first.lt
  rw [runs, runs_star_lazy span, List.head?_flatMap, List.findSome?_map, findSome?_range']
  refine ⟨r, above, by omega, head_runs_tailRe tail cs, fun n after before => ?_⟩
  dsimp only [Function.comp_apply]
  rw [runs_tailRe_stuck (first.first n after before)]
  rfl

/-- From a head the pattern matches up to the first tail. -/
theorem matchAt_of_head {w b : Nat} (head : Head text i w b) (tail : Tail text r p c j k)
    (first : FirstTail text b r) : matchAt text arrayRe i = some (callMatch i w r p c j k) := by
  have word : (w, [(1, i, w)]) ∈ runs text (.group 1 Pattern.word) i [] :=
    mem_runs_group.2 ⟨(w, []), mem_runs_plus_sym.2 ⟨rfl, head.nonempty, head.word⟩, rfl⟩
  have blanks : (b, [(1, i, w)]) ∈ runs text Pattern.spaces w [(1, i, w)] :=
    mem_runs_star_sym.2 ⟨rfl, head.blanks⟩
  have bracket : Pattern.text "[" = lit [91] := rfl
  have whole : (runs text arrayRe i []).head? =
      some (k + 1, [(3, c, j), (2, r + 1, p), (1, i, w)]) := by
    rw [arrayRe_eq, runs, List.head?_flatMap, findSome?_eq_of_only word]
    · dsimp only
      rw [runs, List.head?_flatMap, findSome?_eq_of_only blanks]
      · dsimp only
        rw [bracket, runs_seq_cons head.opening, runs_seq_nil]
        exact head_runs_lazy tail first [(1, i, w)]
      · intro y listed other
        obtain ⟨same, run⟩ := mem_runs_star_sym.1 listed
        rw [bracket, runs_seq_stuck, List.head?_nil]
        intro here
        exact other (Prod.ext (blanks_unique run here (by decide) head.blanks head.opening (by decide))
          same)
    · intro y listed other
      obtain ⟨⟨w', _⟩, inner, rfl⟩ := mem_runs_group.1 listed
      obtain ⟨rfl, longer, run⟩ := mem_runs_plus_sym.1 inner
      rw [List.head?_eq_none_iff, List.eq_nil_iff_forall_not_mem]
      intro z member
      obtain ⟨⟨b', _⟩, spaces, rest⟩ := mem_runs_seq.1 member
      obtain ⟨y, opens, -⟩ := mem_runs_seq.1 rest
      rw [bracket] at opens
      have head' : Head text i w' b' :=
        ⟨longer, run, (mem_runs_star_sym.1 spaces).2, (mem_runs_lit_one.1 opens).2⟩
      obtain ⟨rfl, -⟩ := head.unique head'
      exact other rfl
  rw [matchAt, whole]
  rfl

theorem exists_firstTail {b : Nat} (below : b < r) (clear : Run text isNotNewline (b + 1) r)
    (tail : HasTail text r) : ∃ r', FirstTail text b r' ∧ r' ≤ r ∧ HasTail text r' := by
  induction r using Nat.strongRecOn with
  | ind r ih =>
    by_cases earlier : ∃ n, b < n ∧ n < r ∧ HasTail text n
    · obtain ⟨n, above, before, tail'⟩ := earlier
      obtain ⟨r', first, le, tail''⟩ := ih n before above
        ⟨above, fun m from_start upto => clear.inside m from_start (by omega)⟩ tail'
      exact ⟨r', first, by omega, tail''⟩
    · exact ⟨r, ⟨below, clear, fun n above before tail' => earlier ⟨n, above, before, tail'⟩⟩,
        Nat.le_refl r, tail⟩

/-- A match of the pattern starts with a head and goes up to the first tail. -/
theorem exists_of_matchAt {m : Match} (found : matchAt text arrayRe i = some m) :
    ∃ w b r p c j k, Head text i w b ∧ FirstTail text b r ∧ Tail text r p c j k ∧
      m = callMatch i w r p c j k := by
  have member := (mem_of_matchAt found).2
  have bracket : Pattern.text "[" = lit [91] := rfl
  rw [arrayRe_eq, mem_runs_seq] at member
  obtain ⟨_, word, member⟩ := member
  obtain ⟨⟨w, _⟩, inner, rfl⟩ := mem_runs_group.1 word
  obtain ⟨rfl, longer, run⟩ := mem_runs_plus_sym.1 inner
  obtain ⟨⟨b, _⟩, spaces, member⟩ := mem_runs_seq.1 member
  obtain ⟨_, opens, member⟩ := mem_runs_seq.1 member
  rw [bracket] at opens
  obtain ⟨rfl, opening⟩ := mem_runs_lit_one.1 opens
  obtain ⟨⟨n, _⟩, lazily, member⟩ := mem_runs_seq.1 member
  obtain ⟨p, c, j, k, tail, -⟩ := mem_runs_tailRe.1 member
  have clear := (mem_runs_star_sym.1 lazily).2
  have head : Head text i w b := ⟨longer, run, (mem_runs_star_sym.1 spaces).2, opening⟩
  obtain ⟨r, first, -, p', c', j', k', tail'⟩ := exists_firstTail clear.le clear ⟨p, c, j, k, tail⟩
  have own := matchAt_of_head head tail' first
  rw [found] at own
  exact ⟨w, b, r, p', c', j', k', head, first, tail', Option.some.inj own⟩

theorem Tail.member (tail : Tail text r p c j k) :
    (k + 1, [(3, c, j), (2, r + 1, p)]) ∈ runs text (.seq accessors calledField) (r + 1) [] :=
  mem_runs_seq.2 ⟨_, mem_runs_accessors.2 ⟨p, tail.accesses, rfl⟩,
    mem_runs_calledField.2 ⟨c, j, k, tail.called, rfl⟩⟩

theorem Tail.lt (tail : Tail text r p c j k) : r < k := by
  have forward := le_of_mem_runs tail.member
  apply Nat.lt_of_le_of_ne (Nat.le_of_succ_le_succ forward)
  rintro rfl
  have paren := tail.called.paren
  rw [tail.closing] at paren
  cases paren

/-- No bracket is behind the first in a tail. -/
theorem Tail.no_opening (tail : Tail text r p c j k) {n : Nat} (above : r < n) (upto : n ≤ k) :
    text[n]? ≠ some 91 := by
  intro here
  have possible := mayHave_of_mem_runs tail.member above (Nat.lt_succ_of_le upto) here
  exact absurd possible (by decide)

theorem Head.lt {w b : Nat} (head : Head text i w b) : i < b :=
  Nat.lt_of_lt_of_le head.nonempty head.blanks.le

/-- Up to the bracket there is a word and blanks. -/
theorem Head.between {w b n : Nat} (head : Head text i w b) (above : i ≤ n) (below : n < b) :
    ∃ u, text[n]? = some u ∧ (isWord u = true ∨ isSpace u = true) := by
  rcases Nat.lt_or_ge n w with early | late
  · obtain ⟨u, here, word⟩ := head.word.inside n above early
    exact ⟨u, here, .inl word⟩
  · obtain ⟨u, here, blank⟩ := head.blanks.inside n late below
    exact ⟨u, here, .inr blank⟩

theorem Head.not_at {w b n : Nat} {u : UInt16} (head : Head text i w b) (here : text[n]? = some u)
    (other : isWord u = false ∧ isSpace u = false) (above : i ≤ n) : b ≤ n := by
  by_contra below
  obtain ⟨v, there, kind⟩ := head.between above (Nat.lt_of_not_le below)
  rw [here] at there
  rw [← Option.some.inj there, other.1, other.2] at kind
  simp at kind

/-- A head is in front of a tail or behind it. -/
theorem Head.apart {w b : Nat} (head : Head text i w b) (tail : Tail text r p c j k) :
    b < r ∨ k < i := by
  by_contra inside
  rw [not_or] at inside
  have before : r < i := by
    by_contra above
    have := head.not_at tail.closing (by decide) (Nat.le_of_not_lt above)
    obtain rfl : b = r := by omega
    have opening := head.opening
    rw [tail.closing] at opening
    cases opening
  have beyond : b ≤ k := head.not_at tail.called.paren (by decide) (by omega)
  have above := head.lt
  exact tail.no_opening (by omega) beyond head.opening

end Matching

section Calls

/-- `h[e](accessors)->f(` on a line, with any text around it: where its parts start and end. The
head is a whole word. Whether brackets are balanced in `e` does not matter below, nor does what
is in front of `h`. -/
structure ArrayCall (text : CodeUnits) where
  start : Nat
  headEnd : Nat
  opening : Nat
  closing : Nat
  accessorsEnd : Nat
  field : Nat
  fieldEnd : Nat
  paren : Nat
  begins : start = 0 ∨ ∃ u, text[start - 1]? = some u ∧ isWord u = false
  head : Head text start headEnd opening
  lt : opening < closing
  tail : Tail text closing accessorsEnd field fieldEnd paren

def slice (text : CodeUnits) (i j : Nat) : CodeUnits := (text.drop i).take (j - i)

namespace ArrayCall

variable {text : CodeUnits} (call : ArrayCall text)

/-- `h` -/
def primary : String := ofUnits (slice text call.start call.headEnd)

def chainStr : CodeUnits := slice text (call.closing + 1) call.accessorsEnd

/-- `f` -/
def fieldName : String := ofUnits (slice text call.field call.fieldEnd)

/-- The match of the pattern that takes the call. -/
def toMatch : Match :=
  callMatch call.start call.headEnd call.closing call.accessorsEnd call.field call.fieldEnd call.paren

/-- The call as far as its resolution goes. -/
def toCall : Call :=
  .ofChain call.primary (parseIntermediates call.chainStr).getLast? call.fieldName

/-- On every index the result at the column is that of the chain. -/
def Resolves (column : Nat) : Prop :=
  ∀ index file line functionName, resolve index file line column text functionName =
    resolveChain index file (functionName.or (index.findEnclosingFunction file line)) call.primary
      call.chainStr call.fieldName

/-- It is, and the pattern has taken the call itself for it. -/
def ThroughOwnHead (column : Nat) : Prop :=
  matchUnder arrayRe text column = some call.toMatch ∧ call.Resolves column

/-- Something else on the line is taken at the column that is spelled like the call: the same
head, last member and field. -/
def Disguised (column : Nat) : Prop :=
  (∃ m, matchUnder arrayRe text column = some m ∧ m ≠ call.toMatch ∧ chainCall text m = call.toCall) ∨
    (matchUnder arrayRe text column = none ∧
      ∃ m, matchUnder generalRe text column = some m ∧ chainCall text m = call.toCall)

/-- A chain is resolved by its first word, its last member and its field. -/
theorem resolveChain_congr (index : NavigationIndex) (file : String) (enclosingFunc : Option String)
    {primary fieldName : String} {chainStr chainStr' : CodeUnits}
    (last : (parseIntermediates chainStr).getLast? = (parseIntermediates chainStr').getLast?) :
    resolveChain index file enclosingFunc primary chainStr fieldName =
      resolveChain index file enclosingFunc primary chainStr' fieldName := by
  unfold resolveChain
  rw [last]

/-- On every index it is resolved as this call exactly if the call under the cursor reads so. -/
theorem resolves_iff {column : Nat} :
    call.Resolves column ↔ callAt text column = some call.toCall := by
  constructor
  · intro resolves
    apply same_of_sites
    intro index file line
    have found := resolve_answers index file line column text none
    have own := resolveChain_answers index file (index.findEnclosingFunction file line) call.primary
      call.chainStr call.fieldName
    rw [resolves index file line none, Option.none_or] at found
    exact found.2.symm.trans own.2
  · intro reads index file line functionName
    unfold callAt at reads
    unfold resolve
    dsimp only
    cases macros : matchUnder macroRe text column with
    | some m =>
      rw [macros] at reads
      cases reads
    | none =>
      rw [macros] at reads
      have chain : ∀ m, chainCall text m = call.toCall →
          resolveChain index file (functionName.or (index.findEnclosingFunction file line))
            (groupText text m 1) (groupUnits text m 2) (groupText text m 3) =
          resolveChain index file (functionName.or (index.findEnclosingFunction file line))
            call.primary call.chainStr call.fieldName := by
        intro m same
        obtain ⟨primary, last, field⟩ := Call.ofChain.inj same
        rw [primary, field]
        exact resolveChain_congr index file _ last
      cases arrays : matchUnder arrayRe text column with
      | some m =>
        rw [arrays] at reads
        exact chain m (Option.some.inj reads)
      | none =>
        rw [arrays] at reads
        obtain ⟨m, general, same⟩ := Option.map_eq_some_iff.1 reads
        dsimp only
        rw [general]
        exact chain m same

/-- No line terminator is in `e` and no call hangs on a bracket in it. Every word with an opening
bracket in front of the call has a call on a closing bracket behind that is over before `h`, or
there is a line terminator between its bracket and that of `h`. -/
structure Undisturbed : Prop where
  clear : Run text isNotNewline (call.opening + 1) call.closing
  inner : ∀ n, call.opening < n → n < call.closing → ¬HasTail text n
  earlier : ∀ i w b, Head text i w b → b < call.start →
    (∃ r p c j k, b < r ∧ Tail text r p c j k ∧ k < call.start) ∨
      ∃ n u, b < n ∧ n < call.opening ∧ text[n]? = some u ∧ isNotNewline u = false

theorem nonempty_arrayRe : nullable arrayRe = false := rfl

theorem matchAt_toMatch_iff : matchAt text arrayRe call.start = some call.toMatch ↔
    FirstTail text call.opening call.closing := by
  constructor
  · intro found
    obtain ⟨w, b, r, p, c, j, k, head, first, tail, same⟩ := exists_of_matchAt found
    obtain ⟨rfl, rfl⟩ := call.head.unique head
    have parts := congrArg Match.captures same
    simp only [toMatch, callMatch, List.cons.injEq, Prod.mk.injEq] at parts
    obtain rfl : call.closing = r := by omega
    exact first
  · exact matchAt_of_head call.head call.tail

theorem start_le_length : call.start ≤ text.length := by
  have := (List.getElem?_eq_some_iff.1 call.head.opening).1
  have := call.head.lt
  omega

/-- A head that starts before the call has its bracket before it. -/
theorem opening_lt_start {i w b : Nat} (head : Head text i w b) (before : i < call.start) :
    b < call.start := by
  obtain ⟨u, here, other⟩ := call.begins.resolve_left (by omega)
  obtain ⟨v, first, word⟩ := call.head.word.inside call.start (Nat.le_refl _) call.head.nonempty
  have ends : w < call.start := by
    by_contra within
    obtain ⟨u', here', word'⟩ := head.word.inside (call.start - 1) (by omega) (by omega)
    rw [here] at here'
    rw [Option.some.inj here', word'] at other
    cases other
  by_contra beyond
  rcases Nat.eq_or_lt_of_le (Nat.le_of_not_lt beyond) with same | later
  · have opening := head.opening
    rw [← same, first] at opening
    rw [Option.some.inj opening] at word
    exact absurd word (by decide)
  · obtain ⟨v', first', blank⟩ := head.blanks.inside call.start ends.le later
    rw [first] at first'
    rw [Option.some.inj first', not_word_of_space blank] at word
    cases word

/-- A match of the search has a head, and goes up to the first tail behind its bracket. -/
theorem parts_of_mem {m : Match} (member : m ∈ execAll text arrayRe) :
    ∃ w b r p c j k, Head text m.index w b ∧ FirstTail text b r ∧ Tail text r p c j k ∧
      m.stop = k + 1 := by
  obtain ⟨w, b, r, p, c, j, k, head, first, tail, same⟩ :=
    exists_of_matchAt (matchAt_of_mem nonempty_arrayRe member)
  exact ⟨w, b, r, p, c, j, k, head, first, tail, congrArg Match.stop same⟩

/-- No match goes on over the start of the call when nothing disturbs it. -/
theorem mem_of_undisturbed (calm : call.Undisturbed) : call.toMatch ∈ execAll text arrayRe := by
  have found : matchAt text arrayRe call.toMatch.index = some call.toMatch :=
    call.matchAt_toMatch_iff.2 ⟨call.lt, calm.clear, calm.inner⟩
  have ahead := call.head.lt
  rcases mem_or_over nonempty_arrayRe found call.start_le_length with
    member | ⟨m, member, before, passes⟩
  · exact member
  · exfalso
    obtain ⟨w, b, r, p, c, j, k, head, first, tail, stop⟩ := parts_of_mem member
    have starts : m.index < call.start := before
    have goes_on : call.start < m.stop := passes
    have behind : call.opening < r := (call.head.apart tail).resolve_right (by omega)
    rcases calm.earlier m.index w b head (call.opening_lt_start head starts) with
      ⟨r', p', c', j', k', above, tail', done⟩ | ⟨n, u, above, below, here, terminator⟩
    · have := tail'.lt
      exact first.first r' above (by omega) ⟨p', c', j', k', tail'⟩
    · obtain ⟨v, there, plain⟩ := first.clear.inside n above (by omega)
      rw [here] at there
      rw [Option.some.inj there, plain] at terminator
      cases terminator

/-- Where no line terminator is in front of the bracket of the call none is up to its tail. -/
theorem clear_behind {b : Nat} (own : FirstTail text call.opening call.closing)
    (before : b < call.start) (plain : ∀ n u, b < n → n < call.opening → text[n]? = some u →
      isNotNewline u = true) : Run text isNotNewline (b + 1) call.closing := by
  have ahead := call.head.lt
  have lt := call.lt
  refine ⟨by omega, fun n above below => ?_⟩
  rcases Nat.lt_trichotomy n call.opening with between | rfl | within
  · have inside : n < text.length := by
      have := (List.getElem?_eq_some_iff.1 call.head.opening).1
      omega
    have here : text[n]? = some text[n] := List.getElem?_eq_getElem inside
    exact ⟨text[n], here, plain n text[n] above between here⟩
  · exact ⟨91, call.head.opening, by decide⟩
  · exact own.clear.inside n within below

/-- Where the call is taken an earlier match is over before it. -/
theorem stop_le_start {m : Match} (member : call.toMatch ∈ execAll text arrayRe)
    (taken : m ∈ execAll text arrayRe) (starts : m.index < call.start) : m.stop ≤ call.start := by
  have ahead := call.head.lt
  have lt := call.lt
  have after := call.tail.lt
  rcases apart_of_mem nonempty_arrayRe taken member with same | ends | ends
  · have : m.index = call.start := congrArg Match.index same
    omega
  · exact ends
  · have : call.paren + 1 ≤ m.index := ends
    omega

/-- A head in front of the call that nothing ends is taken together with the call. -/
theorem undisturbed_of_mem (member : call.toMatch ∈ execAll text arrayRe) : call.Undisturbed := by
  have own := call.matchAt_toMatch_iff.1 (matchAt_of_mem nonempty_arrayRe member)
  refine ⟨own.clear, own.first, fun i w b head before => ?_⟩
  by_contra nothing
  rw [not_or] at nothing
  have early := head.lt
  have ahead := call.head.lt
  have lt := call.lt
  have clear : Run text isNotNewline (b + 1) call.closing := by
    refine call.clear_behind own before fun n u above below here => ?_
    by_contra terminator
    exact nothing.2 ⟨n, u, above, below, here, Bool.eq_false_iff.2 terminator⟩
  obtain ⟨r, first, -, p, c, j, k, tail⟩ :=
    exists_firstTail (by omega) clear ⟨_, _, _, _, call.tail⟩
  have late : call.start < k + 1 := by
    by_contra done
    exact nothing.1 ⟨r, p, c, j, k, first.lt, tail, by omega⟩
  have inside : i ≤ text.length := by
    have := call.start_le_length
    omega
  have found : matchAt text arrayRe (callMatch i w r p c j k).index = some (callMatch i w r p c j k) :=
    matchAt_of_head head tail first
  rcases mem_or_over nonempty_arrayRe found inside with taken | ⟨m, taken, before', passes⟩
  · have : k + 1 ≤ call.start := call.stop_le_start member taken (show i < call.start by omega)
    omega
  · obtain ⟨w', b', r', p', c', j', k', head', first', tail', stop⟩ := parts_of_mem taken
    have starts : m.index < i := before'
    have goes_on : i < m.stop := passes
    have done := call.stop_le_start member taken (by omega)
    have behind : b < r' := (head.apart tail').resolve_right (by omega)
    exact nothing.1 ⟨r', p', c', j', k', behind, tail', by omega⟩

end ArrayCall

theorem matchUnder_iff {text : CodeUnits} (call : ArrayCall text) {column : Nat}
    (inside : call.start ≤ column ∧ column ≤ call.paren) :
    matchUnder arrayRe text column = some call.toMatch ↔ call.Undisturbed := by
  have covers : call.toMatch.covers column = true := by
    rw [Match.covers, Bool.and_eq_true, decide_eq_true_iff, decide_eq_true_iff]
    exact ⟨inside.1, Nat.lt_succ_of_le inside.2⟩
  calc matchUnder arrayRe text column = some call.toMatch
      ↔ call.toMatch ∈ execAll text arrayRe ∧ call.toMatch.covers column = true :=
        find_covers_iff ArrayCall.nonempty_arrayRe
    _ ↔ call.toMatch ∈ execAll text arrayRe := and_iff_left covers
    _ ↔ call.Undisturbed := ⟨call.undisturbed_of_mem, call.mem_of_undisturbed⟩

/-- Where no macro call covers the cursor, a call through a subscript is resolved through its own
head, accessors and field exactly if nothing on the line disturbs it. The result is that of its
chain exactly if it is so resolved, or what is taken instead is spelled alike. -/
theorem array_call_iff {text : CodeUnits} (call : ArrayCall text) {column : Nat}
    (inside : call.start ≤ column ∧ column ≤ call.paren)
    (noMacro : matchUnder macroRe text column = none) :
    (call.ThroughOwnHead column ↔ call.Undisturbed) ∧
      (call.Resolves column ↔ call.Undisturbed ∨ call.Disguised column) := by
  have under := matchUnder_iff call inside
  have calm : call.Undisturbed → call.Resolves column := by
    intro undisturbed
    rw [call.resolves_iff]
    unfold callAt
    rw [noMacro, under.2 undisturbed]
    rfl
  refine ⟨⟨fun through => under.1 through.1, fun undisturbed => ⟨under.2 undisturbed, calm undisturbed⟩⟩,
    ⟨fun resolves => ?_, fun condition => condition.elim calm fun disguised => ?_⟩⟩
  · have reads := call.resolves_iff.1 resolves
    unfold callAt at reads
    rw [noMacro] at reads
    cases taken : matchUnder arrayRe text column with
    | some m =>
      rw [taken] at reads
      by_cases own : m = call.toMatch
      · exact .inl (under.1 (by rw [taken, own]))
      · exact .inr (.inl ⟨m, taken, own, Option.some.inj reads⟩)
    | none =>
      rw [taken] at reads
      obtain ⟨m, general, same⟩ := Option.map_eq_some_iff.1 reads
      exact .inr (.inr ⟨taken, m, general, same⟩)
  · rw [call.resolves_iff]
    unfold callAt
    rcases disguised with ⟨m, taken, -, same⟩ | ⟨nothing, m, general, same⟩
    · rw [noMacro, taken, ← same]
    · rw [noMacro, nothing, general, ← same]
      rfl

/-- The call behind another on one line. -/
def innerCall : ArrayCall (utf16 "a[0]->g(b[1]->f(") where
  start := 8
  headEnd := 9
  opening := 9
  closing := 11
  accessorsEnd := 12
  field := 14
  fieldEnd := 15
  paren := 15
  begins := .inr ⟨40, by decide, by decide⟩
  head := ⟨by decide, by decide, by decide, by decide⟩
  lt := by decide
  tail := ⟨by decide, .refl, ⟨12, by decide, by decide, by decide, by decide⟩, by decide, by decide,
    by decide, by decide⟩

theorem array_call_iff_inner : innerCall.ThroughOwnHead 9 := by
  refine (array_call_iff innerCall ⟨by decide, by decide⟩ (by decide +kernel)).1.2 ⟨by decide, ?_, ?_⟩
  · intro n above below
    obtain rfl : n = 10 := by
      have : 9 < n := above
      have : n < 11 := below
      omega
    rintro ⟨p, c, j, k, tail⟩
    exact absurd tail.closing (by decide)
  · intro i w b head before
    have opens : ∀ n < 8, (utf16 "a[0]->g(b[1]->f(")[n]? = some 91 → n = 1 := by decide
    obtain rfl := opens b before head.opening
    exact .inl ⟨3, 4, 6, 7, 7, by decide, ⟨by decide, .refl, ⟨4, by decide, by decide, by decide, by decide⟩,
      by decide, by decide, by decide, by decide⟩, by decide⟩

/-- The call behind a subscript that is no call. -/
def assignedCall : ArrayCall (utf16 "a[0] = b[1]->f(") where
  start := 7
  headEnd := 8
  opening := 8
  closing := 10
  accessorsEnd := 11
  field := 13
  fieldEnd := 14
  paren := 14
  begins := .inr ⟨32, by decide, by decide⟩
  head := ⟨by decide, by decide, by decide, by decide⟩
  lt := by decide
  tail := ⟨by decide, .refl, ⟨11, by decide, by decide, by decide, by decide⟩, by decide, by decide,
    by decide, by decide⟩

/-- It is resolved through the head of that subscript. -/
theorem array_call_lost :
    slice (utf16 "a[0] = b[1]->f(") 9 assignedCall.closing = utf16 "1" ∧
      matchUnder macroRe (utf16 "a[0] = b[1]->f(") assignedCall.start = none ∧
      resolve (variableIndex "b" "f") "/w/f.c" 1 assignedCall.start (utf16 "a[0] = b[1]->f(") none ≠
        resolveChain (variableIndex "b" "f") "/w/f.c"
          ((variableIndex "b" "f").findEnclosingFunction "/w/f.c" 1) assignedCall.primary
          assignedCall.chainStr assignedCall.fieldName := by
  refine ⟨by decide, by decide +kernel, by decide +kernel⟩

end Calls

end LibJuno.Resolver
