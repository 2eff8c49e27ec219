import Mathlib.Data.List.DropRight
import LibJuno.Lib.Pieces
import LibJuno.Lib.RegexRuns
import LibJuno.Resolver.FailureHandlerResolver

/-!
# The second argument of a failure macro

`extractMacroArg` against the way C splits the arguments of a macro: the extension counts the
commas and parentheses inside literals too, and it takes any word in parentheses at the start
of the argument for a cast.
-/

namespace LibJuno.Resolver

open Indexer Pieces

section Splitting

/-- Where a reader of C is: outside of literals, inside one with the given quote, or behind a
backslash there. -/
inductive Reading where
  | code
  | literal (quote : UInt16)
  | escape (quote : UInt16)
deriving DecidableEq

def Reading.next : Reading → UInt16 → Reading
  | .code, ch => if ch = 34 ∨ ch = 39 then .literal ch else .code
  | .literal quote, ch => if ch = 92 then .escape quote else if ch = quote then .code else .literal quote
  | .escape quote, _ => .literal quote

/-- The depth after a character; none after a comma between arguments and the parenthesis
that closes the list. -/
def depthStep (depth : Nat) (ch : UInt16) : Option Nat :=
  if ch = 40 then some (depth + 1)
  else if ch = 41 then if depth = 1 then none else some (depth - 1)
  else if ch = 44 ∧ depth = 1 then none
  else some depth

/-- The same for C: literals have no separators in them. -/
def cStep (st : Reading × Nat) (ch : UInt16) : Option (Reading × Nat) :=
  match st.1 with
  | .code => (depthStep st.2 ch).map fun depth => (st.1.next ch, depth)
  | .literal _ | .escape _ => some (st.1.next ch, st.2)

def isClosing (ch : UInt16) : Bool := decide (ch = 41)

/-- The arguments that C reads from after the opening parenthesis. -/
def cArgs (text : CodeUnits) : List CodeUnits := pieces cStep isClosing (.code, 1) text (.code, 1) []

/-- One argument when literals are not heeded: its parentheses are balanced and have all its
commas inside. -/
def isOneArgument (text : CodeUnits) : Bool := decide (text.foldlM depthStep 1 = some 1)

theorem macroArgs_eq (text : CodeUnits) (depth : Nat) (arg : CodeUnits) :
    macroArgs text depth arg = pieces depthStep isClosing 1 text depth arg := by
  induction text generalizing depth arg with
  | nil => rfl
  | cons ch rest ih =>
    rw [macroArgs, pieces, depthStep, isClosing]
    by_cases opening : ch = 40
    · rw [if_pos opening, if_pos opening]
      exact ih _ _
    · rw [if_neg opening, if_neg opening]
      by_cases closing : ch = 41
      · rw [if_pos closing, if_pos closing]
        by_cases last : depth = 1
        · rw [if_pos last, if_pos last]
          simp [closing]
        · rw [if_neg last, if_neg last]
          exact ih _ _
      · rw [if_neg closing, if_neg closing]
        by_cases comma : ch = 44 ∧ depth = 1
        · rw [if_pos comma, if_pos comma, ih, comma.2]
          simp [closing]
        · rw [if_neg comma, if_neg comma]
          exact ih _ _

theorem depthStep_separates {depth : Nat} {ch : UInt16} (separates : depthStep depth ch = none) :
    depth = 1 ∧ (ch = 41 ∨ ch = 44) := by
  unfold depthStep at separates
  split at separates
  · cases separates
  · split at separates
    · next closing =>
      split at separates
      · next last => exact ⟨last, .inl closing⟩
      · cases separates
    · split at separates
      · next comma => exact ⟨comma.2, .inr comma.1⟩
      · cases separates

/-- What separates arguments of C separates them for the extension, at the same depth. -/
theorem cStep_separates {st : Reading × Nat} {ch : UInt16} (separates : cStep st ch = none) :
    depthStep 1 ch = none := by
  unfold cStep at separates
  split at separates
  · rw [Option.map_eq_none_iff] at separates
    rw [(depthStep_separates separates).1] at separates
    exact separates
  · cases separates
  · cases separates

/-- The first two arguments are split as C splits them exactly if each is one argument when
literals are not heeded. -/
theorem split_iff {text first second : CodeUnits} {more : List CodeUnits}
    (split : cArgs text = first :: second :: more) :
    (macroArgs text 1 []).take 2 = [first, second] ↔
      isOneArgument first = true ∧ isOneArgument second = true := by
  unfold isOneArgument
  rw [macroArgs_eq, decide_eq_true_eq, decide_eq_true_eq]
  obtain ⟨_, ch, rest, st, shape, rfl, -, separates, more_follow, others⟩ := passed_of_pieces_cons split
  obtain ⟨_, ch', rest', st', shape', rfl, -, separates', -⟩ := passed_of_pieces others
  subst shape shape'
  have ends := cStep_separates separates
  have ends' := cStep_separates separates'
  constructor
  · intro same
    obtain ⟨more', taken⟩ : ∃ more', pieces depthStep isClosing 1
        (first ++ ch :: (second ++ ch' :: rest')) 1 [] = first :: second :: more' :=
      ⟨_, by rw [← List.take_append_drop 2 (pieces _ _ _ _ _ _), same]; rfl⟩
    obtain ⟨_, a, rest, st, shape, rfl, passed, stops, -, later⟩ := passed_of_pieces_cons taken
    rw [(depthStep_separates stops).1] at passed
    cases List.append_cancel_left shape
    obtain ⟨_, a, rest, st, shape, rfl, passed', stops', -⟩ := passed_of_pieces later
    rw [(depthStep_separates stops').1] at passed'
    exact ⟨passed, passed'⟩
  · rintro ⟨passed, passed'⟩
    rw [pieces_append passed, pieces_separator ends, if_neg (by rw [more_follow]; decide),
      pieces_append passed', pieces_separator ends']
    split <;> rfl

end Splitting

section Casts

/-- `[\w\s*]` -/
def isCastUnit (u : UInt16) : Bool := isWord u || isSpace u || u == 42

/-- Words, blanks and stars in parentheses at the start, and what follows them. -/
def leadingCast (text : CodeUnits) : Option (CodeUnits × CodeUnits) :=
  match text with
  | [] => none
  | u :: tail =>
    match tail.dropWhile isCastUnit with
    | [] => none
    | v :: rest =>
      if u = 40 ∧ v = 41 ∧ tail.takeWhile isCastUnit ≠ [] then some (tail.takeWhile isCastUnit, rest)
      else none

/-- The operand of the argument, where C knows the types: a cast to a type is left out. -/
def operand (isType : CodeUnits → Bool) (arg : CodeUnits) : CodeUnits :=
  match leadingCast (trim arg) with
  | none => trim arg
  | some (word, rest) => if isType word ∧ trim rest ≠ [] then trim rest else trim arg

/-- `arg.replace(/^\(\s*[\w\s*]+\)\s*/, '')` -/
def uncast (arg : CodeUnits) : CodeUnits :=
  match Regex.matchAt arg castRe 0 with
  | some cast => arg.drop cast.stop
  | none => arg

/-- `extractMacroArg`, as code units. -/
def macroArg (lineText : CodeUnits) (argIndex : Nat) : Option CodeUnits :=
  (Regex.exec lineText FAIL_MACRO_RE 0).bind fun macroMatch =>
    (macroArgs (lineText.drop macroMatch.stop) 1 [])[argIndex]?.bind fun arg =>
      if trim (uncast (trim arg)) = [] then none else some (trim (uncast (trim arg)))

theorem extractMacroArg_eq (lineText : CodeUnits) (argIndex : Nat) :
    extractMacroArg lineText argIndex = (macroArg lineText argIndex).map ofUnits := by
  unfold extractMacroArg macroArg
  rw [Option.map_bind]
  congr 1
  funext macroMatch
  rw [Function.comp_apply, Option.map_bind]
  congr 1
  funext arg
  change (if trim (uncast (trim arg)) = [] then none
    else some (ofUnits (trim (uncast (trim arg))))) = _
  rw [Function.comp_apply]
  split <;> rfl

theorem leadingCast_iff {text word rest : CodeUnits} : leadingCast text = some (word, rest) ↔
    text = 40 :: word ++ 41 :: rest ∧ word ≠ [] ∧ ∀ u ∈ word, isCastUnit u = true := by
  constructor
  · intro found
    cases text with
    | nil => cases found
    | cons u tail =>
      unfold leadingCast at found
      dsimp only at found
      have parts := List.takeWhile_append_dropWhile (p := isCastUnit) (l := tail)
      cases behind : tail.dropWhile isCastUnit with
      | nil =>
        rw [behind] at found
        cases found
      | cons v after =>
        rw [behind] at found parts
        dsimp only at found
        split at found
        · next shape =>
          obtain ⟨rfl, rfl, nonempty⟩ := shape
          cases found
          exact ⟨by rw [List.cons_append, parts], nonempty, fun u member => List.mem_takeWhile_imp member⟩
        · cases found
  · rintro ⟨rfl, nonempty, inside⟩
    have before : (word ++ 41 :: rest).takeWhile isCastUnit = word := by
      rw [List.takeWhile_append_of_pos inside, List.takeWhile_cons_of_neg (by decide), List.append_nil]
    have behind : (word ++ 41 :: rest).dropWhile isCastUnit = 41 :: rest := by
      rw [List.dropWhile_append_of_pos inside, List.dropWhile_cons_of_neg (by decide)]
    unfold leadingCast
    rw [List.cons_append]
    dsimp only
    rw [behind]
    dsimp only
    rw [before, if_pos ⟨rfl, rfl, nonempty⟩]

/-- What `castRe` needs behind the opening parenthesis and the blanks. -/
def castTail : Regex UInt16 :=
  .seq (.plus true (.sym isCastUnit)) (.seq (Pattern.text ")") Pattern.spaces)

theorem castRe_eq : castRe = .seq (Regex.lit [40]) (.seq Pattern.spaces castTail) := rfl

section Matching

variable {text : CodeUnits} {i j k : Nat}

theorem head_castTail (span : Regex.Span text isCastUnit i j) (spaces : Regex.Span text isSpace (j + 1) k) :
    (Regex.runs text castTail i []).head? =
      if i < j ∧ text[j]? = some 41 then some (k, []) else none := by
  unfold castTail
  have closing : Pattern.text ")" = Regex.lit [41] := rfl
  rw [closing]
  by_cases longer : i < j
  · rw [Regex.head_plus_greedy span longer]
    · by_cases closes : text[j]? = some 41
      · rw [Regex.runs_seq_cons closes, Regex.runs_seq_nil, if_pos ⟨longer, closes⟩]
        exact Regex.head_star_greedy_self spaces []
      · rw [Regex.runs_seq_stuck closes, if_neg fun h => closes h.2]
        rfl
    · intro n from_start below
      obtain ⟨u, here, holds⟩ := span.inside n from_start below
      apply Regex.runs_seq_stuck
      rw [here]
      rintro ⟨⟩
      cases holds
  · have same : j = i := Nat.le_antisymm (Nat.le_of_not_lt longer) span.le
    rw [Regex.runs_plus_stuck (same ▸ span.stops), if_neg fun h => longer h.1]
    rfl

/-- However many of the blanks in front are taken for the pattern's own, it ends in the same place. -/
theorem head_castRe (opens : text[0]? = some 40) (span : Regex.Span text isCastUnit 1 j)
    (spaces : Regex.Span text isSpace (j + 1) k) : (Regex.runs text castRe 0 []).head? =
      if 1 < j ∧ text[j]? = some 41 then some (k, []) else none := by
  obtain ⟨n, blanks⟩ := Regex.exists_span text isSpace 1
  have first := blanks.le
  have within : n ≤ j := by
    refine blanks.run.le_of_span span fun u blank => ?_
    rw [isCastUnit, blank, Bool.or_true, Bool.true_or]
  have tails : ∀ m, 1 ≤ m → m ≤ n → (Regex.runs text castTail m []).head? =
      if m < j ∧ text[j]? = some 41 then some (k, []) else none :=
    fun m from_start below => head_castTail (span.later from_start (by omega)) spaces
  rw [castRe_eq, Regex.runs_seq_cons opens, Regex.runs_seq_nil, Regex.runs, Pattern.spaces,
    Regex.runs_star_greedy blanks, List.head?_flatMap]
  split
  · next closes =>
    apply Regex.findSome?_eq_of_forall
    · intro x member
      obtain ⟨m, shorter, rfl⟩ := List.mem_map.1 member
      have bounds := List.mem_range'_1.1 (List.mem_reverse.1 shorter)
      dsimp only
      rw [tails m bounds.1 (by omega)]
      split
      · exact .inr rfl
      · exact .inl rfl
    · refine ⟨(1, []), List.mem_map.2 ⟨1, List.mem_reverse.2 (List.mem_range'_1.2 (by omega)), rfl⟩, ?_⟩
      dsimp only
      rw [tails 1 (Nat.le_refl 1) first, if_pos closes]
  · next remains =>
    rw [List.findSome?_eq_none_iff]
    intro x member
    obtain ⟨m, shorter, rfl⟩ := List.mem_map.1 member
    have bounds := List.mem_range'_1.1 (List.mem_reverse.1 shorter)
    dsimp only
    rw [tails m bounds.1 (by omega), if_neg fun h => remains ⟨by omega, h.2⟩]

/-- The pattern is there if the longest run in the parentheses is not empty and they close. -/
theorem matchAt_castRe (opens : text[0]? = some 40) (span : Regex.Span text isCastUnit 1 j)
    (spaces : Regex.Span text isSpace (j + 1) k) :
    Regex.matchAt text castRe 0 =
      if 1 < j ∧ text[j]? = some 41 then some ⟨0, k, []⟩ else none := by
  unfold Regex.matchAt
  rw [head_castRe opens span spaces]
  split <;> rfl

end Matching

theorem uncast_of_cast {text word rest : CodeUnits} (cast : leadingCast text = some (word, rest)) :
    uncast text = rest.dropWhile isSpace := by
  obtain ⟨rfl, nonempty, inside⟩ := leadingCast_iff.1 cast
  have before : (word ++ 41 :: rest).takeWhile isCastUnit = word := by
    rw [List.takeWhile_append_of_pos inside, List.takeWhile_cons_of_neg (by decide), List.append_nil]
  have span : Regex.Span (40 :: word ++ 41 :: rest) isCastUnit 1 (1 + word.length) := by
    have run := Regex.span_takeWhile (40 :: word ++ 41 :: rest) isCastUnit 1
    rw [List.cons_append, List.drop_one, List.tail_cons, before] at run
    exact run
  have behind : (40 :: word ++ 41 :: rest).drop (1 + word.length + 1) = rest := by
    rw [Nat.add_comm 1, Nat.add_assoc, List.cons_append, List.drop_succ_cons]
    simp
  have spaces := Regex.span_takeWhile (40 :: word ++ 41 :: rest) isSpace (1 + word.length + 1)
  have closes : (40 :: word ++ 41 :: rest)[1 + word.length]? = some 41 := by
    rw [Nat.add_comm, List.cons_append, List.getElem?_cons_succ, List.getElem?_append_right (Nat.le_refl _),
      Nat.sub_self]
    rfl
  have longer : 1 < 1 + word.length := Nat.lt_add_of_pos_right (List.length_pos_of_ne_nil nonempty)
  unfold uncast
  rw [matchAt_castRe rfl span spaces, if_pos ⟨longer, closes⟩]
  dsimp only
  rw [← List.drop_drop, behind]
  calc rest.drop (rest.takeWhile isSpace).length
      = (rest.takeWhile isSpace ++ rest.dropWhile isSpace).drop (rest.takeWhile isSpace).length := by
        rw [List.takeWhile_append_dropWhile]
    _ = rest.dropWhile isSpace := List.drop_left

theorem uncast_of_none {text : CodeUnits} (plain : leadingCast text = none) : uncast text = text := by
  unfold uncast
  cases text with
  | nil => rfl
  | cons u tail =>
    by_cases opens : u = 40
    · subst opens
      obtain ⟨j, span⟩ := Regex.exists_span (40 :: tail) isCastUnit 1
      obtain ⟨k, spaces⟩ := Regex.exists_span (40 :: tail) isSpace (j + 1)
      rw [matchAt_castRe rfl span spaces, if_neg]
      rintro ⟨longer, closes⟩
      obtain ⟨n, rfl⟩ : ∃ n, j = n + 1 := ⟨j - 1, by omega⟩
      obtain ⟨within, last⟩ := List.getElem?_eq_some_iff.1 (List.getElem?_cons_succ.symm.trans closes)
      have shape : tail = tail.take n ++ 41 :: tail.drop (n + 1) := by
        rw [← last, ← List.drop_eq_getElem_cons within, List.take_append_drop]
      have inside : ∀ u ∈ tail.take n, isCastUnit u = true := by
        intro u member
        obtain ⟨m, below, rfl⟩ := List.mem_iff_getElem.1 member
        rw [List.length_take] at below
        obtain ⟨a, here, holds⟩ := span.inside (m + 1) (by omega) (by omega)
        rw [List.getElem_take]
        rw [List.getElem?_cons_succ, List.getElem?_eq_getElem (by omega)] at here
        rw [Option.some.inj here]
        exact holds
      have nonempty : tail.take n ≠ [] := by
        rw [Ne, List.take_eq_nil_iff, not_or]
        exact ⟨by omega, fun empty => by rw [empty] at within; cases within⟩
      have cast : leadingCast (40 :: tail) = some (tail.take n, tail.drop (n + 1)) :=
        leadingCast_iff.2 ⟨congrArg (40 :: ·) shape, nonempty, inside⟩
      rw [plain] at cast
      cases cast
    · have stuck : Regex.runs (u :: tail) castRe 0 [] = [] := by
        rw [castRe_eq]
        apply Regex.runs_seq_stuck
        rintro ⟨⟩
        exact opens rfl
      rw [Regex.matchAt, stuck]
      rfl

theorem trim_eq (text : CodeUnits) : trim text = (text.dropWhile isSpace).rdropWhile isSpace := rfl

theorem trim_trim (text : CodeUnits) : trim (trim text) = trim text := by
  have front : (trim text).dropWhile isSpace = trim text := by
    rw [List.dropWhile_eq_self_iff]
    intro nonempty
    have cut : trim text <+: text.dropWhile isSpace := by
      rw [trim_eq]
      exact List.rdropWhile_prefix isSpace _
    rw [cut.getElem nonempty]
    exact List.dropWhile_get_zero_not isSpace text _
  rw [trim_eq, front, trim_eq, List.rdropWhile_idempotent]

theorem trim_dropWhile (text : CodeUnits) : trim (text.dropWhile isSpace) = trim text := by
  rw [trim_eq, List.dropWhile_idempotent, trim_eq]

theorem length_trim_le (text : CodeUnits) : (trim text).length ≤ text.length := by
  rw [trim_eq]
  exact (List.rdropWhile_prefix isSpace _).length_le.trans (List.length_dropWhile_le isSpace text)

/-- The extension leaves exactly the operand if there is one and what is in parentheses at its
front, if anything is, is a type in front of an operand. -/
theorem uncast_operand_iff (isType : CodeUnits → Bool) (arg : CodeUnits) :
    (if trim (uncast (trim arg)) = [] then none else some (trim (uncast (trim arg)))) =
        some (operand isType arg) ↔
      trim arg ≠ [] ∧ ∀ word rest, leadingCast (trim arg) = some (word, rest) →
        isType word = true ∧ trim rest ≠ [] := by
  unfold operand
  cases found : leadingCast (trim arg) with
  | none =>
    rw [uncast_of_none found, trim_trim]
    constructor
    · intro kept
      refine ⟨fun blank => ?_, fun word rest cast => by cases cast⟩
      rw [if_pos blank] at kept
      cases kept
    · rintro ⟨nonempty, -⟩
      rw [if_neg nonempty]
  | some cast =>
    obtain ⟨word, rest⟩ := cast
    obtain ⟨shape, -, -⟩ := leadingCast_iff.1 found
    rw [uncast_of_cast found, trim_dropWhile]
    dsimp only
    constructor
    · intro kept
      refine ⟨by rw [shape]; exact List.cons_ne_nil _ _, ?_⟩
      rintro _ _ ⟨⟩
      by_contra other
      rw [if_neg other] at kept
      split at kept
      · cases kept
      · -- the text without the parentheses is shorter
        have same := congrArg List.length (Option.some.inj kept)
        have shorter := length_trim_le rest
        rw [shape, List.length_append, List.length_cons, List.length_cons] at same
        omega
    · rintro ⟨-, cast⟩
      rw [if_neg (cast word rest rfl).2, if_pos (cast word rest rfl)]

end Casts

section Arguments

/-- For a line whose first failure macro has two arguments: these are split as C splits them,
and the second one without a cast is returned, exactly if each is one argument also when
literals are not heeded, the second is not blank, and words in parentheses at its front are a
type in front of an operand. The code units that `macroArg` gives are the string returned. -/
theorem fail_argument_iff (isType : CodeUnits → Bool) {lineText first second : CodeUnits}
    {macroMatch : Regex.Match} {more : List CodeUnits}
    (call : Regex.exec lineText FAIL_MACRO_RE 0 = some macroMatch)
    (args : cArgs (lineText.drop macroMatch.stop) = first :: second :: more) :
    extractMacroArg lineText 1 = (macroArg lineText 1).map ofUnits ∧
    (((macroArgs (lineText.drop macroMatch.stop) 1 []).take 2 = [first, second] ∧
        macroArg lineText 1 = some (operand isType second)) ↔
      isOneArgument first = true ∧ isOneArgument second = true ∧ trim second ≠ [] ∧
        ∀ word rest, leadingCast (trim second) = some (word, rest) →
          isType word = true ∧ trim rest ≠ []) := by
  refine ⟨extractMacroArg_eq lineText 1, ?_⟩
  have extracted : (macroArgs (lineText.drop macroMatch.stop) 1 []).take 2 = [first, second] →
      macroArg lineText 1 = if trim (uncast (trim second)) = [] then none
        else some (trim (uncast (trim second))) := by
    intro same
    have here : (macroArgs (lineText.drop macroMatch.stop) 1 [])[1]? = some second := by
      rw [← List.getElem?_take_of_lt (by decide : 1 < 2), same]
      rfl
    unfold macroArg
    rw [call, Option.bind_some, here, Option.bind_some]
  rw [← and_assoc, ← split_iff args]
  constructor
  · rintro ⟨same, kept⟩
    rw [extracted same] at kept
    exact ⟨same, (uncast_operand_iff isType second).1 kept⟩
  · rintro ⟨same, plain⟩
    rw [extracted same]
    exact ⟨same, (uncast_operand_iff isType second).2 plain⟩

/-- `JUNO_FAIL_MODULE(s, (MOD_T *)ptMod)` -/
def castLine : CodeUnits := utf16 "JUNO_FAIL_MODULE(s, (MOD_T *)ptMod)"

/-- `JUNO_FAIL_MODULE(s, (ptMod))` -/
def wordLine : CodeUnits := utf16 "JUNO_FAIL_MODULE(s, (ptMod))"

/-- `JUNO_ASSERT_EXISTS_MODULE(c==',',m)` -/
def commaLine : CodeUnits := utf16 "JUNO_ASSERT_EXISTS_MODULE(c==',',m)"

theorem fail_argument_iff_cast :
    macroArg castLine 1 = some (operand (fun word => decide (word = utf16 "MOD_T *"))
      (utf16 " (MOD_T *)ptMod")) := by
  have cast : leadingCast (trim (utf16 " (MOD_T *)ptMod")) =
      some (utf16 "MOD_T *", utf16 "ptMod") := by decide
  refine ((@fail_argument_iff (fun word => decide (word = utf16 "MOD_T *")) castLine (utf16 "s")
    (utf16 " (MOD_T *)ptMod") ⟨0, 17, [(1, 0, 16)]⟩ [] (by decide) (by decide)).2.2
      ⟨by decide, by decide, by decide, fun word rest found => ?_⟩).2
  cases cast.symm.trans found
  decide

/-- A name in parentheses is lost, and so is an argument behind a comma in quotes. -/
theorem fail_argument_lost :
    (Regex.exec wordLine FAIL_MACRO_RE 0 = some ⟨0, 17, [(1, 0, 16)]⟩ ∧
      cArgs (wordLine.drop 17) = [utf16 "s", utf16 " (ptMod)"] ∧
      operand (fun _ => false) (utf16 " (ptMod)") = utf16 "(ptMod)" ∧
      extractMacroArg wordLine 1 = none) ∧
    Regex.exec commaLine FAIL_MACRO_RE 0 = some ⟨0, 26, [(1, 0, 25)]⟩ ∧
      cArgs (commaLine.drop 26) = [utf16 "c==','", utf16 "m"] ∧
      operand (fun _ => false) (utf16 "m") = utf16 "m" ∧
      extractMacroArg commaLine 1 = some "'" := by
  refine ⟨⟨?_, ?_, ?_, ?_⟩, ?_, ?_, ?_, ?_⟩ <;> decide

end Arguments

end LibJuno.Resolver
