import LibJuno.Lib.Loop
import LibJuno.Parser.Cst

/-!
# Loops over raw tokens

Where `parser/parser.ts` takes tokens without a rule: the body of a module macro
(`macroBodyTokens`) and a macro call with a keyword among its arguments
(`gobbleMacroCallStatement`). The parser library gives the end-of-file token past the end of
the input, advances its index also there, and repeats the body of `MANY` while the gate is
open and the index advances.
-/

namespace LibJuno.Parser

section Stream

/-- A token vector. The end-of-file token is none of its tokens. -/
structure TokenStream where
  tokens : List Token
  noEof : ∀ t ∈ tokens, t.tokenType ≠ "EOF"

/-- `END_OF_FILE`. -/
def eofToken : Token := ⟨"EOF", "", ⟨0, 0, 0⟩⟩

/-- `LA(k)`, with the next token at index `pos`. -/
def TokenStream.LA (s : TokenStream) (pos k : Nat) : Token := s.tokens[pos + k - 1]?.getD eofToken

def tokenMatcher (t : Token) (tokenType : String) : Bool := decide (t.tokenType = tokenType)

/-- The loops below: the index of the next token, the depth of parentheses and the tokens
taken so far, as they go into the tree. -/
structure Taking where
  pos : Nat
  depth : Int
  taken : List Token
deriving DecidableEq

/-- The depth after a token. -/
def depthAfter (t : Token) (depth : Int) : Int :=
  if tokenMatcher t "LParen" then depth + 1
  else if tokenMatcher t "RParen" then depth - 1
  else depth

/-- `consumeToken` and `cstPostTerminal`, of a token that the depth has been counted for. -/
def Taking.take (st : Taking) (t : Token) : Taking :=
  ⟨st.pos + 1, depthAfter t st.depth, st.taken ++ [t]⟩

/-- One turn of the `MANY` of `macroBodyTokens`. -/
def macroBodyTurn (s : TokenStream) (st : Taking) : Turn Taking :=
  if !(tokenMatcher (s.LA st.pos 1) "RParen" && decide (st.depth = 0)) then
    let st' := st.take (s.LA st.pos 1)
    if st.pos < st'.pos then .next st' else .stop st'
  else .stop st

/-- One turn of `gobbleMacroCallStatement`. -/
def gobbleTurn (s : TokenStream) (st : Taking) : Turn Taking :=
  let tok := s.LA st.pos 1
  if tokenMatcher tok "EOF" then .stop st
  else
    let st' := st.take tok
    if tokenMatcher tok "Semicolon" && decide (st'.depth = 0) then .stop st' else .next st'

/-- The look-ahead of `isMacroCallWithKeywordArg`. -/
structure KeywordScan where
  depth : Int
  i : Nat
  found : Bool
deriving DecidableEq

def isKeyword (t : Token) : Bool :=
  tokenMatcher t "Return" || tokenMatcher t "Break" || tokenMatcher t "Continue" ||
    tokenMatcher t "Goto"

def keywordTurn (s : TokenStream) (pos : Nat) (scan : KeywordScan) : Turn KeywordScan :=
  if scan.depth > 0 then
    let t := s.LA pos scan.i
    if tokenMatcher t "EOF" then .stop scan
    else if tokenMatcher t "LParen" then .next ⟨scan.depth + 1, scan.i + 1, false⟩
    else if tokenMatcher t "RParen" then
      if scan.depth - 1 = 0 then .stop ⟨scan.depth - 1, scan.i, false⟩
      else .next ⟨scan.depth - 1, scan.i + 1, false⟩
    else if isKeyword t then .stop ⟨scan.depth, scan.i, true⟩
    else .next ⟨scan.depth, scan.i + 1, false⟩
  else .stop scan

/-- `isMacroCallWithKeywordArg`. Its scan ends at the end of the input. -/
def isMacroCallWithKeywordArg (s : TokenStream) (pos : Nat) : Bool :=
  tokenMatcher (s.LA pos 1) "Identifier" && tokenMatcher (s.LA pos 2) "LParen" &&
    ((loop (keywordTurn s pos) (s.tokens.length + 1) ⟨1, 3, false⟩).map KeywordScan.found).getD false

end Stream

section Depth

/-- The depth after `n` of the tokens. -/
def depthAt (ts : List Token) (n : Nat) : Int :=
  (ts.take n).foldl (fun depth t => depthAfter t depth) 0

/-- A `)` at nesting depth 0. -/
def IsClosing (ts : List Token) (j : Nat) : Prop :=
  ∃ t, ts[j]? = some t ∧ tokenMatcher t "RParen" = true ∧ depthAt ts j = 0

/-- The first such. -/
def FirstClosing (ts : List Token) (j : Nat) : Prop :=
  IsClosing ts j ∧ ∀ i < j, ¬IsClosing ts i

instance (ts : List Token) (j : Nat) : Decidable (IsClosing ts j) :=
  decidable_of_iff (ts[j]?.any (tokenMatcher · "RParen") = true ∧ depthAt ts j = 0) <| by
    unfold IsClosing
    rw [Option.any_eq_true]
    constructor
    · rintro ⟨⟨t, here, closes⟩, level⟩
      exact ⟨t, here, closes, level⟩
    · rintro ⟨t, here, closes, level⟩
      exact ⟨⟨t, here, closes⟩, level⟩

instance (ts : List Token) (j : Nat) : Decidable (FirstClosing ts j) :=
  inferInstanceAs (Decidable (_ ∧ _))

theorem depthAt_succ {ts : List Token} {n : Nat} {t : Token} (here : ts[n]? = some t) :
    depthAt ts (n + 1) = depthAfter t (depthAt ts n) := by
  unfold depthAt
  rw [List.take_add_one, here, Option.toList_some, List.foldl_append, List.foldl_cons, List.foldl_nil]

/-- Up to the first closing parenthesis no more are closed than opened. -/
theorem depthAt_nonneg {ts : List Token} {n : Nat} (inside : n ≤ ts.length)
    (before : ∀ i < n, ¬IsClosing ts i) : 0 ≤ depthAt ts n := by
  induction n with
  | zero => exact Int.le_refl 0
  | succ n ih =>
    have earlier := ih (Nat.le_of_succ_le inside) fun i lt => before i (Nat.lt_succ_of_lt lt)
    have here : ts[n]? = some ts[n] := List.getElem?_eq_getElem inside
    rw [depthAt_succ here]
    unfold depthAfter
    split
    · omega
    · split
      · next closes =>
        have open_ : depthAt ts n ≠ 0 := fun level => before n (Nat.lt_succ_self n) ⟨_, here, closes, level⟩
        omega
      · exact earlier

theorem exists_firstClosing {ts : List Token} {j : Nat} (h : IsClosing ts j) :
    ∃ i, FirstClosing ts i := by
  induction j using Nat.strongRecOn with
  | ind j ih =>
    by_cases earlier : ∃ i < j, IsClosing ts i
    · obtain ⟨i, lt, closing⟩ := earlier
      exact ih i lt closing
    · exact ⟨j, h, fun i lt closing => earlier ⟨i, lt, closing⟩⟩

end Depth

section Turns

variable (s : TokenStream) (pos : Nat)

/-- The tokens from an index on. -/
def TokenStream.ahead : List Token := s.tokens.drop pos

/-- A loop at `pos` after taking `n` tokens. -/
def takingAt (n : Nat) : Taking := ⟨pos + n, depthAt (s.ahead pos) n, (s.ahead pos).take n⟩

variable {s pos}

theorem LA_ahead (n : Nat) : s.LA (pos + n) 1 = (s.ahead pos)[n]?.getD eofToken := by
  unfold TokenStream.LA TokenStream.ahead
  rw [List.getElem?_drop, Nat.add_sub_cancel]

theorem ahead_ne_eof {n : Nat} {t : Token} (here : (s.ahead pos)[n]? = some t) :
    tokenMatcher t "EOF" = false :=
  decide_eq_false (s.noEof t (List.mem_of_mem_drop (List.mem_of_getElem? here)))

theorem take_takingAt {n : Nat} {t : Token} (here : (s.ahead pos)[n]? = some t) :
    (takingAt s pos n).take t = takingAt s pos (n + 1) := by
  unfold Taking.take takingAt
  rw [depthAt_succ here, List.take_add_one, here]
  rfl

theorem macroBodyTurn_closing {n : Nat} (closing : IsClosing (s.ahead pos) n) :
    macroBodyTurn s (takingAt s pos n) = .stop (takingAt s pos n) := by
  obtain ⟨t, here, closes, level⟩ := closing
  have next : s.LA (takingAt s pos n).pos 1 = t := by
    show s.LA (pos + n) 1 = t
    rw [LA_ahead, here, Option.getD_some]
  have gate : (tokenMatcher t "RParen" && decide ((takingAt s pos n).depth = 0)) = true := by
    rw [closes, show (takingAt s pos n).depth = 0 from level]
    rfl
  unfold macroBodyTurn
  rw [next, gate]
  rfl

/-- The gate is open everywhere else, also past the end, and the index advances. -/
theorem macroBodyTurn_open {st : Taking}
    (gate : (tokenMatcher (s.LA st.pos 1) "RParen" && decide (st.depth = 0)) = false) :
    macroBodyTurn s st = .next (st.take (s.LA st.pos 1)) := by
  unfold macroBodyTurn
  rw [gate, Bool.not_false, if_pos rfl]
  exact if_pos (Nat.lt_succ_self _)

theorem macroBodyTurn_inside {n : Nat} (inside : n < (s.ahead pos).length)
    (other : ¬IsClosing (s.ahead pos) n) :
    macroBodyTurn s (takingAt s pos n) = .next (takingAt s pos (n + 1)) := by
  have here : (s.ahead pos)[n]? = some (s.ahead pos)[n] := List.getElem?_eq_getElem inside
  have next : s.LA (takingAt s pos n).pos 1 = (s.ahead pos)[n] := by
    show s.LA (pos + n) 1 = _
    rw [LA_ahead, here, Option.getD_some]
  rw [macroBodyTurn_open, next, take_takingAt here]
  rw [next, Bool.and_eq_false_iff, decide_eq_false_iff_not]
  by_cases closes : tokenMatcher ((s.ahead pos)[n]) "RParen" = true
  · exact .inr fun level => other ⟨_, here, closes, level⟩
  · exact .inl (Bool.of_not_eq_true closes)

/-- Past the end the gate stays open and the index goes on. -/
theorem macroBodyTurn_past {st : Taking} (past : s.tokens.length ≤ st.pos) :
    ∃ st', macroBodyTurn s st = .next st' ∧ s.tokens.length ≤ st'.pos := by
  have next : s.LA st.pos 1 = eofToken := by
    unfold TokenStream.LA
    rw [Nat.add_sub_cancel, List.getElem?_eq_none past, Option.getD_none]
  refine ⟨_, macroBodyTurn_open (by rw [next]; rfl), ?_⟩
  show s.tokens.length ≤ st.pos + 1
  omega

end Turns

section MacroBody

/-- `macroBodyTokens` ends; it takes the tokens before the first `)` at depth 0, and where
there is none it takes what is left of the input. -/
def MacroBodyExact (s : TokenStream) (pos : Nat) : Prop :=
  ∃ final, Ends (macroBodyTurn s) ⟨pos, 0, []⟩ final ∧
    (∀ j, FirstClosing (s.ahead pos) j →
      final.pos = pos + j ∧ final.taken = (s.ahead pos).take j) ∧
    ((∀ j, ¬IsClosing (s.ahead pos) j) →
      final.pos = max pos s.tokens.length ∧ final.taken = s.ahead pos)

theorem macroBody_ends {s : TokenStream} {pos j : Nat} (first : FirstClosing (s.ahead pos) j) :
    Ends (macroBodyTurn s) ⟨pos, 0, []⟩ (takingAt s pos j) := by
  obtain ⟨closing, before⟩ := first
  obtain ⟨t, here, -, -⟩ := id closing
  have inside : j < (s.ahead pos).length := (List.getElem?_eq_some_iff.1 here).1
  have start : (⟨pos, 0, []⟩ : Taking) = takingAt s pos 0 := rfl
  rw [start, Ends.through_iff (n := j)]
  · exact (Ends.stop_iff (macroBodyTurn_closing closing)).2 rfl
  · exact fun k lt => macroBodyTurn_inside (Nat.lt_trans lt inside) (before k lt)

/-- Without a `)` at depth 0 the loop goes past the end and does not stop. -/
theorem macroBody_never {s : TokenStream} {pos : Nat} (none_closing : ∀ j, ¬IsClosing (s.ahead pos) j)
    (final : Taking) : ¬Ends (macroBodyTurn s) ⟨pos, 0, []⟩ final := by
  have start : (⟨pos, 0, []⟩ : Taking) = takingAt s pos 0 := rfl
  rw [start, Ends.through_iff (n := (s.ahead pos).length)]
  · apply Ends.never (I := fun st => s.tokens.length ≤ st.pos) fun st past => macroBodyTurn_past past
    show s.tokens.length ≤ pos + (s.ahead pos).length
    rw [TokenStream.ahead, List.length_drop]
    omega
  · exact fun k inside => macroBodyTurn_inside inside (none_closing k)

/-- Macro bodies are taken exactly, and the loop ends, if and only if a `)` at nesting depth 0
is ahead. -/
theorem macroBodyTokens_iff (s : TokenStream) (pos : Nat) :
    MacroBodyExact s pos ↔ ∃ j, IsClosing (s.ahead pos) j := by
  constructor
  · rintro ⟨final, ends, -, -⟩
    by_contra none_closing
    exact macroBody_never (fun j closing => none_closing ⟨j, closing⟩) final ends
  · rintro ⟨j, closing⟩
    obtain ⟨i, first⟩ := exists_firstClosing closing
    refine ⟨takingAt s pos i, macroBody_ends first, fun k first' => ?_, fun none_closing => ?_⟩
    · have same : i = k := by
        rcases Nat.lt_trichotomy i k with lt | rfl | gt
        · exact absurd first.1 (first'.2 i lt)
        · rfl
        · exact absurd first'.1 (first.2 k gt)
      subst same
      exact ⟨rfl, rfl⟩
    · exact absurd closing (none_closing j)

/-- `JUNO_MODULE_ROOT(LOG_API_T, int` as it is typed: the tokens after the comma. -/
def halfTyped : TokenStream where
  tokens := [⟨"Int", "int", ⟨28, 30, 1⟩⟩]
  noEof := by decide

/-- On a half-typed macro the loop does not end. -/
theorem macroBody_runs_on :
    ¬MacroBodyExact halfTyped 0 ∧ ∀ final, ¬Ends (macroBodyTurn halfTyped) ⟨0, 0, []⟩ final := by
  have none_closing : ∀ j, ¬IsClosing (halfTyped.ahead 0) j := by
    rintro (_ | j) ⟨t, here, closes, -⟩
    · rw [← Option.some.inj here] at closes
      exact absurd closes (by decide)
    · cases here
  refine ⟨?_, macroBody_never none_closing⟩
  rintro ⟨final, ends, -⟩
  exact macroBody_never none_closing final ends

end MacroBody

section KeywordCall

variable {s : TokenStream} {pos m : Nat}

/-- The scan for keywords ends: it comes nearer to the end of the input with every turn. -/
theorem keywordScan_ends (s : TokenStream) (pos : Nat) :
    ∃ r, loop (keywordTurn s pos) (s.tokens.length + 1) ⟨1, 3, false⟩ = some r := by
  apply Ends.loop_measure fun scan => s.tokens.length + 3 - scan.i
  · intro scan scan' step
    have inside : scan.i ≤ s.tokens.length + 1 := by
      by_contra past
      have next : s.LA pos scan.i = eofToken := by
        unfold TokenStream.LA
        rw [List.getElem?_eq_none (by omega), Option.getD_none]
      unfold keywordTurn at step
      rw [next] at step
      split at step
      · cases step
      · cases step
    have advances : scan'.i = scan.i + 1 := by
      unfold keywordTurn at step
      dsimp only at step
      split at step
      · split at step
        · cases step
        · split at step
          · rw [← Turn.next.inj step]
          · split at step
            · split at step
              · cases step
              · rw [← Turn.next.inj step]
            · split at step
              · cases step
              · rw [← Turn.next.inj step]
      · cases step
    omega
  · exact Nat.lt_succ_self _

/-- The look-ahead finds a keyword exactly when its scan ends with one. -/
theorem isMacroCallWithKeywordArg_iff : isMacroCallWithKeywordArg s pos = true ↔
    tokenMatcher (s.LA pos 1) "Identifier" = true ∧ tokenMatcher (s.LA pos 2) "LParen" = true ∧
      ∃ r, Ends (keywordTurn s pos) ⟨1, 3, false⟩ r ∧ r.found = true := by
  obtain ⟨r, run⟩ := keywordScan_ends s pos
  have ends : Ends (keywordTurn s pos) ⟨1, 3, false⟩ r := ⟨_, run⟩
  unfold isMacroCallWithKeywordArg
  rw [run, Bool.and_eq_true, Bool.and_eq_true, and_assoc]
  refine and_congr_right fun _ => and_congr_right fun _ => ?_
  constructor
  · exact fun found => ⟨r, ends, found⟩
  · rintro ⟨r', ends', found⟩
    rwa [Ends.unique ends ends']

/-- A keyword macro call starts with an identifier and a parenthesis. -/
theorem ahead_of_call (call : isMacroCallWithKeywordArg s pos = true) :
    ∃ t t', tokenMatcher t "Identifier" = true ∧ tokenMatcher t' "LParen" = true ∧
      s.ahead pos = t :: t' :: s.ahead (pos + 2) := by
  obtain ⟨name, paren, -⟩ := isMacroCallWithKeywordArg_iff.1 call
  have first : s.LA (pos + 0) 1 = (s.ahead pos)[0]?.getD eofToken := LA_ahead 0
  have second : s.LA pos 2 = (s.ahead pos)[1]?.getD eofToken := LA_ahead 1
  rw [Nat.add_zero] at first
  rw [first] at name
  rw [second] at paren
  have later : s.ahead (pos + 2) = (s.ahead pos).drop 2 := by
    unfold TokenStream.ahead
    rw [List.drop_drop]
  rw [later]
  cases split : s.ahead pos with
  | nil =>
    rw [split] at name
    exact absurd name (by decide)
  | cons t ts =>
    cases ts with
    | nil =>
      rw [split] at paren
      exact absurd paren Bool.false_ne_true
    | cons t' ts =>
      rw [split] at name paren
      exact ⟨t, t', name, paren, rfl⟩

theorem depthAt_call {t t' : Token} {ts : List Token} (name : tokenMatcher t "Identifier" = true)
    (paren : tokenMatcher t' "LParen" = true) (n : Nat) :
    depthAt (t :: t' :: ts) (n + 2) = 1 + depthAt ts n := by
  have shift : ∀ (us : List Token) (d : Int),
      us.foldl (fun depth t => depthAfter t depth) d =
        d + us.foldl (fun depth t => depthAfter t depth) 0 := by
    intro us
    induction us with
    | nil => exact fun d => (Int.add_zero d).symm
    | cons u us ih =>
      intro d
      rw [List.foldl_cons, List.foldl_cons, ih, ih (depthAfter u 0)]
      unfold depthAfter
      split
      · omega
      · split <;> omega
  have named : depthAfter t 0 = 0 := by
    have type : t.tokenType = "Identifier" := of_decide_eq_true name
    simp [depthAfter, tokenMatcher, type]
  have opened : depthAfter t' 0 = 1 := by
    unfold depthAfter
    rw [if_pos paren]
    rfl
  unfold depthAt
  rw [List.take_succ_cons, List.take_succ_cons, List.foldl_cons, List.foldl_cons, named, opened]
  exact shift _ 1

theorem gobbleTurn_end {n : Nat} (past : (s.ahead pos)[n]? = none) :
    gobbleTurn s (takingAt s pos n) = .stop (takingAt s pos n) := by
  have next : s.LA (takingAt s pos n).pos 1 = eofToken := by
    show s.LA (pos + n) 1 = _
    rw [LA_ahead, past, Option.getD_none]
  unfold gobbleTurn
  rw [next]
  rfl

theorem gobbleTurn_token {n : Nat} {t : Token} (here : (s.ahead pos)[n]? = some t) :
    gobbleTurn s (takingAt s pos n) =
      if tokenMatcher t "Semicolon" && decide (depthAt (s.ahead pos) (n + 1) = 0) then
        .stop (takingAt s pos (n + 1))
      else .next (takingAt s pos (n + 1)) := by
  have next : s.LA (takingAt s pos n).pos 1 = t := by
    show s.LA (pos + n) 1 = _
    rw [LA_ahead, here, Option.getD_some]
  unfold gobbleTurn
  rw [next]
  dsimp only
  rw [ahead_ne_eof here, if_neg Bool.false_ne_true, take_takingAt here]
  rfl

/-- The loop goes through the whole call: inside its parentheses the depth is positive. -/
theorem gobble_through (call : isMacroCallWithKeywordArg s pos = true)
    (closing : FirstClosing (s.ahead (pos + 2)) m) (r : Taking) :
    Ends (gobbleTurn s) ⟨pos, 0, []⟩ r ↔ Ends (gobbleTurn s) (takingAt s pos (m + 3)) r := by
  obtain ⟨t, t', name, paren, split⟩ := ahead_of_call call
  obtain ⟨⟨c, here, closes, level⟩, before⟩ := closing
  have inside : m < (s.ahead (pos + 2)).length := (List.getElem?_eq_some_iff.1 here).1
  have start : (⟨pos, 0, []⟩ : Taking) = takingAt s pos 0 := rfl
  rw [start, Ends.through_iff]
  intro k lt
  have at_ : ∃ u, (s.ahead pos)[k]? = some u ∧
      (tokenMatcher u "Semicolon" && decide (depthAt (s.ahead pos) (k + 1) = 0)) = false := by
    rw [split]
    rcases k with _ | _ | k
    · refine ⟨t, rfl, ?_⟩
      have type : t.tokenType = "Identifier" := of_decide_eq_true name
      simp [tokenMatcher, type]
    · refine ⟨t', rfl, ?_⟩
      have type : t'.tokenType = "LParen" := of_decide_eq_true paren
      simp [tokenMatcher, type]
    · have within : k < (s.ahead (pos + 2)).length := by omega
      refine ⟨(s.ahead (pos + 2))[k], List.getElem?_eq_getElem within, ?_⟩
      rw [depthAt_call name paren, Bool.and_eq_false_iff, decide_eq_false_iff_not]
      by_cases last : k = m
      · subst last
        have same : (s.ahead (pos + 2))[k] = c :=
          Option.some.inj ((List.getElem?_eq_getElem within).symm.trans here)
        left
        rw [same]
        have type : c.tokenType = "RParen" := of_decide_eq_true closes
        simp [tokenMatcher, type]
      · right
        have positive : 0 ≤ depthAt (s.ahead (pos + 2)) (k + 1) :=
          depthAt_nonneg (by omega) fun i below => before i (by omega)
        omega
  obtain ⟨u, token, goes_on⟩ := at_
  rw [gobbleTurn_token token, goes_on]
  rfl

/-- After the call the depth is 0 again. -/
theorem depthAt_closed (call : isMacroCallWithKeywordArg s pos = true)
    (closing : FirstClosing (s.ahead (pos + 2)) m) : depthAt (s.ahead pos) (m + 3) = 0 := by
  obtain ⟨t, t', name, paren, split⟩ := ahead_of_call call
  obtain ⟨⟨c, here, closes, level⟩, -⟩ := closing
  have type : c.tokenType = "RParen" := of_decide_eq_true closes
  rw [split, depthAt_call name paren, depthAt_succ here, level]
  simp [depthAfter, tokenMatcher, type]

def isSemicolon (t : Token) : Bool := tokenMatcher t "Semicolon"

/-- The loop takes the call up to its closing parenthesis and a `;` right behind it. -/
def SwallowsOnlyItself (s : TokenStream) (pos m : Nat) : Prop :=
  let semicolon := ((s.ahead pos)[m + 3]?.filter isSemicolon).toList
  ∃ final, Ends (gobbleTurn s) ⟨pos, 0, []⟩ final ∧
    final.taken = (s.ahead pos).take (m + 3) ++ semicolon ∧
    final.pos = pos + (m + 3) + semicolon.length

/-- No turn goes back. -/
theorem gobble_monotone {st final : Taking} (ends : Ends (gobbleTurn s) st final) :
    st.pos ≤ final.pos := by
  apply Ends.keeps (P := fun st' => st.pos ≤ st'.pos) _ _ (Nat.le_refl _) ends
  · intro st' st'' le step
    unfold gobbleTurn at step
    dsimp only at step
    split at step
    · cases step
    · split at step
      · cases step
      · rw [← Turn.next.inj step]
        exact Nat.le_succ_of_le le
  · intro st' st'' le step
    unfold gobbleTurn at step
    dsimp only at step
    split at step
    · rw [← Turn.stop.inj step]
      exact le
    · split at step
      · rw [← Turn.stop.inj step]
        exact Nat.le_succ_of_le le
      · cases step

/-- A keyword macro call swallows only itself if and only if what follows its closing
parenthesis is a `;` or the end of the input. -/
theorem gobble_exact_iff (call : isMacroCallWithKeywordArg s pos = true)
    (closing : FirstClosing (s.ahead (pos + 2)) m) :
    SwallowsOnlyItself s pos m ↔
      ∀ t, (s.ahead pos)[m + 3]? = some t → tokenMatcher t "Semicolon" = true := by
  unfold SwallowsOnlyItself
  dsimp only
  simp only [gobble_through call closing]
  cases behind : (s.ahead pos)[m + 3]? with
  | none =>
    constructor
    · intro _ t none_there
      cases none_there
    · intro _
      exact ⟨_, (Ends.stop_iff (gobbleTurn_end behind)).2 rfl, (List.append_nil _).symm, rfl⟩
  | some t =>
    have step := gobbleTurn_token behind
    by_cases semi : tokenMatcher t "Semicolon" = true
    · have type : t.tokenType = "Semicolon" := of_decide_eq_true semi
      have level : depthAt (s.ahead pos) (m + 4) = 0 := by
        rw [depthAt_succ behind, depthAt_closed call closing]
        simp [depthAfter, tokenMatcher, type]
      rw [semi, level] at step
      rw [Option.filter_some_pos (p := isSemicolon) semi, Option.toList_some]
      constructor
      · intro _ u same
        rw [← Option.some.inj same]
        exact semi
      · intro _
        refine ⟨_, (Ends.stop_iff step).2 rfl, ?_, ?_⟩
        · show (s.ahead pos).take (m + 3 + 1) = _
          rw [List.take_add_one, behind, Option.toList_some]
        · exact (Nat.add_assoc _ _ _).symm
    · rw [Bool.of_not_eq_true semi, Bool.false_and, if_neg Bool.false_ne_true] at step
      constructor
      · rintro ⟨final, ends, -, place⟩
        have later := gobble_monotone ((Ends.next_iff step).1 ends)
        have beyond : pos + (m + 3 + 1) ≤ final.pos := later
        rw [Option.filter_some_neg (p := isSemicolon) (Bool.of_not_eq_true semi), Option.toList_none,
          List.length_nil] at place
        omega
      · intro all
        exact absurd (all t rfl) semi

/-- A token of a one-line text, by its type. -/
def tokensOf (types : List String) : List Token :=
  types.zipIdx.map fun x => ⟨x.1, x.1, ⟨x.2, x.2, 1⟩⟩

/-- `CHECK(x, return x;); }`. -/
def checkedCall : TokenStream where
  tokens := tokensOf ["Identifier", "LParen", "Identifier", "Comma", "Return", "Identifier",
    "Semicolon", "RParen", "Semicolon", "RBrace"]
  noEof := by decide

/-- A call with a keyword and a semicolon inside, and one behind. -/
theorem gobble_exact_checked : SwallowsOnlyItself checkedCall 0 5 :=
  (gobble_exact_iff (by decide) (by decide)).2 fun t here => by
    rw [← Option.some.inj here]
    rfl

/-- `CHECK(x, return) }`. -/
def bareCall : TokenStream where
  tokens := tokensOf ["Identifier", "LParen", "Identifier", "Comma", "Return", "RParen", "RBrace"]
  noEof := by decide

/-- Without a semicolon behind the call the brace that closes the block is swallowed. -/
theorem gobble_takes_brace :
    isMacroCallWithKeywordArg bareCall 0 = true ∧ FirstClosing (bareCall.ahead 2) 3 ∧
      ¬SwallowsOnlyItself bareCall 0 3 := by
  refine ⟨by decide, by decide, ?_⟩
  rintro ⟨final, ends, -, place⟩
  have run : Ends (gobbleTurn bareCall) ⟨0, 0, []⟩ ⟨7, 0, bareCall.tokens⟩ := ⟨8, by decide⟩
  rw [← run.unique ends] at place
  exact absurd place (by decide)

end KeywordCall

end LibJuno.Parser
