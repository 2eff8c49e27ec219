import LibJuno.Lib.RegexOne
import LibJuno.Parser.Directives

/-!
# The lexer loses nothing

A character that the lexer does not know is skipped with an error. Those are few: every
character of the basic character set of C is a token by itself if nothing longer starts
there, but for the backslash, the quotes and the two blanks that `WhiteSpace` leaves out, the
vertical tab and the form feed. So the tokens, white space and comments included, are the
text cut into pieces (`lexer_tiles`).
-/

namespace LibJuno.Parser

open Indexer

/-- The characters that always start a token; the blanks among them are the space, the tab, the
carriage return and the newline. -/
def basicCharacters : CodeUnits :=
  utf16 ("\t\n\r !#%&()*+,-./0123456789:;<=>?ABCDEFGHIJKLMNOPQRSTUVWXYZ[]^_" ++
    "abcdefghijklmnopqrstuvwxyz\x7b|\x7d~")

/-- The type takes the one character. -/
def TokenType.takesOne (u : UInt16) (t : TokenType) : Bool :=
  match t.pattern with
  | .regex re => Regex.takesOne u re
  | .custom _ => false

section Characters

variable {text : CodeUnits} {o : Nat} {u : UInt16}

theorem takesOne_of_basic (basic : u ∈ basicCharacters) : ∃ t ∈ allTokens, t.takesOne u = true := by
  have all : (basicCharacters.all fun u => allTokens.any (·.takesOne u)) = true := by decide +kernel
  exact List.any_eq_true.1 (List.all_eq_true.1 all u basic)

theorem name_of_skipped : ∀ t ∈ allTokens, t.skipped = true →
    t.name ∈ ["WhiteSpace", "LineComment", "BlockComment"] := by
  decide +kernel

theorem TokenType.matchAt_of_takesOne {t : TokenType} (takes : t.takesOne u = true)
    (here : text[o]? = some u) : t.matchAt text o ≠ none := by
  obtain ⟨name, pattern, longerAlt, skipped⟩ := t
  cases pattern with
  | custom exec => cases takes
  | regex re =>
    have found := Regex.matchAt_of_takesOne takes here
    intro nothing
    rw [TokenType.matchAt, Option.map_eq_none_iff, TokenPattern.stopAt, Option.map_eq_none_iff] at nothing
    exact found nothing

theorem scanToken_of_basic (here : text[o]? = some u) (basic : u ∈ basicCharacters) :
    scanToken text o ≠ none := by
  obtain ⟨t, listed, takes⟩ := takesOne_of_basic basic
  intro nothing
  exact TokenType.matchAt_of_takesOne takes here (List.findSome?_eq_none_iff.1 nothing t listed)

/-- A token ends within the text. -/
theorem stop_le_of_scanToken {x : String × Nat} (inside : o < text.length)
    (scanned : scanToken text o = some x) : x.2 ≤ text.length := by
  have within : ∀ re, StopsAt text re o x.2 → x.2 ≤ text.length := by
    rintro re ⟨m, found, stop⟩
    have member := (Regex.mem_of_matchAt found).2
    rw [stop] at member
    exact Regex.stop_le_of_mem_runs member inside.le
  rcases scanToken_cases scanned with ⟨-, image, matched, same⟩ | ⟨-, stops⟩ | ⟨r, -, -, stops⟩
  · obtain ⟨q, line⟩ := directiveLine_of_hashDirective matched
    rw [← same]
    exact line.logical.le_length
  · exact within _ stops
  · exact within _ stops

end Characters

/-- **The lexer tiles the text.** Its tokens, white space and comments included, follow one another
without overlap within the text. A character that is in none of them is skipped, and it is not one
of the basic ones, so where there are only basic characters the tokens spell the text. The
parser gets all of them but white space and comments. -/
theorem lexer_tiles (text : CodeUnits) :
    (lexemes text).Pairwise (fun l l' => l.stop ≤ l'.start) ∧
    (∀ l ∈ lexemes text, l.start < l.stop ∧ l.stop ≤ text.length) ∧
    (∀ k u, text[k]? = some u → (∃ l ∈ lexemes text, l.start ≤ k ∧ k < l.stop) ∨ u ∉ basicCharacters) ∧
    ((∀ u ∈ text, u ∈ basicCharacters) →
      (lexemes text).flatMap (Scanner.Lexeme.image text) = text) ∧
    ∀ l ∈ lexemes text, l ∈ tokenize text ∨ l.name ∈ ["WhiteSpace", "LineComment", "BlockComment"] := by
  refine ⟨Scanner.pairwise_lexemes scanToken_progresses, ?_, ?_, ?_, ?_⟩
  · intro l member
    obtain ⟨-, inside, scanned⟩ := mem_lexemes.1 member
    exact ⟨scanToken_progresses _ _ scanned, stop_le_of_scanToken inside scanned⟩
  · intro k u here
    have inside := (List.getElem?_eq_some_iff.1 here).1
    rcases Scanner.visits_or_inside scanToken_progresses inside.le with visited | ⟨l, member, before, after⟩
    · cases scanned : scanToken text k with
      | none => exact .inr fun basic => scanToken_of_basic here basic scanned
      | some x =>
        exact .inl ⟨⟨x.1, k, x.2⟩, mem_lexemes.2 ⟨visited, inside, scanned⟩, Nat.le_refl k,
          scanToken_progresses k x scanned⟩
    · exact .inl ⟨l, member, before.le, after⟩
  · intro basic
    refine Scanner.images_lexemes scanToken_progresses (fun o inside x => stop_le_of_scanToken inside)
      fun o inside _ => ?_
    exact scanToken_of_basic (List.getElem?_eq_getElem inside) (basic _ (List.getElem_mem inside))
  · intro l member
    by_cases skipped : isSkipped l.name = true
    · obtain ⟨t, listed, both⟩ := List.any_eq_true.1 skipped
      rw [Bool.and_eq_true, beq_iff_eq] at both
      exact .inr (both.1 ▸ name_of_skipped t listed both.2)
    · exact .inl (List.mem_filter.2 ⟨member, by simpa using skipped⟩)

end LibJuno.Parser
