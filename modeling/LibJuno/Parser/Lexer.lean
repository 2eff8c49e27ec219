import LibJuno.Indexer.Text
import LibJuno.Lib.Loop
import LibJuno.Lib.RegexRuns
import LibJuno.Lib.Scanner

/-!
# The lexer

The token types of `parser/lexer.ts` in the order in which the lexer library tries them, and
the library's loop over the text. The type that matches first is taken, or its `longer_alt`
where that matches more; a character that starts no token is dropped.
-/

namespace LibJuno.Parser

open Indexer

section Definitions

/-- A pattern: a regular expression, matched at the offset, or a function that gives the
image of the token. -/
inductive TokenPattern where
  | regex (re : Regex UInt16)
  | custom (exec : CodeUnits → Nat → Option CodeUnits)

/-- The end of the match at the offset. -/
def TokenPattern.stopAt (text : CodeUnits) (offset : Nat) : TokenPattern → Option Nat
  | regex re => (Regex.matchAt text re offset).map Regex.Match.stop
  | custom exec => (exec text offset).map fun image => offset + image.length

/-- What `createToken` is given. -/
structure TokenType where
  name : String
  pattern : TokenPattern
  longerAlt : Option (String × TokenPattern)
  skipped : Bool

/-- The name and the end of the token that the type gives at the offset. -/
def TokenType.matchAt (text : CodeUnits) (offset : Nat) (t : TokenType) : Option (String × Nat) :=
  (t.pattern.stopAt text offset).map fun stop =>
    match t.longerAlt.bind fun alt => (alt.2.stopAt text offset).map fun stop => (alt.1, stop) with
    | some alt => if stop < alt.2 then alt else (t.name, stop)
    | none => (t.name, stop)

def isDigit (u : UInt16) : Bool := 48 ≤ u && u ≤ 57

/-- `[ \t]`. -/
def isIndent (u : UInt16) : Bool := u == 32 || u == 9

/-- `[ \t\r\n]`. -/
def isWhite (u : UInt16) : Bool := u == 32 || u == 9 || u == 13 || u == 10

def oneOf (s : String) : Regex UInt16 := .sym fun u => decide (u ∈ utf16 s)

def noneOf (s : String) : Regex UInt16 := .sym fun u => decide (u ∉ utf16 s)

def digits : Regex UInt16 := .plus true (.sym isDigit)

/-- `r?`. -/
def optional (r : Regex UInt16) : Regex UInt16 := .alt r .eps

end Definitions

section Directive

/-- `#[ \t]*` is followed by one of these. -/
def directiveKeywords : List String :=
  ["define", "include", "ifdef", "ifndef", "if", "elif", "else", "endif", "pragma", "undef", "error",
    "warning", "line"]

/-- `_hashDirectiveRe` -/
def hashDirectiveRe : Regex UInt16 :=
  .chain [.star true (.sym isIndent), Pattern.text "#", .star true (.sym isIndent),
    .anyOf (directiveKeywords.map Pattern.text)]

/-- The loop of `lookBack`: the last character before the position that is no space, tab or
carriage return is a backslash. -/
def lookBack (remaining : CodeUnits) : Nat → Bool
  | 0 => false
  | pos + 1 =>
    match remaining[pos]? with
    | some ch => if ch = 32 ∨ ch = 9 ∨ ch = 13 then lookBack remaining pos else decide (ch = 92)
    | none => false

/-- One turn of the loop over the rest of the directive. -/
def directiveTurn (remaining : CodeUnits) (pos : Nat) : Turn Nat :=
  match remaining[pos]? with
  | some ch =>
    if ch = 10 then if lookBack remaining pos then .next (pos + 1) else .stop pos
    else .next (pos + 1)
  | none => .stop pos

/-- The custom pattern of `HashDirective`. -/
def hashDirective (text : CodeUnits) (startOffset : Nat) : Option CodeUnits :=
  if startOffset ≠ 0 ∧ text[startOffset - 1]? ≠ some 10 then none
  else
    let remaining := text.drop startOffset
    match Regex.exec remaining hashDirectiveRe 0 with
    | none => none
    | some m =>
      if m.index ≠ 0 then none
      else (loop (directiveTurn remaining) (remaining.length + 1) m.stop).map fun pos =>
        remaining.take pos

end Directive

section Table

/-- `[a-zA-Z_][a-zA-Z0-9_]*` -/
def identifierRe : Regex UInt16 :=
  .seq (.sym fun u => isWord u && !isDigit u) (.star true (.sym isWord))

def plain (name image : String) : TokenType := ⟨name, .regex (Pattern.text image), none, false⟩

def keyword (name image : String) : TokenType :=
  ⟨name, .regex (Pattern.text image), some ("Identifier", .regex identifierRe), false⟩

/-- The names of a macro, each up to a word boundary. -/
def junoMacro (name : String) (images : List String) : TokenType :=
  ⟨name, .regex (.anyOf (images.map fun image => .seq (Pattern.text image) Pattern.boundary)), none,
    false⟩

/-- `(?:[eE][+-]?[0-9]+)` -/
def exponent : Regex UInt16 := .chain [oneOf "eE", optional (oneOf "+-"), digits]

def floatingLiteralRe : Regex UInt16 :=
  .anyOf [
    .chain [.star true (.sym isDigit), Pattern.text ".", digits, optional exponent,
      optional (oneOf "fFlL")],
    .chain [digits, Pattern.text ".", .star true (.sym isDigit), optional exponent,
      optional (oneOf "fFlL")],
    .chain [digits, exponent, optional (oneOf "fFlL")]]

def integerLiteralRe : Regex UInt16 :=
  .anyOf [
    .chain [Pattern.text "0", oneOf "xX", .plus true (oneOf "0123456789abcdefABCDEF"),
      .star true (oneOf "uUlL")],
    .chain [Pattern.text "0", .star true (oneOf "01234567"), .star true (oneOf "uUlL")],
    .chain [oneOf "123456789", .star true (.sym isDigit), .star true (oneOf "uUlL")]]

/-- `L?"(?:[^"\\]|\\.)*"` -/
def stringLiteralRe : Regex UInt16 :=
  .chain [optional (Pattern.text "L"), Pattern.text "\"",
    .star true (.alt (noneOf "\"\\") (.seq (Pattern.text "\\") (.sym isNotNewline))), Pattern.text "\""]

/-- `L?'(?:[^'\\]|\\.)+'` -/
def charLiteralRe : Regex UInt16 :=
  .chain [optional (Pattern.text "L"), Pattern.text "'",
    .plus true (.alt (noneOf "'\\") (.seq (Pattern.text "\\") (.sym isNotNewline))), Pattern.text "'"]

def whiteSpaceRe : Regex UInt16 := .plus true (.sym isWhite)

/-- `\/\/[^\n]*` -/
def lineCommentRe : Regex UInt16 := .seq (Pattern.text "//") (.star true (noneOf "\n"))

/-- `\/\*[\s\S]*?\*\/` -/
def blockCommentRe : Regex UInt16 :=
  .chain [Pattern.text "/*", .star false (.sym fun _ => true), Pattern.text "*/"]

def allTokens : List TokenType := [
  ⟨"HashDirective", .custom hashDirective, none, false⟩,
  ⟨"WhiteSpace", .regex whiteSpaceRe, none, true⟩,
  ⟨"LineComment", .regex lineCommentRe, none, true⟩,
  ⟨"BlockComment", .regex blockCommentRe, none, true⟩,
  junoMacro "JunoModuleRootDeclare" ["JUNO_MODULE_ROOT_DECLARE"],
  junoMacro "JunoModuleDeriveDeclare" ["JUNO_MODULE_DERIVE_DECLARE"],
  junoMacro "JunoModuleGetApi" ["JUNO_MODULE_GET_API"],
  junoMacro "JunoModuleResult" ["JUNO_MODULE_RESULT"],
  junoMacro "JunoModuleOption" ["JUNO_MODULE_OPTION"],
  junoMacro "JunoModuleSuper" ["JUNO_MODULE_SUPER"],
  junoMacro "JunoModuleEmpty" ["JUNO_MODULE_EMPTY"],
  junoMacro "JunoModuleRoot" ["JUNO_MODULE_ROOT"],
  junoMacro "JunoModuleDerive" ["JUNO_MODULE_DERIVE"],
  junoMacro "JunoModuleDeclare" ["JUNO_MODULE_DECLARE"],
  junoMacro "JunoModuleArg" ["JUNO_MODULE_ARG"],
  junoMacro "JunoModule" ["JUNO_MODULE"],
  junoMacro "JunoTraitRoot" ["JUNO_TRAIT_ROOT"],
  junoMacro "JunoTraitDerive" ["JUNO_TRAIT_DERIVE"],
  junoMacro "JunoFailureHandler" ["JUNO_FAILURE_HANDLER", "_pfcnFailureHandler"],
  junoMacro "JunoFailureUserData" ["JUNO_FAILURE_USER_DATA", "_pvFailureUserData"],
  keyword "Static" "static", keyword "Const" "const", keyword "Inline" "inline",
  keyword "Struct" "struct", keyword "Union" "union", keyword "Enum" "enum",
  keyword "Typedef" "typedef", keyword "Extern" "extern", keyword "Volatile" "volatile",
  keyword "Void" "void", keyword "Char" "char", keyword "Short" "short", keyword "Int" "int",
  keyword "Long" "long", keyword "Float" "float", keyword "Double" "double",
  keyword "Signed" "signed", keyword "Unsigned" "unsigned", keyword "SizeT" "size_t",
  keyword "Bool" "_Bool", keyword "If" "if", keyword "Else" "else", keyword "For" "for",
  keyword "While" "while", keyword "Do" "do", keyword "Switch" "switch", keyword "Case" "case",
  keyword "Default" "default", keyword "Break" "break", keyword "Continue" "continue",
  keyword "Return" "return", keyword "Goto" "goto", keyword "Sizeof" "sizeof",
  ⟨"FloatingLiteral", .regex floatingLiteralRe, none, false⟩,
  ⟨"IntegerLiteral", .regex integerLiteralRe, none, false⟩,
  ⟨"StringLiteral", .regex stringLiteralRe, none, false⟩,
  ⟨"CharLiteral", .regex charLiteralRe, none, false⟩,
  plain "Ellipsis" "...", plain "ArrowOp" "->", plain "PlusPlus" "++", plain "MinusMinus" "--",
  plain "LShiftAssign" "<<=", plain "RShiftAssign" ">>=", plain "LShift" "<<", plain "RShift" ">>",
  plain "LtEq" "<=", plain "GtEq" ">=", plain "EqEq" "==", plain "BangEq" "!=", plain "AmpAmp" "&&",
  plain "PipePipe" "||", plain "PlusAssign" "+=", plain "MinusAssign" "-=", plain "StarAssign" "*=",
  plain "SlashAssign" "/=", plain "PercentAssign" "%=", plain "AmpAssign" "&=",
  plain "PipeAssign" "|=", plain "CaretAssign" "^=",
  plain "LBrace" "\x7b", plain "RBrace" "\x7d", plain "LParen" "(", plain "RParen" ")",
  plain "LBracket" "[", plain "RBracket" "]", plain "Semicolon" ";", plain "Comma" ",",
  plain "Dot" ".", plain "Assign" "=", plain "Star" "*", plain "Amp" "&", plain "Plus" "+",
  plain "Minus" "-", plain "Slash" "/", plain "Percent" "%", plain "Bang" "!", plain "Tilde" "~",
  plain "Lt" "<", plain "Gt" ">", plain "Colon" ":", plain "Question" "?", plain "Caret" "^",
  plain "Pipe" "|", plain "Hash" "#",
  ⟨"Identifier", .regex identifierRe, none, false⟩]

end Table

section Tokenize

/-- The token at the offset, by the first type that matches there. -/
def scanToken (text : CodeUnits) (offset : Nat) : Option (String × Nat) :=
  allTokens.findSome? (TokenType.matchAt text offset)

/-- The matches of the lexer, skipped ones included. -/
def lexemes (text : CodeUnits) : List (Scanner.Lexeme String) :=
  Scanner.lexemes (scanToken text) text.length

def isSkipped (name : String) : Bool := allTokens.any fun t => t.name == name && t.skipped

/-- `CLexer.tokenize(text).tokens` -/
def tokenize (text : CodeUnits) : List (Scanner.Lexeme String) :=
  (lexemes text).filter fun l => !isSkipped l.name

end Tokenize

section Rules

/-- The names a token may get and the patterns for them. -/
def TokenType.rules (t : TokenType) : List (String × TokenPattern) :=
  (t.name, t.pattern) :: t.longerAlt.toList

/-- The rules by a regular expression, but for that of white space. -/
def regexRules : List (String × Regex UInt16) :=
  (allTokens.drop 2).flatMap fun t => t.rules.filterMap fun r =>
    match r.2 with
    | .regex re => some (r.1, re)
    | .custom _ => none

set_option maxRecDepth 4000 in
theorem rules_eq : allTokens.flatMap TokenType.rules = ("HashDirective", .custom hashDirective) ::
    ("WhiteSpace", .regex whiteSpaceRe) :: regexRules.map fun r => (r.1, .regex r.2) := rfl

variable {text : CodeUnits} {offset : Nat} {x : String × Nat}

/-- A token has the name and the end of one of the rules of its type. -/
theorem TokenType.rule_of_matchAt {t : TokenType} (h : t.matchAt text offset = some x) :
    ∃ r ∈ t.rules, r.1 = x.1 ∧ r.2.stopAt text offset = some x.2 := by
  obtain ⟨stop, own, rest⟩ := Option.map_eq_some_iff.1 h
  have self : ∃ r ∈ t.rules, r.1 = t.name ∧ r.2.stopAt text offset = some stop :=
    ⟨_, List.mem_cons_self, rfl, own⟩
  split at rest
  · next alt longer =>
    obtain ⟨r, listed, found⟩ := Option.bind_eq_some_iff.1 longer
    obtain ⟨stop', other, rfl⟩ := Option.map_eq_some_iff.1 found
    split at rest
    · rw [← rest]
      exact ⟨r, List.mem_cons_of_mem _ (Option.mem_toList.2 listed), rfl, other⟩
    · rw [← rest]
      exact self
  · rw [← rest]
    exact self

/-- A match of the rule's expression ends there. -/
def StopsAt (text : CodeUnits) (re : Regex UInt16) (offset stop : Nat) : Prop :=
  ∃ m, Regex.matchAt text re offset = some m ∧ m.stop = stop

/-- By which rule a token is taken. -/
theorem scanToken_cases (h : scanToken text offset = some x) :
    (x.1 = "HashDirective" ∧ ∃ image, hashDirective text offset = some image ∧
      offset + image.length = x.2) ∨
    (x.1 = "WhiteSpace" ∧ StopsAt text whiteSpaceRe offset x.2) ∨
    ∃ r ∈ regexRules, r.1 = x.1 ∧ StopsAt text r.2 offset x.2 := by
  obtain ⟨t, listed, found⟩ := List.exists_of_findSome?_eq_some h
  obtain ⟨r, own, name, stop⟩ := TokenType.rule_of_matchAt found
  have member : r ∈ allTokens.flatMap TokenType.rules := List.mem_flatMap.2 ⟨t, listed, own⟩
  rw [rules_eq] at member
  rcases List.mem_cons.1 member with rfl | member
  · exact .inl ⟨name.symm, Option.map_eq_some_iff.1 stop⟩
  · rcases List.mem_cons.1 member with rfl | member
    · exact .inr (.inl ⟨name.symm, Option.map_eq_some_iff.1 stop⟩)
    · obtain ⟨r', rule, rfl⟩ := List.mem_map.1 member
      exact .inr (.inr ⟨r', rule, name, Option.map_eq_some_iff.1 stop⟩)

/-- What is checked of every rule in the table: it matches no empty word, its token is no
directive, does not end with a newline, and has a newline and a `#` in it only if it is a
comment, a string or a character. -/
def ruleChecks (r : String × Regex UInt16) : Bool :=
  !Regex.nullable r.2 && decide (r.1 ≠ "HashDirective") && !Regex.mayEnd 10 r.2 &&
    (!(Regex.mayHave 10 r.2 && Regex.mayHave 35 r.2) ||
      decide (r.1 ∈ ["BlockComment", "StringLiteral", "CharLiteral"]))

theorem ruleChecks_of_rule : ∀ r ∈ regexRules, ruleChecks r = true := by
  decide +kernel

theorem not_nullable_of_rule {r : String × Regex UInt16} (rule : r ∈ regexRules) :
    Regex.nullable r.2 = false := by
  have checked := ruleChecks_of_rule r rule
  simp only [ruleChecks, Bool.and_eq_true, Bool.not_eq_true'] at checked
  exact checked.1.1.1

theorem ne_hashDirective_of_rule {r : String × Regex UInt16} (rule : r ∈ regexRules) :
    r.1 ≠ "HashDirective" := by
  have checked := ruleChecks_of_rule r rule
  simp only [ruleChecks, Bool.and_eq_true, decide_eq_true_eq] at checked
  exact checked.1.1.2

/-- No token but white space ends with a newline. -/
theorem not_mayEnd_newline_of_rule {r : String × Regex UInt16} (rule : r ∈ regexRules) :
    Regex.mayEnd 10 r.2 = false := by
  have checked := ruleChecks_of_rule r rule
  simp only [ruleChecks, Bool.and_eq_true, Bool.not_eq_true'] at checked
  exact checked.1.2

/-- The tokens that can have a newline and a `#` in them. -/
theorem name_of_rule_newline_hash {r : String × Regex UInt16} (rule : r ∈ regexRules)
    (newline : Regex.mayHave 10 r.2 = true) (hash : Regex.mayHave 35 r.2 = true) :
    r.1 ∈ ["BlockComment", "StringLiteral", "CharLiteral"] := by
  have checked := ruleChecks_of_rule r rule
  rw [ruleChecks, newline, hash, Bool.and_eq_true] at checked
  exact of_decide_eq_true checked.2

theorem lt_of_stopsAt {re : Regex UInt16} {stop : Nat} (h : StopsAt text re offset stop)
    (nonempty : Regex.nullable re = false) : offset < stop := by
  obtain ⟨m, found, rfl⟩ := h
  have member := (Regex.mem_of_matchAt found).2
  apply Nat.lt_of_le_of_ne (Regex.le_of_mem_runs member)
  intro same
  rw [Regex.nullable_of_mem_runs member same.symm] at nonempty
  cases nonempty

theorem mayHave_of_stopsAt {re : Regex UInt16} {stop k : Nat} {u : UInt16}
    (h : StopsAt text re offset stop) (above : offset ≤ k) (below : k < stop)
    (here : text[k]? = some u) : Regex.mayHave u re = true := by
  obtain ⟨m, found, rfl⟩ := h
  exact Regex.mayHave_of_mem_runs (Regex.mem_of_matchAt found).2 above below here

theorem mayEnd_of_stopsAt {re : Regex UInt16} {stop : Nat} {u : UInt16}
    (h : StopsAt text re offset stop) (longer : offset < stop) (last : text[stop - 1]? = some u) :
    Regex.mayEnd u re = true := by
  obtain ⟨m, found, rfl⟩ := h
  exact Regex.mayEnd_of_mem_runs (Regex.mem_of_matchAt found).2 longer last

/-- White space is taken up to its end. -/
theorem not_white_at_stop {stop : Nat} (h : StopsAt text whiteSpaceRe offset stop) {u : UInt16}
    (here : text[stop]? = some u) : isWhite u = false := by
  obtain ⟨m, found, rfl⟩ := h
  obtain ⟨y, first, -⟩ := Regex.mem_runs_seq.1 (Regex.mem_of_matchAt found).2
  obtain ⟨a, starts, white, -⟩ := Regex.mem_runs_sym first
  obtain ⟨j, span⟩ := Regex.exists_span text isWhite offset
  have whole : Regex.matchAt text whiteSpaceRe offset = some ⟨offset, j, []⟩ :=
    Regex.matchAt_plus_greedy span (span.lt_of_here starts white)
  rw [found] at whole
  rw [Option.some.inj whole] at here
  exact span.stops u here

/-- Blanks and newlines start a token. -/
theorem scanToken_of_white {u : UInt16} (here : text[offset]? = some u) (white : isWhite u = true) :
    scanToken text offset ≠ none := by
  intro nothing
  obtain ⟨j, span⟩ := Regex.exists_span text isWhite offset
  have whole : Regex.matchAt text whiteSpaceRe offset = some ⟨offset, j, []⟩ :=
    Regex.matchAt_plus_greedy span (span.lt_of_here here white)
  have blank := List.findSome?_eq_none_iff.1 nothing ⟨"WhiteSpace", .regex whiteSpaceRe, none, true⟩
    (List.mem_cons_of_mem _ List.mem_cons_self)
  rw [TokenType.matchAt, TokenPattern.stopAt, whole] at blank
  cases blank

end Rules

end LibJuno.Parser
