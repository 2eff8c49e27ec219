import LibJuno.Resolver.ResolverUtils

/-!
# The resolution of failure handlers

`resolver/failureHandlerResolver.ts`. A line with a failing macro is answered from the
macro's second argument, a handler assignment from the definitions of the assigned function,
and any other reference from the declared type of the variable in front, whose handlers are
searched up the derivation chain.
-/

namespace LibJuno.Resolver

open Indexer

section Patterns

/-- `_pfcnFailureHandler|JUNO_FAILURE_HANDLER` -/
def FAILURE_HANDLER_PRESENCE_RE : Regex UInt16 :=
  .alt (Pattern.text "_pfcnFailureHandler") (Pattern.text "JUNO_FAILURE_HANDLER")

/-- `\b(JUNO_FAIL|JUNO_FAIL_MODULE|JUNO_FAIL_ROOT|JUNO_ASSERT_EXISTS_MODULE)\s*\(` -/
def FAIL_MACRO_RE : Regex UInt16 :=
  .chain [Pattern.boundary,
    .group 1 (.anyOf [Pattern.text "JUNO_FAIL", Pattern.text "JUNO_FAIL_MODULE",
      Pattern.text "JUNO_FAIL_ROOT", Pattern.text "JUNO_ASSERT_EXISTS_MODULE"]),
    Pattern.spaces, Pattern.text "("]

/-- `(\w+(?:\s*(?:->|\.)\s*\w+)*)\s*(?:->|\.)\s*(?:JUNO_FAILURE_HANDLER|_pfcnFailureHandler)\s*=\s*(\w+)` -/
def ASSIGNMENT_RE : Regex UInt16 :=
  .chain [.group 1 (.seq Pattern.word
      (.star true (.chain [Pattern.spaces, accessOp, Pattern.spaces, Pattern.word]))),
    Pattern.spaces, accessOp, Pattern.spaces,
    .alt (Pattern.text "JUNO_FAILURE_HANDLER") (Pattern.text "_pfcnFailureHandler"),
    Pattern.spaces, Pattern.text "=", Pattern.spaces, .group 2 Pattern.word]

/-- `(\w+)\s*(?:->|\.)` -/
def PRIMARY_VAR_RE : Regex UInt16 := .chain [.group 1 Pattern.word, Pattern.spaces, accessOp]

/-- `^\(\s*[\w\s*]+\)\s*`, without the anchor. -/
def castRe : Regex UInt16 :=
  .chain [Pattern.text "(", Pattern.spaces, .plus true (.sym fun u => isWord u || isSpace u || u == 42),
    Pattern.text ")", Pattern.spaces]

end Patterns

section Text

/-- `text.trim()` -/
def trim (text : CodeUnits) : CodeUnits :=
  ((text.dropWhile isSpace).reverse.dropWhile isSpace).reverse

/-- The arguments up to the closing parenthesis, from after the opening one; the one at which
the line ends is not collected. -/
def macroArgs : CodeUnits → Nat → CodeUnits → List CodeUnits
  | [], _, _ => []
  | ch :: rest, depth, arg =>
    if ch = 40 then macroArgs rest (depth + 1) (arg ++ [ch])
    else if ch = 41 then
      if depth = 1 then [arg] else macroArgs rest (depth - 1) (arg ++ [ch])
    else if ch = 44 ∧ depth = 1 then arg :: macroArgs rest depth []
    else macroArgs rest depth (arg ++ [ch])

def extractMacroArg (lineText : CodeUnits) (argIndex : Nat) : Option String :=
  (Regex.exec lineText FAIL_MACRO_RE 0).bind fun macroMatch =>
    (macroArgs (lineText.drop macroMatch.stop) 1 [])[argIndex]?.bind fun arg =>
      let trimmed := trim arg
      let uncast :=
        match Regex.matchAt trimmed castRe 0 with
        | some cast => trimmed.drop cast.stop
        | none => trimmed
      if trim uncast = [] then none else some (ofUnits (trim uncast))

/-- The first word of the assignment's left side, else the first word in front of an access. -/
def extractPrimaryIdent (assignMatch : Option Regex.Match) (lineText : CodeUnits) : Option String :=
  let lhs := assignMatch.map fun m => ((m.group lineText 1).getD []).takeWhile isWord
  match lhs.filter (· ≠ []) with
  | some word => some (ofUnits word)
  | none =>
    (Regex.exec lineText PRIMARY_VAR_RE 0).map fun m => ofUnits ((m.group lineText 1).getD [])

end Text

section Resolution

variable (index : NavigationIndex)

/-- The loop of `lookupHandlersByType`, for a number of rounds; no handlers when the chain has
none. -/
def handlersUp : Nat → List String → String → List ConcreteLocation
  | 0, _, _ => []
  | fuel + 1, visited, current =>
    if current ∈ visited then []
    else
      match index.failureHandlerAssignments.listAt current with
      | [] =>
        match index.derivationChain.get current with
        | some parent => handlersUp fuel (current :: visited) parent
        | none => []
      | locations => locations

def lookupHandlersByType (typeName : String) : List ConcreteLocation :=
  handlersUp index (index.derivationChain.entries.length + 1) [] typeName

/-- `{ ...l, kind: 'assignment' }` -/
def asAssignment (l : ConcreteLocation) : ConcreteLocation := { l with kind := some .assignment }

/-- The definitions of a function, as locations of a kind. -/
def definitionLocations (kind : LocationKind) (functionName : String) : List ConcreteLocation :=
  (index.functionDefinitions.listAt functionName).map fun d =>
    ⟨functionName, d.file, d.line, none, none, none, none, none, none, none, some kind⟩

/-- The handlers of a type, or a message that names the type given with it. -/
def handlersOrError (typeName named : String) : VtableResolutionResult :=
  match lookupHandlersByType index typeName with
  | [] => .notFound ("No failure handler registered for '" ++ named ++ "'.")
  | locations => .located (locations.map asAssignment)

/-- The branch of `JUNO_FAIL_MODULE`, `JUNO_ASSERT_EXISTS_MODULE` and `JUNO_FAIL_ROOT`; the
type that the last message names depends on the macro. -/
def resolveModuleMacro (macroName : String) (named : String → String) (file extractedArg : String)
    (enclosingFunc : Option String) : VtableResolutionResult :=
  match enclosingFunc.filter (· ≠ "") with
  | none => .notFound ("Could not resolve enclosing function for " ++ macroName ++ " call.")
  | some fn =>
    match lookupVariableType index file fn extractedArg with
    | none =>
      .notFound ("Could not resolve type of '" ++ extractedArg ++ "' in " ++ macroName ++ " call.")
    | some typeInfo => handlersOrError index typeInfo.typeName (named typeInfo.typeName)

def resolveFailMacro (macroName : String) (lineText : CodeUnits) (file : String)
    (enclosingFunc : Option String) : VtableResolutionResult :=
  match extractMacroArg lineText 1 with
  | none => .notFound ("Could not extract 2nd argument from " ++ macroName ++ " call.")
  | some extractedArg =>
    if macroName = "JUNO_FAIL" then
      match definitionLocations index .invocation extractedArg with
      | [] => .notFound ("No definition found for failure handler '" ++ extractedArg ++ "'.")
      | locations => .located locations
    else if macroName = "JUNO_FAIL_MODULE" ∨ macroName = "JUNO_ASSERT_EXISTS_MODULE" then
      resolveModuleMacro index macroName (walkToRootType index) file extractedArg enclosingFunc
    else if macroName = "JUNO_FAIL_ROOT" then
      resolveModuleMacro index macroName id file extractedArg enclosingFunc
    else .notFound ("Unrecognised FAIL macro: '" ++ macroName ++ "'.")

def NO_HANDLER_PATTERN_MSG : String := "Line does not contain a failure handler reference."

/-- The answer from the declared type of the variable. -/
def resolveByVariable (file : String) (enclosingFunc primaryIdent : Option String) :
    VtableResolutionResult :=
  let typeInfo := (primaryIdent.filter (· ≠ "")).bind fun primary =>
    (enclosingFunc.filter (· ≠ "")).bind fun fn => lookupVariableType index file fn primary
  match typeInfo with
  | some ti => handlersOrError index ti.typeName (walkToRootType index ti.typeName)
  | none =>
    .notFound "Could not resolve failure handler: enclosing function or variable type unknown."

/-- `FailureHandlerResolver.resolve`; the column is not looked at. -/
def resolveFailureHandler (file : String) (line : Nat) (lineText : CodeUnits)
    (functionName : Option String) : VtableResolutionResult :=
  let enclosingFunc := functionName.or (index.findEnclosingFunction file line)
  match Regex.exec lineText FAIL_MACRO_RE 0 with
  | some failMacroMatch =>
    let macroName := ofUnits ((failMacroMatch.group lineText 1).getD [])
    resolveFailMacro index macroName lineText file enclosingFunc
  | none =>
    if Regex.test lineText FAILURE_HANDLER_PRESENCE_RE then
      let assignMatch := Regex.exec lineText ASSIGNMENT_RE 0
      let assigned := assignMatch.map fun m =>
        definitionLocations index .assignment (ofUnits ((m.group lineText 2).getD []))
      match assigned.filter (· ≠ []) with
      | some locations => .located locations
      | none =>
        resolveByVariable index file enclosingFunc (extractPrimaryIdent assignMatch lineText)
    else .notFound NO_HANDLER_PATTERN_MSG

end Resolution

end LibJuno.Resolver
