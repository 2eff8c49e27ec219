import LibJuno.Resolver.ResolverUtils

/-!
# The resolution of vtable calls

`resolver/vtableResolver.ts`. Three patterns are searched in the line, one after the other,
for a match under the cursor; what is found is a call through a root type or through a
chain of members, and the index decides where it leads. `resolve_answers` says what the
result is in terms of the call under the cursor and the lists of the index.
-/

namespace LibJuno.Resolver

open Indexer

section Patterns

/-- `JUNO_MODULE_GET_API\s*\(\s*\w+\s*,\s*(\w+)\s*\)\s*->\s*(\w+)\s*\(` -/
def macroRe : Regex UInt16 :=
  .chain [Pattern.text "JUNO_MODULE_GET_API", Pattern.spaces, Pattern.text "(", Pattern.spaces,
    Pattern.word, Pattern.spaces, Pattern.text ",", Pattern.spaces, .group 1 Pattern.word,
    Pattern.spaces, Pattern.text ")", Pattern.spaces, Pattern.text "->", Pattern.spaces,
    .group 2 Pattern.word, Pattern.spaces, Pattern.text "("]

/-- `((?:\s*(?:->|\.)\s*\w+)*)` -/
def accessors : Regex UInt16 :=
  .group 2 (.star true (.chain [Pattern.spaces, accessOp, Pattern.spaces, Pattern.word]))

/-- `\s*->\s*(\w+)\s*\(` -/
def calledField : Regex UInt16 :=
  .chain [Pattern.spaces, Pattern.text "->", Pattern.spaces, .group 3 Pattern.word, Pattern.spaces,
    Pattern.text "("]

/-- `(\w+)\s*\[.*?\]((?:\s*(?:->|\.)\s*\w+)*)\s*->\s*(\w+)\s*\(` -/
def arrayRe : Regex UInt16 :=
  .chain [.group 1 Pattern.word, Pattern.spaces, Pattern.text "[", .star false (.sym isNotNewline),
    Pattern.text "]", accessors, calledField]

/-- `(\w+)((?:\s*(?:->|\.)\s*\w+)*)\s*->\s*(\w+)\s*\(` -/
def generalRe : Regex UInt16 := .chain [.group 1 Pattern.word, accessors, calledField]

/-- The text of a group; the patterns have all their groups in every match. -/
def groupUnits (lineText : CodeUnits) (m : Regex.Match) (n : Nat) : CodeUnits :=
  (m.group lineText n).getD []

def groupText (lineText : CodeUnits) (m : Regex.Match) (n : Nat) : String :=
  ofUnits (groupUnits lineText m n)

/-- The first match of the pattern that covers the column. -/
def matchUnder (re : Regex UInt16) (lineText : CodeUnits) (column : Nat) : Option Regex.Match :=
  (Regex.execAll lineText re).find? fun m => m.covers column

end Patterns

section Resolution

variable (index : NavigationIndex)

/-- `this.index.moduleRoots.get(rootType) ?? this.index.traitRoots.get(rootType)`, when it is
not the empty string. -/
def apiTypeOf (rootType : String) : Option String :=
  ((index.moduleRoots.get rootType).or (index.traitRoots.get rootType)).filter (· ≠ "")

def lookupVtable (apiType fieldName : String) : VtableResolutionResult :=
  match index.vtableAssignments.get apiType with
  | none => .notFound ("No vtable assignments found for '" ++ apiType ++ "'.")
  | some fieldMap =>
    match fieldMap.listAt fieldName with
    | [] => .notFound ("No implementation found for '" ++ apiType ++ "::" ++ fieldName ++ "'.")
    | locations => .located locations

/-- `path.basename`: what follows the last slash, trailing slashes apart. -/
def basename (path : String) : String :=
  String.ofList (((path.toList.reverse.dropWhile (· = '/')).takeWhile (· ≠ '/')).reverse)

/-- The implementations of the field of every API type that has it. -/
def fieldLocations (fieldName : String) : List ConcreteLocation :=
  index.apiStructFields.entries.flatMap fun e =>
    if fieldName ∈ e.2 then implementations index.vtableAssignments e.1 fieldName else []

def fieldNameFallback (file fieldName : String) : VtableResolutionResult :=
  match fieldLocations index fieldName with
  | [] =>
    if index.localTypeInfo.has file then
      .notFound ("No API type contains field '" ++ fieldName ++ "'.")
    else
      .notFound ("File '" ++ basename file ++ "' has not been indexed. Ensure the file is within " ++
        "the workspace and LibJuno has finished indexing.")
  | allLocations => .located allLocations

/-- The API type that the primary identifier's declared type leads to. -/
def primaryCandidate (file : String) (enclosingFunc : Option String) (primary : String) :
    Option String :=
  (enclosingFunc.filter (· ≠ "")).bind fun fn =>
    (lookupVariableType index file fn primary).bind fun typeInfo =>
      if "_API_T".toList.isSuffixOf typeInfo.typeName.toList then some typeInfo.typeName
      else apiTypeOf index (walkToRootType index typeInfo.typeName)

/-- The API type that the last member is registered with. -/
def memberCandidate (lastMember : Option String) : Option String :=
  (lastMember.bind index.apiMemberRegistry.get).filter (· ≠ "")

/-- The candidates in the order in which they are tried. -/
def apiTypeCandidates (file : String) (enclosingFunc : Option String) (primary : String)
    (lastMember : Option String) : List String :=
  let first := (primaryCandidate index file enclosingFunc primary).toList
  first ++ (memberCandidate index lastMember).toList.filter fun apiType => decide (apiType ∉ first)

def resolveChain (file : String) (enclosingFunc : Option String) (primary : String)
    (chainStr : CodeUnits) (fieldName : String) : VtableResolutionResult :=
  let candidates :=
    apiTypeCandidates index file enclosingFunc primary (parseIntermediates chainStr).getLast?
  match (candidates.map fun apiType => lookupVtable index apiType fieldName).find? fun r => r.found with
  | some result => result
  | none =>
    let fallback := fieldNameFallback index file fieldName
    if fallback.found then fallback
    else
      match candidates with
      | apiType :: _ => lookupVtable index apiType fieldName
      | [] => fallback

def resolveByRootField (rootType fieldName : String) : VtableResolutionResult :=
  let walkedRoot := walkToRootType index rootType
  match apiTypeOf index walkedRoot with
  | none => .notFound ("No API type registered for root '" ++ walkedRoot ++ "'.")
  | some apiType => lookupVtable index apiType fieldName

/-- Where the patterns occur in the line, with the fields they call. -/
def allMatches (lineText : CodeUnits) : List (Nat × String) :=
  ((Regex.execAll lineText macroRe).map fun m => (m.index, groupText lineText m 2)) ++
    ((Regex.execAll lineText arrayRe).map fun m => (m.index, groupText lineText m 3)) ++
    (Regex.execAll lineText generalRe).map fun m => (m.index, groupText lineText m 3)

/-- `Math.abs(a - b)` -/
def distance (a b : Nat) : Nat := (a - b) + (b - a)

def noPattern (column : Nat) (lineText : CodeUnits) : VtableResolutionResult :=
  match allMatches lineText with
  | [] => .notFound "No LibJuno API call pattern found at cursor position."
  | first :: rest =>
    let nearest := rest.foldl
      (fun best cur => if distance cur.1 column < distance best.1 column then cur else best) first
    .notFound ("No LibJuno API call pattern found at col " ++ toString column ++
      ". Nearest vtable call: '" ++ nearest.2 ++ "' at col " ++ toString nearest.1 ++ ".")

/-- `VtableResolver.resolve`, with a 0-based column. -/
def resolve (file : String) (line column : Nat) (lineText : CodeUnits)
    (functionName : Option String) : VtableResolutionResult :=
  let enclosingFunc := functionName.or (index.findEnclosingFunction file line)
  match matchUnder macroRe lineText column with
  | some m => resolveByRootField index (groupText lineText m 1) (groupText lineText m 2)
  | none =>
    match matchUnder arrayRe lineText column with
    | some m =>
      resolveChain index file enclosingFunc (groupText lineText m 1) (groupUnits lineText m 2)
        (groupText lineText m 3)
    | none =>
      match matchUnder generalRe lineText column with
      | some m =>
        resolveChain index file enclosingFunc (groupText lineText m 1) (groupUnits lineText m 2)
          (groupText lineText m 3)
      | none => noPattern column lineText

end Resolution

section Calls

/-- A call as far as its resolution goes: through a root type, or through a variable and the
last member on the way to the field. -/
inductive Call where
  | ofRoot (rootType fieldName : String)
  | ofChain (primary : String) (lastMember : Option String) (fieldName : String)
deriving DecidableEq

def Call.field : Call → String
  | .ofRoot _ fieldName | .ofChain _ _ fieldName => fieldName

/-- The call that a match of one of the chain patterns is. -/
def chainCall (lineText : CodeUnits) (m : Regex.Match) : Call :=
  .ofChain (groupText lineText m 1) (parseIntermediates (groupUnits lineText m 2)).getLast?
    (groupText lineText m 3)

/-- The call under the column. -/
def callAt (lineText : CodeUnits) (column : Nat) : Option Call :=
  match matchUnder macroRe lineText column with
  | some m => some (.ofRoot (groupText lineText m 1) (groupText lineText m 2))
  | none =>
    match matchUnder arrayRe lineText column with
    | some m => some (chainCall lineText m)
    | none => (matchUnder generalRe lineText column).map (chainCall lineText)

variable (index : NavigationIndex) (file : String) (enclosingFunc : Option String)

/-- The API types that are asked for the field of a call. -/
def Call.apiTypes : Call → List String
  | .ofRoot rootType _ => (apiTypeOf index (walkToRootType index rootType)).toList
  | .ofChain primary lastMember _ => apiTypeCandidates index file enclosingFunc primary lastMember

/-- The locations to use when none of the API types has an implementation. -/
def Call.elsewhere : Call → List ConcreteLocation
  | .ofRoot _ _ => []
  | .ofChain _ _ fieldName => fieldLocations index fieldName

/-- Where a call leads: to what the first API type with an implementation lists. -/
def Call.sites (c : Call) : List ConcreteLocation :=
  (((c.apiTypes index file enclosingFunc).map fun apiType =>
    implementations index.vtableAssignments apiType c.field).find? fun ls => !ls.isEmpty).getD
      (c.elsewhere index)

end Calls

section Answers

/-- The result has these locations, and is found when there are any. -/
def VtableResolutionResult.Answers (r : VtableResolutionResult) (ls : List ConcreteLocation) : Prop :=
  r.found = !ls.isEmpty ∧ r.locations = ls

theorem notFound_answers (errorMsg : String) : (VtableResolutionResult.notFound errorMsg).Answers [] :=
  ⟨rfl, rfl⟩

/-- Two results have the same flag and locations when they answer with the same locations. -/
theorem answers_alike {r r' : VtableResolutionResult} {ls ls' : List ConcreteLocation}
    (h : r.Answers ls) (h' : r'.Answers ls') :
    (r.found = r'.found ∧ r.locations = r'.locations) ↔ ls = ls' := by
  rw [h.1, h.2, h'.1, h'.2]
  constructor
  · exact And.right
  · rintro rfl
    exact ⟨rfl, rfl⟩

variable (index : NavigationIndex)

theorem lookupVtable_answers (apiType fieldName : String) :
    (lookupVtable index apiType fieldName).Answers
      (implementations index.vtableAssignments apiType fieldName) := by
  unfold lookupVtable implementations
  cases index.vtableAssignments.get apiType with
  | none => exact notFound_answers _
  | some fieldMap =>
    rw [Option.getD_some]
    dsimp only
    cases fieldMap.listAt fieldName with
    | nil => exact notFound_answers _
    | cons l ls => exact ⟨rfl, rfl⟩

theorem fieldNameFallback_answers (file fieldName : String) :
    (fieldNameFallback index file fieldName).Answers (fieldLocations index fieldName) := by
  unfold fieldNameFallback
  cases fieldLocations index fieldName with
  | nil =>
    dsimp only
    split <;> exact notFound_answers _
  | cons l ls => exact ⟨rfl, rfl⟩

theorem resolveByRootField_answers (file : String) (enclosingFunc : Option String)
    (rootType fieldName : String) :
    (resolveByRootField index rootType fieldName).Answers
      ((Call.ofRoot rootType fieldName).sites index file enclosingFunc) := by
  unfold resolveByRootField Call.sites Call.apiTypes
  dsimp only
  cases apiTypeOf index (walkToRootType index rootType) with
  | none => exact notFound_answers _
  | some apiType =>
    have answers := lookupVtable_answers index apiType fieldName
    simp only [Option.toList_some, List.map_cons, List.map_nil, List.find?_cons, List.find?_nil, Call.field]
    cases there : implementations index.vtableAssignments apiType fieldName with
    | nil =>
      rw [there] at answers
      exact answers
    | cons l ls =>
      rw [there] at answers
      exact answers

/-- The first result that is found answers with the first list that is not empty. -/
theorem find_found (apiTypes : List String) (fieldName : String) :
    match (apiTypes.map fun apiType => lookupVtable index apiType fieldName).find? fun r => r.found with
    | some result => ∃ ls, ((apiTypes.map fun apiType =>
        implementations index.vtableAssignments apiType fieldName).find? fun ls => !ls.isEmpty) = some ls ∧
          result.Answers ls
    | none => ((apiTypes.map fun apiType =>
        implementations index.vtableAssignments apiType fieldName).find? fun ls => !ls.isEmpty) = none := by
  induction apiTypes with
  | nil => rfl
  | cons apiType rest ih =>
    have answers := lookupVtable_answers index apiType fieldName
    rw [List.map_cons, List.map_cons, List.find?_cons, List.find?_cons, answers.1]
    cases there : implementations index.vtableAssignments apiType fieldName with
    | nil => exact ih
    | cons l ls =>
      rw [there] at answers
      exact ⟨l :: ls, rfl, answers⟩

theorem resolveChain_answers (file : String) (enclosingFunc : Option String) (primary : String)
    (chainStr : CodeUnits) (fieldName : String) :
    (resolveChain index file enclosingFunc primary chainStr fieldName).Answers
      ((Call.ofChain primary (parseIntermediates chainStr).getLast? fieldName).sites
        index file enclosingFunc) := by
  unfold resolveChain Call.sites Call.apiTypes Call.field Call.elsewhere
  dsimp only
  generalize apiTypeCandidates index file enclosingFunc primary (parseIntermediates chainStr).getLast? =
    candidates
  have search := find_found index candidates fieldName
  have fallback := fieldNameFallback_answers index file fieldName
  split at search
  · next result found =>
    obtain ⟨ls, listed, answers⟩ := search
    rw [listed]
    exact answers
  · next found =>
    rw [search, Option.getD_none]
    split
    · exact fallback
    · next absent =>
      have nothing : fieldLocations index fieldName = [] := by
        simpa [fallback.1] using absent
      rw [nothing] at fallback ⊢
      cases candidates with
      | nil => exact fallback
      | cons apiType rest =>
        have answers := lookupVtable_answers index apiType fieldName
        have none_listed : implementations index.vtableAssignments apiType fieldName = [] := by
          rw [List.map_cons, List.find?_cons] at search
          split at search
          · cases search
          · next empty => simpa using empty
        rw [none_listed] at answers
        exact answers

/-- The result is where the call under the column leads. -/
theorem resolve_answers (file : String) (line column : Nat) (lineText : CodeUnits)
    (functionName : Option String) :
    (resolve index file line column lineText functionName).Answers
      (((callAt lineText column).map
        (Call.sites index file (functionName.or (index.findEnclosingFunction file line)))).getD []) := by
  unfold resolve callAt
  dsimp only
  cases matchUnder macroRe lineText column with
  | some m => exact resolveByRootField_answers index file _ _ _
  | none =>
    cases matchUnder arrayRe lineText column with
    | some m => exact resolveChain_answers index file _ _ _ _
    | none =>
      cases matchUnder generalRe lineText column with
      | some m => exact resolveChain_answers index file _ _ _ _
      | none =>
        unfold noPattern
        dsimp only
        split <;> exact notFound_answers _

end Answers

end LibJuno.Resolver
