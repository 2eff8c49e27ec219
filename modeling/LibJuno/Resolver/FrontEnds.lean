import LibJuno.Resolver.VtableResolver
import LibJuno.Resolver.FailureHandlerResolver

/-!
# The editor and the tool server

The tools of `mcp/mcpServer.ts` and the search of `providers/junoDefinitionProvider.ts`. The
editor counts columns from 0 and the tools advertise columns from 1, but both hand their
column to the resolver as it is. So the tool looks one character further, and the two agree on every
index exactly when both characters lie on the same call.
-/

namespace LibJuno.Resolver

open Indexer

inductive McpReply where
  | content (result : VtableResolutionResult)
  | error (code : Int) (message : String)

/-- `tools/call` with the two resolvers, and the arguments when they have the fields of
`ResolveParams`. -/
def callTool {α : Type} (vtable handler : α → VtableResolutionResult) (toolName : String) :
    Option α → McpReply
  | none =>
    .error (-32602) ("Invalid params: required fields file (string), line (number), " ++
      "column (number), lineText (string).")
  | some args =>
    if toolName = "resolve_vtable_call" then .content (vtable args)
    else if toolName = "resolve_failure_handler" then .content (handler args)
    else .error (-32601) ("Unknown tool: " ++ toolName)

structure ResolveParams where
  file : String
  line : Nat
  column : Nat
  lineText : CodeUnits

section FrontEnds

variable (index : NavigationIndex)

/-- `tools/call` with the resolvers of the index. -/
def toolsCall : String → Option ResolveParams → McpReply :=
  callTool (fun args => resolve index args.file args.line args.column args.lineText none)
    fun args => resolveFailureHandler index args.file args.line args.lineText none

/-- The tool, asked for the 1-based column of a character, gives the flag and the locations that
the editor gets for the character. -/
def AgreesOn (file : String) (line character : Nat) (lineText : CodeUnits) : Prop :=
  ∃ r, toolsCall index "resolve_vtable_call" (some ⟨file, line, character + 1, lineText⟩) = .content r ∧
    r.found = (resolve index file line character lineText none).found ∧
    r.locations = (resolve index file line character lineText none).locations

instance (file : String) (line character : Nat) (lineText : CodeUnits) :
    Decidable (AgreesOn index file line character lineText) :=
  decidable_of_iff
    ((resolve index file line (character + 1) lineText none).found =
        (resolve index file line character lineText none).found ∧
      (resolve index file line (character + 1) lineText none).locations =
        (resolve index file line character lineText none).locations)
    ⟨fun h => ⟨_, rfl, h⟩, fun ⟨_, same, h⟩ => by cases McpReply.content.inj same; exact h⟩

/-- Where a call under a column, if any, leads. -/
def sitesOf (file : String) (line : Nat) (c : Option Call) : List ConcreteLocation :=
  (c.map (Call.sites index file (index.findEnclosingFunction file line))).getD []

/-- On an index the two agree when the calls under the two columns lead to the same places. -/
theorem agreesOn_iff (file : String) (line character : Nat) (lineText : CodeUnits) :
    AgreesOn index file line character lineText ↔
      sitesOf index file line (callAt lineText (character + 1)) =
        sitesOf index file line (callAt lineText character) := by
  have tool := resolve_answers index file line (character + 1) lineText none
  have editor := resolve_answers index file line character lineText none
  rw [Option.none_or] at tool editor
  rw [sitesOf, sitesOf, ← answers_alike tool editor]
  constructor
  · rintro ⟨r, same, h⟩
    cases McpReply.content.inj same
    exact h
  · exact fun h => ⟨_, rfl, h⟩

end FrontEnds

section Separation

/-- The one location of the indexes below. -/
def site : ConcreteLocation := ⟨"F", "/w/f.c", 1, none, none, none, none, none, none, none, none⟩

/-- An index with an implementation of the field of one API type. -/
def apiIndex (fieldName : String) : NavigationIndex :=
  { createEmptyIndex with
    vtableAssignments := OrderedMap.empty.set "X_API_T" (OrderedMap.empty.set fieldName [site]) }

/-- An index on which only calls of the field through the root type lead anywhere. -/
def rootIndex (rootType fieldName : String) : NavigationIndex :=
  { apiIndex fieldName with moduleRoots := OrderedMap.empty.set rootType "X_API_T" }

/-- An index on which only calls of the field through the variable lead anywhere, in the
function on line 1 of `/w/f.c`. -/
def variableIndex (primary fieldName : String) : NavigationIndex :=
  { apiIndex fieldName with
    functionDefinitions := OrderedMap.empty.set "main" [⟨"main", "/w/f.c", 1, false, none⟩]
    localTypeInfo := OrderedMap.empty.set "/w/f.c"
      ⟨OrderedMap.empty.set "main" (OrderedMap.empty.set primary ⟨primary, "X_API_T", true, false, false⟩),
        .empty⟩ }

/-- An index on which only calls of the field after the member lead anywhere. -/
def memberIndex (member fieldName : String) : NavigationIndex :=
  { apiIndex fieldName with apiMemberRegistry := OrderedMap.empty.set member "X_API_T" }

theorem implementations_apiIndex (fieldName f : String) :
    implementations (apiIndex fieldName).vtableAssignments "X_API_T" f =
      if f = fieldName then [site] else [] := by
  unfold implementations apiIndex
  dsimp only
  rw [OrderedMap.get_set_self, Option.getD_some, OrderedMap.listAt, OrderedMap.get_set]
  split <;> rfl

/-- A call that asks for the one API type leads to the location when the field is its own. -/
theorem sites_of_apiTypes (index : NavigationIndex) (fieldName file : String)
    (enclosingFunc : Option String) (c : Call)
    (vtables : index.vtableAssignments = (apiIndex fieldName).vtableAssignments)
    (fields : index.apiStructFields = .empty) :
    (c.apiTypes index file enclosingFunc = ["X_API_T"] →
      c.sites index file enclosingFunc = if c.field = fieldName then [site] else []) ∧
    (c.apiTypes index file enclosingFunc = [] → c.sites index file enclosingFunc = []) := by
  have nowhere : c.elsewhere index = [] := by
    cases c with
    | ofRoot rootType f => rfl
    | ofChain primary lastMember f =>
      show fieldLocations index f = []
      rw [fieldLocations, fields]
      rfl
  constructor
  · intro asked
    rw [Call.sites, asked, nowhere, vtables, List.map_cons, List.map_nil, implementations_apiIndex]
    split <;> rfl
  · intro asked
    rw [Call.sites, asked, nowhere]
    rfl

theorem walkToRootType_of_underived {index : NavigationIndex} (underived : index.derivationChain = .empty)
    (typeName : String) : walkToRootType index typeName = typeName := by
  rw [walkToRootType, underived]
  rfl

theorem sites_rootIndex (rootType fieldName file : String) (line : Nat) (c : Call) :
    c.sites (rootIndex rootType fieldName) file
        ((rootIndex rootType fieldName).findEnclosingFunction file line) =
      if c = .ofRoot rootType fieldName then [site] else [] := by
  generalize enclosing : (rootIndex rootType fieldName).findEnclosingFunction file line = enclosingFunc
  obtain ⟨asked, silent⟩ := sites_of_apiTypes (rootIndex rootType fieldName) fieldName file
    enclosingFunc c rfl rfl
  cases c with
  | ofChain primary lastMember f =>
    subst enclosing
    rw [silent (by cases lastMember <;> rfl), if_neg (by rintro ⟨⟩)]
  | ofRoot r f =>
    have root : (rootIndex rootType fieldName).moduleRoots.get r =
        if r = rootType then some "X_API_T" else none := by
      rw [rootIndex, OrderedMap.get_set, OrderedMap.get_empty]
    rw [Call.apiTypes, walkToRootType_of_underived rfl, apiTypeOf, root] at asked silent
    by_cases same : r = rootType
    · rw [if_pos same] at asked
      rw [asked rfl, same]
      exact if_congr (by simp [Call.field]) rfl rfl
    · rw [if_neg same] at silent
      rw [silent rfl, if_neg (by simp [same])]

/-- The call goes through the variable to the field. -/
def Call.throughVariable (receiver fieldName : String) : Call → Bool
  | .ofChain primary _ f => decide (primary = receiver ∧ f = fieldName)
  | .ofRoot _ _ => false

/-- The call goes through the member to the field. -/
def Call.throughMember (member fieldName : String) : Call → Bool
  | .ofChain _ lastMember f => decide (lastMember = some member ∧ f = fieldName)
  | .ofRoot _ _ => false

theorem lookup_variableIndex (primary fieldName p : String) :
    lookupVariableType (variableIndex primary fieldName) "/w/f.c" "main" p =
      if p = primary then some ⟨primary, "X_API_T", true, false, false⟩ else none := by
  have locals : (OrderedMap.empty.set primary
      (⟨primary, "X_API_T", true, false, false⟩ : TypeInfo)).get p =
        if p = primary then some ⟨primary, "X_API_T", true, false, false⟩ else none := by
    rw [OrderedMap.get_set, OrderedMap.get_empty]
  have file : lookupVariableType (variableIndex primary fieldName) "/w/f.c" "main" p =
      lookupIn ⟨OrderedMap.empty.set "main" (OrderedMap.empty.set primary
        ⟨primary, "X_API_T", true, false, false⟩), .empty⟩ "main" p := rfl
  rw [file, lookupIn, OrderedMap.get_set_self, Option.bind_some, locals]
  by_cases same : p = primary <;> simp [same]

theorem sites_variableIndex (primary fieldName : String) (c : Call) :
    c.sites (variableIndex primary fieldName) "/w/f.c"
        ((variableIndex primary fieldName).findEnclosingFunction "/w/f.c" 1) =
      if c.throughVariable primary fieldName then [site] else [] := by
  have function : (variableIndex primary fieldName).findEnclosingFunction "/w/f.c" 1 = some "main" := rfl
  rw [function]
  obtain ⟨asked, silent⟩ := sites_of_apiTypes (variableIndex primary fieldName) fieldName "/w/f.c"
    (some "main") c rfl rfl
  cases c with
  | ofRoot r f =>
    rw [Call.apiTypes, walkToRootType_of_underived rfl] at silent
    exact silent rfl
  | ofChain p lastMember f =>
    have member : memberCandidate (variableIndex primary fieldName) lastMember = none := by
      cases lastMember <;> rfl
    have api : "_API_T".toList.isSuffixOf "X_API_T".toList = true := by decide
    rw [Call.apiTypes, apiTypeCandidates, member, primaryCandidate, Option.filter_some_pos (by decide),
      Option.bind_some, lookup_variableIndex] at asked silent
    by_cases same : p = primary
    · rw [if_pos same, Option.bind_some] at asked
      dsimp only at asked
      rw [if_pos api] at asked
      rw [asked rfl, same]
      exact if_congr (by simp [Call.field, Call.throughVariable]) rfl rfl
    · rw [if_neg same] at silent
      rw [silent rfl, if_neg (by simp [Call.throughVariable, same])]

theorem sites_memberIndex (member fieldName file : String) (line : Nat) (c : Call) :
    c.sites (memberIndex member fieldName) file
        ((memberIndex member fieldName).findEnclosingFunction file line) =
      if c.throughMember member fieldName then [site] else [] := by
  have function : (memberIndex member fieldName).findEnclosingFunction file line = none := rfl
  rw [function]
  obtain ⟨asked, silent⟩ := sites_of_apiTypes (memberIndex member fieldName) fieldName file
    none c rfl rfl
  cases c with
  | ofRoot r f =>
    rw [Call.apiTypes, walkToRootType_of_underived rfl] at silent
    exact silent rfl
  | ofChain p lastMember f =>
    have registered : ∀ m, (memberIndex member fieldName).apiMemberRegistry.get m =
        if m = member then some "X_API_T" else none := by
      intro m
      rw [memberIndex, OrderedMap.get_set, OrderedMap.get_empty]
    rw [Call.apiTypes, apiTypeCandidates, memberCandidate] at asked silent
    by_cases same : lastMember = some member
    · rw [same, Option.bind_some, registered, if_pos rfl] at asked
      rw [same, asked rfl]
      exact if_congr (by simp [Call.field, Call.throughMember]) rfl rfl
    · have unregistered : lastMember.bind (memberIndex member fieldName).apiMemberRegistry.get = none := by
        cases lastMember with
        | none => rfl
        | some m =>
          rw [Option.bind_some, registered, if_neg (fun h => same (congrArg some h))]
      rw [unregistered] at silent
      rw [silent rfl, if_neg (by simp [Call.throughMember, same])]

/-- A call is told from anything else by some index. -/
theorem exists_separating (c : Call) {q : Option Call} (different : q ≠ some c) :
    ∃ index file line, sitesOf index file line (some c) ≠ sitesOf index file line q := by
  have apart : [site] ≠ [] := List.cons_ne_nil _ _
  cases c with
  | ofRoot rootType f =>
    refine ⟨rootIndex rootType f, "", 0, ?_⟩
    have own : sitesOf (rootIndex rootType f) "" 0 (some (.ofRoot rootType f)) = [site] :=
      (sites_rootIndex rootType f "" 0 _).trans (if_pos rfl)
    rw [own]
    cases q with
    | none => exact apart
    | some c =>
      have other : sitesOf (rootIndex rootType f) "" 0 (some c) = [] :=
        (sites_rootIndex rootType f "" 0 c).trans (if_neg fun same => different (congrArg some same))
      rw [other]
      exact apart
  | ofChain primary lastMember f =>
    by_cases alike : ∃ m, q = some (.ofChain primary m f)
    · -- only the last member differs, and one of the two calls has one
      obtain ⟨m, rfl⟩ := alike
      have members : m ≠ lastMember := by
        rintro rfl
        exact different rfl
      have at_member : ∀ (member : String) (other : Option String), other ≠ some member →
          sitesOf (memberIndex member f) "" 0 (some (.ofChain primary (some member) f)) = [site] ∧
          sitesOf (memberIndex member f) "" 0 (some (.ofChain primary other f)) = [] := by
        intro member other differs
        exact ⟨(sites_memberIndex member f "" 0 _).trans (if_pos (by simp [Call.throughMember])),
          (sites_memberIndex member f "" 0 _).trans (if_neg (by simp [Call.throughMember, differs]))⟩
      cases lastMember with
      | some member =>
        obtain ⟨own, other⟩ := at_member member m members
        refine ⟨memberIndex member f, "", 0, ?_⟩
        rw [own, other]
        exact apart
      | none =>
        obtain ⟨member, rfl⟩ := Option.ne_none_iff_exists'.1 members
        obtain ⟨own, other⟩ := at_member member none members.symm
        refine ⟨memberIndex member f, "", 0, ?_⟩
        rw [own, other]
        exact apart.symm
    · refine ⟨variableIndex primary f, "/w/f.c", 1, ?_⟩
      have own : sitesOf (variableIndex primary f) "/w/f.c" 1 (some (.ofChain primary lastMember f)) =
          [site] := (sites_variableIndex primary f _).trans (if_pos (by simp [Call.throughVariable]))
      rw [own]
      cases q with
      | none => exact apart
      | some c =>
        have elsewhere : c.throughVariable primary f = false := by
          cases c with
          | ofRoot r g => rfl
          | ofChain p m g =>
            refine decide_eq_false ?_
            rintro ⟨rfl, rfl⟩
            exact alike ⟨m, rfl⟩
        have other : sitesOf (variableIndex primary f) "/w/f.c" 1 (some c) = [] :=
          (sites_variableIndex primary f c).trans (if_neg (by simp [elsewhere]))
        rw [other]
        exact apart

/-- Calls that lead to the same places on every index are the same. -/
theorem same_of_sites {p q : Option Call}
    (h : ∀ index file line, sitesOf index file line p = sitesOf index file line q) : p = q := by
  by_contra different
  cases p with
  | some c =>
    obtain ⟨index, file, line, apart⟩ := exists_separating c (Ne.symm different)
    exact apart (h index file line)
  | none =>
    cases q with
    | none => exact different rfl
    | some c =>
      obtain ⟨index, file, line, apart⟩ := exists_separating c different
      exact apart (h index file line).symm

end Separation

/-- The tool and the editor agree on every index if and only if the same call, or none, lies
under both columns; on one index, if and only if these calls lead to the same places. -/
theorem front_ends_agree_iff (lineText : CodeUnits) (character : Nat) :
    ((∀ index file line, AgreesOn index file line character lineText) ↔
      callAt lineText (character + 1) = callAt lineText character) ∧
    ∀ index file line, AgreesOn index file line character lineText ↔
      sitesOf index file line (callAt lineText (character + 1)) =
        sitesOf index file line (callAt lineText character) := by
  have on_index := fun index file line => agreesOn_iff index file line character lineText
  refine ⟨⟨fun agree => same_of_sites fun index file line =>
    (on_index index file line).1 (agree index file line), ?_⟩, on_index⟩
  intro same index file line
  rw [on_index, same]

/-- On the last character of a call the tool finds nothing. -/
theorem tool_misses_call :
    ¬ ∀ (index : NavigationIndex) (file : String) (line character : Nat) (lineText : CodeUnits),
      AgreesOn index file line character lineText := by
  intro agree
  have last := agree (variableIndex "p" "F") "/w/f.c" 1 4 (utf16 "p->F()")
  revert last
  decide

end LibJuno.Resolver
