import LibJuno.Indexer.View
import LibJuno.Indexer.Visitor
import LibJuno.Resolver.Derivations

/-!
# Where failure handlers are filed

The walk records a handler without the variable it is assigned through, and the indexer
files it under the first known root type among the parameters and locals of the function
that the line is in. That is right when this type belongs to the variable: its own type or
one that it derives from. The resolver then finds the handler when no nearer type has
handlers without it.
-/

namespace LibJuno.Resolver

open Indexer Ancestry

section Climbing

variable {chain : OrderedMap String String} {names : String → List String} {h : String}

/-- The handler is listed under the type that is reached in so many steps, and nothing is
listed under the types before. -/
inductive FirstListed (chain : OrderedMap String String) (names : String → List String) (h : String) :
    Nat → String → Prop
  | here {t : String} (listed : h ∈ names t) : FirstListed chain names h 0 t
  | up {n : Nat} {t parent : String} (empty : names t = []) (derives : DerivesDirectly chain t parent)
      (rest : FirstListed chain names h n parent) : FirstListed chain names h (n + 1) t

variable {index : NavigationIndex}

/-- The names of the handlers listed under a type. -/
def listedNames (index : NavigationIndex) (t : String) : List String :=
  (index.failureHandlerAssignments.listAt t).map ConcreteLocation.functionName

theorem hasHandlers_iff {t : String} : HasHandlers index t ↔ listedNames index t ≠ [] := by
  rw [listedNames, Ne, List.map_eq_nil_iff]
  rfl

/-- The handler is listed under the nearest type that has handlers. -/
theorem firstListed_iff {t : String} :
    (∃ n, FirstListed index.derivationChain (listedNames index) h n t) ↔
      ∃ u, Nearest index.derivationChain.get (HasHandlers index) t u ∧ h ∈ listedNames index u := by
  constructor
  · rintro ⟨n, first⟩
    induction first with
    | here listed => exact ⟨_, .here (hasHandlers_iff.2 (List.ne_nil_of_mem listed)), listed⟩
    | up empty derives rest ih =>
      obtain ⟨u, nearest, listed⟩ := ih
      exact ⟨u, nearest.head (fun filed => hasHandlers_iff.1 filed empty) derives, listed⟩
  · rintro ⟨u, nearest, listed⟩
    refine nearest.induction
      (motive := fun t => ∃ n, FirstListed index.derivationChain (listedNames index) h n t)
      ⟨0, .here listed⟩ ?_
    rintro t parent unfiled derives ⟨n, rest⟩
    have empty : listedNames index t = [] := not_not.1 fun filed => unfiled (hasHandlers_iff.2 filed)
    exact ⟨n + 1, .up empty derives rest⟩

/-- Looking a type up finds the handler when the first type with handlers lists it. -/
theorem mem_lookupHandlersByType (t : String) :
    h ∈ (lookupHandlersByType index t).map ConcreteLocation.functionName ↔
      ∃ n, FirstListed index.derivationChain (listedNames index) h n t := by
  rw [firstListed_iff]
  obtain ⟨w, ends, same⟩ := lookupHandlersByType_ends index t
  rw [same]
  obtain ⟨u, nearest, found⟩ | ⟨found, unfiled⟩ := found_of_ends ends
  · rw [found]
    constructor
    · intro listed
      exact ⟨u, nearest, listed⟩
    · rintro ⟨u', nearest', listed⟩
      rw [nearest.unique nearest']
      exact listed
  · rw [found]
    constructor
    · nofun
    · rintro ⟨u, nearest, -⟩
      exact absurd nearest.holds (unfiled u nearest.above)

end Climbing

section Asking

variable (index : NavigationIndex)

theorem handlersOrError_locations (typeName named : String) :
    (handlersOrError index typeName named).locations =
      (lookupHandlersByType index typeName).map asAssignment := by
  unfold handlersOrError
  split
  · next none_found => rw [none_found]; rfl
  · rfl

/-- The line asks for the handlers of a variable: in the second argument of a macro for
modules, or by naming the handler member of the variable without assigning a function that is
defined. -/
inductive AsksFor (lineText : CodeUnits) (v : String) : Prop
  | macroCall (m : Regex.Match) (call : Regex.exec lineText FAIL_MACRO_RE 0 = some m)
      (name : ofUnits ((m.group lineText 1).getD []) ∈
        ["JUNO_FAIL_MODULE", "JUNO_ASSERT_EXISTS_MODULE", "JUNO_FAIL_ROOT"])
      (argument : extractMacroArg lineText 1 = some v)
  | access (plain : Regex.exec lineText FAIL_MACRO_RE 0 = none)
      (present : Regex.test lineText FAILURE_HANDLER_PRESENCE_RE = true)
      (undefined : ∀ m, Regex.exec lineText ASSIGNMENT_RE 0 = some m →
        definitionLocations index .assignment (ofUnits ((m.group lineText 2).getD [])) = [])
      (primary : extractPrimaryIdent (Regex.exec lineText ASSIGNMENT_RE 0) lineText = some v)

/-- Asked about a variable, the resolver looks its declared type up. -/
theorem resolveByVariable_locations (file : String) {fn v : String} (inside : fn ≠ "") (named : v ≠ "") :
    (resolveByVariable index file (some fn) (some v)).locations =
      ((lookupVariableType index file fn v).map fun ti =>
        (lookupHandlersByType index ti.typeName).map asAssignment).getD [] := by
  unfold resolveByVariable
  rw [Option.filter_some_pos (by simpa using named), Option.filter_some_pos (by simpa using inside),
    Option.bind_some, Option.bind_some]
  dsimp only
  cases lookupVariableType index file fn v with
  | none => rfl
  | some ti => exact handlersOrError_locations index _ _

/-- Every line that asks for the handlers of a variable is answered so. -/
theorem resolveFailureHandler_locations {lineText : CodeUnits} {v : String} (asks : AsksFor index lineText v)
    (named : v ≠ "") (file : String) (line : Nat) {fn : String} (inside : fn ≠ "") :
    (resolveFailureHandler index file line lineText (some fn)).locations =
      (resolveByVariable index file (some fn) (some v)).locations := by
  have ofModule : ∀ macroName describe,
      (resolveModuleMacro index macroName describe file v (some fn)).locations =
        (resolveByVariable index file (some fn) (some v)).locations := by
    intro macroName describe
    rw [resolveByVariable_locations index file inside named]
    unfold resolveModuleMacro
    rw [Option.filter_some_pos (by simpa using inside)]
    dsimp only
    cases lookupVariableType index file fn v with
    | none => rfl
    | some ti => exact handlersOrError_locations index _ _
  unfold resolveFailureHandler
  rw [Option.some_or]
  dsimp only
  cases asks with
  | macroCall m call name argument =>
    rw [call]
    dsimp only
    unfold resolveFailMacro
    rw [argument]
    dsimp only
    simp only [List.mem_cons, List.not_mem_nil, or_false] at name
    rcases name with name | name | name <;> rw [name] <;> exact ofModule _ _
  | access plain present undefined primary =>
    rw [plain, if_pos present]
    have unassigned : Option.filter (· ≠ []) ((Regex.exec lineText ASSIGNMENT_RE 0).map fun m =>
        definitionLocations index .assignment (ofUnits ((m.group lineText 2).getD []))) = none := by
      cases found : Regex.exec lineText ASSIGNMENT_RE 0 with
      | none => rfl
      | some m => rw [Option.map_some, undefined m found]; rfl
    rw [unassigned, primary]

end Asking

section Filing

/-- The assignment is `v-> ... JUNO_FAILURE_HANDLER = h`. -/
structure AssignsHandler (p : PlacedAssignment) (v h : String) : Prop where
  receiver : p.assignment.primary = some v
  identifier : v ≠ ""
  member : p.assignment.members.getLast? = some .failureHandler
  value : p.assignment.functionName = some h

variable (index : NavigationIndex) (deferred : List DeferredPositional) (filePath : String)
  (file : SourceFile)

/-- The parse of the file when only some of its assignments were there to record handlers. -/
def parseOf (assignments : List PlacedAssignment) : FileParse :=
  let P := walkTranslationUnit filePath file
  { P with parsed := { P.parsed with
      failureHandlerAssigns := assignments.filterMap (PlacedAssignment.record filePath) } }

/-- With all of them there it is the visitor's parse. -/
theorem parseOf_all : parseOf filePath file file.assignments = walkTranslationUnit filePath file := by
  unfold parseOf
  dsimp only
  rw [← handlers_walkTranslationUnit filePath file]

/-- The index after the file is merged. -/
def afterFile (assignments : List PlacedAssignment) : NavigationIndex :=
  (index.mergeInto (parseOf filePath file assignments) deferred).1

/-- The statement's handler is listed under the type or an ancestor and nowhere else because of
the statement, and the resolver, asked about the variable, answers with it among others. The
index without the statement shows what is there because of it. -/
structure FiledRight (others all : List PlacedAssignment) (fn v h T : String) : Prop where
  recorded : ∃ R before after l,
    Ancestor (afterFile index deferred filePath file all).derivationChain T R ∧ l.functionName = h ∧
      (afterFile index deferred filePath file all).failureHandlerAssignments.listAt R = before ++ l :: after ∧
      (afterFile index deferred filePath file others).failureHandlerAssignments.listAt R = before ++ after
  only : ∀ R, (afterFile index deferred filePath file all).failureHandlerAssignments.listAt R ≠
      (afterFile index deferred filePath file others).failureHandlerAssignments.listAt R →
    Ancestor (afterFile index deferred filePath file all).derivationChain T R
  answered : h ∈ (resolveByVariable (afterFile index deferred filePath file all) filePath (some fn)
    (some v)).locations.map ConcreteLocation.functionName

/-- The root types that are known when the file is merged. -/
def rootsWith (t : String) : Bool :=
  index.knownRoots t || decide (t ∈ (walkTranslationUnit filePath file).rootTypes)

/-- The derivations that are known when the file is merged. -/
def chainWith : OrderedMap String String :=
  (index.declare (walkTranslationUnit filePath file).parsed).derivationChain

/-- The parameters and locals that a root type is searched among, for a line of the file. -/
def searchedAt (line : Nat) : List TypeInfo :=
  let P := walkTranslationUnit filePath file
  searchedTypes P.parsed.localTypeInfo
    ((findContainingFunction line filePath P.functionDefs).filter (· ≠ ""))

/-- The first known root type among them, the empty one when there is none. -/
def rootAt (line : Nat) : String :=
  (((searchedAt filePath file line).find? fun ti => rootsWith index filePath file ti.typeName).map
    TypeInfo.typeName).getD ""

/-- The handlers that some assignments of the file have under a root type. -/
def recordsAt (assignments : List PlacedAssignment) (t : String) : List FailureHandlerRecord :=
  (assignments.filterMap (PlacedAssignment.record filePath)).filter fun r =>
    decide (rootAt index filePath file r.line = t ∧ t ≠ "")

/-- The functions listed as handlers of a type before the file, then those of the file's
assignments on whose lines the type is the first known root. -/
def namesWith (t : String) : List String :=
  (index.failureHandlerAssignments.listAt t).map ConcreteLocation.functionName ++
    (recordsAt index filePath file file.assignments t).map FailureHandlerRecord.functionName

/-- The first parameter or local with a known root type has one that belongs to `T`, the
statement is not labeled, and the first type with handlers above the recorded type of the
variable has this one. -/
structure FirstRootBelongs (p : PlacedAssignment) (v h T : String) : Prop where
  unlabeled : p.labeled = false
  first : ∃ before ti after, searchedAt filePath file p.assignment.line = before ++ ti :: after ∧
    (∀ x ∈ before, rootsWith index filePath file x.typeName = false) ∧
    rootsWith index filePath file ti.typeName = true ∧ ti.typeName ≠ "" ∧
    Ancestor (chainWith index filePath file) T ti.typeName
  nearest : ∃ ti n, lookupIn (walkTranslationUnit filePath file).parsed.localTypeInfo p.fn v = some ti ∧
    FirstListed (chainWith index filePath file) (namesWith index filePath file) h n ti.typeName

theorem handlerRoot_record {assignments : List PlacedAssignment} {r : FailureHandlerRecord}
    (member : r ∈ assignments.filterMap (PlacedAssignment.record filePath)) :
    (parseOf filePath file assignments).handlerRoot (rootsWith index filePath file) r =
      rootAt index filePath file r.line := by
  obtain ⟨p, -, made⟩ := List.mem_filterMap.1 member
  have shape : r.rootType = "" ∧ r.file = filePath := by
    unfold PlacedAssignment.record at made
    split at made
    · obtain ⟨name, -, rfl⟩ := Option.map_eq_some_iff.1 made
      exact ⟨rfl, rfl⟩
    · cases made
  unfold FileParse.handlerRoot resolveFailureHandlerRootType rootAt searchedAt
  rw [if_neg (by simp [shape.1]), shape.2]
  dsimp only [parseOf]
  cases List.find? _ _ <;> rfl

/-- A handler list is what it was and the file's handlers of the type. -/
theorem listAt_afterFile (assignments : List PlacedAssignment) (t : String) :
    (afterFile index deferred filePath file assignments).failureHandlerAssignments.listAt t =
      index.failureHandlerAssignments.listAt t ++
        (recordsAt index filePath file assignments t).map
          (handlerLocation index.functionDefinitions.listAt (walkTranslationUnit filePath file).functionDefs) := by
  have merged := congrFun (congrArg View.handlers (view_mergeInto_of_calls
    (P := parseOf filePath file assignments) (walkTranslationUnit_keeps filePath file).2 index deferred)) t
  refine merged.trans ?_
  show index.failureHandlerAssignments.listAt t ++ _ = _
  congr 2
  refine List.filter_congr fun r member => decide_eq_decide.2 ?_
  rw [← handlerRoot_record index filePath file member]
  rfl

theorem names_afterFile (t : String) :
    listedNames (afterFile index deferred filePath file file.assignments) t =
      namesWith index filePath file t := by
  rw [listedNames, listAt_afterFile, List.map_append, List.map_map]
  rfl

theorem chain_afterFile (assignments : List PlacedAssignment) :
    (afterFile index deferred filePath file assignments).derivationChain = chainWith index filePath file :=
  (mergeInto_flat (P := parseOf filePath file assignments) (walkTranslationUnit_keeps filePath file).2
    index deferred).1

theorem lookup_afterFile (assignments : List PlacedAssignment) (fn v : String) :
    lookupVariableType (afterFile index deferred filePath file assignments) filePath fn v =
      lookupIn (walkTranslationUnit filePath file).parsed.localTypeInfo fn v := by
  have types := (mergeInto_flat (P := parseOf filePath file assignments)
    (walkTranslationUnit_keeps filePath file).2 index deferred).2
  have path : (parseOf filePath file assignments).parsed.filePath = filePath :=
    (walkTranslationUnit_keeps filePath file).1
  unfold lookupVariableType afterFile
  rw [types, path, OrderedMap.get_set_self]
  rfl

/-- The resolver's answer about the variable has the handler when the first type with handlers
lists it. -/
theorem answered_iff {fn v h : String} (inside : fn ≠ "") (named : v ≠ "") :
    h ∈ (resolveByVariable (afterFile index deferred filePath file file.assignments) filePath (some fn)
        (some v)).locations.map ConcreteLocation.functionName ↔
      ∃ ti n, lookupIn (walkTranslationUnit filePath file).parsed.localTypeInfo fn v = some ti ∧
        FirstListed (chainWith index filePath file) (namesWith index filePath file) h n ti.typeName := by
  rw [resolveByVariable_locations _ _ inside named, lookup_afterFile]
  cases lookupIn (walkTranslationUnit filePath file).parsed.localTypeInfo fn v with
  | none => simp
  | some ti =>
    have names : listedNames (afterFile index deferred filePath file file.assignments) =
        namesWith index filePath file := funext (names_afterFile index deferred filePath file)
    have same : ((lookupHandlersByType (afterFile index deferred filePath file file.assignments)
        ti.typeName).map asAssignment).map ConcreteLocation.functionName =
          (lookupHandlersByType (afterFile index deferred filePath file file.assignments)
            ti.typeName).map ConcreteLocation.functionName := by
      rw [List.map_map]
      rfl
    rw [Option.map_some, Option.getD_some, same, mem_lookupHandlersByType, names, chain_afterFile]
    simp

variable {p : PlacedAssignment} {v h : String}

/-- The record of a handler statement. -/
theorem record_of_assigns (assigns : AssignsHandler p v h) :
    p.record filePath = if p.labeled = false then some ⟨"", h, filePath, p.assignment.line⟩ else none := by
  have failure : p.assignment.isFailure = true := by
    rw [Assignment.isFailure, List.any_eq_true]
    exact ⟨.failureHandler, List.mem_of_getLast? assigns.member, by decide⟩
  unfold PlacedAssignment.record
  rw [assigns.value, Option.map_some]
  simp [failure]

/-- What the statement adds under a root type. -/
theorem recordsAt_split {before after : List PlacedAssignment} (assigns : AssignsHandler p v h) (t : String) :
    recordsAt index filePath file (before ++ p :: after) t =
      recordsAt index filePath file before t ++
        ((if p.labeled = false ∧ rootAt index filePath file p.assignment.line = t ∧ t ≠ "" then
            [⟨"", h, filePath, p.assignment.line⟩] else []) ++
          recordsAt index filePath file after t) := by
  unfold recordsAt
  rw [List.filterMap_append, List.filter_append]
  congr 1
  rw [List.filterMap_cons, record_of_assigns filePath assigns]
  by_cases plain : p.labeled = false
  · rw [if_pos plain]
    dsimp only
    by_cases own : rootAt index filePath file p.assignment.line = t ∧ t ≠ ""
    · rw [List.filter_cons_of_pos (by simpa using own), if_pos ⟨plain, own⟩, List.singleton_append]
    · rw [List.filter_cons_of_neg (by simpa using own), if_neg fun both => own both.2, List.nil_append]
  · rw [if_neg plain, if_neg fun both => plain both.1, List.nil_append]

/-- A list changes because of the statement when it is that of the type found for its line. -/
theorem changed_iff (before after : List PlacedAssignment) (assigns : AssignsHandler p v h) (t : String) :
    (afterFile index deferred filePath file (before ++ p :: after)).failureHandlerAssignments.listAt t ≠
        (afterFile index deferred filePath file (before ++ after)).failureHandlerAssignments.listAt t ↔
      p.labeled = false ∧ rootAt index filePath file p.assignment.line = t ∧ t ≠ "" := by
  have others : recordsAt index filePath file (before ++ after) t =
      recordsAt index filePath file before t ++ recordsAt index filePath file after t := by
    unfold recordsAt
    rw [List.filterMap_append, List.filter_append]
  rw [listAt_afterFile, listAt_afterFile, recordsAt_split index filePath file assigns, others]
  by_cases own : p.labeled = false ∧ rootAt index filePath file p.assignment.line = t ∧ t ≠ ""
  · refine iff_of_true (fun same => ?_) own
    have lengths := congrArg List.length same
    rw [if_pos own] at lengths
    simp only [List.length_append, List.length_map, List.length_cons, List.length_nil] at lengths
    omega
  · rw [if_neg own, List.nil_append]
    exact iff_of_false (fun differs => differs rfl) own

/-- The lists with the statement and without it, for the type found for its line. -/
theorem listed_of_own {before after : List PlacedAssignment} (assigns : AssignsHandler p v h) {t : String}
    (own : p.labeled = false ∧ rootAt index filePath file p.assignment.line = t ∧ t ≠ "") :
    ∃ front back l, l.functionName = h ∧
      (afterFile index deferred filePath file (before ++ p :: after)).failureHandlerAssignments.listAt t =
        front ++ l :: back ∧
      (afterFile index deferred filePath file (before ++ after)).failureHandlerAssignments.listAt t =
        front ++ back := by
  generalize located : handlerLocation index.functionDefinitions.listAt
    (walkTranslationUnit filePath file).functionDefs = loc
  refine ⟨index.failureHandlerAssignments.listAt t ++ (recordsAt index filePath file before t).map loc,
    (recordsAt index filePath file after t).map loc, loc ⟨"", h, filePath, p.assignment.line⟩, ?_, ?_, ?_⟩
  · rw [← located]
    rfl
  · rw [listAt_afterFile, recordsAt_split index filePath file assigns, if_pos own, located, List.map_append,
      List.append_assoc]
    rfl
  · rw [listAt_afterFile, located]
    unfold recordsAt
    rw [List.filterMap_append, List.filter_append, List.map_append, List.append_assoc]

/-- The root type found for a line is that of the first parameter or local with a known one. -/
theorem rootAt_eq_iff {line : Nat} {t : String} (nonempty : t ≠ "") :
    rootAt index filePath file line = t ↔
      ∃ before ti after, searchedAt filePath file line = before ++ ti :: after ∧
        (∀ x ∈ before, rootsWith index filePath file x.typeName = false) ∧
        rootsWith index filePath file ti.typeName = true ∧ ti.typeName = t := by
  unfold rootAt
  constructor
  · intro found
    cases first : (searchedAt filePath file line).find? fun ti =>
        rootsWith index filePath file ti.typeName with
    | none => rw [first] at found; exact absurd found.symm nonempty
    | some ti =>
      rw [first] at found
      obtain ⟨known, before, after, split, unknown⟩ := List.find?_eq_some_iff_append.1 first
      exact ⟨before, ti, after, split, fun x member => by simpa using unknown x member, known, found⟩
  · rintro ⟨before, ti, after, split, unknown, known, rfl⟩
    have first : ((searchedAt filePath file line).find? fun ti =>
        rootsWith index filePath file ti.typeName) = some ti :=
      List.find?_eq_some_iff_append.2
        ⟨known, before, after, split, fun x member => by simpa using unknown x member⟩
    rw [first]
    rfl

/-- The handler of a statement is filed under its variable's type and found again if and only
if the first known root type among the function's variables belongs to that type, the statement
is not labeled, and no nearer type hides the handler. Every line that asks for the handlers of
the variable is answered as the variable is. With all assignments there the index is the merge
of what the visitor finds. -/
theorem handler_filed_iff {before after : List PlacedAssignment}
    (split : file.assignments = before ++ p :: after) (assigns : AssignsHandler p v h) (T : String) :
    (FiledRight index deferred filePath file (before ++ after) file.assignments p.fn v h T ↔
      FirstRootBelongs index filePath file p v h T) ∧
    (∀ lineText, AsksFor (afterFile index deferred filePath file file.assignments) lineText v →
      ∀ line, (resolveFailureHandler (afterFile index deferred filePath file file.assignments) filePath
          line lineText (some p.fn)).locations =
        (resolveByVariable (afterFile index deferred filePath file file.assignments) filePath
          (some p.fn) (some v)).locations) ∧
    afterFile index deferred filePath file file.assignments =
      (index.mergeInto (walkTranslationUnit filePath file) deferred).1 := by
  have inside : p.fn ≠ "" := fn_ne_empty (split ▸ List.mem_append_right _ List.mem_cons_self)
  refine ⟨?_, fun lineText asks line =>
    resolveFailureHandler_locations _ asks assigns.identifier filePath line inside, ?whole⟩
  case whole => rw [afterFile, parseOf_all]
  have asked := answered_iff index deferred filePath file (h := h) inside assigns.identifier
  have changed := fun t => changed_iff index deferred filePath file before after assigns t
  rw [← split] at changed
  constructor
  · rintro ⟨⟨R, front, back, l, above, -, all, others⟩, -, answered⟩
    have differs : (afterFile index deferred filePath file file.assignments).failureHandlerAssignments.listAt R ≠
        (afterFile index deferred filePath file (before ++ after)).failureHandlerAssignments.listAt R := by
      rw [all, others]
      intro same
      have lengths := congrArg List.length same
      simp at lengths
    obtain ⟨plain, root, nonempty⟩ := (changed R).1 differs
    obtain ⟨front', ti, back', searched, unknown, known, rfl⟩ :=
      (rootAt_eq_iff index filePath file nonempty).1 root
    rw [chain_afterFile] at above
    exact ⟨plain, ⟨front', ti, back', searched, unknown, known, nonempty, above⟩, asked.1 answered⟩
  · rintro ⟨plain, ⟨front, ti, back, searched, unknown, known, nonempty, above⟩, nearest⟩
    have root := (rootAt_eq_iff index filePath file nonempty).2 ⟨front, ti, back, searched, unknown, known, rfl⟩
    obtain ⟨front', back', l, name, all, others⟩ :=
      listed_of_own index deferred filePath file assigns ⟨plain, root, nonempty⟩
    rw [← split] at all
    refine ⟨⟨ti.typeName, front', back', l, ?_, name, all, others⟩, ?_, asked.2 nearest⟩
    · rw [chain_afterFile]
      exact above
    · intro R differs
      obtain ⟨-, root', -⟩ := (changed R).1 differs
      rw [← root', root, chain_afterFile]
      exact above

end Filing

section Modules

/-- A parameter that points to a module. -/
def moduleParameter (typeName name : String) : ParameterDeclaration :=
  ⟨typeName, false, some ⟨name, true, false⟩, false⟩

/-- A file with a function on line 1 that assigns a handler through one of its parameters on
line 2; the types are module roots. -/
def moduleFile (parameters : List ParameterDeclaration) (v h : String) : SourceFile where
  moduleRoots := [⟨"A_ROOT_T", "A_API_T"⟩, ⟨"B_ROOT_T", "B_API_T"⟩]
  traitRoots := []
  derivations := []
  apiStructDefinitions := []
  vtableAssignments := []
  pendingPositionalVtables := []
  apiMemberRegistry := .empty
  functions :=
    [⟨"Init", 1, false, parameters,
      .compound [] [.assignment ⟨some v, [.failureHandler], some h, 2⟩]⟩]

def ownModule : SourceFile := moduleFile [moduleParameter "B_ROOT_T" "ptB"] "ptB" "OnB"

def otherModule : SourceFile :=
  moduleFile [moduleParameter "A_ROOT_T" "ptA", moduleParameter "B_ROOT_T" "ptB"] "ptB" "OnB"

/-- With one module in the function the handler is filed right. -/
theorem handler_filed_ownModule :
    FiledRight createEmptyIndex [] "/w/b.c" ownModule [] ownModule.assignments "Init" "ptB" "OnB"
      "B_ROOT_T" := by
  have split : ownModule.assignments =
      [] ++ ⟨"Init", ⟨some "ptB", [.failureHandler], some "OnB", 2⟩, false⟩ :: [] := rfl
  exact (handler_filed_iff createEmptyIndex [] "/w/b.c" ownModule split ⟨rfl, by decide, rfl, rfl⟩ "B_ROOT_T").1.2
    { unlabeled := rfl
      first := ⟨[], ⟨"ptB", "B_ROOT_T", true, false, false⟩, [], by decide, by simp, by decide, by decide, .refl⟩
      nearest := ⟨⟨"ptB", "B_ROOT_T", true, false, false⟩, 0, by decide, .here (by decide)⟩ }

/-- With another module before it, it is filed under that one. -/
theorem handler_filed_otherModule :
    (∃ ti, lookupIn (walkTranslationUnit "/w/b.c" otherModule).parsed.localTypeInfo "Init" "ptB" = some ti ∧
        ti.typeName = "B_ROOT_T" ∧ rootsWith createEmptyIndex "/w/b.c" otherModule ti.typeName = true) ∧
      ¬ FiledRight createEmptyIndex [] "/w/b.c" otherModule [] otherModule.assignments "Init" "ptB" "OnB"
        "B_ROOT_T" := by
  refine ⟨⟨⟨"ptB", "B_ROOT_T", true, false, false⟩, by decide, rfl, by decide⟩, ?_⟩
  rintro ⟨-, only, -⟩
  have above := only "A_ROOT_T" (by decide)
  rcases Relation.ReflTransGen.cases_head above with same | ⟨parent, derives, -⟩
  · exact absurd same (by decide)
  · cases derives

end Modules

end LibJuno.Resolver
