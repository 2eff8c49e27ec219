import LibJuno.Indexer.WorkspaceIndexer

/-!
# The tree walk of the parser

`parser/visitor.ts`, from function definitions down to statements. A function is recorded
with its parameters and locals; an assignment inside it may fill a vtable or assign a failure
handler. The variable that a handler is assigned through is not recorded. What the other
declarations of a file give is part of `SourceFile` as it is recorded.
-/

namespace LibJuno.Indexer

section Syntax

/-- `extractDeclaratorInfo`. -/
structure Declarator where
  name : String
  isPointer : Bool
  isArray : Bool
deriving DecidableEq

/-- A declaration in a function body; the type name is empty for a primitive type. -/
structure Declaration where
  typeName : String
  isConst : Bool
  declarators : List Declarator
deriving DecidableEq

/-- A parameter; without a declarator only the pointer of the abstract one is known. -/
structure ParameterDeclaration where
  typeName : String
  isConst : Bool
  declarator : Option Declarator
  abstractPointer : Bool
deriving DecidableEq

/-- `memberIdentifier`. -/
inductive Member where
  | identifier (name : String)
  | moduleSuper
  | failureHandler
  | failureUserData
deriving DecidableEq

/-- An expression statement that is an assignment: the identifier at the head of its left side
with the members accessed there, and the identifier at the head of its right side. -/
structure Assignment where
  primary : Option String
  members : List Member
  functionName : Option String
  line : Nat
deriving DecidableEq

/-- Selections and iterations are kept by their substatements; everything without index data
is `other`. The declarations of a block are collected apart from its statements. -/
inductive Statement where
  | compound (declarations : List Declaration) (statements : List Statement)
  | assignment (a : Assignment)
  | control (statements : List Statement)
  | labeled (statement : Statement)
  | other

structure FunctionDefinition where
  name : String
  line : Nat
  isStatic : Bool
  parameters : List ParameterDeclaration
  body : Statement

/-- A translation unit: the records of its other declarations, and its functions. -/
structure SourceFile where
  moduleRoots : List RootRecord
  traitRoots : List RootRecord
  derivations : List DerivationRecord
  apiStructDefinitions : List ApiStructRecord
  vtableAssignments : List VtableAssignmentRecord
  pendingPositionalVtables : List PendingPositionalVtable
  apiMemberRegistry : OrderedMap String String
  functions : List FunctionDefinition

end Syntax

section Walk

/-- `extractTypeInfoFromParamDecl`. -/
def ParameterDeclaration.typeInfo (p : ParameterDeclaration) : Option TypeInfo :=
  if p.typeName = "" then none
  else
    match p.declarator with
    | some d => some ⟨d.name, p.typeName, d.isPointer, p.isConst, d.isArray⟩
    | none => some ⟨"", p.typeName, p.abstractPointer, p.isConst, false⟩

/-- `walkLocalDeclaration`, in the given function. -/
def walkLocalDeclaration (fn : String) (P : FileParse) (d : Declaration) : FileParse :=
  if d.typeName = "" ∨ d.declarators = [] then P
  else
    let lti := P.parsed.localTypeInfo
    let fnMap := d.declarators.foldl
      (fun m info =>
        if info.name = "" then m
        else m.set info.name ⟨info.name, d.typeName, info.isPointer, d.isConst, info.isArray⟩)
      ((lti.localVariables.get fn).getD .empty)
    { P with parsed := { P.parsed with
        localTypeInfo := { lti with localVariables := lti.localVariables.set fn fnMap } } }

/-- The assignment goes through a member of the failure macros. -/
def Assignment.isFailure (a : Assignment) : Bool :=
  a.members.any fun m => decide (m = .failureHandler ∨ m = .failureUserData)

/-- The type of a variable when it is an API type. -/
def TypeInfo.apiType (ti : TypeInfo) : Option String :=
  if "_API_T".toList.isSuffixOf ti.typeName.toList then some ti.typeName else none

/-- `tryExtractDirectVtableAssign`. -/
def directVtable (fn filePath functionName : String) (a : Assignment) (lti : LocalTypeInfo) :
    Option VtableAssignmentRecord :=
  a.primary.bind fun varName =>
    match a.members.getLast? with
    | some (.identifier field) =>
      let ofLocal := ((lti.localVariables.get fn).bind fun vars => vars.get varName).bind TypeInfo.apiType
      let ofParam :=
        ((lti.functionParameters.listAt fn).find? fun p => decide (p.name = varName)).bind TypeInfo.apiType
      (ofLocal.or ofParam).map fun apiType => ⟨apiType, field, functionName, filePath, a.line, none⟩
    | _ => none

/-- `walkExpressionStatement`, on an assignment. -/
def walkAssignment (fn filePath : String) (P : FileParse) (a : Assignment) : FileParse :=
  match a.functionName with
  | none => P
  | some functionName =>
    if a.isFailure then
      { P with parsed := { P.parsed with
          failureHandlerAssigns :=
            P.parsed.failureHandlerAssigns ++ [⟨"", functionName, filePath, a.line⟩] } }
    else
      match directVtable fn filePath functionName a P.parsed.localTypeInfo with
      | none => P
      | some r =>
        { P with parsed := { P.parsed with vtableAssignments := P.parsed.vtableAssignments ++ [r] } }

mutual

/-- `walkStatement` and `walkCompoundStatement`. -/
def walkStatement (fn filePath : String) (P : FileParse) : Statement → FileParse
  | .compound declarations statements =>
    walkStatements fn filePath (declarations.foldl (walkLocalDeclaration fn) P) statements
  | .assignment a => walkAssignment fn filePath P a
  | .control statements => walkStatements fn filePath P statements
  | .labeled _ => P
  | .other => P

def walkStatements (fn filePath : String) (P : FileParse) : List Statement → FileParse
  | [] => P
  | s :: rest => walkStatements fn filePath (walkStatement fn filePath P s) rest

end

/-- `walkFunctionDefinition`. -/
def walkFunctionDefinition (filePath : String) (P : FileParse) (f : FunctionDefinition) : FileParse :=
  if f.name = "" then P
  else
    let lti := P.parsed.localTypeInfo
    let params := f.parameters.filterMap ParameterDeclaration.typeInfo
    let entered : FileParse :=
      { P with
        functionDefs := P.functionDefs ++ [⟨f.name, filePath, f.line, f.isStatic, some (f.name ++ "(...)")⟩]
        parsed := { P.parsed with
          localTypeInfo := { lti with functionParameters := lti.functionParameters.set f.name params } } }
    walkStatement f.name filePath entered f.body

/-- `walkTranslationUnit`. -/
def walkTranslationUnit (filePath : String) (file : SourceFile) : FileParse :=
  file.functions.foldl (walkFunctionDefinition filePath)
    { parsed :=
        { ParsedFile.blank filePath with
          moduleRoots := file.moduleRoots
          traitRoots := file.traitRoots
          derivations := file.derivations
          apiStructDefinitions := file.apiStructDefinitions
          vtableAssignments := file.vtableAssignments
          pendingPositionalVtables := file.pendingPositionalVtables }
      functionDefs := []
      apiMemberRegistry := file.apiMemberRegistry }

end Walk

section Assignments

/-- An assignment of a file: the function it is in, and whether it is inside a labeled
statement. -/
structure PlacedAssignment where
  fn : String
  assignment : Assignment
  labeled : Bool
deriving DecidableEq

mutual

def Statement.assignments (fn : String) (labeled : Bool) : Statement → List PlacedAssignment
  | .compound _ statements => assignmentsOf fn labeled statements
  | .assignment a => [⟨fn, a, labeled⟩]
  | .control statements => assignmentsOf fn labeled statements
  | .labeled statement => statement.assignments fn true
  | .other => []

def assignmentsOf (fn : String) (labeled : Bool) : List Statement → List PlacedAssignment
  | [] => []
  | s :: rest => s.assignments fn labeled ++ assignmentsOf fn labeled rest

end

/-- All assignments of a file, in the order of the walk. -/
def SourceFile.assignments (file : SourceFile) : List PlacedAssignment :=
  file.functions.flatMap fun f => if f.name = "" then [] else f.body.assignments f.name false

/-- The record of an assignment, when it is one of a failure handler that the walk reaches. -/
def PlacedAssignment.record (filePath : String) (p : PlacedAssignment) : Option FailureHandlerRecord :=
  if p.labeled = false ∧ p.assignment.isFailure then
    p.assignment.functionName.map fun functionName => ⟨"", functionName, filePath, p.assignment.line⟩
  else none

variable (fn filePath : String)

theorem handlers_walkLocalDeclarations (declarations : List Declaration) (P : FileParse) :
    (declarations.foldl (walkLocalDeclaration fn) P).parsed.failureHandlerAssigns =
      P.parsed.failureHandlerAssigns := by
  induction declarations generalizing P with
  | nil => rfl
  | cons d ds ih =>
    rw [List.foldl_cons, ih, walkLocalDeclaration]
    split <;> rfl

theorem handlers_walkAssignment (P : FileParse) (a : Assignment) :
    (walkAssignment fn filePath P a).parsed.failureHandlerAssigns =
      P.parsed.failureHandlerAssigns ++ ((⟨fn, a, false⟩ : PlacedAssignment).record filePath).toList := by
  unfold walkAssignment PlacedAssignment.record
  dsimp only
  cases a.functionName with
  | none =>
    dsimp only
    split <;> simp
  | some functionName =>
    dsimp only
    by_cases failure : a.isFailure
    · simp [failure]
    · rw [if_neg failure, if_neg (fun h => failure h.2), Option.toList_none, List.append_nil]
      split <;> rfl

mutual

/-- No record is made of what is inside a labeled statement. -/
theorem assignments_labeled (s : Statement) :
    (s.assignments fn true).filterMap (PlacedAssignment.record filePath) = [] := by
  match s with
  | .compound declarations statements => rw [Statement.assignments]; exact assignmentsOf_labeled statements
  | .assignment a => rfl
  | .control statements => rw [Statement.assignments]; exact assignmentsOf_labeled statements
  | .labeled statement => rw [Statement.assignments]; exact assignments_labeled statement
  | .other => rfl

theorem assignmentsOf_labeled (ss : List Statement) :
    (assignmentsOf fn true ss).filterMap (PlacedAssignment.record filePath) = [] := by
  match ss with
  | [] => rfl
  | s :: rest =>
    rw [assignmentsOf, List.filterMap_append, assignments_labeled s, assignmentsOf_labeled rest]
    rfl

end

mutual

/-- The walk appends the records of the statement's assignments. -/
theorem handlers_walkStatement (P : FileParse) (s : Statement) :
    (walkStatement fn filePath P s).parsed.failureHandlerAssigns =
      P.parsed.failureHandlerAssigns ++
        (s.assignments fn false).filterMap (PlacedAssignment.record filePath) := by
  match s with
  | .compound declarations statements =>
    rw [walkStatement, handlers_walkStatements, handlers_walkLocalDeclarations, Statement.assignments]
  | .assignment a =>
    rw [walkStatement, handlers_walkAssignment, Statement.assignments, List.filterMap_cons]
    cases PlacedAssignment.record filePath ⟨fn, a, false⟩ <;> rfl
  | .control statements => rw [walkStatement, handlers_walkStatements, Statement.assignments]
  | .labeled statement =>
    rw [walkStatement, Statement.assignments, assignments_labeled, List.append_nil]
  | .other => rw [walkStatement, Statement.assignments, List.filterMap_nil, List.append_nil]

theorem handlers_walkStatements (P : FileParse) (ss : List Statement) :
    (walkStatements fn filePath P ss).parsed.failureHandlerAssigns =
      P.parsed.failureHandlerAssigns ++
        (assignmentsOf fn false ss).filterMap (PlacedAssignment.record filePath) := by
  match ss with
  | [] => rw [walkStatements, assignmentsOf, List.filterMap_nil, List.append_nil]
  | s :: rest =>
    rw [walkStatements, handlers_walkStatements, handlers_walkStatement, assignmentsOf,
      List.filterMap_append, List.append_assoc]

end

/-- The handler records of a file are those of its assignments, in their order. -/
theorem handlers_walkTranslationUnit (file : SourceFile) :
    (walkTranslationUnit filePath file).parsed.failureHandlerAssigns =
      file.assignments.filterMap (PlacedAssignment.record filePath) := by
  have walked : ∀ (fs : List FunctionDefinition) (P : FileParse),
      (fs.foldl (walkFunctionDefinition filePath) P).parsed.failureHandlerAssigns =
        P.parsed.failureHandlerAssigns ++
          (fs.flatMap fun f => if f.name = "" then [] else f.body.assignments f.name false).filterMap
            (PlacedAssignment.record filePath) := by
    intro fs
    induction fs with
    | nil => intro P; simp
    | cons f fs ih =>
      intro P
      rw [List.foldl_cons, ih, List.flatMap_cons, List.filterMap_append, ← List.append_assoc]
      congr 1
      unfold walkFunctionDefinition
      split
      · rw [List.filterMap_nil, List.append_nil]
      · exact handlers_walkStatement f.name filePath _ f.body
  exact walked file.functions _

mutual

theorem fn_of_mem_assignments (labeled : Bool) (s : Statement) {p : PlacedAssignment}
    (member : p ∈ s.assignments fn labeled) : p.fn = fn := by
  match s with
  | .compound declarations statements =>
    rw [Statement.assignments] at member
    exact fn_of_mem_assignmentsOf labeled statements member
  | .assignment a =>
    rw [Statement.assignments] at member
    rw [List.mem_singleton.1 member]
  | .control statements =>
    rw [Statement.assignments] at member
    exact fn_of_mem_assignmentsOf labeled statements member
  | .labeled statement =>
    rw [Statement.assignments] at member
    exact fn_of_mem_assignments true statement member
  | .other =>
    rw [Statement.assignments] at member
    cases member

theorem fn_of_mem_assignmentsOf (labeled : Bool) (ss : List Statement) {p : PlacedAssignment}
    (member : p ∈ assignmentsOf fn labeled ss) : p.fn = fn := by
  match ss with
  | [] =>
    rw [assignmentsOf] at member
    cases member
  | s :: rest =>
    rw [assignmentsOf] at member
    rcases List.mem_append.1 member with member | member
    · exact fn_of_mem_assignments labeled s member
    · exact fn_of_mem_assignmentsOf labeled rest member

end

/-- An assignment is in a function with a name. -/
theorem fn_ne_empty {file : SourceFile} {p : PlacedAssignment} (member : p ∈ file.assignments) :
    p.fn ≠ "" := by
  obtain ⟨f, -, inside⟩ := List.mem_flatMap.1 member
  split at inside
  · cases inside
  · next named =>
    rw [fn_of_mem_assignments f.name false f.body inside]
    exact named

end Assignments

section Preservation

variable {filePath : String} {motive : FileParse → Prop}

mutual

theorem walkStatement_preserves {fn : String}
    (declaration : ∀ P d, motive P → motive (walkLocalDeclaration fn P d))
    (assignment : ∀ P a, motive P → motive (walkAssignment fn filePath P a)) (s : Statement)
    {P : FileParse} (holds : motive P) : motive (walkStatement fn filePath P s) := by
  match s with
  | .compound declarations statements =>
    rw [walkStatement]
    have declared : motive (declarations.foldl (walkLocalDeclaration fn) P) := by
      induction declarations generalizing P with
      | nil => exact holds
      | cons d ds ih => exact ih (declaration P d holds)
    exact walkStatements_preserves declaration assignment statements declared
  | .assignment a => rw [walkStatement]; exact assignment P a holds
  | .control statements =>
    rw [walkStatement]
    exact walkStatements_preserves declaration assignment statements holds
  | .labeled statement => rw [walkStatement]; exact holds
  | .other => rw [walkStatement]; exact holds

theorem walkStatements_preserves {fn : String}
    (declaration : ∀ P d, motive P → motive (walkLocalDeclaration fn P d))
    (assignment : ∀ P a, motive P → motive (walkAssignment fn filePath P a)) (ss : List Statement)
    {P : FileParse} (holds : motive P) : motive (walkStatements fn filePath P ss) := by
  match ss with
  | [] => rw [walkStatements]; exact holds
  | s :: rest =>
    rw [walkStatements]
    exact walkStatements_preserves declaration assignment rest
      (walkStatement_preserves declaration assignment s holds)

end

/-- The walk changes neither the path of the file nor its list of calls. -/
theorem walkTranslationUnit_keeps (filePath : String) (file : SourceFile) :
    (walkTranslationUnit filePath file).parsed.filePath = filePath ∧
      (walkTranslationUnit filePath file).parsed.initCallSites = [] := by
  have walked : ∀ (fs : List FunctionDefinition) (P : FileParse),
      P.parsed.filePath = filePath ∧ P.parsed.initCallSites = [] →
        (fs.foldl (walkFunctionDefinition filePath) P).parsed.filePath = filePath ∧
          (fs.foldl (walkFunctionDefinition filePath) P).parsed.initCallSites = [] := by
    intro fs
    induction fs with
    | nil => exact fun P holds => holds
    | cons f fs ih =>
      intro P holds
      apply ih
      unfold walkFunctionDefinition
      split
      · exact holds
      · refine walkStatement_preserves
          (motive := fun P => P.parsed.filePath = filePath ∧ P.parsed.initCallSites = []) ?_ ?_ f.body holds
        · intro P d holds
          unfold walkLocalDeclaration
          split <;> exact holds
        · intro P a holds
          unfold walkAssignment
          split
          · exact holds
          · split
            · exact holds
            · split <;> exact holds
  exact walked file.functions _ ⟨rfl, rfl⟩

end Preservation

end LibJuno.Indexer
