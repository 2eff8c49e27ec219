import LibJuno.Lib.OrderedMap

/-!
# The navigation index of the editor extension

`parser/types.ts` and `indexer/navigationIndex.ts`. The parser's records of one file and
the index they are merged into. Left out are the file and line of declarations and the
list of API call sites, which nothing here reads.
-/

namespace LibJuno.Indexer

/-- `ModuleRootRecord` and `TraitRootRecord`. -/
structure RootRecord where
  rootType : String
  apiType : String
deriving DecidableEq

structure DerivationRecord where
  derivedType : String
  rootType : String
deriving DecidableEq

structure ApiStructRecord where
  apiType : String
  fields : List String
deriving DecidableEq

structure VtableAssignmentRecord where
  apiType : String
  field : String
  functionName : String
  file : String
  line : Nat
  varName : Option String
deriving DecidableEq

/-- The root type is empty when the parser could not infer it. -/
structure FailureHandlerRecord where
  rootType : String
  functionName : String
  file : String
  line : Nat
deriving DecidableEq

structure PendingPositionalVtable where
  apiType : String
  initializers : List String
  file : String
  lines : List Nat
  varName : Option String
deriving DecidableEq

/-- `InitCallRecord`. -/
structure InitCallRecord where
  apiVarName : String
  file : String
  line : Nat
deriving DecidableEq

structure TypeInfo where
  name : String
  typeName : String
  isPointer : Bool
  isConst : Bool
  isArray : Bool
deriving DecidableEq

structure LocalTypeInfo where
  localVariables : OrderedMap String (OrderedMap String TypeInfo)
  functionParameters : OrderedMap String (List TypeInfo)

structure FunctionDefinitionRecord where
  functionName : String
  file : String
  line : Nat
  isStatic : Bool
  signature : Option String
deriving DecidableEq

structure ParsedFile where
  filePath : String
  moduleRoots : List RootRecord
  traitRoots : List RootRecord
  derivations : List DerivationRecord
  apiStructDefinitions : List ApiStructRecord
  vtableAssignments : List VtableAssignmentRecord
  failureHandlerAssigns : List FailureHandlerRecord
  pendingPositionalVtables : List PendingPositionalVtable
  initCallSites : List InitCallRecord
  localTypeInfo : LocalTypeInfo

/-- What the parser finds in an empty file. -/
def ParsedFile.blank (filePath : String) : ParsedFile where
  filePath := filePath
  moduleRoots := []
  traitRoots := []
  derivations := []
  apiStructDefinitions := []
  vtableAssignments := []
  failureHandlerAssigns := []
  pendingPositionalVtables := []
  initCallSites := []
  localTypeInfo := ⟨.empty, .empty⟩

/-- `kind` of a location: the assignment of a handler, or its definition found from a call. -/
inductive LocationKind where
  | assignment
  | invocation
deriving DecidableEq

/-- A definition site, with the assignment that it was found for and the stamps of its
composition root; the kind is set in answers only. -/
structure ConcreteLocation where
  functionName : String
  file : String
  line : Nat
  assignmentFile : Option String
  assignmentLine : Option Nat
  apiVarName : Option String
  initCallFile : Option String
  initCallLine : Option Nat
  compRootFile : Option String
  compRootLine : Option Nat
  kind : Option LocationKind
deriving DecidableEq

/-- An entry of `initCallIndex`. -/
structure CallSite where
  file : String
  line : Nat
deriving DecidableEq

structure NavigationIndex where
  moduleRoots : OrderedMap String String
  traitRoots : OrderedMap String String
  derivationChain : OrderedMap String String
  apiStructFields : OrderedMap String (List String)
  vtableAssignments : OrderedMap String (OrderedMap String (List ConcreteLocation))
  failureHandlerAssignments : OrderedMap String (List ConcreteLocation)
  apiMemberRegistry : OrderedMap String String
  functionDefinitions : OrderedMap String (List FunctionDefinitionRecord)
  localTypeInfo : OrderedMap String LocalTypeInfo
  initCallIndex : OrderedMap String (List CallSite)

def createEmptyIndex : NavigationIndex where
  moduleRoots := .empty
  traitRoots := .empty
  derivationChain := .empty
  apiStructFields := .empty
  vtableAssignments := .empty
  failureHandlerAssignments := .empty
  apiMemberRegistry := .empty
  functionDefinitions := .empty
  localTypeInfo := .empty
  initCallIndex := .empty

/-- The record lists are pruned of the records whose own file, the definition's, is the
given one. The flat maps carry no file and stay. -/
def removeFileRecords (index : NavigationIndex) (filePath : String) : NavigationIndex :=
  { index with
    vtableAssignments := index.vtableAssignments.filterMap fun _ fieldMap =>
      let pruned := fieldMap.prune fun l => decide (l.file ≠ filePath)
      if pruned.isEmpty then none else some pruned
    failureHandlerAssignments :=
      index.failureHandlerAssignments.prune fun l => decide (l.file ≠ filePath)
    functionDefinitions := index.functionDefinitions.prune fun d => decide (d.file ≠ filePath)
    localTypeInfo := index.localTypeInfo.delete filePath
    initCallIndex := index.initCallIndex.prune fun s => decide (s.file ≠ filePath) }

/-- The implementations listed for a field of an API type. -/
def implementations (vtables : OrderedMap String (OrderedMap String (List ConcreteLocation)))
    (apiType field : String) : List ConcreteLocation :=
  ((vtables.get apiType).getD .empty).listAt field

/-- `loc` goes to the end of the list of a field; a missing field map is created. -/
def pushImplementation (vtables : OrderedMap String (OrderedMap String (List ConcreteLocation)))
    (apiType field : String) (loc : ConcreteLocation) :
    OrderedMap String (OrderedMap String (List ConcreteLocation)) :=
  vtables.set apiType (((vtables.get apiType).getD .empty).push field loc)

theorem implementations_pushImplementation
    (vtables : OrderedMap String (OrderedMap String (List ConcreteLocation)))
    (apiType field a f : String) (loc : ConcreteLocation) :
    implementations (pushImplementation vtables apiType field loc) a f =
      if a = apiType ∧ f = field then implementations vtables a f ++ [loc]
      else implementations vtables a f := by
  unfold implementations pushImplementation
  rw [OrderedMap.get_set]
  by_cases sameType : a = apiType
  · subst sameType
    simp only [if_true, Option.getD_some, OrderedMap.listAt_push, true_and]
  · simp [sameType]

/-- Pruning the field maps and dropping the empty ones filters every list. -/
theorem implementations_prune
    (vtables : OrderedMap String (OrderedMap String (List ConcreteLocation)))
    (p : ConcreteLocation → Bool) (apiType field : String) :
    implementations (vtables.filterMap fun _ fieldMap =>
        if (fieldMap.prune p).isEmpty then none else some (fieldMap.prune p)) apiType field =
      (implementations vtables apiType field).filter p := by
  unfold implementations
  rw [OrderedMap.get_filterMap]
  cases vtables.get apiType with
  | none => rfl
  | some fieldMap =>
    rw [Option.bind_some, Option.getD_some, ← OrderedMap.listAt_prune]
    split
    · next none_left =>
      show OrderedMap.listAt OrderedMap.empty field = _
      rw [OrderedMap.listAt_empty, OrderedMap.listAt, OrderedMap.get_of_isEmpty none_left]
      rfl
    · rfl

end LibJuno.Indexer
