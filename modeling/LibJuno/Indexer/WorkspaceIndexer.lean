import LibJuno.Indexer.Index
import LibJuno.Indexer.Text

/-!
# The workspace indexer

`indexer/workspaceIndexer.ts`. A file is parsed, its declarations overwrite the flat maps
and its records are appended to the lists, with the definition site of each function
looked up in the parse and then in the index. Positional initialisers wait until all files
of the pass are merged; then the calls that pass an API variable are searched in all
indexed files and stamped on its records. The parser and the hash are parameters, and so is
the disk: what reading each path gives, at the time of the call. Paths in `fileHashes` are
absolute here, where the source converts them from and to workspace-relative ones. The
save timer is not modelled.
-/

namespace LibJuno.Indexer

/-- What `parseFileWithDefs` returns. -/
structure FileParse where
  parsed : ParsedFile
  functionDefs : List FunctionDefinitionRecord
  apiMemberRegistry : OrderedMap String String

/-- What the tree walk of `parser/visitor.ts` gives: every record names the parsed file, a
definition has a line, a root type has a name, and no call sites are listed. -/
structure FileParse.SourcedFrom (P : FileParse) (filePath : String) : Prop where
  path : P.parsed.filePath = filePath
  vtables : ∀ r ∈ P.parsed.vtableAssignments, r.file = filePath
  handlers : ∀ r ∈ P.parsed.failureHandlerAssigns, r.file = filePath
  positional : ∀ r ∈ P.parsed.pendingPositionalVtables, r.file = filePath
  functions : ∀ d ∈ P.functionDefs, d.file = filePath
  lines : ∀ d ∈ P.functionDefs, d.line ≠ 0
  roots : ∀ r ∈ P.parsed.moduleRoots ++ P.parsed.traitRoots, r.rootType ≠ ""
  calls : P.parsed.initCallSites = []

structure Parser where
  parseFileWithDefs : String → String → FileParse
  sourced : ∀ filePath text, (parseFileWithDefs filePath text).SourcedFrom filePath

/-- What reading a path gives, `none` when it cannot be read. -/
abbrev Disk := String → Option String

structure DeferredPositional where
  apiType : String
  initializers : List String
  filePath : String
  lines : List Nat
  varName : Option String
deriving DecidableEq

def PendingPositionalVtable.defer (pp : PendingPositionalVtable) : DeferredPositional :=
  ⟨pp.apiType, pp.initializers, pp.file, pp.lines, pp.varName⟩

/-- A file and a line, line 0 when nothing was found. -/
structure DefinitionSite where
  file : String
  line : Nat
deriving DecidableEq

/-- The site, or the place of the assignment when it was not found. -/
def DefinitionSite.orAt (defLoc : DefinitionSite) (file : String) (line : Nat) : DefinitionSite :=
  if defLoc.line ≠ 0 then defLoc else ⟨file, line⟩

/-- `resolveDefinitionLocation`, with the definitions that the index lists for the function. -/
def resolveDefinitionLocation (functionName file : String)
    (functionDefs indexDefs : List FunctionDefinitionRecord) : DefinitionSite :=
  match functionDefs.find? fun d => decide (d.functionName = functionName ∧ d.file = file) with
  | some samefile => ⟨samefile.file, samefile.line⟩
  | none =>
    match indexDefs.find? fun d => decide (d.file = file) with
    | some sameFileIdx => ⟨sameFileIdx.file, sameFileIdx.line⟩
    | none =>
      match indexDefs with
      | first :: _ => ⟨first.file, first.line⟩
      | [] => ⟨file, 0⟩

def findContainingFunction (line : Nat) (file : String)
    (functionDefs : List FunctionDefinitionRecord) : Option String :=
  let best := functionDefs.foldl (fun best def_ =>
    if def_.file = file ∧ def_.line ≤ line then
      match best with
      | none => some def_
      | some b => if b.line < def_.line then some def_ else best
    else best) (none : Option FunctionDefinitionRecord)
  best.map FunctionDefinitionRecord.functionName

/-- The declared types that the search for a root type goes through: those of the containing
function when there is one, parameters first, else those of the whole file. -/
def searchedTypes (lti : LocalTypeInfo) (containingFn : Option String) : List TypeInfo :=
  match containingFn with
  | some fn =>
    lti.functionParameters.listAt fn ++
      ((lti.localVariables.get fn).map OrderedMap.values).getD []
  | none =>
    lti.functionParameters.values.flatten ++
      (lti.localVariables.values.map OrderedMap.values).flatten

/-- `resolveFailureHandlerRootType`; an empty function name counts as none. -/
def resolveFailureHandlerRootType (knownRoots : String → Bool) (r : FailureHandlerRecord)
    (parsed : ParsedFile) (functionDefs : List FunctionDefinitionRecord) : String :=
  if r.rootType ≠ "" then r.rootType
  else
    let containingFn := (findContainingFunction r.line r.file functionDefs).filter (· ≠ "")
    match (searchedTypes parsed.localTypeInfo containingFn).find? fun ti => knownRoots ti.typeName with
    | some ti => ti.typeName
    | none => ""

/-- The location that a vtable assignment is listed with. -/
def vtableLocation (indexDefs : String → List FunctionDefinitionRecord)
    (functionDefs : List FunctionDefinitionRecord) (r : VtableAssignmentRecord) : ConcreteLocation :=
  let site := (resolveDefinitionLocation r.functionName r.file functionDefs
    (indexDefs r.functionName)).orAt r.file r.line
  ⟨r.functionName, site.file, site.line, some r.file, some r.line, r.varName, none, none, none, none, none⟩

/-- The location that a failure handler is listed with. -/
def handlerLocation (indexDefs : String → List FunctionDefinitionRecord)
    (functionDefs : List FunctionDefinitionRecord) (r : FailureHandlerRecord) : ConcreteLocation :=
  let site := (resolveDefinitionLocation r.functionName r.file functionDefs
    (indexDefs r.functionName)).orAt r.file r.line
  ⟨r.functionName, site.file, site.line, none, none, none, none, none, none, none, none⟩

/-- The location of the `i`-th initialiser of a positional vtable. -/
def positionalLocation (indexDefs : String → List FunctionDefinitionRecord)
    (d : DeferredPositional) (fnName : String) (i : Nat) : ConcreteLocation :=
  let line := d.lines.getD i 0
  let site := (resolveDefinitionLocation fnName d.filePath [] (indexDefs fnName)).orAt d.filePath line
  ⟨fnName, site.file, site.line, some d.filePath, some line, d.varName, none, none, none, none, none⟩

/-- The locations the fields of a positional vtable get, as far as both lists go. -/
def placements (indexDefs : String → List FunctionDefinitionRecord) (fields : List String)
    (d : DeferredPositional) : List (String × ConcreteLocation) :=
  (d.initializers.zip fields).zipIdx.map fun x =>
    (x.1.2, positionalLocation indexDefs d x.1.1 x.2)

/-- The comparison that keeps a positional location from being listed twice. -/
def ConcreteLocation.sameSite (e loc : ConcreteLocation) : Bool :=
  decide (e.functionName = loc.functionName ∧ e.file = loc.file ∧ e.line = loc.line)

namespace NavigationIndex

/-- The root types known to the index. -/
def knownRoots (index : NavigationIndex) (typeName : String) : Bool :=
  index.moduleRoots.has typeName || index.traitRoots.has typeName

/-- The flat maps of declarations, overwritten by those of the file. -/
def declare (parsed : ParsedFile) (index : NavigationIndex) : NavigationIndex :=
  { index with
    moduleRoots := parsed.moduleRoots.foldl (fun m r => m.set r.rootType r.apiType) index.moduleRoots
    traitRoots := parsed.traitRoots.foldl (fun m r => m.set r.rootType r.apiType) index.traitRoots
    derivationChain :=
      parsed.derivations.foldl (fun m r => m.set r.derivedType r.rootType) index.derivationChain
    apiStructFields :=
      parsed.apiStructDefinitions.foldl (fun m r => m.set r.apiType r.fields) index.apiStructFields }

def appendVtable (functionDefs : List FunctionDefinitionRecord) (index : NavigationIndex)
    (r : VtableAssignmentRecord) : NavigationIndex :=
  let loc := vtableLocation index.functionDefinitions.listAt functionDefs r
  { index with
    vtableAssignments := pushImplementation index.vtableAssignments r.apiType r.field loc }

def appendCall (index : NavigationIndex) (ic : InitCallRecord) : NavigationIndex :=
  { index with initCallIndex := index.initCallIndex.push ic.apiVarName ⟨ic.file, ic.line⟩ }

def appendHandler (P : FileParse) (index : NavigationIndex) (r : FailureHandlerRecord) :
    NavigationIndex :=
  let resolvedRootType := resolveFailureHandlerRootType index.knownRoots r P.parsed P.functionDefs
  if resolvedRootType = "" then index
  else
    let loc := handlerLocation index.functionDefinitions.listAt P.functionDefs r
    { index with
      failureHandlerAssignments := index.failureHandlerAssignments.push resolvedRootType loc }

/-- `mergeInto`, with the list of deferred positional initialisers. -/
def mergeInto (P : FileParse) (index : NavigationIndex) (deferred : List DeferredPositional) :
    NavigationIndex × List DeferredPositional :=
  let declared := index.declare P.parsed
  let withVtables := P.parsed.vtableAssignments.foldl (appendVtable P.functionDefs) declared
  let withCalls := P.parsed.initCallSites.foldl appendCall withVtables
  let withHandlers := P.parsed.failureHandlerAssigns.foldl (appendHandler P) withCalls
  ({ withHandlers with
      apiMemberRegistry :=
        P.apiMemberRegistry.entries.foldl (fun m e => m.set e.1 e.2) withHandlers.apiMemberRegistry
      functionDefinitions :=
        P.functionDefs.foldl (fun m d => m.push d.functionName d) withHandlers.functionDefinitions
      localTypeInfo := withHandlers.localTypeInfo.set P.parsed.filePath P.parsed.localTypeInfo },
    deferred ++ P.parsed.pendingPositionalVtables.map PendingPositionalVtable.defer)

/-- One field of a positional vtable, unless its list has the site already. -/
def place (apiType : String) (index : NavigationIndex) (x : String × ConcreteLocation) :
    NavigationIndex :=
  if (implementations index.vtableAssignments apiType x.1).any (·.sameSite x.2) then index
  else
    { index with
      vtableAssignments := pushImplementation index.vtableAssignments apiType x.1 x.2 }

/-- One turn of `resolveDeferred`: skipped when the API struct is not known. -/
def resolvePositional (index : NavigationIndex) (d : DeferredPositional) : NavigationIndex :=
  match index.apiStructFields.get d.apiType with
  | none => index
  | some fields =>
    let fieldMap := (index.vtableAssignments.get d.apiType).getD .empty
    let prepared := { index with vtableAssignments := index.vtableAssignments.set d.apiType fieldMap }
    (placements index.functionDefinitions.listAt fields d).foldl (place d.apiType) prepared

def resolveDeferred (index : NavigationIndex) (deferred : List DeferredPositional) :
    NavigationIndex :=
  deferred.foldl resolvePositional index

/-- The API variables of the listed records, in the order of the maps. -/
def apiVarNames (index : NavigationIndex) : List String :=
  let locations := (index.vtableAssignments.values.map OrderedMap.values).flatten.flatten
  ((locations.filterMap ConcreteLocation.apiVarName).filter (· ≠ "")).eraseDups

/-- `findEnclosingFunction` of the resolvers: the last definition of the file at or before the
line, the first one met when several are on that line. -/
def findEnclosingFunction (index : NavigationIndex) (file : String) (line : Nat) : Option String :=
  let best := (index.functionDefinitions.entries.flatMap fun e => e.2.map (Prod.mk e.1)).foldl
    (fun best d =>
      if d.2.file = file ∧ d.2.line ≤ line then
        match best with
        | none => some (d.1, d.2.line)
        | some b => if b.2 < d.2.line then some (d.1, d.2.line) else best
      else best) (none : Option (String × Nat))
  best.map Prod.fst

/-- A function of every location, in place. -/
def stampAll (stamp : ConcreteLocation → ConcreteLocation) (index : NavigationIndex) :
    NavigationIndex :=
  { index with
    vtableAssignments := index.vtableAssignments.mapValues fun m => m.mapValues (List.map stamp) }

end NavigationIndex

section Composition

variable (disk : Disk)

/-- The pattern for the address of one of the variables. -/
def addressPattern (names : List String) : Regex UInt16 :=
  .chain [Pattern.text "&", .group 1 (Regex.anyOf (names.map Pattern.text)), Pattern.boundary]

/-- The places in the files where the address of one of the variables is taken. -/
def addressSites (names : List String) (files : List String) : OrderedMap String (List CallSite) :=
  let found := files.flatMap fun path =>
    (splitLines (utf16 ((disk path).getD ""))).zipIdx.flatMap fun x =>
      (Regex.execAll x.1 (addressPattern names)).map fun m =>
        (ofUnits ((m.group x.1 1).getD []), (⟨path, x.2 + 1⟩ : CallSite))
  found.foldl (fun sites x => sites.push x.1 x.2) .empty

/-- The first place where the variable's address is taken becomes the initialiser call. -/
def stampInitCall (sites : OrderedMap String (List CallSite)) (loc : ConcreteLocation) :
    ConcreteLocation :=
  match loc.apiVarName.filter (· ≠ "") with
  | none => loc
  | some varName =>
    match sites.listAt varName with
    | [] => loc
    | site :: _ => { loc with initCallFile := some site.file, initCallLine := some site.line }

/-- `resolveCompositionRoots`, on the indexed files. -/
def resolveCompositionRoots (files : List String) (index : NavigationIndex) : NavigationIndex :=
  let names := index.apiVarNames
  if names = [] then index
  else
    let sites := addressSites disk names files
    { index.stampAll (stampInitCall sites) with initCallIndex := sites }

/-- The pattern for a call of the function. -/
def callPattern (functionName : String) : Regex UInt16 :=
  .chain [Pattern.boundary, Pattern.text functionName, Pattern.spaces, Pattern.text "("]

/-- The first line of a source file that calls the function and does not define it. -/
def findCaller (files : List String) (index : NavigationIndex) (functionName : String) :
    Option CallSite :=
  let sources := files.filter fun path => lowerExtension path = ".c" || lowerExtension path = ".cpp"
  let callLines := sources.flatMap fun path =>
    (splitLines (utf16 ((disk path).getD ""))).zipIdx.filterMap fun x =>
      if Regex.test x.1 (callPattern functionName) then some (⟨path, x.2 + 1⟩ : CallSite) else none
  callLines.find? fun site =>
    !(index.functionDefinitions.listAt functionName).any fun d =>
      decide (d.file = site.file ∧ d.line = site.line)

/-- The caller of the function around the initialiser call becomes the composition root. -/
def stampCompRoot (files : List String) (index : NavigationIndex) (loc : ConcreteLocation) :
    ConcreteLocation :=
  match loc.initCallFile.filter (· ≠ ""), loc.initCallLine.filter (· ≠ 0) with
  | some file, some line =>
    match (index.findEnclosingFunction file line).filter (fun name => name ≠ "" ∧ name ≠ "main") with
    | none => loc
    | some initFnName =>
      match findCaller disk files index initFnName with
      | none => loc
      | some site => { loc with compRootFile := some site.file, compRootLine := some site.line }
  | _, _ => loc

/-- `resolveInitCallers`, on the indexed files. -/
def resolveInitCallers (files : List String) (index : NavigationIndex) : NavigationIndex :=
  index.stampAll (stampCompRoot disk files index)

end Composition

/-- `WorkspaceIndexer`: the index and the hash of each indexed file. -/
structure WorkspaceIndexer where
  index : NavigationIndex
  fileHashes : OrderedMap String String

/-- A new indexer. -/
def WorkspaceIndexer.fresh : WorkspaceIndexer := ⟨createEmptyIndex, .empty⟩

section Indexing

variable (parser : Parser) (hashText : String → String) (disk : Disk)

/-- `indexFile`: a file that cannot be read changes nothing. -/
def indexFile (filePath : String) (s : WorkspaceIndexer) (deferred : List DeferredPositional) :
    WorkspaceIndexer × List DeferredPositional :=
  match disk filePath with
  | none => (s, deferred)
  | some text =>
    let r := s.index.mergeInto (parser.parseFileWithDefs filePath text) deferred
    (⟨r.1, s.fileHashes.set filePath (hashText text)⟩, r.2)

/-- `removeFile`. -/
def removeFile (filePath : String) (s : WorkspaceIndexer) : WorkspaceIndexer :=
  ⟨removeFileRecords s.index filePath, s.fileHashes.delete filePath⟩

/-- The passes after merging: positional initialisers, then the stamps. -/
def finishIndexing (s : WorkspaceIndexer) (deferred : List DeferredPositional) : WorkspaceIndexer :=
  let resolved := s.index.resolveDeferred deferred
  let rooted := resolveCompositionRoots disk s.fileHashes.keys resolved
  ⟨resolveInitCallers disk s.fileHashes.keys rooted, s.fileHashes⟩

/-- `reindexFile`. -/
def reindexFile (filePath : String) (s : WorkspaceIndexer) : WorkspaceIndexer :=
  let r := indexFile parser hashText disk filePath (removeFile filePath s) []
  finishIndexing disk r.1 r.2

/-- The files indexed one after the other, with what they deferred. -/
def indexFiles (allFiles : List String) (s : WorkspaceIndexer) :
    WorkspaceIndexer × List DeferredPositional :=
  allFiles.foldl (fun acc filePath => indexFile parser hashText disk filePath acc.1 acc.2) (s, [])

/-- `fullIndex`, on the files that the scan lists. -/
def fullIndex (allFiles : List String) (s : WorkspaceIndexer) : WorkspaceIndexer :=
  let r := indexFiles parser hashText disk allFiles s
  finishIndexing disk r.1 r.2

end Indexing

section Workspace

/-- The parse of a file that is a function without parameters. -/
def FileParse.voidFunction (functionName filePath : String) : FileParse where
  parsed := { ParsedFile.blank filePath with
    localTypeInfo := ⟨.empty, OrderedMap.empty.set functionName []⟩ }
  functionDefs := [⟨functionName, filePath, 1, false, some (functionName ++ "(...)")⟩]
  apiMemberRegistry := .empty

/-- The parse of a file that assigns `Log` to the field `Log` of an API variable. -/
def FileParse.logVtable (filePath : String) : FileParse where
  parsed := { ParsedFile.blank filePath with
    vtableAssignments := [⟨"LOG_API_T", "Log", "Log", filePath, 1, some "gtLogApi"⟩] }
  functionDefs := []
  apiMemberRegistry := .empty

/-- Two files: the vtable is filled in one and the function is in the other. -/
def logDisk : Disk := fun path =>
  if path = "/w/init.c" then some "const LOG_API_T gtLogApi = { .Log = Log };"
  else if path = "/w/log.c" then some "void Log(void) {}"
  else none

/-- The parses of these two files. -/
def logParser : Parser where
  parseFileWithDefs filePath _ :=
    if filePath = "/w/init.c" then .logVtable filePath else .voidFunction "Log" filePath
  sourced filePath _ := by
    split <;> constructor <;> simp [FileParse.logVtable, FileParse.voidFunction, ParsedFile.blank]

end Workspace

end LibJuno.Indexer
