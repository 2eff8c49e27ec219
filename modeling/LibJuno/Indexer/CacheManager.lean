import LibJuno.Lib.JsonCodec
import LibJuno.Indexer.Index

/-!
# The cache of the navigation index

`cache/cacheManager.ts`. The maps of the index are copied into plain objects, written as
JSON and copied back. A key `__proto__` makes no property of a plain object, and a
definition is copied without its signature; everything else returns. Properties are kept
in the order in which they were made, numeric names among them.
-/

namespace LibJuno.Indexer

open Json (Codec)

/-- An object without a class: its own properties. -/
abbrev PlainObject (ν : Type) := OrderedMap String ν

/-- The property that every plain object inherits as an accessor. -/
def prototypeKey : String := "__proto__"

section Objects

variable {ν ν' : Type}

/-- `o[k] = v`. Assigning to the inherited accessor makes no property. -/
def PlainObject.assign (o : PlainObject ν) (k : String) (v : ν) : PlainObject ν :=
  if k = prototypeKey then o else o.set k v

/-- `for (const [k, v] of m) { o[k] = f(v); }` -/
def toObject (f : ν → ν') (m : OrderedMap String ν) : PlainObject ν' :=
  m.entries.foldl (fun o e => PlainObject.assign o e.1 (f e.2)) .empty

/-- `for (const [k, v] of Object.entries(o)) { m.set(k, f(k, v)); }` -/
def toMap (f : String → ν → ν') (o : PlainObject ν) : OrderedMap String ν' :=
  o.entries.foldl (fun m e => m.set e.1 (f e.1 e.2)) .empty

theorem toMap_eq (f : String → ν → ν') (o : PlainObject ν) :
    toMap f o = o.filterMap fun k v => some (f k v) := by
  rw [← OrderedMap.ofEntries_entries (o.filterMap fun k v => some (f k v))]
  unfold toMap OrderedMap.ofEntries OrderedMap.filterMap
  dsimp only
  generalize (OrderedMap.empty : OrderedMap String ν') = m
  induction o.entries generalizing m with
  | nil => rfl
  | cons e es ih => exact ih _

theorem toObject_eq (f : ν → ν') (m : OrderedMap String ν) :
    toObject f m = m.filterMap fun k v => if k = prototypeKey then none else some (f v) := by
  rw [← OrderedMap.ofEntries_entries
    (m.filterMap fun k v => if k = prototypeKey then none else some (f v))]
  unfold toObject OrderedMap.ofEntries OrderedMap.filterMap
  dsimp only
  generalize (OrderedMap.empty : OrderedMap String ν') = o
  induction m.entries generalizing o with
  | nil => rfl
  | cons e es ih =>
    rw [List.foldl_cons, ih, PlainObject.assign]
    by_cases lost : e.1 = prototypeKey
    · rw [if_pos lost, List.filterMap_cons_none (by rw [if_pos lost]; rfl)]
    · rw [if_neg lost, List.filterMap_cons_some (by rw [if_neg lost]; rfl), List.foldl_cons]

theorem get_toMap (f : String → ν → ν') (o : PlainObject ν) (k : String) :
    (toMap f o).get k = (o.get k).map (f k) := by
  rw [toMap_eq, OrderedMap.get_filterMap]
  cases o.get k <;> rfl

theorem get_toObject (f : ν → ν') (m : OrderedMap String ν) (k : String) :
    (toObject f m).get k = if k = prototypeKey then none else (m.get k).map f := by
  rw [toObject_eq, OrderedMap.get_filterMap]
  cases m.get k with
  | none => simp
  | some v => split <;> simp [*]

end Objects

section Schema

/-- `Omit<FunctionDefinitionRecord, "functionName">`, as the conversion fills it. -/
structure CacheFunctionDefinition where
  file : String
  line : Nat
  isStatic : Bool
deriving DecidableEq

structure CacheLocalTypeInfo where
  localVariables : PlainObject (PlainObject TypeInfo)
  functionParameters : PlainObject (List TypeInfo)

structure CacheFile where
  version : String
  generatedAt : String
  fileHashes : PlainObject String
  moduleRoots : PlainObject String
  traitRoots : PlainObject String
  derivationChain : PlainObject String
  apiStructFields : PlainObject (List String)
  vtableAssignments : PlainObject (PlainObject (List ConcreteLocation))
  failureHandlerAssignments : PlainObject (List ConcreteLocation)
  apiMemberRegistry : PlainObject String
  functionDefinitions : PlainObject (List CacheFunctionDefinition)
  localTypeInfo : PlainObject CacheLocalTypeInfo

def CACHE_VERSION : String := "1"

/-- `indexToCache`, at the given time. -/
def indexToCache (index : NavigationIndex) (fileHashes : OrderedMap String String)
    (generatedAt : String) : CacheFile where
  version := CACHE_VERSION
  generatedAt := generatedAt
  fileHashes := toObject id fileHashes
  moduleRoots := toObject id index.moduleRoots
  traitRoots := toObject id index.traitRoots
  derivationChain := toObject id index.derivationChain
  apiStructFields := toObject id index.apiStructFields
  vtableAssignments := toObject (toObject id) index.vtableAssignments
  failureHandlerAssignments := toObject id index.failureHandlerAssignments
  apiMemberRegistry := toObject id index.apiMemberRegistry
  functionDefinitions :=
    toObject (List.map fun d => ⟨d.file, d.line, d.isStatic⟩) index.functionDefinitions
  localTypeInfo :=
    toObject (fun lti => ⟨toObject (toObject id) lti.localVariables,
      toObject id lti.functionParameters⟩) index.localTypeInfo

/-- `cacheToIndex`. -/
def cacheToIndex (cache : CacheFile) : NavigationIndex where
  moduleRoots := toMap (fun _ v => v) cache.moduleRoots
  traitRoots := toMap (fun _ v => v) cache.traitRoots
  derivationChain := toMap (fun _ v => v) cache.derivationChain
  apiStructFields := toMap (fun _ v => v) cache.apiStructFields
  vtableAssignments := toMap (fun _ fieldObj => toMap (fun _ locs => locs) fieldObj) cache.vtableAssignments
  failureHandlerAssignments := toMap (fun _ v => v) cache.failureHandlerAssignments
  apiMemberRegistry := toMap (fun _ v => v) cache.apiMemberRegistry
  functionDefinitions :=
    toMap (fun fnName defs => defs.map fun d => ⟨fnName, d.file, d.line, d.isStatic, none⟩)
      cache.functionDefinitions
  localTypeInfo :=
    toMap (fun _ clti => ⟨toMap (fun _ varObj => toMap (fun _ ti => ti) varObj) clti.localVariables,
      toMap (fun _ params => params) clti.functionParameters⟩) cache.localTypeInfo
  initCallIndex := createEmptyIndex.initCallIndex

end Schema

section Text

/-- `cache.field ?? {}` -/
def Codec.objectOrEmpty {α : Type} (c : Codec α) : Option Json → Option (PlainObject α)
  | none | some .null => some .empty
  | some j => c.object.decode j

@[simp] theorem Codec.objectOrEmpty_encode {α : Type} (c : Codec α) (o : PlainObject α) :
    Codec.objectOrEmpty c (some (c.object.encode o)) = some o :=
  c.object.round_trip o

def LocationKind.codec : Codec LocationKind where
  encode
    | .assignment => .str "assignment"
    | .invocation => .str "invocation"
  decode
    | .str "assignment" => some .assignment
    | .str "invocation" => some .invocation
    | _ => none
  round_trip kind := by cases kind <;> rfl

def TypeInfo.codec : Codec TypeInfo where
  encode ti := Json.record
    [("name", some (Codec.string.encode ti.name)),
      ("typeName", some (Codec.string.encode ti.typeName)),
      ("isPointer", some (Codec.bool.encode ti.isPointer)),
      ("isConst", some (Codec.bool.encode ti.isConst)),
      ("isArray", some (Codec.bool.encode ti.isArray))]
  decode j := do
    let name ← Codec.string.required (j.get "name")
    let typeName ← Codec.string.required (j.get "typeName")
    let isPointer ← Codec.bool.required (j.get "isPointer")
    let isConst ← Codec.bool.required (j.get "isConst")
    let isArray ← Codec.bool.required (j.get "isArray")
    return ⟨name, typeName, isPointer, isConst, isArray⟩
  round_trip ti := by simp [Json.get_record]

def ConcreteLocation.codec : Codec ConcreteLocation where
  encode l := Json.record
    [("functionName", some (Codec.string.encode l.functionName)),
      ("file", some (Codec.string.encode l.file)),
      ("line", some (Codec.nat.encode l.line)),
      ("assignmentFile", l.assignmentFile.map Codec.string.encode),
      ("assignmentLine", l.assignmentLine.map Codec.nat.encode),
      ("apiVarName", l.apiVarName.map Codec.string.encode),
      ("initCallFile", l.initCallFile.map Codec.string.encode),
      ("initCallLine", l.initCallLine.map Codec.nat.encode),
      ("compRootFile", l.compRootFile.map Codec.string.encode),
      ("compRootLine", l.compRootLine.map Codec.nat.encode),
      ("kind", l.kind.map LocationKind.codec.encode)]
  decode j := do
    let functionName ← Codec.string.required (j.get "functionName")
    let file ← Codec.string.required (j.get "file")
    let line ← Codec.nat.required (j.get "line")
    let assignmentFile ← Codec.string.optional (j.get "assignmentFile")
    let assignmentLine ← Codec.nat.optional (j.get "assignmentLine")
    let apiVarName ← Codec.string.optional (j.get "apiVarName")
    let initCallFile ← Codec.string.optional (j.get "initCallFile")
    let initCallLine ← Codec.nat.optional (j.get "initCallLine")
    let compRootFile ← Codec.string.optional (j.get "compRootFile")
    let compRootLine ← Codec.nat.optional (j.get "compRootLine")
    let kind ← LocationKind.codec.optional (j.get "kind")
    return ⟨functionName, file, line, assignmentFile, assignmentLine, apiVarName, initCallFile,
      initCallLine, compRootFile, compRootLine, kind⟩
  round_trip l := by simp [Json.get_record]

def CacheFunctionDefinition.codec : Codec CacheFunctionDefinition where
  encode d := Json.record
    [("file", some (Codec.string.encode d.file)),
      ("line", some (Codec.nat.encode d.line)),
      ("isStatic", some (Codec.bool.encode d.isStatic))]
  decode j := do
    let file ← Codec.string.required (j.get "file")
    let line ← Codec.nat.required (j.get "line")
    let isStatic ← Codec.bool.required (j.get "isStatic")
    return ⟨file, line, isStatic⟩
  round_trip d := by simp [Json.get_record]

def CacheLocalTypeInfo.codec : Codec CacheLocalTypeInfo where
  encode clti := Json.record
    [("localVariables", some (TypeInfo.codec.object.object.encode clti.localVariables)),
      ("functionParameters", some (TypeInfo.codec.list.object.encode clti.functionParameters))]
  decode j := do
    let localVariables ← TypeInfo.codec.object.object.required (j.get "localVariables")
    let functionParameters ← TypeInfo.codec.list.object.required (j.get "functionParameters")
    return ⟨localVariables, functionParameters⟩
  round_trip clti := by simp [Json.get_record]

def CacheFile.codec : Codec CacheFile where
  encode cache := Json.record
    [("version", some (Codec.string.encode cache.version)),
      ("generatedAt", some (Codec.string.encode cache.generatedAt)),
      ("fileHashes", some (Codec.string.object.encode cache.fileHashes)),
      ("moduleRoots", some (Codec.string.object.encode cache.moduleRoots)),
      ("traitRoots", some (Codec.string.object.encode cache.traitRoots)),
      ("derivationChain", some (Codec.string.object.encode cache.derivationChain)),
      ("apiStructFields", some (Codec.string.list.object.encode cache.apiStructFields)),
      ("vtableAssignments",
        some (ConcreteLocation.codec.list.object.object.encode cache.vtableAssignments)),
      ("failureHandlerAssignments",
        some (ConcreteLocation.codec.list.object.encode cache.failureHandlerAssignments)),
      ("apiMemberRegistry", some (Codec.string.object.encode cache.apiMemberRegistry)),
      ("functionDefinitions",
        some (CacheFunctionDefinition.codec.list.object.encode cache.functionDefinitions)),
      ("localTypeInfo", some (CacheLocalTypeInfo.codec.object.encode cache.localTypeInfo))]
  decode j := do
    let version ← Codec.string.required (j.get "version")
    let generatedAt ← Codec.string.required (j.get "generatedAt")
    let fileHashes ← Codec.string.object.required (j.get "fileHashes")
    let moduleRoots ← Codec.objectOrEmpty Codec.string (j.get "moduleRoots")
    let traitRoots ← Codec.objectOrEmpty Codec.string (j.get "traitRoots")
    let derivationChain ← Codec.objectOrEmpty Codec.string (j.get "derivationChain")
    let apiStructFields ← Codec.objectOrEmpty Codec.string.list (j.get "apiStructFields")
    let vtableAssignments ←
      Codec.objectOrEmpty ConcreteLocation.codec.list.object (j.get "vtableAssignments")
    let failureHandlerAssignments ←
      Codec.objectOrEmpty ConcreteLocation.codec.list (j.get "failureHandlerAssignments")
    let apiMemberRegistry ← Codec.objectOrEmpty Codec.string (j.get "apiMemberRegistry")
    let functionDefinitions ←
      Codec.objectOrEmpty CacheFunctionDefinition.codec.list (j.get "functionDefinitions")
    let localTypeInfo ← Codec.objectOrEmpty CacheLocalTypeInfo.codec (j.get "localTypeInfo")
    return ⟨version, generatedAt, fileHashes, moduleRoots, traitRoots, derivationChain,
      apiStructFields, vtableAssignments, failureHandlerAssignments, apiMemberRegistry,
      functionDefinitions, localTypeInfo⟩
  round_trip cache := by simp [Json.get_record]

/-- `saveCache`: the text of the file. -/
def saveCache (cache : CacheFile) : String := Json.stringify (CacheFile.codec.encode cache)

/-- `loadCache`, of the text of the file when there is one. -/
def loadCache (raw : Option String) : Option CacheFile := do
  let parsed ← Json.parse (← raw)
  if Codec.string.required (parsed.get "version") = some CACHE_VERSION then
    CacheFile.codec.decode parsed
  else none

/-- A cache of this version is loaded as it was saved. -/
theorem loadCache_saveCache {cache : CacheFile} (version : cache.version = CACHE_VERSION) :
    loadCache (some (saveCache cache)) = some cache := by
  have written : Codec.string.required ((CacheFile.codec.encode cache).get "version") =
      some CACHE_VERSION := by
    rw [← version]
    simp only [CacheFile.codec]
    rw [Json.get_record (by simp)]
    exact Codec.string.round_trip cache.version
  unfold loadCache saveCache
  rw [Option.bind_eq_bind, Option.bind_some, Json.parse_stringify, Option.bind_eq_bind, Option.bind_some,
    if_pos written]
  exact CacheFile.codec.round_trip cache

end Text

end LibJuno.Indexer
