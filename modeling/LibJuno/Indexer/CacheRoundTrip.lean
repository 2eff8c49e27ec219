import LibJuno.Indexer.CacheManager

/-!
# What returns from the cache

An index that is saved and loaded is the same on every map if and only if no key is the
name of the inherited accessor and no definition has a signature.
-/

namespace LibJuno.Indexer

/-- The two maps of a file's type information, by what they give for their keys. -/
def LocalTypeInfo.maps (lti : LocalTypeInfo) :
    (String → Option (String → Option TypeInfo)) × (String → Option (List TypeInfo)) :=
  (fun fn => (lti.localVariables.get fn).map OrderedMap.get, lti.functionParameters.get)

/-- The maps that are cached give the same for every key. -/
structure NavigationIndex.SameCached (i j : NavigationIndex) : Prop where
  moduleRoots : ∀ k, i.moduleRoots.get k = j.moduleRoots.get k
  traitRoots : ∀ k, i.traitRoots.get k = j.traitRoots.get k
  derivationChain : ∀ k, i.derivationChain.get k = j.derivationChain.get k
  apiStructFields : ∀ k, i.apiStructFields.get k = j.apiStructFields.get k
  vtableAssignments : ∀ k, (i.vtableAssignments.get k).map OrderedMap.get =
    (j.vtableAssignments.get k).map OrderedMap.get
  failureHandlerAssignments : ∀ k,
    i.failureHandlerAssignments.get k = j.failureHandlerAssignments.get k
  apiMemberRegistry : ∀ k, i.apiMemberRegistry.get k = j.apiMemberRegistry.get k
  functionDefinitions : ∀ k, i.functionDefinitions.get k = j.functionDefinitions.get k
  localTypeInfo : ∀ k, (i.localTypeInfo.get k).map LocalTypeInfo.maps =
    (j.localTypeInfo.get k).map LocalTypeInfo.maps

/-- No key of the map is the name of the inherited accessor. -/
def Plain {ν : Type} (m : OrderedMap String ν) : Prop := m.get prototypeKey = none

instance {ν : Type} (m : OrderedMap String ν) : Decidable (Plain m) :=
  inferInstanceAs (Decidable (m.get prototypeKey = none))

/-- Every key makes a property, and a definition has nothing but what is copied. -/
structure Restorable (index : NavigationIndex) (fileHashes : OrderedMap String String) : Prop where
  fileHashes : Plain fileHashes
  moduleRoots : Plain index.moduleRoots
  traitRoots : Plain index.traitRoots
  derivationChain : Plain index.derivationChain
  apiStructFields : Plain index.apiStructFields
  vtableAssignments : Plain index.vtableAssignments
  fieldMaps : ∀ apiType m, index.vtableAssignments.get apiType = some m → Plain m
  failureHandlerAssignments : Plain index.failureHandlerAssignments
  apiMemberRegistry : Plain index.apiMemberRegistry
  functionDefinitions : Plain index.functionDefinitions
  signatures : ∀ fnName defs, index.functionDefinitions.get fnName = some defs →
    ∀ d ∈ defs, d.functionName = fnName ∧ d.signature = none
  localTypeInfo : Plain index.localTypeInfo
  localVariables : ∀ filePath lti, index.localTypeInfo.get filePath = some lti →
    Plain lti.localVariables ∧ ∀ fn varMap, lti.localVariables.get fn = some varMap → Plain varMap
  functionParameters : ∀ filePath lti, index.localTypeInfo.get filePath = some lti →
    Plain lti.functionParameters

section Maps

variable {ν ν' ν'' α : Type}

theorem get_restored (f : ν → ν') (g : String → ν' → ν'') (m : OrderedMap String ν) (k : String) :
    (toMap g (toObject f m)).get k =
      if k = prototypeKey then none else (m.get k).map fun v => g k (f v) := by
  rw [get_toMap, get_toObject]
  split
  · rfl
  · exact Option.map_map ..

/-- A map returns when the accessor is not among its keys and each value does. -/
theorem restores_iff (f : ν → ν') (g : String → ν' → ν'') (view : ν'' → α) (view' : ν → α)
    (m : OrderedMap String ν) :
    (∀ k, ((toMap g (toObject f m)).get k).map view = (m.get k).map view') ↔
      Plain m ∧ ∀ k v, m.get k = some v → view (g k (f v)) = view' v := by
  constructor
  · intro same
    have plain : Plain m := by
      have lost := same prototypeKey
      rw [get_restored, if_pos rfl, Option.map_none] at lost
      exact Option.map_eq_none_iff.1 lost.symm
    refine ⟨plain, fun k v found => ?_⟩
    have other : k ≠ prototypeKey := by
      rintro rfl
      rw [plain] at found
      cases found
    have value := same k
    rw [get_restored, if_neg other, found] at value
    exact Option.some.inj value
  · rintro ⟨plain, values⟩ k
    rw [get_restored]
    split
    · next lost => rw [lost, plain]; rfl
    · cases found : m.get k with
      | none => rfl
      | some v => exact congrArg some (values k v found)

/-- A map whose values are copied returns when the accessor is not among its keys. -/
theorem copies_iff (m : OrderedMap String ν) :
    (∀ k, (toMap (fun _ v => v) (toObject id m)).get k = m.get k) ↔ Plain m := by
  have general := restores_iff id (fun _ v => v) id id m
  simp only [Option.map_id, id] at general
  rw [general]
  exact and_iff_left fun _ _ _ => trivial

/-- A map of maps returns when the accessor is a key of none of them. -/
theorem nested_iff (m : OrderedMap String (OrderedMap String ν)) :
    (∀ k, ((toMap (fun _ o => toMap (fun _ v => v) o) (toObject (toObject id) m)).get k).map OrderedMap.get =
        (m.get k).map OrderedMap.get) ↔
      Plain m ∧ ∀ k inner, m.get k = some inner → Plain inner := by
  rw [restores_iff]
  refine and_congr_right fun _ => forall_congr' fun k => forall_congr' fun inner => imp_congr_right fun _ => ?_
  rw [← copies_iff inner]
  exact funext_iff

end Maps

/-- The definitions of a function return when they have its name and no signature. -/
theorem definitions_return {fnName : String} {defs : List FunctionDefinitionRecord} :
    ((defs.map fun d => (⟨d.file, d.line, d.isStatic⟩ : CacheFunctionDefinition)).map fun d =>
        (⟨fnName, d.file, d.line, d.isStatic, none⟩ : FunctionDefinitionRecord)) = defs ↔
      ∀ d ∈ defs, d.functionName = fnName ∧ d.signature = none := by
  induction defs with
  | nil => simp
  | cons d ds ih =>
    obtain ⟨name, file, line, isStatic, signature⟩ := d
    rw [List.map_cons, List.map_cons, List.cons_eq_cons, List.forall_mem_cons, ih]
    simp [eq_comm]

/-- The type information of a file returns when the accessor is a key of none of its maps. -/
theorem localTypeInfo_returns {lti : LocalTypeInfo} :
    LocalTypeInfo.maps ⟨toMap (fun _ varObj => toMap (fun _ ti => ti) varObj)
          (toObject (toObject id) lti.localVariables),
        toMap (fun _ params => params) (toObject id lti.functionParameters)⟩ = lti.maps ↔
      (Plain lti.localVariables ∧
        ∀ fn varMap, lti.localVariables.get fn = some varMap → Plain varMap) ∧
      Plain lti.functionParameters := by
  rw [← nested_iff, ← copies_iff lti.functionParameters, ← funext_iff, ← funext_iff]
  exact Prod.mk_inj

/-- The cache gives back the index and the hashes if and only if every key makes a property
and no definition has a signature. -/
theorem cache_round_trip_iff (index : NavigationIndex) (fileHashes : OrderedMap String String)
    (generatedAt : String) :
    (∃ cache, loadCache (some (saveCache (indexToCache index fileHashes generatedAt))) = some cache ∧
        (cacheToIndex cache).SameCached index ∧ ∀ k, cache.fileHashes.get k = fileHashes.get k) ↔
      Restorable index fileHashes := by
  have loaded : loadCache (some (saveCache (indexToCache index fileHashes generatedAt))) =
      some (indexToCache index fileHashes generatedAt) := loadCache_saveCache rfl
  have hashes : (∀ k, (indexToCache index fileHashes generatedAt).fileHashes.get k = fileHashes.get k) ↔
      Plain fileHashes := by
    rw [← copies_iff]
    refine forall_congr' fun k => ?_
    rw [get_toMap]
    simp [indexToCache]
  have definitions := restores_iff
    (List.map fun d => (⟨d.file, d.line, d.isStatic⟩ : CacheFunctionDefinition))
    (fun fnName => List.map fun d => (⟨fnName, d.file, d.line, d.isStatic, none⟩ : FunctionDefinitionRecord))
    id id index.functionDefinitions
  simp only [Option.map_id, id, definitions_return] at definitions
  have types := restores_iff (fun lti => (⟨toObject (toObject id) lti.localVariables,
      toObject id lti.functionParameters⟩ : CacheLocalTypeInfo))
    (fun _ clti => (⟨toMap (fun _ varObj => toMap (fun _ ti => ti) varObj) clti.localVariables,
      toMap (fun _ params => params) clti.functionParameters⟩ : LocalTypeInfo))
    LocalTypeInfo.maps LocalTypeInfo.maps index.localTypeInfo
  simp only [localTypeInfo_returns] at types
  constructor
  · rintro ⟨cache, found, same, sameHashes⟩
    obtain rfl : indexToCache index fileHashes generatedAt = cache := Option.some.inj (loaded.symm.trans found)
    obtain ⟨vtables, fields⟩ := (nested_iff _).1 same.vtableAssignments
    obtain ⟨functions, signatures⟩ := definitions.1 same.functionDefinitions
    obtain ⟨files, inner⟩ := types.1 same.localTypeInfo
    exact
      { fileHashes := hashes.1 sameHashes
        moduleRoots := (copies_iff _).1 same.moduleRoots
        traitRoots := (copies_iff _).1 same.traitRoots
        derivationChain := (copies_iff _).1 same.derivationChain
        apiStructFields := (copies_iff _).1 same.apiStructFields
        vtableAssignments := vtables
        fieldMaps := fields
        failureHandlerAssignments := (copies_iff _).1 same.failureHandlerAssignments
        apiMemberRegistry := (copies_iff _).1 same.apiMemberRegistry
        functionDefinitions := functions
        signatures := signatures
        localTypeInfo := files
        localVariables := fun filePath lti found => (inner filePath lti found).1
        functionParameters := fun filePath lti found => (inner filePath lti found).2 }
  · intro h
    refine ⟨_, loaded, ?_, hashes.2 h.fileHashes⟩
    exact
      { moduleRoots := (copies_iff _).2 h.moduleRoots
        traitRoots := (copies_iff _).2 h.traitRoots
        derivationChain := (copies_iff _).2 h.derivationChain
        apiStructFields := (copies_iff _).2 h.apiStructFields
        vtableAssignments := (nested_iff _).2 ⟨h.vtableAssignments, h.fieldMaps⟩
        failureHandlerAssignments := (copies_iff _).2 h.failureHandlerAssignments
        apiMemberRegistry := (copies_iff _).2 h.apiMemberRegistry
        functionDefinitions := definitions.2 ⟨h.functionDefinitions, h.signatures⟩
        localTypeInfo := types.2 ⟨h.localTypeInfo, fun filePath lti found =>
          ⟨h.localVariables filePath lti found, h.functionParameters filePath lti found⟩⟩ }

/-- An index with one function, as the parser records it. -/
def signedIndex : NavigationIndex :=
  { createEmptyIndex with
    functionDefinitions := OrderedMap.empty.set "Log" [⟨"Log", "/w/log.c", 1, false, some "Log(...)"⟩] }

/-- The signature of its definition is lost. -/
theorem cache_loses_signature :
    ¬ ∃ cache, loadCache (some (saveCache (indexToCache signedIndex .empty ""))) = some cache ∧
      (cacheToIndex cache).SameCached signedIndex ∧
        ∀ k, cache.fileHashes.get k = (OrderedMap.empty : OrderedMap String String).get k := by
  rintro ⟨cache, found, same, -⟩
  rw [loadCache_saveCache rfl] at found
  obtain rfl : indexToCache signedIndex .empty "" = cache := Option.some.inj found
  have changed := same.functionDefinitions "Log"
  revert changed
  decide

end LibJuno.Indexer
