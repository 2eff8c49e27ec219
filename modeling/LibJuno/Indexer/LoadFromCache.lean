import LibJuno.Indexer.CacheRoundTrip
import LibJuno.Indexer.Incremental

/-!
# Starting from the cache

`loadFromCache` of the workspace indexer: the maps of the cache are copied into the index,
and the files whose hash is not the cached one lose their records and are indexed again.
What they defer is resolved at the end; the stamps of the composition root are not. The
theorems say what this does to the view of the index.
-/

namespace LibJuno.Indexer

section Loading

variable (parser : Parser) (hashText : String → String) (disk : Disk)

/-- `hashFile`: the empty string for a file that cannot be read. -/
def hashFile (filePath : String) : String :=
  match disk filePath with
  | some content => hashText content
  | none => ""

/-- `for (const [k, v] of src) { dst.set(k, v); }` -/
def copyMap {ν : Type} (dst src : OrderedMap String ν) : OrderedMap String ν :=
  src.entries.foldl (fun m e => m.set e.1 e.2) dst

/-- `copyIndex`: every map but that of the initialiser calls. -/
def copyIndex (dst src : NavigationIndex) : NavigationIndex where
  moduleRoots := copyMap dst.moduleRoots src.moduleRoots
  traitRoots := copyMap dst.traitRoots src.traitRoots
  derivationChain := copyMap dst.derivationChain src.derivationChain
  apiStructFields := copyMap dst.apiStructFields src.apiStructFields
  vtableAssignments := copyMap dst.vtableAssignments src.vtableAssignments
  failureHandlerAssignments := copyMap dst.failureHandlerAssignments src.failureHandlerAssignments
  apiMemberRegistry := copyMap dst.apiMemberRegistry src.apiMemberRegistry
  functionDefinitions := copyMap dst.functionDefinitions src.functionDefinitions
  localTypeInfo := copyMap dst.localTypeInfo src.localTypeInfo
  initCallIndex := dst.initCallIndex

/-- `saveToCache`: the text of the cache. -/
def saveToCache (generatedAt : String) (s : WorkspaceIndexer) : String :=
  saveCache (indexToCache s.index s.fileHashes generatedAt)

/-- The indexer between two turns of the loop over the files. -/
structure Refreshing where
  indexer : WorkspaceIndexer
  deferred : List DeferredPositional
  anyChanged : Bool

/-- One turn: a file with its cached hash is skipped. -/
def refreshFile (r : Refreshing) (filePath : String) : Refreshing :=
  if some (hashFile hashText disk filePath) = r.indexer.fileHashes.get filePath then r
  else
    let removed := { r.indexer with index := removeFileRecords r.indexer.index filePath }
    let indexed := indexFile parser hashText disk filePath removed r.deferred
    ⟨indexed.1, indexed.2, true⟩

/-- What `loadFromCache` returns, the indexer that it leaves, and the cache if it writes it. -/
structure Loading where
  returned : Bool
  indexer : WorkspaceIndexer
  written : Option String

/-- `loadFromCache`, given the text of the cache and the files that the scan lists. -/
def loadFromCache (generatedAt : String) (raw : Option String) (allFiles : List String)
    (s : WorkspaceIndexer) : Loading :=
  match loadCache raw with
  | none => ⟨false, s, none⟩
  | some cache =>
    let restored : WorkspaceIndexer :=
      ⟨copyIndex s.index (cacheToIndex cache), copyMap s.fileHashes cache.fileHashes⟩
    let r := allFiles.foldl (refreshFile parser hashText disk) ⟨restored, [], false⟩
    if r.anyChanged then
      let resolved : WorkspaceIndexer := ⟨r.indexer.index.resolveDeferred r.deferred, r.indexer.fileHashes⟩
      ⟨true, resolved, some (saveToCache generatedAt resolved)⟩
    else ⟨true, r.indexer, none⟩

end Loading

/-- Into an empty map everything is copied. -/
theorem copyMap_empty {ν : Type} (src : OrderedMap String ν) : copyMap .empty src = src :=
  OrderedMap.ofEntries_entries src

theorem copyIndex_empty (cache : CacheFile) :
    copyIndex createEmptyIndex (cacheToIndex cache) = cacheToIndex cache := by
  unfold copyIndex createEmptyIndex
  simp only [copyMap_empty]
  rfl

/-- What an indexer that starts from the cache begins with. -/
def restored (cache : CacheFile) : WorkspaceIndexer := ⟨cacheToIndex cache, cache.fileHashes⟩

/-- The records of the file are removed and those of its parse merged. -/
def View.renew (v : View) (P : FileParse) : View := (v.remove P.path).merge P

section Refresh

variable (parser : Parser) (hashText : String → String) {W : Workspace}

/-- The file does not have its stored hash. -/
def stale (fileHashes : OrderedMap String String) (x : String × String) : Bool :=
  decide (fileHashes.get x.1 ≠ some (hashText x.2))

theorem hashFile_of_mem (distinct : W.files.Nodup) {x : String × String} (member : x ∈ W) :
    hashFile hashText W.disk x.1 = hashText x.2 := by
  unfold hashFile
  rw [W.disk_of_mem distinct member]

theorem stale_set {fileHashes : OrderedMap String String} {path hash : String} {x : String × String}
    (other : x.1 ≠ path) : stale hashText (fileHashes.set path hash) x = stale hashText fileHashes x := by
  unfold stale
  rw [OrderedMap.get_set_of_ne fileHashes hash other]

/-- A turn skips a file with its stored hash. -/
theorem refreshFile_of_hash (distinct : W.files.Nodup) {x : String × String} (member : x ∈ W)
    {r : Refreshing} (fresh : stale hashText r.indexer.fileHashes x = false) :
    refreshFile parser hashText W.disk r x.1 = r := by
  have stored := of_decide_eq_false fresh
  unfold refreshFile
  rw [hashFile_of_mem hashText distinct member, if_pos (not_not.1 stored).symm]

/-- A turn renews the records of any other file. -/
theorem refreshFile_of_stale (distinct : W.files.Nodup) {x : String × String} (member : x ∈ W)
    {r : Refreshing} (old : stale hashText r.indexer.fileHashes x = true)
    {see : ConcreteLocation → ConcreteLocation} (shows : Shows see) :
    let P := parser.parseFileWithDefs x.1 x.2
    let r' := refreshFile parser hashText W.disk r x.1
    viewBy see r'.indexer.index = (viewBy see r.indexer.index).renew P ∧
      r'.deferred = r.deferred ++ P.deferred ∧ r'.anyChanged = true ∧
      r'.indexer.fileHashes = r.indexer.fileHashes.set x.1 (hashText x.2) := by
  have read := W.disk_of_mem distinct member
  have path : (parser.parseFileWithDefs x.1 x.2).path = x.1 := (parser.sourced x.1 x.2).path
  dsimp only
  unfold refreshFile View.renew
  rw [hashFile_of_mem hashText distinct member, if_neg fun h => of_decide_eq_true old h.symm, path]
  dsimp only
  obtain ⟨merged, deferred⟩ := shows.indexFile parser hashText W.disk read
    ⟨removeFileRecords r.indexer.index x.1, r.indexer.fileHashes⟩ r.deferred
  rw [merged, shows.removeFileRecords]
  refine ⟨rfl, deferred, rfl, ?_⟩
  unfold indexFile
  rw [read]

/-- The loop renews the files whose hash is not the stored one, and defers what they do. -/
theorem foldl_refreshFile (distinct : W.files.Nodup) {see : ConcreteLocation → ConcreteLocation}
    (shows : Shows see) (r : Refreshing) :
    let Ps := Workspace.parses parser (W.filter (stale hashText r.indexer.fileHashes))
    let r' := W.files.foldl (refreshFile parser hashText W.disk) r
    viewBy see r'.indexer.index = Ps.foldl View.renew (viewBy see r.indexer.index) ∧
      r'.deferred = r.deferred ++ Ps.flatMap FileParse.deferred ∧
      (r'.anyChanged = false → r' = r ∧ Ps = []) := by
  have general : ∀ V : Workspace, (∀ x ∈ V, x ∈ W) → V.files.Nodup → ∀ r : Refreshing,
      let Ps := Workspace.parses parser (V.filter (stale hashText r.indexer.fileHashes))
      let r' := V.files.foldl (refreshFile parser hashText W.disk) r
      viewBy see r'.indexer.index = Ps.foldl View.renew (viewBy see r.indexer.index) ∧
        r'.deferred = r.deferred ++ Ps.flatMap FileParse.deferred ∧
        (r'.anyChanged = false → r.anyChanged = false ∧ r' = r ∧ Ps = []) := by
    intro V
    induction V with
    | nil => exact fun _ _ r => ⟨rfl, (List.append_nil _).symm, fun unchanged => ⟨unchanged, rfl, rfl⟩⟩
    | cons x V ih =>
      intro among different r
      obtain ⟨first, different⟩ := List.nodup_cons.1 different
      have member := among x List.mem_cons_self
      have among := fun y h => among y (List.mem_cons_of_mem _ h)
      dsimp only
      rw [Workspace.files, List.map_cons, List.foldl_cons]
      cases old : stale hashText r.indexer.fileHashes x with
      | false =>
        rw [refreshFile_of_hash parser hashText distinct member old, List.filter_cons_of_neg (by simp [old])]
        exact ih among different r
      | true =>
        obtain ⟨records, deferred, changed, hashes⟩ :=
          refreshFile_of_stale parser hashText distinct member old shows
        have rest := ih among different (refreshFile parser hashText W.disk r x.1)
        have later : V.filter (stale hashText (refreshFile parser hashText W.disk r x.1).indexer.fileHashes) =
            V.filter (stale hashText r.indexer.fileHashes) := by
          apply List.filter_congr
          intro y there
          rw [hashes]
          exact stale_set hashText fun same => first (same ▸ List.mem_map_of_mem there)
        rw [later, records, deferred, changed] at rest
        rw [List.filter_cons_of_pos old]
        refine ⟨rest.1, ?_, fun unchanged => ?_⟩
        · exact rest.2.1.trans (List.append_assoc ..)
        · exact absurd (rest.2.2 unchanged).1 Bool.noConfusion
  obtain ⟨records, deferred, changed⟩ := general W (fun _ h => h) distinct r
  exact ⟨records, deferred, fun unchanged => (changed unchanged).2⟩

/-- A new indexer that loads a cache of this version renews the changed files on top of what
was saved, and resolves what they defer. -/
theorem loadFromCache_view (distinct : W.files.Nodup) {cache : CacheFile}
    (version : cache.version = CACHE_VERSION) (generatedAt : String)
    {see : ConcreteLocation → ConcreteLocation} (shows : Shows see) :
    let Ps := Workspace.parses parser (W.filter (stale hashText cache.fileHashes))
    let loading := loadFromCache parser hashText W.disk generatedAt (some (saveCache cache)) W.files .fresh
    loading.returned = true ∧ viewBy see loading.indexer.index =
      (Ps.flatMap FileParse.deferred).foldl View.resolve
        (Ps.foldl View.renew (viewBy see (cacheToIndex cache))) := by
  dsimp only
  unfold loadFromCache
  rw [loadCache_saveCache version]
  dsimp only
  unfold WorkspaceIndexer.fresh
  dsimp only
  rw [copyIndex_empty, copyMap_empty]
  obtain ⟨records, deferred, changed⟩ := foldl_refreshFile parser hashText distinct shows
    ⟨restored cache, [], false⟩
  unfold restored at *
  dsimp only at *
  split
  · refine ⟨rfl, ?_⟩
    dsimp only
    rw [shows.resolveDeferred, records, deferred, List.nil_append]
  · next unchanged =>
    obtain ⟨same, none⟩ := changed (Bool.eq_false_iff.2 unchanged)
    rw [same, none]
    exact ⟨rfl, rfl⟩

end Refresh

/-- The definition as it returns from the cache. -/
def FunctionDefinitionRecord.unsigned (d : FunctionDefinitionRecord) : FunctionDefinitionRecord :=
  { d with signature := none }

namespace View

/-- The view with every definition as it returns from the cache. -/
def unsigned (v : View) : View := { v with definitions := fun n => (v.definitions n).map (·.unsigned) }

/-- Signatures are not looked at when a function is resolved. -/
theorem resolveDefinitionLocation_unsigned (functionName file : String)
    (functionDefs indexDefs : List FunctionDefinitionRecord) :
    resolveDefinitionLocation functionName file functionDefs (indexDefs.map (·.unsigned)) =
      resolveDefinitionLocation functionName file functionDefs indexDefs := by
  unfold resolveDefinitionLocation
  rw [List.find?_map]
  cases functionDefs.find? fun d => decide (d.functionName = functionName ∧ d.file = file) with
  | some d => rfl
  | none =>
    dsimp only
    have same : ((fun d => decide (d.file = file)) ∘ fun d : FunctionDefinitionRecord => d.unsigned) =
        fun d => decide (d.file = file) := rfl
    rw [same]
    cases indexDefs.find? fun d => decide (d.file = file) with
    | some d => rfl
    | none => cases indexDefs <;> rfl

theorem unsigned_merge (v : View) (P : FileParse) :
    (v.unsigned.merge P).unsigned = (v.merge P).unsigned := by
  have vtables : vtableLocation v.unsigned.definitions P.functionDefs =
      vtableLocation v.definitions P.functionDefs := by
    funext r
    unfold vtableLocation
    dsimp only [unsigned]
    rw [resolveDefinitionLocation_unsigned]
  have handlers : handlerLocation v.unsigned.definitions P.functionDefs =
      handlerLocation v.definitions P.functionDefs := by
    funext r
    unfold handlerLocation
    dsimp only [unsigned]
    rw [resolveDefinitionLocation_unsigned]
  apply View.ext
  · show (v.unsigned.merge P).vtable = (v.merge P).vtable
    unfold merge
    rw [vtables]
    rfl
  · show (v.unsigned.merge P).handlers = (v.merge P).handlers
    unfold merge
    rw [handlers]
    rfl
  · funext n
    show List.map _ (List.map _ _ ++ _) = List.map _ (_ ++ _)
    rw [List.map_append, List.map_append, List.map_map]
    rfl
  · rfl
  · rfl

theorem unsigned_remove (v : View) (filePath : String) :
    v.unsigned.remove filePath = (v.remove filePath).unsigned := by
  apply View.ext
  · rfl
  · rfl
  · funext n
    show (List.map _ _).filter _ = List.map _ (List.filter _ _)
    rw [List.filter_map]
    rfl
  · rfl
  · rfl

theorem unsigned_place (apiType : String) (v : View) (x : String × ConcreteLocation) :
    v.unsigned.place apiType x = (v.place apiType x).unsigned := by
  unfold place unsigned
  dsimp only
  split <;> rfl

theorem unsigned_resolve (v : View) (d : DeferredPositional) :
    v.unsigned.resolve d = (v.resolve d).unsigned := by
  have placed : ∀ fields, placements v.unsigned.definitions fields d = placements v.definitions fields d := by
    intro fields
    unfold placements positionalLocation
    dsimp only [unsigned]
    simp only [resolveDefinitionLocation_unsigned]
  have declared : v.unsigned.fields = v.fields := rfl
  unfold resolve
  rw [declared]
  cases v.fields d.apiType with
  | none => rfl
  | some fields =>
    dsimp only
    rw [placed]
    clear placed declared
    generalize placements v.definitions fields d = xs
    induction xs generalizing v with
    | nil => rfl
    | cons x xs ih =>
      rw [List.foldl_cons, List.foldl_cons, unsigned_place]
      exact ih (v.place d.apiType x)

theorem unsigned_unsigned (v : View) : v.unsigned.unsigned = v.unsigned := by
  unfold unsigned
  simp only [List.map_map]
  rfl

theorem unsigned_renew (v : View) (P : FileParse) :
    (v.unsigned.renew P).unsigned = (v.renew P).unsigned := by
  unfold renew
  rw [unsigned_remove, unsigned_merge]

/-- Whether signatures were lost before makes no difference to the records. -/
theorem unsigned_load (Ps : List FileParse) (ds : List DeferredPositional) (v : View) :
    (ds.foldl resolve (Ps.foldl renew v.unsigned)).unsigned =
      (ds.foldl resolve (Ps.foldl renew v)).unsigned := by
  have renewed : ∀ v w : View, v.unsigned = w.unsigned →
      (Ps.foldl renew v).unsigned = (Ps.foldl renew w).unsigned := by
    induction Ps with
    | nil => exact fun _ _ same => same
    | cons P Ps ih =>
      intro v w same
      apply ih
      rw [← unsigned_renew v, ← unsigned_renew w, same]
  have resolved : ∀ v : View, (ds.foldl resolve v).unsigned = ds.foldl resolve v.unsigned := by
    induction ds with
    | nil => exact fun _ => rfl
    | cons d ds ih =>
      intro v
      rw [List.foldl_cons, List.foldl_cons, ih, unsigned_resolve]
  rw [resolved, resolved, renewed _ _ (unsigned_unsigned v)]

end View

/-- No key of the index that its views read is the name of the inherited accessor, and no
file has this name. -/
structure PlainKeys (s : WorkspaceIndexer) : Prop where
  fileHashes : Plain s.fileHashes
  moduleRoots : Plain s.index.moduleRoots
  traitRoots : Plain s.index.traitRoots
  apiStructFields : Plain s.index.apiStructFields
  vtableAssignments : Plain s.index.vtableAssignments
  fieldMaps : ∀ apiType m, s.index.vtableAssignments.get apiType = some m → Plain m
  failureHandlerAssignments : Plain s.index.failureHandlerAssignments
  functionDefinitions : Plain s.index.functionDefinitions

theorem implementations_eq (vtables : OrderedMap String (OrderedMap String (List ConcreteLocation)))
    (a f : String) :
    implementations vtables a f = (((vtables.get a).map OrderedMap.get).bind fun m => m f).getD [] := by
  unfold implementations OrderedMap.listAt
  cases vtables.get a <;> rfl

/-- Loaded from the cache, an index with plain keys shows what was saved, but for the
signatures. -/
theorem viewBy_cacheToIndex {s : WorkspaceIndexer} (plain : PlainKeys s) (generatedAt : String)
    (named : ∀ n, ∀ d ∈ s.index.functionDefinitions.listAt n, d.functionName = n)
    (see : ConcreteLocation → ConcreteLocation) :
    viewBy see (cacheToIndex (indexToCache s.index s.fileHashes generatedAt)) =
      (viewBy see s.index).unsigned := by
  have vtables := (nested_iff _).2 ⟨plain.vtableAssignments, plain.fieldMaps⟩
  apply View.ext
  · funext a f
    show (implementations _ a f).map see = (implementations _ a f).map see
    rw [implementations_eq, implementations_eq]
    exact congrArg (fun m => ((m.bind fun m => m f).getD []).map see) (vtables a)
  · funext t
    exact congrArg (·.getD []) ((copies_iff _).2 plain.failureHandlerAssignments t)
  · funext n
    show OrderedMap.listAt (toMap _ (toObject _ _)) n = List.map _ (OrderedMap.listAt _ n)
    unfold OrderedMap.listAt at named ⊢
    rw [get_restored]
    split
    · next lost => rw [lost, plain.functionDefinitions]; rfl
    · cases found : s.index.functionDefinitions.get n with
      | none => rfl
      | some defs =>
        rw [Option.map_some, Option.getD_some, Option.getD_some, List.map_map]
        apply List.map_congr_left
        intro d member
        have name := named n d (by rw [found]; exact member)
        unfold FunctionDefinitionRecord.unsigned
        rw [name]
        rfl
  · funext t
    show ((OrderedMap.get _ t).isSome || (OrderedMap.get _ t).isSome) =
      ((OrderedMap.get _ t).isSome || (OrderedMap.get _ t).isSome)
    congr 2
    · exact (copies_iff _).2 plain.moduleRoots t
    · exact (copies_iff _).2 plain.traitRoots t
  · funext t
    exact (copies_iff _).2 plain.apiStructFields t

end LibJuno.Indexer
