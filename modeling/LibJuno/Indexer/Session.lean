import LibJuno.Indexer.LoadFromCache
import LibJuno.Indexer.Overlap
import LibJuno.Resolver.ResolverUtils

/-!
# Sessions of the editor

What `extension.ts` makes of the indexer: a start that loads the cache or scans, a watcher
whose calls overlap, a timer that starts to write the cache some time after a call has
finished, a write that goes on for a while and can fail, and an end of the process at any
point. The disk changes in between. A start is one step here, and the command that scans the
workspace again is left out.

A cache can be written while calls are suspended, and a file can change after it was
indexed. A start after that is right all the same, since a hash is only kept together with
the parse of a text that has it (`Sound`). A deletion is not written by itself, so what a
start takes from the cache for the files that are gone is what was there at the last write.
Nothing is tried again after a save that failed.
-/

namespace LibJuno.Indexer

open Resolver

/-- A call of `saveToCache` that has not ended. It is alone if no other was under way since it
began. -/
structure Save where
  text : String
  alone : Bool

structure Session where
  disk : Disk
  watcher : Watcher
  saveTimer : Bool
  saves : List Save
  cache : Option String

/-- What can happen next. The times go into the caches that are written. A save ends with the
renaming of its file, or it fails. Saves that overlap write into one temporary file, and leave
any text in the cache. -/
inductive SessionEvent where
  | write (filePath : String) (text : Option String)
  | changed (filePath : String)
  | resumed (k : Nat)
  | deleted (filePath : String)
  | timeout (generatedAt : String)
  | saved (k : Nat) (renamed : Bool)
  | overlapped (text : String)
  | disposed
  | restarted (generatedAt : String) (allFiles : List String) (renamed : Bool)

section Steps

variable (parser : Parser) (hashText : String → String)

/-- The start of the extension, on the files that the scan lists, and the cache if it is saved. -/
def startIndexer (generatedAt : String) (disk : Disk) (cache : Option String)
    (allFiles : List String) : WorkspaceIndexer × Option String :=
  let loading := loadFromCache parser hashText disk generatedAt cache allFiles .fresh
  if loading.returned then (loading.indexer, loading.written.or cache)
  else
    let scanned := fullIndex parser hashText disk allFiles loading.indexer
    (scanned, some (saveToCache generatedAt scanned))

/-- A call goes on; when it is done it schedules a save. -/
def Session.resume (k : Nat) (s : Session) : Session :=
  let next := ((eventLoop parser hashText s.disk).step s.watcher k).2
  let finishes := match s.watcher.calls[k]? with
    | some ⟨_, .merged _⟩ => true
    | _ => false
  { s with watcher := next, saveTimer := finishes || s.saveTimer }

/-- The timer fires: the text of the cache is made at once, and then written. -/
def Session.startSave (generatedAt : String) (s : Session) : Session :=
  { s with
    saveTimer := false
    saves := s.saves.map (fun save => { save with alone := false }) ++
      [⟨saveToCache generatedAt s.watcher.indexer, s.saves.isEmpty⟩] }

/-- A save ends. Its error is swallowed. -/
def Session.endSave (k : Nat) (renamed : Bool) (s : Session) : Session :=
  match s.saves[k]? with
  | none => s
  | some save =>
    { s with
      saves := s.saves.eraseIdx k
      cache := if renamed && save.alone then some save.text else s.cache }

def Session.step (s : Session) : SessionEvent → Session
  | .write filePath text => { s with disk := Function.update s.disk filePath text }
  | .changed filePath =>
    { s with watcher := { s.watcher with calls := s.watcher.calls ++ [⟨filePath, .waiting⟩] } }
  | .resumed k => s.resume parser hashText k
  | .deleted filePath =>
    { s with watcher := { s.watcher with indexer := removeFile filePath s.watcher.indexer } }
  | .timeout generatedAt => if s.saveTimer then s.startSave generatedAt else s
  | .saved k renamed => s.endSave k renamed
  | .overlapped text =>
    if s.saves.any fun save => !save.alone then { s with cache := some text } else s
  | .disposed => { s with saveTimer := false }
  | .restarted generatedAt allFiles renamed =>
    let started := startIndexer parser hashText generatedAt s.disk s.cache allFiles
    ⟨s.disk, ⟨started.1, []⟩, false, [], if renamed then started.2 else s.cache⟩

def sessions : Machine Session SessionEvent Unit where
  step s e := ((), s.step parser hashText e)

/-- Before the first start: nothing is indexed, and there is no cache. -/
def Session.first (disk : Disk) : Session := ⟨disk, ⟨.fresh, []⟩, false, [], none⟩

/-- The files that a start lists can be read, and none is named like the inherited accessor. -/
def Session.Readable (s : Session) : SessionEvent → Prop
  | .restarted _ allFiles _ => ∀ file ∈ allFiles, file ≠ prototypeKey ∧ ∃ text, s.disk file = some text
  | _ => True

/-- No save begins before the one before it has ended. -/
def Session.Apart (s : Session) : SessionEvent → Prop
  | .timeout _ => s.saveTimer = true → s.saves = []
  | _ => True

end Steps

section Types

/-- The resolvers find the same types of variables. -/
def LocalTypeInfo.Agrees (lti lti' : LocalTypeInfo) : Prop :=
  ∀ fn var, fn ≠ prototypeKey → var ≠ prototypeKey → lookupIn lti fn var = lookupIn lti' fn var

/-- The local types of the file are those of the text. -/
def NavigationIndex.TypesOf (parser : Parser) (index : NavigationIndex) (file text : String) : Prop :=
  ∃ lti, index.localTypeInfo.get file = some lti ∧
    lti.Agrees (parser.parseFileWithDefs file text).parsed.localTypeInfo

/-- The local types of the file are those of a text with the hash. -/
def NavigationIndex.TypesOfHash (parser : Parser) (hashText : String → String)
    (index : NavigationIndex) (file hash : String) : Prop :=
  ∃ text, hashText text = hash ∧ index.TypesOf parser file text

/-- A hash is kept with the local types of a text that has it. -/
def Sound (parser : Parser) (hashText : String → String) (s : WorkspaceIndexer) : Prop :=
  ∀ file hash, file ≠ prototypeKey → s.fileHashes.get file = some hash →
    s.index.TypesOfHash parser hashText file hash

theorem LocalTypeInfo.Agrees.refl (lti : LocalTypeInfo) : lti.Agrees lti := fun _ _ _ _ => rfl

theorem LocalTypeInfo.Agrees.trans {a b c : LocalTypeInfo} (first : a.Agrees b) (second : b.Agrees c) :
    a.Agrees c :=
  fun fn var fnPlain varPlain => (first fn var fnPlain varPlain).trans (second fn var fnPlain varPlain)

/-- Local types as they return from the cache. -/
def LocalTypeInfo.restored (lti : LocalTypeInfo) : LocalTypeInfo :=
  ⟨toMap (fun _ varObj => toMap (fun _ ti => ti) varObj) (toObject (toObject id) lti.localVariables),
    toMap (fun _ params => params) (toObject id lti.functionParameters)⟩

theorem LocalTypeInfo.restored_agrees (lti : LocalTypeInfo) : lti.restored.Agrees lti := by
  intro fn var fnPlain varPlain
  have locals : (lti.restored.localVariables.get fn).bind (fun locals => locals.get var) =
      (lti.localVariables.get fn).bind fun locals => locals.get var := by
    rw [restored, get_restored, if_neg fnPlain]
    cases lti.localVariables.get fn with
    | none => rfl
    | some locals =>
      rw [Option.map_some, Option.bind_some, Option.bind_some, get_restored, if_neg varPlain]
      exact Option.map_id'
  have params : lti.restored.functionParameters.get fn = lti.functionParameters.get fn := by
    rw [restored, get_restored, if_neg fnPlain]
    exact Option.map_id'
  rw [lookupIn, lookupIn, locals, params]

end Types

section Soundness

variable {parser : Parser} {hashText : String → String} {disk : Disk} {s : WorkspaceIndexer}

theorem localTypeInfo_resolvePositional (index : NavigationIndex) (d : DeferredPositional) :
    (index.resolvePositional d).localTypeInfo = index.localTypeInfo := by
  rw [NavigationIndex.resolvePositional]
  split
  · rfl
  · next fields known =>
    dsimp only
    generalize placements _ _ _ = xs
    suffices ∀ i : NavigationIndex, i.localTypeInfo = index.localTypeInfo →
        (xs.foldl (NavigationIndex.place d.apiType) i).localTypeInfo = index.localTypeInfo from this _ rfl
    induction xs with
    | nil => exact fun _ same => same
    | cons x xs ih =>
      intro i same
      apply ih
      rw [NavigationIndex.place]
      split
      · exact same
      · exact same

theorem localTypeInfo_resolveDeferred (deferred : List DeferredPositional) (index : NavigationIndex) :
    (index.resolveDeferred deferred).localTypeInfo = index.localTypeInfo := by
  induction deferred generalizing index with
  | nil => rfl
  | cons d ds ih => exact (ih _).trans (localTypeInfo_resolvePositional index d)

theorem localTypeInfo_finishIndexing (deferred : List DeferredPositional) :
    (finishIndexing disk s deferred).index.localTypeInfo = s.index.localTypeInfo := by
  have rooted : ∀ index : NavigationIndex,
      (resolveCompositionRoots disk s.fileHashes.keys index).localTypeInfo = index.localTypeInfo := by
    intro index
    rw [resolveCompositionRoots]
    dsimp only
    split <;> rfl
  exact (rooted _).trans (localTypeInfo_resolveDeferred deferred s.index)

/-- What a read of a file leaves: its hash, and its local types. -/
theorem indexFile_of_read {file text : String} (read : disk file = some text)
    (deferred : List DeferredPositional) :
    (indexFile parser hashText disk file s deferred).1.fileHashes = s.fileHashes.set file (hashText text) ∧
    (indexFile parser hashText disk file s deferred).1.index.localTypeInfo =
      s.index.localTypeInfo.set file (parser.parseFileWithDefs file text).parsed.localTypeInfo := by
  have sourced := parser.sourced file text
  rw [indexFile, read]
  refine ⟨rfl, (mergeInto_flat sourced.calls s.index deferred).2.trans ?_⟩
  rw [sourced.path]

theorem indexFile_of_unread {file : String} (unread : disk file = none)
    (deferred : List DeferredPositional) :
    indexFile parser hashText disk file s deferred = (s, deferred) := by
  rw [indexFile, unread]

/-- The file is indexed as the disk has it. -/
def Current (parser : Parser) (hashText : String → String) (disk : Disk) (s : WorkspaceIndexer)
    (file : String) : Prop :=
  ∀ text, disk file = some text → s.index.TypesOfHash parser hashText file (hashText text)

theorem current_indexFile (file : String) (deferred : List DeferredPositional) :
    Current parser hashText disk (indexFile parser hashText disk file s deferred).1 file := by
  intro text read
  refine ⟨text, rfl, _, ?_, LocalTypeInfo.Agrees.refl _⟩
  rw [(indexFile_of_read read deferred).2, OrderedMap.get_set_self]

/-- A read of one file leaves the local types of the others. -/
theorem localTypeInfo_indexFile_of_ne {file other : String} (ne : other ≠ file)
    (deferred : List DeferredPositional) :
    (indexFile parser hashText disk file s deferred).1.index.localTypeInfo.get other =
      s.index.localTypeInfo.get other := by
  cases read : disk file with
  | none => rw [indexFile_of_unread read]
  | some text => rw [(indexFile_of_read read deferred).2, OrderedMap.get_set_of_ne _ _ ne]

theorem typesOfHash_congr {i j : NavigationIndex} {file hash : String}
    (same : i.localTypeInfo.get file = j.localTypeInfo.get file) :
    i.TypesOfHash parser hashText file hash ↔ j.TypesOfHash parser hashText file hash := by
  unfold NavigationIndex.TypesOfHash NavigationIndex.TypesOf
  rw [same]

theorem sound_fresh : Sound parser hashText .fresh := by
  intro file hash _ kept
  cases kept

/-- A read of a file keeps the others, and makes its own hash sound. -/
theorem Sound.indexFile_of_others {file : String} {deferred : List DeferredPositional}
    (sound : ∀ other hash, other ≠ prototypeKey → other ≠ file →
      s.fileHashes.get other = some hash → s.index.TypesOfHash parser hashText other hash)
    {text : String} (read : disk file = some text) :
    Sound parser hashText (indexFile parser hashText disk file s deferred).1 := by
  intro other hash plain kept
  rw [(indexFile_of_read read deferred).1, OrderedMap.get_set] at kept
  by_cases same : other = file
  · rw [if_pos same] at kept
    obtain rfl := Option.some.inj kept
    subst same
    exact current_indexFile other deferred text read
  · rw [if_neg same] at kept
    rw [typesOfHash_congr (localTypeInfo_indexFile_of_ne same deferred)]
    exact sound other hash plain same kept

theorem Sound.indexFile (sound : Sound parser hashText s) (file : String)
    (deferred : List DeferredPositional) :
    Sound parser hashText (indexFile parser hashText disk file s deferred).1 := by
  cases read : disk file with
  | none => rwa [indexFile_of_unread read]
  | some text => exact Sound.indexFile_of_others (fun other hash plain _ => sound other hash plain) read

theorem Sound.removeFile (sound : Sound parser hashText s) (file : String) :
    Sound parser hashText (removeFile file s) := by
  intro other hash plain kept
  have hashes : (Indexer.removeFile file s).fileHashes = s.fileHashes.delete file := rfl
  have types : (Indexer.removeFile file s).index.localTypeInfo = s.index.localTypeInfo.delete file := rfl
  rw [hashes, OrderedMap.get_delete] at kept
  split at kept
  · cases kept
  · next ne =>
    rw [typesOfHash_congr (j := s.index) (by rw [types, OrderedMap.get_delete, if_neg ne])]
    exact sound other hash plain kept

theorem Sound.finishIndexing (sound : Sound parser hashText s) (deferred : List DeferredPositional) :
    Sound parser hashText (finishIndexing disk s deferred) := by
  intro file hash plain kept
  rw [typesOfHash_congr (j := s.index) (by rw [localTypeInfo_finishIndexing])]
  exact sound file hash plain kept

theorem Sound.resume (sound : Sound parser hashText s) (c : ReindexCall) :
    Sound parser hashText (resume parser hashText disk c s).1 := by
  obtain ⟨file, phase⟩ := c
  cases phase with
  | waiting => exact sound.removeFile file
  | reading names => exact sound.indexFile file []
  | merged deferred => exact sound.finishIndexing deferred
  | done => exact sound

theorem Sound.fullIndex (sound : Sound parser hashText s) (files : List String) :
    Sound parser hashText (fullIndex parser hashText disk files s) := by
  have indexed : ∀ (files : List String) (acc : WorkspaceIndexer × List DeferredPositional),
      Sound parser hashText acc.1 → Sound parser hashText (files.foldl (fun acc filePath =>
        Indexer.indexFile parser hashText disk filePath acc.1 acc.2) acc).1 := by
    intro files
    induction files with
    | nil => exact fun _ sound => sound
    | cons file files ih => exact fun acc sound => ih _ (sound.indexFile file acc.2)
  exact (indexed files (s, []) sound).finishIndexing _

end Soundness

section Starting

variable {parser : Parser} {hashText : String → String} {disk : Disk} {s : WorkspaceIndexer}

/-- The indexer as it returns from the cache that it was saved in. -/
def reloaded (generatedAt : String) (s : WorkspaceIndexer) : WorkspaceIndexer :=
  restored (indexToCache s.index s.fileHashes generatedAt)

theorem reloaded_types (generatedAt : String) {file : String} (plain : file ≠ prototypeKey) :
    (reloaded generatedAt s).index.localTypeInfo.get file =
      (s.index.localTypeInfo.get file).map LocalTypeInfo.restored := by
  rw [reloaded, restored, cacheToIndex, indexToCache, get_restored, if_neg plain]
  rfl

theorem Sound.reloaded (sound : Sound parser hashText s) (generatedAt : String) :
    Sound parser hashText (reloaded generatedAt s) := by
  intro file hash plain kept
  have hashes : (Indexer.reloaded generatedAt s).fileHashes.get file = s.fileHashes.get file := by
    rw [Indexer.reloaded, restored, indexToCache, get_toObject, if_neg plain]
    exact Option.map_id'
  rw [hashes] at kept
  obtain ⟨text, hashed, lti, found, agrees⟩ := sound file hash plain kept
  refine ⟨text, hashed, lti.restored, ?_, lti.restored_agrees.trans agrees⟩
  rw [reloaded_types generatedAt plain, found]
  rfl

/-- One turn of the loop: the file is as the disk has it, and the others are as they were. -/
theorem refreshFile_current {r : Refreshing} {file : String} (plain : file ≠ prototypeKey)
    (sound : Sound parser hashText r.indexer) (readable : ∃ text, disk file = some text) :
    Sound parser hashText (refreshFile parser hashText disk r file).indexer ∧
      Current parser hashText disk (refreshFile parser hashText disk r file).indexer file ∧
      ∀ other ≠ file, (refreshFile parser hashText disk r file).indexer.index.localTypeInfo.get other =
        r.indexer.index.localTypeInfo.get other := by
  obtain ⟨text, read⟩ := readable
  rw [refreshFile]
  split
  · next kept =>
    refine ⟨sound, ?_, fun _ _ => rfl⟩
    intro text' read'
    rw [hashFile, read'] at kept
    exact sound file (hashText text') plain kept.symm
  · have removed : ∀ other ≠ file, (removeFileRecords r.indexer.index file).localTypeInfo.get other =
        r.indexer.index.localTypeInfo.get other := by
      intro other ne
      show (r.indexer.index.localTypeInfo.delete file).get other = _
      rw [OrderedMap.get_delete, if_neg ne]
    refine ⟨?_, current_indexFile file _, ?_⟩
    · apply Sound.indexFile_of_others _ read
      intro other hash otherPlain ne kept
      rw [typesOfHash_congr (removed other ne)]
      exact sound other hash otherPlain kept
    · intro other ne
      exact (localTypeInfo_indexFile_of_ne ne _).trans (removed other ne)

/-- The whole loop. -/
theorem foldl_refreshFile_current (files : List String) {r : Refreshing}
    (plain : ∀ file ∈ files, file ≠ prototypeKey) (sound : Sound parser hashText r.indexer)
    (readable : ∀ file ∈ files, ∃ text, disk file = some text) :
    Sound parser hashText (files.foldl (refreshFile parser hashText disk) r).indexer ∧
      (∀ file ∈ files, Current parser hashText disk
        (files.foldl (refreshFile parser hashText disk) r).indexer file) ∧
      ∀ other ∉ files, (files.foldl (refreshFile parser hashText disk) r).indexer.index.localTypeInfo.get
        other = r.indexer.index.localTypeInfo.get other := by
  induction files using List.reverseRecOn with
  | nil => exact ⟨sound, by simp, fun _ _ => rfl⟩
  | append_singleton files file ih =>
    obtain ⟨before, indexed, kept⟩ := ih (fun f member => plain f (List.mem_append_left _ member))
      fun f member => readable f (List.mem_append_left _ member)
    have last : file ∈ files ++ [file] := List.mem_append_right _ (List.mem_singleton_self file)
    obtain ⟨after, current, others⟩ := refreshFile_current (plain file last) before (readable file last)
    rw [List.foldl_append, List.foldl_cons, List.foldl_nil]
    refine ⟨after, ?_, ?_⟩
    · intro f member
      by_cases same : f = file
      · rwa [same]
      · have earlier : f ∈ files := by
          rcases List.mem_append.1 member with earlier | last
          · exact earlier
          · exact absurd (List.mem_singleton.1 last) same
        intro text read
        rw [typesOfHash_congr (others f same)]
        exact indexed f earlier text read
    · intro other absent
      rw [List.mem_append, List.mem_singleton, not_or] at absent
      rw [others other absent.2, kept other absent.1]

theorem indexFiles_current (files : List String) : ∀ file ∈ files,
    Current parser hashText disk (indexFiles parser hashText disk files s).1 file := by
  induction files using List.reverseRecOn with
  | nil => simp
  | append_singleton files last ih =>
    intro file member
    rw [indexFiles, List.foldl_append, List.foldl_cons, List.foldl_nil, ← indexFiles]
    by_cases same : file = last
    · rw [same]
      exact current_indexFile last _
    · have earlier : file ∈ files := by
        rcases List.mem_append.1 member with earlier | last
        · exact earlier
        · exact absurd (List.mem_singleton.1 last) same
      intro text read
      rw [typesOfHash_congr (localTypeInfo_indexFile_of_ne same _)]
      exact ih file earlier text read

theorem Sound.congr {t : WorkspaceIndexer} (sound : Sound parser hashText s)
    (hashes : t.fileHashes = s.fileHashes) (types : t.index.localTypeInfo = s.index.localTypeInfo) :
    Sound parser hashText t := by
  intro file hash plain kept
  rw [hashes] at kept
  rw [typesOfHash_congr (j := s.index) (by rw [types])]
  exact sound file hash plain kept

/-- The indexer after the loop of `loadFromCache` over the files. -/
def refreshed (parser : Parser) (hashText : String → String) (disk : Disk) (generatedAt : String)
    (s : WorkspaceIndexer) (files : List String) : Refreshing :=
  files.foldl (refreshFile parser hashText disk) ⟨reloaded generatedAt s, [], false⟩

/-- What is left of the loop, with the positional vtables of the changed files resolved. -/
def Refreshing.resolved (r : Refreshing) : WorkspaceIndexer :=
  ⟨r.indexer.index.resolveDeferred r.deferred, r.indexer.fileHashes⟩

theorem loadFromCache_saved (generatedAt savedAt : String) (files : List String) :
    loadFromCache parser hashText disk generatedAt (some (saveToCache savedAt s)) files .fresh =
      let r := refreshed parser hashText disk savedAt s files
      if r.anyChanged then ⟨true, r.resolved, some (saveToCache generatedAt r.resolved)⟩
      else ⟨true, r.indexer, none⟩ := by
  have loaded : loadCache (some (saveToCache savedAt s)) =
      some (indexToCache s.index s.fileHashes savedAt) := loadCache_saveCache rfl
  have fresh : (⟨copyIndex WorkspaceIndexer.fresh.index
      (cacheToIndex (indexToCache s.index s.fileHashes savedAt)),
      copyMap WorkspaceIndexer.fresh.fileHashes (indexToCache s.index s.fileHashes savedAt).fileHashes⟩ :
        WorkspaceIndexer) = reloaded savedAt s := by
    rw [reloaded, restored, WorkspaceIndexer.fresh, copyIndex_empty, copyMap_empty]
  rw [loadFromCache, loaded]
  dsimp only
  rw [fresh]
  rfl

/-- A start from a cache that was saved. -/
theorem startIndexer_saved (generatedAt savedAt : String) (files : List String) :
    startIndexer parser hashText generatedAt disk (some (saveToCache savedAt s)) files =
      let r := refreshed parser hashText disk savedAt s files
      if r.anyChanged then (r.resolved, some (saveToCache generatedAt r.resolved))
      else (r.indexer, some (saveToCache savedAt s)) := by
  by_cases changed : (refreshed parser hashText disk savedAt s files).anyChanged = true
  · simp only [startIndexer, loadFromCache_saved, changed, if_true, Option.some_or]
  · simp only [startIndexer, loadFromCache_saved, changed]
    rfl

theorem startIndexer_scans (generatedAt : String) (files : List String) :
    startIndexer parser hashText generatedAt disk none files =
      (fullIndex parser hashText disk files .fresh,
        some (saveToCache generatedAt (fullIndex parser hashText disk files .fresh))) := rfl

/-- The cache on the disk, if any, was saved from an indexer of the kind. -/
def SavedFrom (good : WorkspaceIndexer → Prop) (cache : Option String) : Prop :=
  cache = none ∨ ∃ savedAt s, cache = some (saveToCache savedAt s) ∧ good s

/-- A scan leaves every listed file as the disk has it. -/
theorem fullIndex_current (files : List String) :
    Sound parser hashText (fullIndex parser hashText disk files .fresh) ∧
      ∀ file ∈ files, Current parser hashText disk (fullIndex parser hashText disk files .fresh) file := by
  refine ⟨Sound.fullIndex sound_fresh files, ?_⟩
  intro file member text read
  have indexed : Current parser hashText disk (indexFiles parser hashText disk files .fresh).1 file :=
    indexFiles_current files file member
  rw [fullIndex, typesOfHash_congr (congrArg (OrderedMap.get · file) (localTypeInfo_finishIndexing _))]
  exact indexed text read

/-- The loop of a load leaves every listed file as the disk has it, and the others as cached. -/
theorem refreshed_current (sound : Sound parser hashText s) {files : List String}
    (readable : ∀ file ∈ files, file ≠ prototypeKey ∧ ∃ text, disk file = some text)
    (savedAt : String) :
    Sound parser hashText (refreshed parser hashText disk savedAt s files).indexer ∧
      (∀ file ∈ files,
        Current parser hashText disk (refreshed parser hashText disk savedAt s files).indexer file) ∧
      ∀ file ∉ files, file ≠ prototypeKey →
        ((refreshed parser hashText disk savedAt s files).indexer.index.localTypeInfo.get file).isSome =
          (s.index.localTypeInfo.get file).isSome := by
  have start : Sound parser hashText (⟨reloaded savedAt s, [], false⟩ : Refreshing).indexer :=
    sound.reloaded savedAt
  obtain ⟨looped, current, others⟩ := foldl_refreshFile_current files
    (fun file member => (readable file member).1) start fun file member => (readable file member).2
  refine ⟨looped, current, ?_⟩
  intro file absent plain
  rw [refreshed, others file absent, reloaded_types savedAt plain, Option.isSome_map]

/-- What was saved is what is loaded. -/
theorem reloaded_of_saveToCache {savedAt savedAt' : String} {s' : WorkspaceIndexer}
    (same : saveToCache savedAt s = saveToCache savedAt' s') :
    reloaded savedAt s = reloaded savedAt' s' := by
  have cached := congrArg (fun text => loadCache (some text)) same
  rw [saveToCache, saveToCache, loadCache_saveCache rfl, loadCache_saveCache rfl] at cached
  exact congrArg restored (Option.some.inj cached)

/-- A start leaves every listed file as the disk has it. -/
theorem startIndexer_current {cache : Option String} (saved : SavedFrom (Sound parser hashText) cache)
    {files : List String} (readable : ∀ file ∈ files, file ≠ prototypeKey ∧ ∃ text, disk file = some text)
    (generatedAt : String) :
    Sound parser hashText (startIndexer parser hashText generatedAt disk cache files).1 ∧
      SavedFrom (Sound parser hashText) (startIndexer parser hashText generatedAt disk cache files).2 ∧
      (∀ file ∈ files,
        Current parser hashText disk (startIndexer parser hashText generatedAt disk cache files).1 file) ∧
      ∀ savedAt s, cache = some (saveToCache savedAt s) → ∀ file ∉ files, file ≠ prototypeKey →
        ((startIndexer parser hashText generatedAt disk cache files).1.index.localTypeInfo.get file).isSome =
          (s.index.localTypeInfo.get file).isSome := by
  rcases saved with rfl | ⟨savedAt, s, rfl, sound⟩
  · rw [startIndexer_scans]
    obtain ⟨scanned, current⟩ := fullIndex_current files
    refine ⟨scanned, .inr ⟨generatedAt, _, rfl, scanned⟩, current, ?_⟩
    exact fun _ _ same => absurd same.symm (Option.some_ne_none _)
  · obtain ⟨looped, current, others⟩ := refreshed_current sound readable savedAt
    have resolved : (refreshed parser hashText disk savedAt s files).resolved.index.localTypeInfo =
        (refreshed parser hashText disk savedAt s files).indexer.index.localTypeInfo :=
      localTypeInfo_resolveDeferred _ _
    have gone : ∀ savedAt' s', some (saveToCache savedAt s) = some (saveToCache savedAt' s') →
        ∀ file ∉ files, file ≠ prototypeKey →
          ((refreshed parser hashText disk savedAt s files).indexer.index.localTypeInfo.get file).isSome =
            (s'.index.localTypeInfo.get file).isSome := by
      intro savedAt' s' same file absent plain
      rw [others file absent plain, ← Option.isSome_map (f := LocalTypeInfo.restored),
        ← reloaded_types savedAt plain, reloaded_of_saveToCache (Option.some.inj same),
        reloaded_types savedAt' plain, Option.isSome_map]
    rw [startIndexer_saved]
    dsimp only
    split
    · refine ⟨looped.congr rfl resolved, .inr ⟨generatedAt, _, rfl, looped.congr rfl resolved⟩, ?_, ?_⟩
      · intro file member text read
        rw [typesOfHash_congr (congrArg (OrderedMap.get · file) resolved)]
        exact current file member text read
      · intro savedAt' s' same file absent plain
        rw [resolved]
        exact gone savedAt' s' same file absent plain
    · exact ⟨looped, .inr ⟨savedAt, s, rfl, sound⟩, current, gone⟩

end Starting

section Runs

variable {parser : Parser} {hashText : String → String} {s : Session}

/-- The cache and the one save under way, if any, come from indexers of the kind. -/
structure Session.Orderly (good : WorkspaceIndexer → Prop) (s : Session) : Prop where
  cached : SavedFrom good s.cache
  saving : s.saves = [] ∨ ∃ savedAt saved, s.saves = [⟨saveToCache savedAt saved, true⟩] ∧ good saved

/-- The only save under way ends: it is in the cache, or the cache is as it was. -/
theorem Session.endSave_cases {text : String} (only : s.saves = [⟨text, true⟩]) (k : Nat) (renamed : Bool) :
    s.endSave k renamed = s ∨
      s.endSave k renamed = { s with saves := [], cache := if renamed then some text else s.cache } := by
  unfold Session.endSave
  rw [only]
  cases k with
  | zero => exact .inr (by simp)
  | succ k => exact .inl rfl

theorem Session.Orderly.overlapped {good : WorkspaceIndexer → Prop} (orderly : s.Orderly good)
    (text : String) : s.step parser hashText (.overlapped text) = s := by
  rw [Session.step]
  rcases orderly.saving with none | ⟨savedAt, saved, only, -⟩
  · rw [none]
    rfl
  · rw [only]
    rfl

theorem Session.Orderly.step {good : WorkspaceIndexer → Prop} (orderly : s.Orderly good)
    (e : SessionEvent) (apart : s.Apart e) (indexed : good s.watcher.indexer)
    (started : ∀ generatedAt allFiles renamed, e = .restarted generatedAt allFiles renamed →
      SavedFrom good (startIndexer parser hashText generatedAt s.disk s.cache allFiles).2) :
    (s.step parser hashText e).Orderly good := by
  cases e with
  | timeout generatedAt =>
    rw [Session.step]
    split
    · next due =>
      have none : s.saves = [] := apart due
      refine ⟨orderly.cached, .inr ⟨generatedAt, s.watcher.indexer, ?_, indexed⟩⟩
      rw [Session.startSave, none]
      rfl
    · exact orderly
  | saved k renamed =>
    rw [Session.step]
    rcases orderly.saving with none | ⟨savedAt, saved, only, kind⟩
    · rwa [Session.endSave, none]
    · rcases Session.endSave_cases only k renamed with same | ended
      · rwa [same]
      · rw [ended]
        refine ⟨?_, .inl rfl⟩
        cases renamed with
        | true => exact .inr ⟨savedAt, saved, rfl, kind⟩
        | false => exact orderly.cached
  | overlapped text => rwa [orderly.overlapped]
  | restarted generatedAt allFiles renamed =>
    refine ⟨?_, .inl rfl⟩
    cases renamed with
    | true => exact started generatedAt allFiles true rfl
    | false => exact orderly.cached
  | _ => exact ⟨orderly.cached, orderly.saving⟩

/-- What holds between any two events. -/
structure Session.Safe (parser : Parser) (hashText : String → String) (s : Session) : Prop where
  indexer : Sound parser hashText s.watcher.indexer
  orderly : s.Orderly (Sound parser hashText)

theorem Session.safe_first (disk : Disk) : (Session.first disk).Safe parser hashText :=
  ⟨sound_fresh, .inl rfl, .inl rfl⟩

/-- A call that goes on changes the indexer as `resume` does. -/
theorem Session.resume_cases (k : Nat) (s : Session) :
    (∃ c, s.watcher.calls[k]? = some c ∧
      (s.resume parser hashText k).watcher =
        ⟨(Indexer.resume parser hashText s.disk c s.watcher.indexer).1, s.watcher.calls.set k
          ⟨c.filePath, (Indexer.resume parser hashText s.disk c s.watcher.indexer).2⟩⟩) ∨
    (s.watcher.calls[k]? = none ∧ s.resume parser hashText k = s) := by
  cases call : s.watcher.calls[k]? with
  | some c =>
    refine .inl ⟨c, rfl, ?_⟩
    rw [Session.resume, eventLoop]
    dsimp only
    rw [call]
  | none =>
    refine .inr ⟨rfl, ?_⟩
    rw [Session.resume, eventLoop]
    dsimp only
    rw [call]
    rfl

/-- A save that begins or ends leaves the indexer. -/
theorem Session.watcher_endSave (k : Nat) (renamed : Bool) : (s.endSave k renamed).watcher = s.watcher := by
  unfold Session.endSave
  split <;> rfl

theorem Session.Safe.step (safe : s.Safe parser hashText) (e : SessionEvent) (readable : s.Readable e)
    (apart : s.Apart e) : (s.step parser hashText e).Safe parser hashText := by
  refine ⟨?_, safe.orderly.step e apart safe.indexer ?_⟩
  · cases e with
    | resumed k =>
      rw [Session.step]
      rcases Session.resume_cases k s with ⟨c, -, next⟩ | ⟨-, next⟩
      · rw [next]
        exact safe.indexer.resume c
      · rw [next]
        exact safe.indexer
    | deleted filePath => exact safe.indexer.removeFile filePath
    | timeout generatedAt =>
      rw [Session.step]
      split <;> exact safe.indexer
    | saved k renamed =>
      rw [Session.step, Session.watcher_endSave]
      exact safe.indexer
    | overlapped text =>
      rw [Session.step]
      split <;> exact safe.indexer
    | restarted generatedAt allFiles renamed =>
      exact (startIndexer_current safe.orderly.cached readable generatedAt).1
    | _ => exact safe.indexer
  · rintro generatedAt allFiles renamed rfl
    exact (startIndexer_current safe.orderly.cached readable generatedAt).2.1

theorem Session.safe_run {es : List SessionEvent} {disk : Disk}
    (readable : (sessions parser hashText).Along Session.Readable (.first disk) es)
    (apart : (sessions parser hashText).Along Session.Apart (.first disk) es) :
    ((sessions parser hashText).run (.first disk) es).Safe parser hashText :=
  Machine.invariant (P := fun s e => Session.Readable s e ∧ Session.Apart s e)
    (fun _ e safe sound => safe.step e sound.1 sound.2) (Session.safe_first disk) (readable.and apart)

end Runs

/-- **A start is up to date, wherever the sessions before it ended.** At any time every hash is kept
with the local types of a text that has it. After a start the local types of every listed file
are those of a text with the hash of the file. For every other file there are local types exactly
when there were some in the indexer that the cache was written from. -/
theorem restart_current (parser : Parser) (hashText : String → String) (disk : Disk)
    (es : List SessionEvent) (generatedAt : String) (allFiles : List String) (renamed : Bool)
    (readable : (sessions parser hashText).Along Session.Readable (.first disk)
      (es ++ [.restarted generatedAt allFiles renamed]))
    (apart : (sessions parser hashText).Along Session.Apart (.first disk) es) :
    let before := (sessions parser hashText).run (.first disk) es
    let after := (sessions parser hashText).run (.first disk)
      (es ++ [.restarted generatedAt allFiles renamed])
    Sound parser hashText before.watcher.indexer ∧
      (∀ file ∈ allFiles, ∀ text, before.disk file = some text →
        after.watcher.indexer.index.TypesOfHash parser hashText file (hashText text)) ∧
      (before.cache = none ∨ ∃ savedAt saved, before.cache = some (saveToCache savedAt saved)) ∧
      ∀ savedAt saved, before.cache = some (saveToCache savedAt saved) →
        ∀ file ∉ allFiles, file ≠ prototypeKey →
          (after.watcher.indexer.index.localTypeInfo.get file).isSome =
            (saved.index.localTypeInfo.get file).isSome := by
  dsimp only
  obtain ⟨earlier, last⟩ := Machine.along_append.1 readable
  have safe := Session.safe_run earlier apart
  obtain ⟨-, -, current, others⟩ := startIndexer_current safe.orderly.cached last.1 generatedAt
  rw [Machine.run_append]
  refine ⟨safe.indexer, current, ?_, others⟩
  exact safe.orderly.cached.imp_right fun ⟨savedAt, saved, cached, _⟩ => ⟨savedAt, saved, cached⟩

/-- The process ends while the cache is written, and the file is re-indexed. -/
theorem restart_current_log :
    ((sessions logParser id).run (.first logDisk)
      ([.restarted "" ["/w/log.c"] true, .changed "/w/log.c", .resumed 0, .resumed 0, .resumed 0,
        .changed "/w/log.c", .resumed 1, .timeout ""] ++
        [.restarted "" ["/w/log.c"] true])).watcher.indexer.index.TypesOfHash logParser id "/w/log.c"
          "void Log(void) {}" := by
  have readable : ∀ file ∈ ["/w/log.c"], file ≠ prototypeKey ∧ ∃ text, logDisk file = some text := by
    intro file member
    rw [List.mem_singleton.1 member]
    exact ⟨by decide, _, rfl⟩
  exact (restart_current logParser id logDisk
    [.restarted "" ["/w/log.c"] true, .changed "/w/log.c", .resumed 0, .resumed 0, .resumed 0,
      .changed "/w/log.c", .resumed 1, .timeout ""] "" ["/w/log.c"] true
    ⟨readable, trivial, trivial, trivial, trivial, trivial, trivial, trivial, readable, trivial⟩
    ⟨trivial, trivial, trivial, trivial, trivial, trivial, trivial, fun _ => rfl, trivial⟩).2.1
      "/w/log.c" (List.mem_singleton_self _) _ rfl

section Saving

variable {parser : Parser} {hashText : String → String} {s : Session} {removable : String → Prop}

/-- No call is suspended. -/
def Watcher.Idle (w : Watcher) : Prop := ∀ c ∈ w.calls, c.phase = .waiting ∨ c.phase = .done

/-- The indexer is what the cache was written from or loads as, less some files. -/
def WrittenTo (removable : String → Prop) (cache : Option String) (indexer : WorkspaceIndexer) : Prop :=
  ∃ savedAt saved, cache = some (saveToCache savedAt saved) ∧
    ∃ removed : List String, (∀ file ∈ removed, removable file) ∧
      ∃ base, (base = saved ∨ base = reloaded savedAt saved) ∧
        indexer = removed.foldl (fun s filePath => removeFile filePath s) base

theorem WrittenTo.of_saved (generatedAt : String) (indexer : WorkspaceIndexer) :
    WrittenTo removable (some (saveToCache generatedAt indexer)) indexer :=
  ⟨generatedAt, indexer, rfl, [], by simp, indexer, .inl rfl, rfl⟩

theorem WrittenTo.removeFile {cache : Option String} {indexer : WorkspaceIndexer}
    (written : WrittenTo removable cache indexer) {filePath : String} (allowed : removable filePath) :
    WrittenTo removable cache (removeFile filePath indexer) := by
  obtain ⟨savedAt, saved, cached, removed, earlier, base, first, same⟩ := written
  refine ⟨savedAt, saved, cached, removed ++ [filePath], ?_, base, first, ?_⟩
  · intro file member
    rcases List.mem_append.1 member with before | last
    · exact earlier file before
    · rwa [List.mem_singleton.1 last]
  · rw [List.foldl_append, ← same]
    rfl

/-- What the cache will be when the save under way has ended well. -/
def Session.latest (s : Session) : Option String := (s.saves.getLast?.map Save.text).or s.cache

/-- The text of a save that begins is that of the indexer. -/
theorem WrittenTo.of_startSave (generatedAt : String) (s : Session) :
    WrittenTo removable (s.startSave generatedAt).latest (s.startSave generatedAt).watcher.indexer := by
  rw [Session.latest, Session.startSave, List.getLast?_append]
  exact .of_saved generatedAt s.watcher.indexer

/-- A save is due, or the indexer is written when no call is suspended. -/
def Session.Kept (removable : String → Prop) (s : Session) : Prop :=
  s.saveTimer = true ∨ (s.watcher.Idle → WrittenTo removable s.latest s.watcher.indexer)

/-- The event saves what is indexed, if it goes well: the timer fires, or the extension starts. -/
def Session.Saves (s : Session) : SessionEvent → Prop
  | .timeout _ => s.saveTimer = true
  | .restarted _ _ renamed => renamed = true
  | _ => False

/-- The event ends neither the process nor its timer, and is no failure of a save. -/
def SessionEvent.goesWell : SessionEvent → Bool
  | .disposed | .restarted _ _ _ => false
  | .saved _ renamed => renamed
  | _ => true

/-- A call that is done does nothing more. -/
theorem Session.resume_done {k : Nat} {filePath : String}
    (call : s.watcher.calls[k]? = some ⟨filePath, .done⟩) : s.resume parser hashText k = s := by
  obtain ⟨inside, here⟩ := List.getElem?_eq_some_iff.1 call
  have same : s.watcher.calls.set k ⟨filePath, .done⟩ = s.watcher.calls := by
    rw [← here, List.set_getElem_self]
  rw [Session.resume, eventLoop]
  dsimp only
  rw [call]
  dsimp only [Indexer.resume]
  rw [same]
  rfl

/-- A call that goes on is suspended again, or has scheduled a save. -/
theorem Session.Kept.resume (kept : s.Kept removable) (k : Nat) :
    (s.resume parser hashText k).Kept removable := by
  rcases Session.resume_cases k s with ⟨⟨filePath, phase⟩, call, next⟩ | ⟨-, next⟩
  · have inside : k < s.watcher.calls.length := (List.getElem?_eq_some_iff.1 call).1
    let after := (Indexer.resume parser hashText s.disk ⟨filePath, phase⟩ s.watcher.indexer).2
    have suspended (notWaiting : after ≠ .waiting) (notDone : after ≠ .done) :
        ¬ (s.resume parser hashText k).watcher.Idle := by
      intro idle
      rw [next] at idle
      rcases idle _ (List.mem_set inside _) with waiting | done
      · exact notWaiting waiting
      · exact notDone done
    cases phase with
    | waiting => exact .inr fun idle => absurd idle (suspended nofun nofun)
    | reading names => exact .inr fun idle => absurd idle (suspended nofun nofun)
    | merged deferred =>
      left
      rw [Session.resume, call]
      rfl
    | done => rwa [Session.resume_done call]
  · rwa [next]

/-- A save that ends well makes the cache what was expected. -/
theorem Session.latest_endSave {good : WorkspaceIndexer → Prop} (orderly : s.Orderly good) (k : Nat) :
    (s.endSave k true).latest = s.latest := by
  rcases orderly.saving with none | ⟨savedAt, saved, only, -⟩
  · rw [Session.endSave, none]
    rfl
  · rcases Session.endSave_cases only k true with same | ended
    · rw [same]
    · rw [ended, Session.latest, Session.latest, only]
      rfl

theorem Session.Kept.step {good : WorkspaceIndexer → Prop} (kept : s.Kept removable)
    (orderly : s.Orderly good) (e : SessionEvent) (well : e.goesWell = true)
    (allowed : ∀ filePath, e = .deleted filePath → removable filePath) :
    (s.step parser hashText e).Kept removable := by
  cases e with
  | write filePath text => exact kept
  | changed filePath =>
    apply kept.imp_right
    intro written idle
    exact written fun c member => idle c (List.mem_append_left _ member)
  | resumed k => exact kept.resume k
  | deleted filePath =>
    apply kept.imp_right
    intro written idle
    exact (written idle).removeFile (allowed filePath rfl)
  | timeout generatedAt =>
    rw [Session.step]
    split
    · exact .inr fun _ => .of_startSave generatedAt s
    · exact kept
  | saved k renamed =>
    obtain rfl : renamed = true := well
    rw [Session.step, Session.Kept, Session.latest_endSave orderly, Session.watcher_endSave]
    have timer : (s.endSave k true).saveTimer = s.saveTimer := by
      unfold Session.endSave
      split <;> rfl
    rwa [timer]
  | overlapped text => rwa [orderly.overlapped]
  | disposed => cases well
  | restarted generatedAt allFiles renamed => cases well

theorem foldl_refreshFile_unchanged {disk : Disk} (files : List String) {r : Refreshing}
    (unchanged : (files.foldl (refreshFile parser hashText disk) r).anyChanged = false) :
    files.foldl (refreshFile parser hashText disk) r = r := by
  induction files using List.reverseRecOn with
  | nil => rfl
  | append_singleton files file ih =>
    rw [List.foldl_append, List.foldl_cons, List.foldl_nil, refreshFile] at unchanged ⊢
    split at unchanged
    · next kept =>
      rw [if_pos kept]
      exact ih unchanged
    · cases unchanged

/-- A start leaves the indexer as the cache has it, when the cache is saved. -/
theorem startIndexer_written {cache : Option String} {good : WorkspaceIndexer → Prop}
    (cached : SavedFrom good cache) (disk : Disk) (generatedAt : String) (allFiles : List String) :
    WrittenTo removable (startIndexer parser hashText generatedAt disk cache allFiles).2
      (startIndexer parser hashText generatedAt disk cache allFiles).1 := by
  rcases cached with rfl | ⟨savedAt, saved, rfl, -⟩
  · rw [startIndexer_scans]
    exact .of_saved generatedAt _
  · rw [startIndexer_saved]
    dsimp only
    cases changed : (refreshed parser hashText disk savedAt saved allFiles).anyChanged with
    | true => exact .of_saved generatedAt _
    | false =>
      refine ⟨savedAt, saved, rfl, [], by simp, _, .inr rfl, ?_⟩
      exact congrArg Refreshing.indexer (foldl_refreshFile_unchanged allFiles changed)

/-- Where no two saves overlap, the cache and the save under way come from indexers. -/
theorem Session.Orderly.step_any (orderly : s.Orderly fun _ => True) (e : SessionEvent) (apart : s.Apart e) :
    (s.step parser hashText e).Orderly fun _ => True := by
  refine orderly.step e apart trivial ?_
  rintro generatedAt allFiles renamed rfl
  have written : WrittenTo (fun _ => True) (startIndexer parser hashText generatedAt s.disk s.cache allFiles).2
      (startIndexer parser hashText generatedAt s.disk s.cache allFiles).1 :=
    startIndexer_written orderly.cached s.disk generatedAt allFiles
  obtain ⟨savedAt, saved, cached, -⟩ := written
  exact .inr ⟨savedAt, saved, cached, trivial⟩

/-- What an event saves is kept. -/
theorem Session.Kept.of_saves (orderly : s.Orderly fun _ => True) {e : SessionEvent} (saves : s.Saves e) :
    (s.step parser hashText e).Kept removable := by
  cases e with
  | timeout generatedAt =>
    have due : s.saveTimer = true := saves
    rw [Session.step, if_pos due]
    exact .inr fun _ => .of_startSave generatedAt s
  | restarted generatedAt allFiles renamed =>
    obtain rfl : renamed = true := saves
    exact .inr fun _ => startIndexer_written orderly.cached s.disk generatedAt allFiles
  | _ => cases saves

end Saving

/-- **A session that has come to rest is on the disk.** Since the extension started or the timer
fired, no save has failed. When no call is suspended and no save is due or under way, the indexer
is what the cache was written from, or what it loads as, less some files that were deleted since. -/
theorem idle_written (parser : Parser) (hashText : String → String) (disk : Disk)
    (before es : List SessionEvent) (e : SessionEvent)
    (apart : (sessions parser hashText).Along Session.Apart (.first disk) (before ++ e :: es))
    (saves : ((sessions parser hashText).run (.first disk) before).Saves e)
    (well : ∀ e ∈ es, e.goesWell = true) :
    let s := (sessions parser hashText).run (.first disk) (before ++ e :: es)
    s.saveTimer = false → s.saves = [] → s.watcher.Idle →
      WrittenTo (fun file => .deleted file ∈ es) s.cache s.watcher.indexer := by
  intro s due underway idle
  obtain ⟨earlier, here, later⟩ := Machine.along_append.1 apart
  have orderly : ((sessions parser hashText).run (.first disk) before).Orderly fun _ => True :=
    Machine.invariant (fun _ e orderly apart => orderly.step_any e apart) ⟨.inl rfl, .inl rfl⟩ earlier
  have allowed : (sessions parser hashText).Along
      (fun _ e' => e'.goesWell = true ∧ ∀ filePath, e' = .deleted filePath → .deleted filePath ∈ es)
      (((sessions parser hashText).run (.first disk) before).step parser hashText e) es := by
    rw [Machine.along_iff_split]
    intro front e' rest split
    have member : e' ∈ es := by
      rw [split]
      exact List.mem_append_right _ List.mem_cons_self
    refine ⟨well e' member, ?_⟩
    rintro filePath rfl
    exact member
  have kept := Machine.invariant (M := sessions parser hashText)
    (I := fun s => s.Kept (fun file => .deleted file ∈ es) ∧ s.Orderly fun _ => True)
    (fun _ e' kept goes => ⟨kept.1.step kept.2 e' goes.1.1 goes.1.2, kept.2.step_any e' goes.2⟩)
    ⟨.of_saves orderly saves, orderly.step_any e here⟩ (allowed.and later)
  have final : s.Kept fun file => .deleted file ∈ es := by
    rw [show s = _ from Machine.run_append _ _ _ _]
    exact kept.1
  rcases final with timer | written
  · exact absurd (due.symm.trans timer) (by simp)
  · have latest : s.latest = s.cache := by
      rw [Session.latest, underway]
      rfl
    rw [← latest]
    exact written idle

/-- The save of the start fails. A file is indexed and saved, and deleted after that. -/
def logEvents : List SessionEvent :=
  [.restarted "" [] false, .changed "/w/log.c", .resumed 0, .resumed 0, .resumed 0]

theorem idle_written_log :
    let s := (sessions logParser id).run (.first logDisk)
      (logEvents ++ .timeout "" :: [.saved 0 true, .deleted "/w/log.c"])
    WrittenTo (fun file => .deleted file ∈ [SessionEvent.saved 0 true, .deleted "/w/log.c"]) s.cache
      s.watcher.indexer := by
  refine idle_written logParser id logDisk logEvents [.saved 0 true, .deleted "/w/log.c"] (.timeout "")
    ⟨trivial, trivial, trivial, trivial, trivial, fun _ => rfl, trivial, trivial, trivial⟩ rfl
    (by simp [SessionEvent.goesWell]) rfl rfl ?_
  intro c member
  obtain rfl := List.mem_singleton.1 (member : c ∈ [⟨"/w/log.c", .done⟩])
  exact .inr rfl

end LibJuno.Indexer
