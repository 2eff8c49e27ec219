import Mathlib.Data.List.Induction
import LibJuno.Indexer.WorkspaceIndexer

/-!
# What an index says

`View` is an index as its readers see it: the records listed under each key, whether a type
is a known root, and the field order of each API struct. The stamps of the composition
root are left out. Every operation of the indexer is an operation on views, given here in
its own terms; the theorems `view_…` say that the indexer's maps compute it.
-/

namespace LibJuno.Indexer

/-- The record without its composition-root stamps. -/
def ConcreteLocation.unstamped (l : ConcreteLocation) : ConcreteLocation :=
  { l with initCallFile := none, initCallLine := none, compRootFile := none, compRootLine := none }

@[ext] structure View where
  vtable : String → String → List ConcreteLocation
  handlers : String → List ConcreteLocation
  definitions : String → List FunctionDefinitionRecord
  known : String → Bool
  fields : String → Option (List String)

/-- The view of an index. -/
def view (index : NavigationIndex) : View where
  vtable apiType field := (implementations index.vtableAssignments apiType field).map (·.unstamped)
  handlers rootType := index.failureHandlerAssignments.listAt rootType
  definitions functionName := index.functionDefinitions.listAt functionName
  known := index.knownRoots
  fields := index.apiStructFields.get

/-- The index with every vtable record as `see` shows it. -/
def viewBy (see : ConcreteLocation → ConcreteLocation) (index : NavigationIndex) : View :=
  { view index with
    vtable := fun apiType field => (implementations index.vtableAssignments apiType field).map see }

/-- A view shows no stamps. -/
theorem unstamped_of_mem_view {index : NavigationIndex} {apiType field : String} {l : ConcreteLocation}
    (listed : l ∈ (view index).vtable apiType field) : l.unstamped = l := by
  obtain ⟨l', -, rfl⟩ := List.mem_map.1 listed
  rfl

/-- Records without stamps are shown as they are, and every record at its place. -/
structure Shows (see : ConcreteLocation → ConcreteLocation) : Prop where
  plain : ∀ l, l.unstamped = l → see l = l
  file : ∀ l, (see l).file = l.file
  site : ∀ e l, (see e).sameSite l = e.sameSite l

theorem shows_unstamped : Shows ConcreteLocation.unstamped :=
  ⟨fun _ plain => plain, fun _ => rfl, fun _ _ => rfl⟩

theorem shows_id : Shows id := ⟨fun _ _ => rfl, fun _ => rfl, fun _ _ => rfl⟩

/-- The functions that a file defines. -/
def FileParse.defined (P : FileParse) : List String :=
  P.functionDefs.map FunctionDefinitionRecord.functionName

def FileParse.path (P : FileParse) : String := P.parsed.filePath

/-- The root types that a file declares. -/
def FileParse.rootTypes (P : FileParse) : List String :=
  (P.parsed.moduleRoots ++ P.parsed.traitRoots).map RootRecord.rootType

/-- The field orders after some declarations: the last one of a type counts. -/
def declareFields (rs : List ApiStructRecord) (fields : String → Option (List String)) :
    String → Option (List String) :=
  rs.foldl (fun f r => Function.update f r.apiType (some r.fields)) fields

theorem declareFields_apply (rs : List ApiStructRecord) (fields : String → Option (List String))
    (t : String) :
    declareFields rs fields t =
      ((rs.reverse.find? fun r => decide (r.apiType = t)).map ApiStructRecord.fields).or (fields t) := by
  induction rs using List.reverseRecOn with
  | nil => rfl
  | append_singleton rs r ih =>
    have last : declareFields (rs ++ [r]) fields =
        Function.update (declareFields rs fields) r.apiType (some r.fields) := by
      unfold declareFields
      rw [List.foldl_append]
      rfl
    rw [last, List.reverse_append, List.reverse_singleton, List.singleton_append, List.find?_cons,
      Function.update_apply, ih]
    by_cases here : r.apiType = t
    · simp [here]
    · simp [here, Ne.symm here]

theorem declareFields_append (rs rs' : List ApiStructRecord) (fields : String → Option (List String)) :
    declareFields (rs ++ rs') fields = declareFields rs' (declareFields rs fields) :=
  List.foldl_append ..

theorem declareFields_again (rs : List ApiStructRecord) (fields : String → Option (List String)) :
    declareFields rs (declareFields rs fields) = declareFields rs fields := by
  funext t
  rw [declareFields_apply, declareFields_apply]
  cases rs.reverse.find? fun r => decide (r.apiType = t) <;> rfl

/-- The root type that a failure handler is filed under, given the known roots. -/
def FileParse.handlerRoot (P : FileParse) (known : String → Bool) (r : FailureHandlerRecord) : String :=
  resolveFailureHandlerRootType known r P.parsed P.functionDefs

/-- The positional vtables that a file defers. -/
def FileParse.deferred (P : FileParse) : List DeferredPositional :=
  P.parsed.pendingPositionalVtables.map PendingPositionalVtable.defer

/-- The fields declared by a list of files. -/
def declaredFields (Ps : List FileParse) : String → Option (List String) :=
  declareFields (Ps.flatMap fun P => P.parsed.apiStructDefinitions) fun _ => none

/-- The root types declared by a list of files. -/
def declaredRoots (Ps : List FileParse) (t : String) : Bool :=
  decide (t ∈ Ps.flatMap FileParse.rootTypes)

/-- What a file assigns by position, as API type, field and function. -/
def FileParse.positions (fields : String → Option (List String)) (P : FileParse) :
    List (String × String × String) :=
  P.deferred.flatMap fun d =>
    (d.initializers.zip ((fields d.apiType).getD [])).map fun x => (d.apiType, x.2, x.1)

theorem mem_positions_of_zip {fields : String → Option (List String)} {P : FileParse}
    {d : DeferredPositional} (deferred : d ∈ P.deferred) {x : String × String}
    (zipped : x ∈ d.initializers.zip ((fields d.apiType).getD [])) :
    (d.apiType, x.2, x.1) ∈ P.positions fields :=
  List.mem_flatMap.2 ⟨d, deferred, List.mem_map.2 ⟨x, zipped, rfl⟩⟩

/-- The definitions listed once all files are merged. -/
def definitionsOf (Ps : List FileParse) (n : String) : List FunctionDefinitionRecord :=
  (Ps.flatMap FileParse.functionDefs).filter fun d => decide (d.functionName = n)

namespace View

/-- The view of the empty index. -/
def empty : View := ⟨fun _ _ => [], fun _ => [], fun _ => [], fun _ => false, fun _ => none⟩

/-- The records whose definition file satisfies `p`; the flat maps stay. -/
def filter (p : String → Bool) (v : View) : View :=
  { v with
    vtable := fun a f => (v.vtable a f).filter fun l => p l.file
    handlers := fun t => (v.handlers t).filter fun l => p l.file
    definitions := fun n => (v.definitions n).filter fun d => p d.file }

/-- `removeFileRecords`. -/
def remove (filePath : String) (v : View) : View := v.filter fun file => decide (file ≠ filePath)

/-- The declarations of a file. -/
def declare (P : FileParse) (v : View) : View :=
  { v with
    known := fun t => v.known t || decide (t ∈ P.rootTypes)
    fields := declareFields P.parsed.apiStructDefinitions v.fields }

/-- `mergeInto`: the declarations, then the records behind those already listed. -/
def merge (v : View) (P : FileParse) : View :=
  { v.declare P with
    vtable := fun a f => v.vtable a f ++
      (P.parsed.vtableAssignments.filter fun r => decide (r.apiType = a ∧ r.field = f)).map
        (vtableLocation v.definitions P.functionDefs)
    handlers := fun t => v.handlers t ++
      (P.parsed.failureHandlerAssigns.filter fun r =>
        decide (P.handlerRoot (v.declare P).known r = t ∧ t ≠ "")).map
        (handlerLocation v.definitions P.functionDefs)
    definitions := fun n => v.definitions n ++
      P.functionDefs.filter fun d => decide (d.functionName = n) }

/-- One field of a positional vtable, unless its list has the site already. -/
def place (apiType : String) (v : View) (x : String × ConcreteLocation) : View :=
  if (v.vtable apiType x.1).any (·.sameSite x.2) then v
  else
    { v with
      vtable := fun a f => if a = apiType ∧ f = x.1 then v.vtable a f ++ [x.2] else v.vtable a f }

/-- One turn of `resolveDeferred`. -/
def resolve (v : View) (d : DeferredPositional) : View :=
  match v.fields d.apiType with
  | none => v
  | some fields => (placements v.definitions fields d).foldl (place d.apiType) v

/-- The parses merged in order, then what they deferred. -/
def build (v : View) (parses : List FileParse) : View :=
  (parses.flatMap FileParse.deferred).foldl resolve (parses.foldl merge v)

theorem foldl_merge_known (Ps : List FileParse) (v : View) (t : String) :
    (Ps.foldl merge v).known t = (v.known t || decide (t ∈ Ps.flatMap FileParse.rootTypes)) := by
  induction Ps generalizing v with
  | nil => simp
  | cons P Ps ih =>
    rw [List.foldl_cons, ih]
    show ((v.known t || decide (t ∈ P.rootTypes)) || _) = _
    rw [Bool.or_assoc, List.flatMap_cons]
    simp

theorem foldl_merge_definitions (Ps : List FileParse) (v : View) (n : String) :
    (Ps.foldl merge v).definitions n =
      v.definitions n ++
        (Ps.flatMap FileParse.functionDefs).filter fun d => decide (d.functionName = n) := by
  induction Ps generalizing v with
  | nil => simp
  | cons P Ps ih =>
    rw [List.foldl_cons, ih]
    show (v.definitions n ++ _) ++ _ = _
    rw [List.append_assoc, List.flatMap_cons, List.filter_append]

theorem foldl_merge_fields (Ps : List FileParse) (v : View) :
    (Ps.foldl merge v).fields =
      declareFields (Ps.flatMap fun P => P.parsed.apiStructDefinitions) v.fields := by
  induction Ps generalizing v with
  | nil => rfl
  | cons P Ps ih =>
    rw [List.foldl_cons, ih, List.flatMap_cons, declareFields_append]
    rfl

/-- What is not a vtable record. -/
def unplaced (v : View) := (v.definitions, v.known, v.fields, v.handlers)

/-- What no step changes a fold keeps. -/
theorem foldl_keeps {α β : Type*} (part : View → β) {step : View → α → View}
    (one : ∀ v x, part (step v x) = part v) (xs : List α) (v : View) :
    part (xs.foldl step v) = part v := by
  induction xs generalizing v with
  | nil => rfl
  | cons x xs ih => rw [List.foldl_cons, ih, one]

theorem unplaced_place (apiType : String) (v : View) (x : String × ConcreteLocation) :
    (v.place apiType x).unplaced = v.unplaced := by
  unfold place
  split <;> rfl

theorem unplaced_resolve (v : View) (d : DeferredPositional) : (v.resolve d).unplaced = v.unplaced := by
  unfold resolve
  split
  · rfl
  · exact foldl_keeps unplaced (unplaced_place d.apiType) _ v

/-- Only the vtable records change when positional vtables are resolved. -/
theorem foldl_resolve_keeps (ds : List DeferredPositional) (v : View) :
    (ds.foldl resolve v).definitions = v.definitions ∧ (ds.foldl resolve v).known = v.known ∧
      (ds.foldl resolve v).fields = v.fields ∧ (ds.foldl resolve v).handlers = v.handlers := by
  have same := foldl_keeps unplaced unplaced_resolve ds v
  simpa only [unplaced, Prod.mk.injEq] using same

theorem foldl_merge_vtable_prefix (Ps : List FileParse) (v : View) (a f : String) :
    v.vtable a f <+: (Ps.foldl merge v).vtable a f := by
  induction Ps generalizing v with
  | nil => exact List.prefix_rfl
  | cons P Ps ih => exact (List.prefix_append _ _).trans (ih (v.merge P))

theorem foldl_merge_handlers_prefix (Ps : List FileParse) (v : View) (t : String) :
    v.handlers t <+: (Ps.foldl merge v).handlers t := by
  induction Ps generalizing v with
  | nil => exact List.prefix_rfl
  | cons P Ps ih => exact (List.prefix_append _ _).trans (ih (v.merge P))

theorem foldl_resolve_prefix (ds : List DeferredPositional) (v : View) (a f : String) :
    v.vtable a f <+: (ds.foldl resolve v).vtable a f := by
  induction ds generalizing v with
  | nil => exact List.prefix_rfl
  | cons d ds ih =>
    refine List.IsPrefix.trans ?_ (ih (v.resolve d))
    unfold resolve
    cases v.fields d.apiType with
    | none => exact List.prefix_rfl
    | some fields =>
      dsimp only
      induction placements v.definitions fields d generalizing v with
      | nil => exact List.prefix_rfl
      | cons x xs ih' =>
        refine List.IsPrefix.trans ?_ (ih' (v.place d.apiType x))
        unfold place
        split
        · exact List.prefix_rfl
        · dsimp only
          split
          · exact List.prefix_append _ _
          · exact List.prefix_rfl

end View

theorem known_foldl_merge (Ps : List FileParse) :
    (Ps.foldl View.merge .empty).known = declaredRoots Ps := by
  funext t
  rw [View.foldl_merge_known]
  exact Bool.false_or _

theorem definitions_foldl_merge (Ps : List FileParse) :
    (Ps.foldl View.merge .empty).definitions = definitionsOf Ps := by
  funext n
  exact View.foldl_merge_definitions Ps .empty n

/-- The declarations and definitions that a build has in the end are those of all files. -/
theorem build_declares (Ps : List FileParse) :
    (View.empty.build Ps).known = declaredRoots Ps ∧
      (View.empty.build Ps).fields = declaredFields Ps ∧
      (View.empty.build Ps).definitions = definitionsOf Ps := by
  unfold View.build
  obtain ⟨definitions, known, fields, -⟩ := View.foldl_resolve_keeps
    (Ps.flatMap FileParse.deferred) (Ps.foldl View.merge .empty)
  rw [definitions, known, fields]
  exact ⟨known_foldl_merge Ps, View.foldl_merge_fields Ps .empty, definitions_foldl_merge Ps⟩

/-- The parses of the files that can be read. -/
def Parser.parses (parser : Parser) (disk : Disk) (files : List String) : List FileParse :=
  files.filterMap fun path => (disk path).map (parser.parseFileWithDefs path)

section Merging

theorem foldl_appendVtable (functionDefs : List FunctionDefinitionRecord)
    (rs : List VtableAssignmentRecord) (index : NavigationIndex) :
    rs.foldl (NavigationIndex.appendVtable functionDefs) index =
      { index with
        vtableAssignments := rs.foldl (fun m r => pushImplementation m r.apiType r.field
          (vtableLocation index.functionDefinitions.listAt functionDefs r)) index.vtableAssignments } := by
  induction rs generalizing index with
  | nil => rfl
  | cons r rs ih => rw [List.foldl_cons, ih]; rfl

theorem foldl_appendHandler (P : FileParse) (rs : List FailureHandlerRecord)
    (index : NavigationIndex) :
    rs.foldl (NavigationIndex.appendHandler P) index =
      { index with
        failureHandlerAssignments := rs.foldl (fun m r =>
          if P.handlerRoot index.knownRoots r = "" then m
          else m.push (P.handlerRoot index.knownRoots r)
            (handlerLocation index.functionDefinitions.listAt P.functionDefs r))
          index.failureHandlerAssignments } := by
  induction rs generalizing index with
  | nil => rfl
  | cons r rs ih =>
    rw [List.foldl_cons, List.foldl_cons, ih]
    by_cases skipped : P.handlerRoot index.knownRoots r = ""
    · have same : index.appendHandler P r = index := if_pos skipped
      rw [same, if_pos skipped]
    · have pushed : index.appendHandler P r = { index with
          failureHandlerAssignments := index.failureHandlerAssignments.push
            (P.handlerRoot index.knownRoots r)
            (handlerLocation index.functionDefinitions.listAt P.functionDefs r) } := if_neg skipped
      rw [pushed, if_neg skipped]
      rfl

theorem implementations_foldl_push (loc : VtableAssignmentRecord → ConcreteLocation)
    (rs : List VtableAssignmentRecord)
    (m : OrderedMap String (OrderedMap String (List ConcreteLocation))) (a f : String) :
    implementations (rs.foldl (fun m r => pushImplementation m r.apiType r.field (loc r)) m) a f =
      implementations m a f ++
        (rs.filter fun r => decide (r.apiType = a ∧ r.field = f)).map loc := by
  induction rs generalizing m with
  | nil => simp
  | cons r rs ih =>
    rw [List.foldl_cons, ih, implementations_pushImplementation]
    by_cases here : r.apiType = a ∧ r.field = f
    · obtain ⟨rfl, rfl⟩ := here
      simp
    · have other : ¬ (a = r.apiType ∧ f = r.field) := fun h => here ⟨h.1.symm, h.2.symm⟩
      rw [if_neg other]
      simp [here]

theorem listAt_foldl_file (root : FailureHandlerRecord → String)
    (loc : FailureHandlerRecord → ConcreteLocation) (rs : List FailureHandlerRecord)
    (m : OrderedMap String (List ConcreteLocation)) (t : String) :
    (rs.foldl (fun m r => if root r = "" then m else m.push (root r) (loc r)) m).listAt t =
      m.listAt t ++ (rs.filter fun r => decide (root r = t ∧ t ≠ "")).map loc := by
  induction rs generalizing m with
  | nil => simp
  | cons r rs ih =>
    rw [List.foldl_cons, ih]
    by_cases skipped : root r = ""
    · have other : ¬ (root r = t ∧ t ≠ "") := fun h => h.2 (h.1 ▸ skipped)
      rw [if_pos skipped]
      simp [other]
    · rw [if_neg skipped, OrderedMap.listAt_push]
      by_cases here : root r = t
      · subst here; simp [skipped]
      · rw [if_neg (Ne.symm here)]; simp [here]

theorem viewBy_declare (see : ConcreteLocation → ConcreteLocation) (P : FileParse)
    (index : NavigationIndex) :
    viewBy see (index.declare P.parsed) = (viewBy see index).declare P := by
  have known : (index.declare P.parsed).knownRoots = ((view index).declare P).known := by
    funext t
    show ((OrderedMap.has _ t) || (OrderedMap.has _ t)) = ((_ || _) || decide (t ∈ P.rootTypes))
    unfold NavigationIndex.declare FileParse.rootTypes
    dsimp only
    rw [OrderedMap.has_foldl_set, OrderedMap.has_foldl_set, List.map_append]
    cases index.moduleRoots.has t <;> cases index.traitRoots.has t <;> simp
  have fields : (index.declare P.parsed).apiStructFields.get = ((view index).declare P).fields :=
    OrderedMap.get_foldl_set _ _ _ _
  unfold viewBy view at *
  rw [known, fields]
  rfl

theorem view_declare (P : FileParse) (index : NavigationIndex) :
    view (index.declare P.parsed) = (view index).declare P :=
  viewBy_declare ConcreteLocation.unstamped P index

/-- Merging a parse without call sites into the index is merging it into the view. -/
theorem Shows.mergeInto {see : ConcreteLocation → ConcreteLocation} (shows : Shows see) {P : FileParse}
    (calls : P.parsed.initCallSites = []) (index : NavigationIndex)
    (deferred : List DeferredPositional) :
    viewBy see (index.mergeInto P deferred).1 = (viewBy see index).merge P := by
  have declared := viewBy_declare see P index
  unfold NavigationIndex.mergeInto
  dsimp only
  rw [calls, List.foldl_nil, foldl_appendVtable, foldl_appendHandler]
  have known : (index.declare P.parsed).knownRoots = ((viewBy see index).declare P).known :=
    congrArg View.known declared
  have fields : (index.declare P.parsed).apiStructFields.get = ((viewBy see index).declare P).fields :=
    congrArg View.fields declared
  apply View.ext
  · funext a f
    show (implementations _ a f).map _ = _
    dsimp only
    rw [implementations_foldl_push, List.map_append, List.map_map]
    show _ ++ _ = _ ++ List.map (vtableLocation (viewBy see index).definitions P.functionDefs) _
    congr 1
    exact List.map_congr_left fun r _ => shows.plain _ rfl
  · funext t
    show OrderedMap.listAt _ t = _
    dsimp only
    rw [listAt_foldl_file]
    show _ = index.failureHandlerAssignments.listAt t ++ _
    rw [← known]
    rfl
  · funext n
    show OrderedMap.listAt _ n = _
    dsimp only
    have appended := OrderedMap.listAt_foldl_push FunctionDefinitionRecord.functionName id
      P.functionDefs index.functionDefinitions n
    rw [List.map_id] at appended
    exact appended
  · exact known
  · exact fields

theorem view_mergeInto_of_calls {P : FileParse} (calls : P.parsed.initCallSites = [])
    (index : NavigationIndex) (deferred : List DeferredPositional) :
    view (index.mergeInto P deferred).1 = (view index).merge P :=
  shows_unstamped.mergeInto calls index deferred

/-- What else of the index a parse changes. -/
theorem mergeInto_flat {P : FileParse} (calls : P.parsed.initCallSites = []) (index : NavigationIndex)
    (deferred : List DeferredPositional) :
    (index.mergeInto P deferred).1.derivationChain = (index.declare P.parsed).derivationChain ∧
      (index.mergeInto P deferred).1.localTypeInfo =
        index.localTypeInfo.set P.parsed.filePath P.parsed.localTypeInfo := by
  unfold NavigationIndex.mergeInto
  dsimp only
  rw [calls, List.foldl_nil, foldl_appendVtable, foldl_appendHandler]
  exact ⟨rfl, rfl⟩

end Merging

section Finishing

theorem Shows.removeFileRecords {see : ConcreteLocation → ConcreteLocation} (shows : Shows see)
    (index : NavigationIndex) (filePath : String) :
    viewBy see (removeFileRecords index filePath) = (viewBy see index).remove filePath := by
  apply View.ext
  · funext a f
    show (implementations _ a f).map _ = ((implementations _ a f).map _).filter _
    unfold LibJuno.Indexer.removeFileRecords
    dsimp only
    rw [implementations_prune, List.filter_map]
    congr 2
    funext l
    exact congrArg (fun file => decide (file ≠ filePath)) (shows.file l).symm
  · funext t
    exact OrderedMap.listAt_prune _ _ t
  · funext n
    exact OrderedMap.listAt_prune _ _ n
  · rfl
  · rfl

theorem view_removeFileRecords (index : NavigationIndex) (filePath : String) :
    view (removeFileRecords index filePath) = (view index).remove filePath :=
  shows_unstamped.removeFileRecords index filePath

theorem implementations_stampAll (stamp : ConcreteLocation → ConcreteLocation)
    (index : NavigationIndex) (a f : String) :
    implementations (index.stampAll stamp).vtableAssignments a f =
      (implementations index.vtableAssignments a f).map stamp := by
  unfold implementations NavigationIndex.stampAll OrderedMap.listAt
  dsimp only
  rw [OrderedMap.get_mapValues]
  cases index.vtableAssignments.get a with
  | none => rfl
  | some fieldMap =>
    rw [Option.map_some, Option.getD_some, OrderedMap.get_mapValues, Option.getD_some]
    cases fieldMap.get f <;> rfl

/-- A stamp leaves the rest of the record. -/
theorem view_stampAll {stamp : ConcreteLocation → ConcreteLocation}
    (same : ∀ l, (stamp l).unstamped = l.unstamped) (index : NavigationIndex) :
    view (index.stampAll stamp) = view index := by
  apply View.ext
  · funext a f
    show (implementations _ a f).map _ = (implementations _ a f).map _
    rw [implementations_stampAll, List.map_map]
    exact List.map_congr_left fun l _ => same l
  · rfl
  · rfl
  · rfl
  · rfl

theorem stampInitCall_unstamped (sites : OrderedMap String (List CallSite)) (l : ConcreteLocation) :
    (stampInitCall sites l).unstamped = l.unstamped := by
  unfold stampInitCall
  split
  · rfl
  · split <;> rfl

theorem stampCompRoot_unstamped (disk : Disk) (files : List String) (index : NavigationIndex)
    (l : ConcreteLocation) : (stampCompRoot disk files index l).unstamped = l.unstamped := by
  unfold stampCompRoot
  split
  · split
    · rfl
    · split <;> rfl
  · rfl

theorem placements_unstamped {indexDefs : String → List FunctionDefinitionRecord}
    {fields : List String} {d : DeferredPositional} {x : String × ConcreteLocation}
    (h : x ∈ placements indexDefs fields d) : x.2.unstamped = x.2 := by
  unfold placements at h
  obtain ⟨y, -, rfl⟩ := List.mem_map.1 h
  rfl

section Positional

variable {see : ConcreteLocation → ConcreteLocation} (shows : Shows see)

include shows

theorem Shows.place (apiType : String) (index : NavigationIndex) (x : String × ConcreteLocation)
    (plain : x.2.unstamped = x.2) :
    viewBy see (index.place apiType x) = (viewBy see index).place apiType x := by
  have found : ((viewBy see index).vtable apiType x.1).any (·.sameSite x.2) =
      (implementations index.vtableAssignments apiType x.1).any (·.sameSite x.2) := by
    show (List.map _ _).any _ = _
    rw [List.any_map]
    congr 1
    funext e
    exact shows.site e x.2
  unfold NavigationIndex.place View.place
  rw [found]
  split
  · rfl
  · apply View.ext
    · funext a f
      show (implementations (pushImplementation _ _ _ _) a f).map _ = _
      rw [implementations_pushImplementation]
      dsimp only
      split
      · rw [List.map_append, List.map_singleton, shows.plain x.2 plain]; rfl
      · rfl
    · rfl
    · rfl
    · rfl
    · rfl

theorem Shows.foldl_place (apiType : String) {xs : List (String × ConcreteLocation)}
    (plain : ∀ x ∈ xs, x.2.unstamped = x.2) (index : NavigationIndex) :
    viewBy see (xs.foldl (NavigationIndex.place apiType) index) =
      xs.foldl (View.place apiType) (viewBy see index) := by
  induction xs generalizing index with
  | nil => rfl
  | cons x xs ih =>
    rw [List.foldl_cons, List.foldl_cons, ih fun y member => plain y (List.mem_cons_of_mem _ member),
      shows.place apiType index x (plain x List.mem_cons_self)]

theorem Shows.resolvePositional (index : NavigationIndex) (d : DeferredPositional) :
    viewBy see (index.resolvePositional d) = (viewBy see index).resolve d := by
  unfold NavigationIndex.resolvePositional View.resolve
  show _ = match index.apiStructFields.get d.apiType with
    | none => viewBy see index
    | some fields => _
  cases index.apiStructFields.get d.apiType with
  | none => rfl
  | some fields =>
    dsimp only
    rw [shows.foldl_place d.apiType fun x => placements_unstamped]
    -- a field map that was missing is created empty
    congr 1
    apply View.ext
    · funext a f
      show (implementations _ a f).map _ = (implementations _ a f).map _
      unfold implementations
      dsimp only
      rw [OrderedMap.get_set]
      by_cases here : a = d.apiType
      · subst here; simp
      · simp [here]
    · rfl
    · rfl
    · rfl
    · rfl

theorem Shows.resolveDeferred (deferred : List DeferredPositional) (index : NavigationIndex) :
    viewBy see (index.resolveDeferred deferred) = deferred.foldl View.resolve (viewBy see index) := by
  unfold NavigationIndex.resolveDeferred
  induction deferred generalizing index with
  | nil => rfl
  | cons d deferred ih => rw [List.foldl_cons, List.foldl_cons, ih, shows.resolvePositional]

end Positional

theorem view_resolveCompositionRoots (disk : Disk) (files : List String) (index : NavigationIndex) :
    view (resolveCompositionRoots disk files index) = view index := by
  unfold resolveCompositionRoots
  dsimp only
  split
  · rfl
  · exact view_stampAll (stampInitCall_unstamped _) index

theorem view_finishIndexing (disk : Disk) (s : WorkspaceIndexer) (deferred : List DeferredPositional) :
    view (finishIndexing disk s deferred).index = deferred.foldl View.resolve (view s.index) := by
  unfold finishIndexing resolveInitCallers
  dsimp only
  rw [view_stampAll (stampCompRoot_unstamped _ _ _), view_resolveCompositionRoots]
  exact shows_unstamped.resolveDeferred deferred s.index

end Finishing

section Indexing

variable (parser : Parser) (hashText : String → String) (disk : Disk)

theorem indexFile_none {filePath : String} (unreadable : disk filePath = none)
    (s : WorkspaceIndexer) (deferred : List DeferredPositional) :
    indexFile parser hashText disk filePath s deferred = (s, deferred) := by
  unfold indexFile
  rw [unreadable]

theorem Shows.indexFile {see : ConcreteLocation → ConcreteLocation} (shows : Shows see)
    {filePath text : String} (read : disk filePath = some text)
    (s : WorkspaceIndexer) (deferred : List DeferredPositional) :
    viewBy see (indexFile parser hashText disk filePath s deferred).1.index =
        (viewBy see s.index).merge (parser.parseFileWithDefs filePath text) ∧
      (LibJuno.Indexer.indexFile parser hashText disk filePath s deferred).2 =
        deferred ++ (parser.parseFileWithDefs filePath text).deferred := by
  unfold LibJuno.Indexer.indexFile
  rw [read]
  exact ⟨shows.mergeInto (parser.sourced filePath text).calls s.index deferred, rfl⟩

theorem view_indexFile {filePath text : String} (read : disk filePath = some text)
    (s : WorkspaceIndexer) (deferred : List DeferredPositional) :
    view (indexFile parser hashText disk filePath s deferred).1.index =
        (view s.index).merge (parser.parseFileWithDefs filePath text) ∧
      (indexFile parser hashText disk filePath s deferred).2 =
        deferred ++ (parser.parseFileWithDefs filePath text).deferred :=
  shows_unstamped.indexFile parser hashText disk read s deferred

theorem Shows.indexFiles {see : ConcreteLocation → ConcreteLocation} (shows : Shows see)
    (files : List String) (s : WorkspaceIndexer) :
    viewBy see (indexFiles parser hashText disk files s).1.index =
        (parser.parses disk files).foldl View.merge (viewBy see s.index) ∧
      (LibJuno.Indexer.indexFiles parser hashText disk files s).2 =
        (parser.parses disk files).flatMap FileParse.deferred := by
  have general : ∀ (s : WorkspaceIndexer) (deferred : List DeferredPositional),
      let r := files.foldl
        (fun acc filePath => LibJuno.Indexer.indexFile parser hashText disk filePath acc.1 acc.2)
        (s, deferred)
      viewBy see r.1.index = (parser.parses disk files).foldl View.merge (viewBy see s.index) ∧
        r.2 = deferred ++ (parser.parses disk files).flatMap FileParse.deferred := by
    induction files with
    | nil => intro s deferred; simp [Parser.parses]
    | cons filePath files ih =>
      intro s deferred
      rw [List.foldl_cons]
      cases read : disk filePath with
      | none =>
        rw [indexFile_none parser hashText disk read]
        simpa [Parser.parses, read] using ih s deferred
      | some text =>
        obtain ⟨merged, more⟩ := shows.indexFile parser hashText disk read s deferred
        obtain ⟨rest, all⟩ := ih
          (LibJuno.Indexer.indexFile parser hashText disk filePath s deferred).1
          (LibJuno.Indexer.indexFile parser hashText disk filePath s deferred).2
        have parses : parser.parses disk (filePath :: files) =
            parser.parseFileWithDefs filePath text :: parser.parses disk files := by
          simp [Parser.parses, read]
        rw [parses, List.foldl_cons, List.flatMap_cons, ← merged, ← List.append_assoc, ← more]
        exact ⟨rest, all⟩
  exact general s []

theorem view_indexFiles (files : List String) (s : WorkspaceIndexer) :
    view (indexFiles parser hashText disk files s).1.index =
        (parser.parses disk files).foldl View.merge (view s.index) ∧
      (indexFiles parser hashText disk files s).2 =
        (parser.parses disk files).flatMap FileParse.deferred :=
  shows_unstamped.indexFiles parser hashText disk files s

/-- A full pass builds its view from the parses of the files. -/
theorem view_fullIndex (files : List String) (s : WorkspaceIndexer) :
    view (fullIndex parser hashText disk files s).index =
      (view s.index).build (parser.parses disk files) := by
  obtain ⟨merged, deferred⟩ := view_indexFiles parser hashText disk files s
  unfold fullIndex
  dsimp only
  rw [view_finishIndexing, merged, deferred]
  rfl

/-- Re-indexing a file removes its records and builds those of its parse. -/
theorem view_reindexFile (filePath : String) (s : WorkspaceIndexer) :
    view (reindexFile parser hashText disk filePath s).index =
      ((view s.index).remove filePath).build (parser.parses disk [filePath]) := by
  unfold reindexFile
  dsimp only
  rw [view_finishIndexing]
  cases read : disk filePath with
  | none =>
    rw [indexFile_none parser hashText disk read]
    simp only [Parser.parses, List.filterMap_cons, List.filterMap_nil, read, Option.map_none]
    exact view_removeFileRecords _ _
  | some text =>
    obtain ⟨merged, deferred⟩ :=
      view_indexFile parser hashText disk read (removeFile filePath s) []
    rw [merged, deferred]
    simp only [Parser.parses, List.filterMap_cons, List.filterMap_nil, read, Option.map_some]
    show List.foldl _ ((view (removeFileRecords s.index filePath)).merge _) _ = _
    rw [view_removeFileRecords, View.build, List.flatMap_singleton]
    rfl

end Indexing

end LibJuno.Indexer
