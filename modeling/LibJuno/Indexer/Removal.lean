import LibJuno.Indexer.View
import LibJuno.Lib.Ledger

/-!
# Removing what a file contributed

`removeFileRecords` prunes the lists of assignments by the file of a record, and that is
the file in which the assigned function is defined, not the one of the assignment. A
vtable record keeps the file of its assignment beside it; a failure handler does not, so
the runs below carry a ledger of where each handler was assigned. The removal is exact in
a state where every listed function is defined in the file exactly if it is assigned
there (`removes_exactly_iff`), and the other maps are always pruned exactly.
-/

namespace LibJuno.Indexer

/-- What the passes of the indexer do to the records. -/
inductive IndexStep where
  | merge (P : FileParse)
  | resolve (d : DeferredPositional)
  | remove (filePath : String)

/-- An index, with the listed failure handlers and the files of their assignments. -/
structure Audited where
  index : NavigationIndex
  handlers : List (Contribution String String ConcreteLocation)

/-- The failure handlers that merging lists: the others have no known root type. -/
def FileParse.handlerEntries (P : FileParse) (index : NavigationIndex) :
    List (Contribution String String ConcreteLocation) :=
  let known := (index.declare P.parsed).knownRoots
  (P.parsed.failureHandlerAssigns.filter fun r => decide (P.handlerRoot known r ≠ "")).map fun r =>
    ⟨P.handlerRoot known r, r.file,
      handlerLocation index.functionDefinitions.listAt P.functionDefs r⟩

namespace Audited

def empty : Audited := ⟨createEmptyIndex, []⟩

def step (s : Audited) : IndexStep → Audited
  | .merge P => ⟨(s.index.mergeInto P []).1, s.handlers ++ P.handlerEntries s.index⟩
  | .resolve d => ⟨s.index.resolvePositional d, s.handlers⟩
  | .remove filePath =>
    ⟨removeFileRecords s.index filePath,
      s.handlers.filter fun c => decide (c.item.file ≠ filePath)⟩

def run (steps : List IndexStep) : Audited := steps.foldl step .empty

/-- The ledger tells the listed handlers. -/
def Accounts (s : Audited) : Prop :=
  ∀ rootType, s.index.failureHandlerAssignments.listAt rootType =
    Contribution.listed s.handlers rootType

end Audited

section Runs

/-- The handlers that merging lists under a root type. -/
theorem mergeInto_handlers (P : FileParse) (index : NavigationIndex)
    (deferred : List DeferredPositional) (rootType : String) :
    (index.mergeInto P deferred).1.failureHandlerAssignments.listAt rootType =
      index.failureHandlerAssignments.listAt rootType ++
        Contribution.listed (P.handlerEntries index) rootType := by
  have calls : ∀ (ics : List InitCallRecord) (idx : NavigationIndex),
      (ics.foldl NavigationIndex.appendCall idx) =
        { idx with initCallIndex := (ics.foldl NavigationIndex.appendCall idx).initCallIndex } := by
    intro ics
    induction ics with
    | nil => exact fun _ => rfl
    | cons ic ics ih => exact fun idx => ih (idx.appendCall ic)
  unfold NavigationIndex.mergeInto
  dsimp only
  rw [foldl_appendVtable, calls, foldl_appendHandler]
  dsimp only
  rw [listAt_foldl_file]
  congr 1
  unfold Contribution.listed FileParse.handlerEntries
  rw [List.filter_map, List.map_map, List.filter_filter]
  congr 1
  apply List.filter_congr
  intro r _
  show decide (P.handlerRoot _ r = rootType ∧ rootType ≠ "") =
    (decide (P.handlerRoot _ r = rootType) && decide (P.handlerRoot _ r ≠ ""))
  rw [← Bool.decide_and]
  congr 1
  apply propext
  constructor
  · rintro ⟨rfl, named⟩
    exact ⟨rfl, named⟩
  · rintro ⟨rfl, named⟩
    exact ⟨rfl, named⟩

/-- Positional initialisers are listed as vtable records only. -/
theorem resolvePositional_handlers (index : NavigationIndex) (d : DeferredPositional) :
    (index.resolvePositional d).failureHandlerAssignments = index.failureHandlerAssignments := by
  have placed : ∀ (xs : List (String × ConcreteLocation)) (idx : NavigationIndex),
      (xs.foldl (NavigationIndex.place d.apiType) idx).failureHandlerAssignments =
        idx.failureHandlerAssignments := by
    intro xs
    induction xs with
    | nil => exact fun _ => rfl
    | cons x xs ih =>
      intro idx
      rw [List.foldl_cons, ih]
      unfold NavigationIndex.place
      split <;> rfl
  unfold NavigationIndex.resolvePositional
  cases index.apiStructFields.get d.apiType with
  | none => rfl
  | some fields => exact placed _ _

theorem Audited.Accounts.step {s : Audited} (h : s.Accounts) (a : IndexStep) : (s.step a).Accounts := by
  intro rootType
  cases a with
  | merge P =>
    show (s.index.mergeInto P []).1.failureHandlerAssignments.listAt rootType = _
    rw [mergeInto_handlers, h rootType]
    exact (Contribution.listed_append _ _ _).symm
  | resolve d =>
    show (s.index.resolvePositional d).failureHandlerAssignments.listAt rootType = _
    rw [resolvePositional_handlers]
    exact h rootType
  | remove filePath =>
    show (s.index.failureHandlerAssignments.prune _).listAt rootType = _
    rw [OrderedMap.listAt_prune, h rootType]
    exact (Contribution.listed_filter_item s.handlers (fun l => decide (l.file ≠ filePath)) rootType).symm

theorem Audited.accounts_run (steps : List IndexStep) : (Audited.run steps).Accounts := by
  have along : ∀ s : Audited, s.Accounts → (steps.foldl Audited.step s).Accounts := by
    induction steps with
    | nil => exact fun _ h => h
    | cons a steps ih => exact fun s h => ih (s.step a) (h.step a)
  exact along .empty fun _ => rfl

end Runs

section Removal

/-- No list and no field map of the index is empty. -/
structure NoneEmpty (index : NavigationIndex) : Prop where
  fieldMaps : ∀ e ∈ index.vtableAssignments.entries, e.2.isEmpty = false
  vtables : ∀ e ∈ index.vtableAssignments.entries, ∀ e' ∈ e.2.entries, e'.2 ≠ []
  handlers : ∀ e ∈ index.failureHandlerAssignments.entries, e.2 ≠ []
  definitions : ∀ e ∈ index.functionDefinitions.entries, e.2 ≠ []
  calls : ∀ e ∈ index.initCallIndex.entries, e.2 ≠ []

/-- Removing `filePath` removes from each map what was found in that file, and no more. -/
structure RemovesExactly (s : Audited) (filePath : String) : Prop where
  vtables : ∀ apiType field,
    implementations (removeFileRecords s.index filePath).vtableAssignments apiType field =
      (implementations s.index.vtableAssignments apiType field).filter fun l =>
        decide (l.assignmentFile ≠ some filePath)
  handlers : ∀ rootType,
    (removeFileRecords s.index filePath).failureHandlerAssignments.listAt rootType =
      Contribution.listed (s.handlers.filter fun c => decide (c.source ≠ filePath)) rootType
  definitions : ∀ functionName,
    (removeFileRecords s.index filePath).functionDefinitions.listAt functionName =
      (s.index.functionDefinitions.listAt functionName).filter fun d => decide (d.file ≠ filePath)
  localTypes : ∀ path, (removeFileRecords s.index filePath).localTypeInfo.get path =
    if path = filePath then none else s.index.localTypeInfo.get path
  calls : ∀ apiVarName, (removeFileRecords s.index filePath).initCallIndex.listAt apiVarName =
    (s.index.initCallIndex.listAt apiVarName).filter fun c => decide (c.file ≠ filePath)
  noneEmpty : NoneEmpty (removeFileRecords s.index filePath)

/-- Every listed function is defined in `filePath` exactly if it is assigned there. -/
structure AssignedWhereDefined (s : Audited) (filePath : String) : Prop where
  vtables : ∀ apiType field, ∀ l ∈ implementations s.index.vtableAssignments apiType field,
    l.file = filePath ↔ l.assignmentFile = some filePath
  handlers : ∀ c ∈ s.handlers, c.item.file = filePath ↔ c.source = filePath

theorem implementations_removeFileRecords (index : NavigationIndex) (filePath apiType field : String) :
    implementations (removeFileRecords index filePath).vtableAssignments apiType field =
      (implementations index.vtableAssignments apiType field).filter fun l =>
        decide (l.file ≠ filePath) :=
  implementations_prune index.vtableAssignments _ apiType field

theorem handlers_removeFileRecords (index : NavigationIndex) (filePath rootType : String) :
    (removeFileRecords index filePath).failureHandlerAssignments.listAt rootType =
      (index.failureHandlerAssignments.listAt rootType).filter fun l => decide (l.file ≠ filePath) :=
  OrderedMap.listAt_prune _ _ rootType

theorem removeFileRecords_noneEmpty (index : NavigationIndex) (filePath : String) :
    NoneEmpty (removeFileRecords index filePath) := by
  constructor
  case fieldMaps =>
    intro e member
    obtain ⟨fieldMap, kept⟩ := OrderedMap.mem_filterMap member
    dsimp only at kept
    split at kept
    · cases kept
    · next some_left =>
      rw [← Option.some.inj kept]
      exact Bool.of_not_eq_true some_left
  case vtables =>
    intro e member
    obtain ⟨fieldMap, kept⟩ := OrderedMap.mem_filterMap member
    dsimp only at kept
    split at kept
    · cases kept
    · rw [← Option.some.inj kept]
      exact fun e' => OrderedMap.ne_nil_of_mem_prune
  case handlers => exact fun e => OrderedMap.ne_nil_of_mem_prune
  case definitions => exact fun e => OrderedMap.ne_nil_of_mem_prune
  case calls => exact fun e => OrderedMap.ne_nil_of_mem_prune

theorem decide_ne_iff {p q : Prop} [Decidable p] [Decidable q] :
    decide (¬ p) = decide (¬ q) ↔ (p ↔ q) := by
  rw [decide_eq_decide, not_iff_not]

/-- In every index that merging, placing and removing lead to, removing a file removes
exactly what was found in it if and only if every listed function is defined in the file
exactly if it is assigned there. -/
theorem removes_exactly_iff (steps : List IndexStep) (filePath : String) :
    RemovesExactly (Audited.run steps) filePath ↔
      AssignedWhereDefined (Audited.run steps) filePath := by
  have accounts := Audited.accounts_run steps
  generalize Audited.run steps = s at accounts
  constructor
  · intro removes
    constructor
    case vtables =>
      intro apiType field l listed
      have same := removes.vtables apiType field
      rw [implementations_removeFileRecords, List.filter_eq_filter_iff] at same
      exact decide_ne_iff.1 (same l listed)
    case handlers =>
      intro c member
      have same : ∀ rootType, (Contribution.listed s.handlers rootType).filter
          (fun l => decide (l.file ≠ filePath)) =
            Contribution.listed (s.handlers.filter fun c => decide (c.source ≠ filePath)) rootType := by
        intro rootType
        rw [← accounts rootType, ← handlers_removeFileRecords]
        exact removes.handlers rootType
      exact decide_ne_iff.1 (Contribution.filter_listed_iff.1 same c member)
  · intro assigned
    constructor
    case vtables =>
      intro apiType field
      rw [implementations_removeFileRecords]
      apply List.filter_congr
      intro l listed
      exact decide_ne_iff.2 (assigned.vtables apiType field l listed)
    case handlers =>
      intro rootType
      rw [handlers_removeFileRecords, accounts rootType]
      apply Contribution.filter_listed_iff.2
      intro c member
      exact decide_ne_iff.2 (assigned.handlers c member)
    case definitions => exact fun functionName => OrderedMap.listAt_prune _ _ functionName
    case localTypes => exact fun path => OrderedMap.get_delete _ filePath path
    case calls => exact fun apiVarName => OrderedMap.listAt_prune _ _ apiVarName
    case noneEmpty => exact removeFileRecords_noneEmpty s.index filePath

end Removal

/-- The parse of a file that makes `Log` the failure handler of a module. -/
def FileParse.logHandler (filePath : String) : FileParse where
  parsed := { ParsedFile.blank filePath with
    failureHandlerAssigns := [⟨"LOG_ROOT_T", "Log", filePath, 2⟩] }
  functionDefs := []
  apiMemberRegistry := .empty

/-- A function, and a vtable and a failure handler that are assigned it in other files. -/
def logIndex : Audited :=
  .run [.merge (.voidFunction "Log" "/w/log.c"), .merge (.logVtable "/w/init.c"),
    .merge (.logHandler "/w/app.c")]

/-- Removing the file of the function takes the assignments of the others with it, and
removing these leaves their assignments listed. -/
theorem removal_misses_assignments :
    ¬RemovesExactly logIndex "/w/log.c" ∧ ¬RemovesExactly logIndex "/w/init.c" ∧
      ¬RemovesExactly logIndex "/w/app.c" := by
  refine ⟨fun removes => ?_, fun removes => ?_, fun removes => ?_⟩
  · exact absurd (removes.vtables "LOG_API_T" "Log") (by decide)
  · exact absurd (removes.vtables "LOG_API_T" "Log") (by decide)
  · exact absurd (removes.handlers "LOG_ROOT_T") (by decide)

end LibJuno.Indexer
