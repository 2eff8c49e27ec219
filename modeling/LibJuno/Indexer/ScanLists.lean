import LibJuno.Indexer.Locality
import LibJuno.Indexer.Lookup
import LibJuno.Lib.Prefixed

/-!
# What a scan lists

The lists of a full pass in closed form: what each file assigns directly, given the
definitions of the files before it, then the first positional assignment of each site, given
all definitions. What a file contributes depends on the others only through where its
functions are found, the root types of its handlers and the fields that its positional
vtables meet.
-/

namespace LibJuno.Indexer

variable {indexDefs indexDefs' : String → List FunctionDefinitionRecord}

/-- A file assigns functions to the fields of vtables, and as failure handlers. -/
inductive AssignmentKind
  | vtable
  | handler

namespace FileParse

/-- The functions that the file assigns directly to fields, or as handlers that find a root
type among the known ones. -/
def names (P : FileParse) (known : String → Bool) : AssignmentKind → List String
  | .vtable => P.parsed.vtableAssignments.map VtableAssignmentRecord.functionName
  | .handler =>
    (P.parsed.failureHandlerAssigns.filter fun r => decide (P.handlerRoot known r ≠ "")).map
      FailureHandlerRecord.functionName

/-- The assignments of a kind that are filed by root type. -/
def rooted (P : FileParse) : AssignmentKind → List FailureHandlerRecord
  | .vtable => []
  | .handler => P.parsed.failureHandlerAssigns

theorem assigned_of_names {P : FileParse} {known : String → Bool} {kind : AssignmentKind} {n : String}
    (named : n ∈ P.names known kind) : n ∈ P.assigned known := by
  cases kind with
  | vtable => exact List.mem_append_left _ named
  | handler => exact List.mem_append_right _ named

/-- Where a function that the file names is found, given the definitions that are listed: a
file that does not find it is told its own path. -/
def finds (P : FileParse) (indexDefs : String → List FunctionDefinitionRecord) (n : String) :
    DefinitionSite :=
  resolveDefinitionLocation n P.path P.functionDefs (indexDefs n)

/-- What the file assigns directly to a field. -/
def directsAt (P : FileParse) (indexDefs : String → List FunctionDefinitionRecord) (a f : String) :
    List ConcreteLocation :=
  (P.parsed.vtableAssignments.filter fun r => decide (r.apiType = a ∧ r.field = f)).map
    (vtableLocation indexDefs P.functionDefs)

/-- The handlers that the file files under a root type. -/
def handlersAt (P : FileParse) (known : String → Bool)
    (indexDefs : String → List FunctionDefinitionRecord) (t : String) : List ConcreteLocation :=
  (P.parsed.failureHandlerAssigns.filter fun r => decide (P.handlerRoot known r = t ∧ t ≠ "")).map
    (handlerLocation indexDefs P.functionDefs)

/-- What the file assigns by position to a field. -/
def placedAt (P : FileParse) (indexDefs : String → List FunctionDefinitionRecord)
    (fields : String → Option (List String)) (a f : String) : List ConcreteLocation :=
  P.deferred.flatMap (placementsAt indexDefs fields a f)

section Contributions

variable {P : FileParse} (sourced : P.SourcedFrom P.path) {known known' : String → Bool}

include sourced

theorem directsAt_congr (same : ∀ r ∈ P.parsed.vtableAssignments,
      P.finds indexDefs r.functionName = P.finds indexDefs' r.functionName) (a f : String) : P.directsAt indexDefs a f = P.directsAt indexDefs' a f := by
  apply List.map_congr_left
  intro r chosen
  have member := List.mem_of_mem_filter chosen
  have found := same r member
  unfold finds at found
  unfold vtableLocation
  rw [sourced.vtables r member, found]

theorem directsAt_file {q : String → Bool} (own : q P.path = true)
    (all : ∀ r ∈ P.parsed.vtableAssignments, q (P.finds indexDefs r.functionName).file = true) {a f : String}
    {l : ConcreteLocation} (listed : l ∈ P.directsAt indexDefs a f) : q l.file = true := by
  obtain ⟨r, chosen, rfl⟩ := List.mem_map.1 listed
  have member := List.mem_of_mem_filter chosen
  have found := all r member
  unfold finds at found
  unfold vtableLocation
  rw [sourced.vtables r member]
  exact orAt_file _ _ own found

omit sourced in
theorem names_of_filed {t : String} {r : FailureHandlerRecord}
    (chosen : r ∈ P.parsed.failureHandlerAssigns.filter fun r =>
      decide (P.handlerRoot known r = t ∧ t ≠ "")) : r.functionName ∈ P.names known .handler := by
  obtain ⟨member, filed⟩ := List.mem_filter.1 chosen
  obtain ⟨root, named⟩ := of_decide_eq_true filed
  exact List.mem_map_of_mem (List.mem_filter.2 ⟨member, decide_eq_true (root ▸ named)⟩)

theorem handlersAt_congr
    (roots : ∀ r ∈ P.parsed.failureHandlerAssigns, P.handlerRoot known r = P.handlerRoot known' r)
    (same : ∀ n ∈ P.names known .handler, P.finds indexDefs n = P.finds indexDefs' n) (t : String) :
    P.handlersAt known indexDefs t = P.handlersAt known' indexDefs' t := by
  have filed : (P.parsed.failureHandlerAssigns.filter fun r =>
      decide (P.handlerRoot known r = t ∧ t ≠ "")) =
        P.parsed.failureHandlerAssigns.filter fun r =>
          decide (P.handlerRoot known' r = t ∧ t ≠ "") :=
    List.filter_congr fun r member => by rw [roots r member]
  unfold handlersAt
  rw [← filed]
  apply List.map_congr_left
  intro r chosen
  have found := same r.functionName (names_of_filed chosen)
  unfold finds at found
  unfold handlerLocation
  rw [sourced.handlers r (List.mem_of_mem_filter chosen), found]

theorem handlersAt_file {q : String → Bool} (own : q P.path = true)
    (all : ∀ n ∈ P.names known .handler, q (P.finds indexDefs n).file = true) {t : String}
    {l : ConcreteLocation} (listed : l ∈ P.handlersAt known indexDefs t) : q l.file = true := by
  obtain ⟨r, chosen, rfl⟩ := List.mem_map.1 listed
  have found := all r.functionName (names_of_filed chosen)
  unfold finds at found
  unfold handlerLocation
  rw [sourced.handlers r (List.mem_of_mem_filter chosen)]
  exact orAt_file _ _ own found

theorem placedAt_assignmentFile {fields : String → Option (List String)} {a f : String}
    {l : ConcreteLocation} (listed : l ∈ P.placedAt indexDefs fields a f) :
    l.assignmentFile = some P.path := by
  obtain ⟨d, deferred, placed⟩ := List.mem_flatMap.1 listed
  obtain ⟨-, ⟨i, at_i⟩, -⟩ := mem_placementsAt placed
  rw [at_i]
  exact congrArg some (deferred_path sourced deferred)

theorem placedAt_file {q : String → Bool} (own : q P.path = true)
    (all : ∀ n, ∀ d ∈ indexDefs n, q d.file = true) {fields : String → Option (List String)} {a f : String}
    {l : ConcreteLocation} (listed : l ∈ P.placedAt indexDefs fields a f) : q l.file = true := by
  obtain ⟨d, deferred, placed⟩ := List.mem_flatMap.1 listed
  obtain ⟨-, ⟨i, at_i⟩, -⟩ := mem_placementsAt placed
  rw [at_i]
  unfold positionalLocation
  rw [deferred_path sourced deferred]
  exact orAt_file _ _ own (Settled.resolve (p := q) (.inr (.inr (all l.functionName))) own).2

end Contributions

/-- A positional vtable depends on the fields it meets and on where its functions are found. -/
theorem placedAt_congr {P : FileParse} {fields fields' : String → Option (List String)}
    (zips : ∀ d ∈ P.deferred, d.initializers.zip ((fields d.apiType).getD []) =
      d.initializers.zip ((fields' d.apiType).getD []))
    (same : ∀ d ∈ P.deferred, ∀ x ∈ d.initializers.zip ((fields d.apiType).getD []),
      resolveDefinitionLocation x.1 d.filePath [] (indexDefs x.1) =
        resolveDefinitionLocation x.1 d.filePath [] (indexDefs' x.1)) (a f : String) :
    P.placedAt indexDefs fields a f = P.placedAt indexDefs' fields' a f := by
  apply List.flatMap_congr
  intro d deferred
  unfold placementsAt placements
  split
  · rw [← zips d deferred]
    congr 2
    apply List.map_congr_left
    intro y zipped
    unfold positionalLocation
    rw [same d deferred y.1 (List.fst_mem_of_mem_zipIdx zipped)]
  · rfl

end FileParse

/-- What a file adds to a list when it is merged, given the known roots and the listed
definitions. -/
abbrev Contribution :=
  (String → Bool) → (String → List FunctionDefinitionRecord) → FileParse → List ConcreteLocation

/-- A contribution depends on the index through the root types of the assignments of its kind
and the places of their functions. -/
structure Contribution.Local (c : Contribution) (kind : AssignmentKind) : Prop where
  congr : ∀ {P : FileParse} {known known' : String → Bool}
    {indexDefs indexDefs' : String → List FunctionDefinitionRecord}, P.SourcedFrom P.path →
    (∀ r ∈ P.rooted kind, P.handlerRoot known r = P.handlerRoot known' r) →
    (∀ n ∈ P.names known kind, P.finds indexDefs n = P.finds indexDefs' n) →
    c known indexDefs P = c known' indexDefs' P
  file : ∀ {P : FileParse} {known : String → Bool}
    {indexDefs : String → List FunctionDefinitionRecord} {q : String → Bool}, P.SourcedFrom P.path →
    q P.path = true → (∀ n ∈ P.names known kind, q (P.finds indexDefs n).file = true) →
    ∀ l ∈ c known indexDefs P, q l.file = true

theorem local_directsAt (a f : String) :
    Contribution.Local (fun _ indexDefs P => P.directsAt indexDefs a f) .vtable where
  congr sourced _ same :=
    FileParse.directsAt_congr sourced (fun r member => same r.functionName (List.mem_map_of_mem member)) a f
  file sourced own all _ :=
    FileParse.directsAt_file sourced own fun r member => all r.functionName (List.mem_map_of_mem member)

theorem local_handlersAt (t : String) :
    Contribution.Local (fun known indexDefs P => P.handlersAt known indexDefs t) .handler :=
  ⟨fun sourced roots same => FileParse.handlersAt_congr sourced roots same t,
    fun sourced own all _ => FileParse.handlersAt_file sourced own all⟩

section Scan

/-- What the files of a scan add, each given what is declared up to it and defined before it. -/
def listed (c : Contribution) (Rs : List FileParse) : List ConcreteLocation :=
  (Prefixed.all Rs).flatMap fun x => c (declaredRoots (x.1 ++ [x.2])) (definitionsOf x.1) x.2

/-- The records that the files assign directly. -/
def directs (Rs : List FileParse) (a f : String) : List ConcreteLocation :=
  listed (fun _ indexDefs P => P.directsAt indexDefs a f) Rs

/-- The failure handlers of the files. -/
def handled (Rs : List FileParse) (t : String) : List ConcreteLocation :=
  listed (fun known indexDefs P => P.handlersAt known indexDefs t) Rs

/-- What the files assign by position, with all definitions and fields. -/
def placed (Rs : List FileParse) (a f : String) : List ConcreteLocation :=
  Rs.flatMap fun R => R.placedAt (definitionsOf Rs) (declaredFields Rs) a f

variable (Rs : List FileParse)

theorem declaredRoots_snoc (before : List FileParse) (R : FileParse) :
    ((before.foldl View.merge .empty).declare R).known = declaredRoots (before ++ [R]) := by
  rw [← known_foldl_merge, List.foldl_append]
  rfl

/-- A list to which each merged file adds its contribution. -/
theorem foldl_merge_listed (read : View → List ConcreteLocation) {c : Contribution}
    (one : ∀ v P, read (v.merge P) = read v ++ c (v.declare P).known v.definitions P)
    (none : read .empty = []) : read (Rs.foldl View.merge .empty) = listed c Rs := by
  have appended := Prefixed.foldl_appends View.merge read
    (fun x => c (declaredRoots (x.1 ++ [x.2])) (definitionsOf x.1) x.2) View.empty (fun before R => by
      rw [one, declaredRoots_snoc, definitions_foldl_merge]) Rs
  rwa [none, List.nil_append] at appended

theorem vtable_foldl_merge (a f : String) :
    (Rs.foldl View.merge .empty).vtable a f = directs Rs a f :=
  foldl_merge_listed Rs (fun v => v.vtable a f) (fun _ _ => rfl) rfl

theorem handlers_foldl_merge (t : String) :
    (Rs.foldl View.merge .empty).handlers t = handled Rs t :=
  foldl_merge_listed Rs (fun v => v.handlers t) (fun _ _ => rfl) rfl

/-- The vtable records of a scan. -/
theorem build_vtable (a f : String) :
    (View.empty.build Rs).vtable a f =
      (placed Rs a f).foldl (FirstOfKey.add ConcreteLocation.site) (directs Rs a f) := by
  rw [vtable_build, vtable_foldl_merge]
  rfl

/-- The failure handlers of a scan. -/
theorem build_handlers (t : String) : (View.empty.build Rs).handlers t = handled Rs t := by
  unfold View.build
  rw [(View.foldl_resolve_keeps _ _).2.2.2, handlers_foldl_merge]

theorem mem_directs {Rs : List FileParse} {a f : String} {l : ConcreteLocation} :
    l ∈ directs Rs a f ↔ ∃ before R after, Rs = before ++ R :: after ∧
      ∃ r ∈ R.parsed.vtableAssignments, r.apiType = a ∧ r.field = f ∧
        vtableLocation (definitionsOf before) R.functionDefs r = l := by
  rw [← vtable_foldl_merge, mem_foldl_merge_vtable]
  constructor
  · rintro (none_before | ⟨before, R, after, split, found⟩)
    · cases none_before
    · rw [definitions_foldl_merge] at found
      exact ⟨before, R, after, split, found⟩
  · rintro ⟨before, R, after, split, found⟩
    rw [← definitions_foldl_merge] at found
    exact .inr ⟨before, R, after, split, found⟩

theorem mem_placed {Rs : List FileParse} {a f : String} {l : ConcreteLocation} (member : l ∈ placed Rs a f) :
    ∃ R ∈ Rs, ∃ d ∈ R.deferred, ∃ i, l = positionalLocation (definitionsOf Rs) d l.functionName i := by
  obtain ⟨R, among, there⟩ := List.mem_flatMap.1 member
  obtain ⟨d, deferred, at_field⟩ := List.mem_flatMap.1 there
  obtain ⟨-, at_i, -⟩ := mem_placementsAt at_field
  exact ⟨R, among, d, deferred, at_i⟩

/-- A scan lists what is assigned directly, and what is assigned by position and leads its site. -/
theorem mem_build_vtable {Rs : List FileParse} {a f : String} {l : ConcreteLocation} :
    l ∈ (View.empty.build Rs).vtable a f ↔ l ∈ directs Rs a f ∨
      FirstOfKey.Leads ConcreteLocation.site (directs Rs a f) (placed Rs a f) l := by
  rw [build_vtable]
  exact FirstOfKey.mem_foldl_add

end Scan

end LibJuno.Indexer
