import LibJuno.Indexer.ScanLists
import LibJuno.Lib.FirstOfKey

/-!
# Re-indexing a file against indexing the workspace

After an edit the file watcher removes the records of the file and merges its new parse
last. The records are pruned by the file of the definition that they name, and a file
merged last finds definitions and root types that it does not find at its place in the
scan. An edit is isolated when neither comes to bear; then the index has, under each key, the
records that a scan of the workspace gives.
-/

namespace LibJuno.Indexer

/-- The files in the order of the scan, with their texts. -/
abbrev Workspace := List (String × String)

namespace Workspace

def files (W : Workspace) : List String := W.map Prod.fst

def disk (W : Workspace) : Disk := fun path =>
  (W.find? fun x => decide (x.1 = path)).map Prod.snd

def parses (parser : Parser) (W : Workspace) : List FileParse :=
  W.map fun x => parser.parseFileWithDefs x.1 x.2

theorem disk_of_mem {W : Workspace} (distinct : W.files.Nodup) {x : String × String} (member : x ∈ W) :
    W.disk x.1 = some x.2 := by
  unfold disk
  rw [← List.head?_filter, filter_key_of_mem distinct member]
  rfl

theorem mem_files_of_disk {W : Workspace} {path text : String} (read : W.disk path = some text) :
    path ∈ W.files := by
  obtain ⟨x, found, -⟩ := Option.map_eq_some_iff.1 read
  have same : x.1 = path := by simpa using List.find?_some found
  exact same ▸ List.mem_map_of_mem (List.mem_of_find?_eq_some found)

theorem parses_disk (parser : Parser) {W : Workspace} (distinct : W.files.Nodup) :
    parser.parses W.disk W.files = W.parses parser := by
  unfold Parser.parses files parses
  rw [List.filterMap_map, ← List.filterMap_eq_map]
  apply List.filterMap_congr
  intro x member
  show (W.disk x.1).map _ = _
  rw [disk_of_mem distinct member]
  rfl

end Workspace

namespace View

/-- The same records, as multisets, under every key. -/
structure SameRecords (v w : View) : Prop where
  vtables : ∀ a f, (v.vtable a f).Perm (w.vtable a f)
  handlers : ∀ t, (v.handlers t).Perm (w.handlers t)
  definitions : ∀ n, (v.definitions n).Perm (w.definitions n)

end View

theorem mem_definitionsOf {Rs : List FileParse} {n : String} {d : FunctionDefinitionRecord}
    (h : d ∈ definitionsOf Rs n) : ∃ Q ∈ Rs, d ∈ Q.functionDefs ∧ n ∈ Q.defined := by
  obtain ⟨among, name⟩ := List.mem_filter.1 h
  obtain ⟨Q, member, there⟩ := List.mem_flatMap.1 among
  exact ⟨Q, member, there, List.mem_map.2 ⟨d, there, of_decide_eq_true name⟩⟩

theorem definitionsOf_append (Ps Qs : List FileParse) (n : String) :
    definitionsOf (Ps ++ Qs) n = definitionsOf Ps n ++ definitionsOf Qs n := by
  unfold definitionsOf
  rw [List.flatMap_append, List.filter_append]

theorem file_of_mem_definitionsOf {Rs : List FileParse} (sourced : ∀ R ∈ Rs, R.SourcedFrom R.path)
    {n : String} {d : FunctionDefinitionRecord} (h : d ∈ definitionsOf Rs n) :
    ∃ Q ∈ Rs, d.file = Q.path := by
  obtain ⟨Q, member, there, -⟩ := mem_definitionsOf h
  exact ⟨Q, member, (sourced Q member).functions d there⟩

/-- The same declarations of roots, derivations and API structs. -/
structure SameDeclarations (Os Ns : List FileParse) : Prop where
  moduleRoots : ∀ r, r ∈ Os.flatMap (fun P => P.parsed.moduleRoots) ↔
    r ∈ Ns.flatMap fun P => P.parsed.moduleRoots
  traitRoots : ∀ r, r ∈ Os.flatMap (fun P => P.parsed.traitRoots) ↔
    r ∈ Ns.flatMap fun P => P.parsed.traitRoots
  derivations : ∀ r, r ∈ Os.flatMap (fun P => P.parsed.derivations) ↔
    r ∈ Ns.flatMap fun P => P.parsed.derivations
  apiStructs : declaredFields Os = declaredFields Ns

section Declarations

variable {F O N B : List FileParse}

theorem mem_rootTypes {Ps : List FileParse} {t : String} :
    t ∈ Ps.flatMap FileParse.rootTypes ↔
      (∃ r ∈ Ps.flatMap fun P => P.parsed.moduleRoots, r.rootType = t) ∨
        ∃ r ∈ Ps.flatMap fun P => P.parsed.traitRoots, r.rootType = t := by
  unfold FileParse.rootTypes
  simp only [List.mem_flatMap, List.map_append, List.mem_append, List.mem_map]
  constructor
  · rintro ⟨P, member, ⟨r, here, rfl⟩ | ⟨r, here, rfl⟩⟩
    · exact .inl ⟨r, ⟨P, member, here⟩, rfl⟩
    · exact .inr ⟨r, ⟨P, member, here⟩, rfl⟩
  · rintro (⟨r, ⟨P, member, here⟩, rfl⟩ | ⟨r, ⟨P, member, here⟩, rfl⟩)
    · exact ⟨P, member, .inl ⟨r, here, rfl⟩⟩
    · exact ⟨P, member, .inr ⟨r, here, rfl⟩⟩

/-- The same declarations give the same roots, whatever is around them. -/
theorem SameDeclarations.declaredRoots_eq (same : SameDeclarations O N) :
    declaredRoots (F ++ O ++ B) = declaredRoots (F ++ N ++ B) := by
  have rootTypes : ∀ t, t ∈ O.flatMap FileParse.rootTypes ↔ t ∈ N.flatMap FileParse.rootTypes := by
    intro t
    simp only [mem_rootTypes, same.moduleRoots, same.traitRoots]
  funext t
  apply decide_eq_decide.2
  simp only [List.flatMap_append, List.mem_append, rootTypes]

end Declarations

/-- No other file finds a function that it assigns directly in the given one. -/
def Aside (filePath : String) (Rs : List FileParse) : Prop :=
  ∀ before R after, Rs = before ++ R :: after → R.path ≠ filePath →
    ∀ n ∈ R.assigned (declaredRoots (before ++ [R])), (R.finds (definitionsOf before) n).file ≠ filePath

/-- Of the positional assignments of the files this one is the first of its site, and no file
assigns the site directly. -/
def Leading (Rs : List FileParse) (a f : String) (l : ConcreteLocation) : Prop :=
  FirstOfKey.Leads ConcreteLocation.site (directs Rs a f) (placed Rs a f) l

/-- Merged behind the other files, into an index that shows `v`, a file finds what it finds
at its place between them in the scan. -/
structure FoundAtEnd (F : List FileParse) (P : FileParse) (B : List FileParse) (v : View) : Prop where
  direct : ∀ n ∈ P.assigned (declaredRoots (F ++ [P])),
    P.finds v.definitions n = P.finds (definitionsOf F) n
  roots : ∀ r ∈ P.parsed.failureHandlerAssigns,
    P.handlerRoot (v.declare P).known r = P.handlerRoot (declaredRoots (F ++ [P])) r
  fields : ∀ d ∈ P.deferred, d.initializers.zip (((v.declare P).fields d.apiType).getD []) =
    d.initializers.zip ((declaredFields (F ++ [P] ++ B) d.apiType).getD [])
  positional : ∀ x ∈ P.positions (declaredFields (F ++ [P] ++ B)),
    P.finds v.definitions x.2.2 = P.finds (definitionsOf (F ++ B)) x.2.2

section Lookups

variable {n file filePath : String} {functionDefs before own after : List FunctionDefinitionRecord}

/-- A search that does not end in the given file does not depend on it. -/
theorem resolve_aside (other : file ≠ filePath) (inside : ∀ d ∈ own, d.file = filePath)
    (aside : (resolveDefinitionLocation n file functionDefs (before ++ own ++ after)).file ≠ filePath) :
    resolveDefinitionLocation n file functionDefs (before ++ own ++ after) =
      resolveDefinitionLocation n file functionDefs (before ++ after) := by
  have skipped : own.find? (fun d => decide (d.file = file)) = none := by
    rw [List.find?_eq_none]
    intro d member
    simpa [inside d member] using Ne.symm other
  unfold resolveDefinitionLocation at aside ⊢
  rw [List.find?_append, List.find?_append, skipped, Option.or_none] at aside ⊢
  rw [List.find?_append]
  cases here : functionDefs.find? fun d => decide (d.functionName = n ∧ d.file = file) with
  | some d => rfl
  | none =>
    rw [here] at aside
    cases there : (before.find? fun d => decide (d.file = file)).or
        (after.find? fun d => decide (d.file = file)) with
    | some d => rfl
    | none =>
      rw [there] at aside
      cases before with
      | cons d before => rfl
      | nil =>
        cases own with
        | nil => rfl
        | cons d own => exact absurd (inside d List.mem_cons_self) aside

/-- In its own file a function is found first, wherever the file is listed. -/
theorem resolve_own (others : ∀ d ∈ before ++ after, d.file ≠ file)
    (inside : ∀ d ∈ functionDefs, d.file = file) :
    resolveDefinitionLocation n file []
        (before ++ functionDefs.filter (fun d => decide (d.functionName = n)) ++ after) =
      resolveDefinitionLocation n file functionDefs (before ++ after) := by
  have absent : ∀ ds : List FunctionDefinitionRecord, (∀ d ∈ ds, d ∈ before ++ after) →
      ds.find? (fun d => decide (d.file = file)) = none := by
    intro ds sub
    rw [List.find?_eq_none]
    intro d member
    simpa using others d (sub d member)
  have same : (functionDefs.filter fun d => decide (d.functionName = n)).find?
      (fun d => decide (d.file = file)) =
        functionDefs.find? fun d => decide (d.functionName = n ∧ d.file = file) := by
    rw [List.find?_filter]
    congr 1
    funext d
    simp
  unfold resolveDefinitionLocation
  rw [List.find?_nil, List.find?_append, List.find?_append, absent before (by simp +contextual),
    absent after (by simp +contextual), same, absent (before ++ after) fun _ h => h, Option.none_or,
    Option.or_none]
  cases found : functionDefs.find? fun d => decide (d.functionName = n ∧ d.file = file) with
  | some d => rfl
  | none =>
    have none_here : (functionDefs.filter fun d => decide (d.functionName = n)) = [] := by
      rw [List.filter_eq_nil_iff]
      intro d member
      have missed := List.find?_eq_none.1 found d member
      simpa [inside d member] using missed
    rw [none_here, List.append_nil]

end Lookups

section Step

variable {filePath : String} {F B : List FileParse} {M : List FileParse} {c : Contribution}
  {kind : AssignmentKind} (contribution : c.Local kind) (others : ∀ R ∈ F ++ B, R.path ≠ filePath)

/-- What the files behind the given one add to a list, with its declarations alone. -/
def behind (c : Contribution) (F M B : List FileParse) : List ConcreteLocation :=
  (Prefixed.all B).flatMap fun x =>
    c (declaredRoots (F ++ M ++ (x.1 ++ [x.2]))) (definitionsOf (F ++ x.1)) x.2

section Scans

variable (own : ∀ R ∈ M, R.path = filePath) (sourced : ∀ R ∈ F ++ M ++ B, R.SourcedFrom R.path)
  (aside : Aside filePath (F ++ M ++ B))

include others own sourced aside

/-- Files that keep aside of the given one find the same without it. -/
theorem finds_behind {before : List FileParse} {R : FileParse} (member : (before, R) ∈ Prefixed.all B)
    {n : String} (named : n ∈ R.assigned (declaredRoots (F ++ M ++ (before ++ [R])))) :
    R.finds (definitionsOf (F ++ M ++ before)) n = R.finds (definitionsOf (F ++ before)) n := by
  obtain ⟨after, split⟩ := Prefixed.mem_all.1 member
  have other : R.path ≠ filePath := others R (by rw [split]; simp)
  have inside : ∀ d ∈ definitionsOf M n, d.file = filePath := by
    intro d listed
    obtain ⟨Q, among, file⟩ := file_of_mem_definitionsOf (fun R h => sourced R (by simp [h])) listed
    exact file.trans (own Q among)
  have found := aside (F ++ M ++ before) R after (by rw [split]; simp) other n (by simpa using named)
  unfold FileParse.finds at found ⊢
  simp only [definitionsOf_append] at found ⊢
  exact resolve_aside other inside found

omit own sourced in
theorem finds_in_front {before : List FileParse} {R : FileParse} (member : (before, R) ∈ Prefixed.all F)
    {n : String} (named : n ∈ R.assigned (declaredRoots (before ++ [R]))) :
    (R.finds (definitionsOf before) n).file ≠ filePath := by
  obtain ⟨after, split⟩ := Prefixed.mem_all.1 member
  exact aside before R (after ++ M ++ B) (by rw [split]; simp) (others R (by rw [split]; simp)) n named

include contribution

/-- A scan lists what the files in front add, what the given file adds, and what the others
add without it; the others have their records in other files. -/
theorem listed_around :
    listed c (F ++ M ++ B) = listed c F ++
        ((Prefixed.all M).flatMap fun x =>
          c (declaredRoots (F ++ x.1 ++ [x.2])) (definitionsOf (F ++ x.1)) x.2) ++ behind c F M B ∧
      ∀ l ∈ listed c F ++ behind c F M B, l.file ≠ filePath := by
  have tail : ∀ x ∈ Prefixed.all B,
      c (declaredRoots (F ++ M ++ x.1 ++ [x.2])) (definitionsOf (F ++ M ++ x.1)) x.2 =
        c (declaredRoots (F ++ M ++ (x.1 ++ [x.2]))) (definitionsOf (F ++ x.1)) x.2 := by
    intro x member
    rw [List.append_assoc (F ++ M)]
    have there : x.2 ∈ B := Prefixed.of_mem_all member x.2 (by simp)
    exact contribution.congr (sourced x.2 (by simp [there])) (fun _ _ => rfl)
      fun n named => finds_behind others own sourced aside member (FileParse.assigned_of_names named)
  constructor
  · unfold listed behind
    rw [Prefixed.all_append, Prefixed.all_append, List.flatMap_append, List.flatMap_append,
      List.flatMap_map, List.flatMap_map]
    congr 1
    exact List.flatMap_congr tail
  · let q : String → Bool := fun file => decide (file ≠ filePath)
    have elsewhere : ∀ l ∈ listed c F ++ behind c F M B, q l.file = true := by
      intro l member
      rcases List.mem_append.1 member with front | back
      · obtain ⟨x, there, added⟩ := List.mem_flatMap.1 front
        have among : x.2 ∈ F := Prefixed.of_mem_all there x.2 (by simp)
        exact contribution.file (q := q) (sourced x.2 (by simp [among]))
          (decide_eq_true (others x.2 (by simp [among])))
          (fun n named => decide_eq_true
            (finds_in_front others aside there (FileParse.assigned_of_names named))) l added
      · obtain ⟨x, there, added⟩ := List.mem_flatMap.1 back
        have among : x.2 ∈ B := Prefixed.of_mem_all there x.2 (by simp)
        obtain ⟨after, split⟩ := Prefixed.mem_all.1 there
        refine contribution.file (q := q) (sourced x.2 (by simp [among]))
          (decide_eq_true (others x.2 (by simp [among]))) (fun n named => decide_eq_true ?_) l added
        have named := FileParse.assigned_of_names named
        rw [← finds_behind others own sourced aside there named]
        exact aside (F ++ M ++ x.1) x.2 after (by rw [split]; simp) (others x.2 (by simp [among])) n
          (by simpa using named)
    exact fun l member => of_decide_eq_true (elsewhere l member)

end Scans

variable {o n : Option FileParse} (own : ∀ R ∈ o.toList ++ n.toList, R.path = filePath)
  (sourced : ∀ R ∈ F ++ B ++ (o.toList ++ n.toList), R.SourcedFrom R.path)

theorem flatMap_all_toList {β : Type} (o : Option FileParse) (g : List FileParse × FileParse → List β) :
    (Prefixed.all o.toList).flatMap g = o.toList.flatMap fun P => g ([], P) := by
  cases o <;> rfl

section Renewing

variable (same : SameDeclarations o.toList n.toList)
  (before : Aside filePath (F ++ o.toList ++ B)) (after : Aside filePath (F ++ n.toList ++ B))
  (old : ∀ P ∈ o, ∀ n ∈ P.assigned (declaredRoots (F ++ [P])),
    (P.finds (definitionsOf F) n).file = filePath)

include contribution others own sourced same before after old

/-- A scan after the edit lists what one before it lists in other files, and what the new text
adds at its place. -/
theorem listed_renewed :
    (listed c (F ++ n.toList ++ B)).Perm
      (((listed c (F ++ o.toList ++ B)).filter fun l => !decide (l.file = filePath)) ++
        n.toList.flatMap fun P => c (declaredRoots (F ++ [P])) (definitionsOf F) P) := by
  obtain ⟨scan, elsewhere⟩ := listed_around contribution others
    (fun R h => own R (List.mem_append_left _ h)) (fun R h => sourced R (by simp at h ⊢; tauto)) before
  obtain ⟨scan', -⟩ := listed_around contribution others
    (fun R h => own R (List.mem_append_right _ h)) (fun R h => sourced R (by simp at h ⊢; tauto)) after
  have unchanged : behind c F o.toList B = behind c F n.toList B := by
    unfold behind
    simp only [same.declaredRoots_eq]
  have inside : (((Prefixed.all o.toList).flatMap fun x =>
      c (declaredRoots (F ++ x.1 ++ [x.2])) (definitionsOf (F ++ x.1)) x.2).filter
        fun l => !decide (l.file = filePath)) = [] := by
    rw [flatMap_all_toList, List.filter_eq_nil_iff]
    intro l member
    obtain ⟨P, there, added⟩ := List.mem_flatMap.1 member
    have there' : P ∈ o := Option.mem_toList.1 there
    have path := own P (List.mem_append_left _ there)
    simp only [List.append_nil] at added
    have file := contribution.file (q := fun file => decide (file = filePath)) (sourced P (by simp at there; simp [there]))
      (decide_eq_true path)
      (fun n named => decide_eq_true (old P there' n (FileParse.assigned_of_names named))) l added
    simpa using file
  have kept : ∀ ls : List ConcreteLocation, (∀ l ∈ ls, l.file ≠ filePath) →
      (ls.filter fun l => !decide (l.file = filePath)) = ls := by
    intro ls all
    rw [List.filter_eq_self]
    intro l member
    simpa using all l member
  obtain ⟨front, back⟩ := List.forall_mem_append.1 elsewhere
  rw [scan, scan', List.filter_append, List.filter_append, inside, kept _ front, kept _ back, unchanged,
    List.append_nil, flatMap_all_toList, List.append_assoc, List.append_assoc]
  simp only [List.append_nil]
  exact List.perm_append_comm.append_left _

end Renewing

section Merged

variable {v : View} (atEnd : ∀ P ∈ n, FoundAtEnd F P B (v.remove filePath))

theorem definitionsOf_singleton (P : FileParse) (m : String) :
    definitionsOf [P] m = P.functionDefs.filter fun d => decide (d.functionName = m) := by
  unfold definitionsOf
  rw [List.flatMap_singleton]

include sourced atEnd

/-- The new text adds to an index what it adds at its place in the scan. -/
theorem merged_directs (a f : String) :
    ((n.toList.foldl View.merge (v.remove filePath)).vtable a f) =
      ((v.vtable a f).filter fun l => !decide (l.file = filePath)) ++
        n.toList.flatMap fun P => P.directsAt (definitionsOf F) a f := by
  have removed : (v.remove filePath).vtable a f =
      (v.vtable a f).filter fun l => !decide (l.file = filePath) := by
    refine List.filter_congr fun l _ => ?_
    exact decide_not
  cases new : n with
  | none => rw [← removed]; exact (List.append_nil _).symm
  | some P =>
    have sourced_P := sourced P (by simp [new])
    rw [← removed, Option.toList_some, List.flatMap_singleton,
      ← FileParse.directsAt_congr sourced_P
        fun r member => (atEnd P new).direct r.functionName
          (List.mem_append_left _ (List.mem_map_of_mem member))]
    rfl

theorem merged_handlers (t : String) :
    ((n.toList.foldl View.merge (v.remove filePath)).handlers t) =
      ((v.handlers t).filter fun l => !decide (l.file = filePath)) ++
        n.toList.flatMap fun P => P.handlersAt (declaredRoots (F ++ [P])) (definitionsOf F) t := by
  have removed : (v.remove filePath).handlers t =
      (v.handlers t).filter fun l => !decide (l.file = filePath) := by
    refine List.filter_congr fun l _ => ?_
    exact decide_not
  cases new : n with
  | none => rw [← removed]; exact (List.append_nil _).symm
  | some P =>
    have sourced_P := sourced P (by simp [new])
    have found := atEnd P new
    rw [← removed, Option.toList_some, List.flatMap_singleton, FileParse.handlersAt_congr sourced_P
      (fun r member => (found.roots r member).symm)
      fun n named => (found.direct n (FileParse.assigned_of_names named)).symm]
    rfl

include others own

/-- By position the new text assigns what it assigns in the scan, and the scan of the others
assigns nothing for it. -/
theorem merged_placed (a f : String) :
    (n.toList.flatMap fun P => P.placedAt (n.toList.foldl View.merge (v.remove filePath)).definitions
        (n.toList.foldl View.merge (v.remove filePath)).fields a f) =
      (placed (F ++ n.toList ++ B) a f).filter fun l => decide (l.assignmentFile = some filePath) := by
  let q : ConcreteLocation → Bool := fun l => decide (l.assignmentFile = some filePath)
  have outside : ∀ Rs : List FileParse, (∀ R ∈ Rs, R ∈ F ++ B) →
      ((Rs.flatMap fun R => R.placedAt (definitionsOf (F ++ n.toList ++ B))
        (declaredFields (F ++ n.toList ++ B)) a f).filter q) = [] := by
    intro Rs among
    rw [List.filter_eq_nil_iff]
    intro l member
    obtain ⟨R, there, placed⟩ := List.mem_flatMap.1 member
    have file := FileParse.placedAt_assignmentFile (sourced R (List.mem_append_left _ (among R there))) placed
    simpa [q, file] using others R (among R there)
  have inside : ∀ l ∈ n.toList.flatMap fun R => R.placedAt (definitionsOf (F ++ n.toList ++ B))
      (declaredFields (F ++ n.toList ++ B)) a f, q l = true := by
    intro l member
    obtain ⟨R, there, placed⟩ := List.mem_flatMap.1 member
    have file := FileParse.placedAt_assignmentFile (sourced R (by simp at there ⊢; tauto)) placed
    simpa [q, file] using own R (List.mem_append_right _ there)
  show _ = (List.flatMap _ _).filter q
  rw [List.flatMap_append, List.flatMap_append, List.filter_append, List.filter_append,
    outside F (by simp +contextual), outside B (by simp +contextual), List.filter_eq_self.2 inside,
    List.nil_append, List.append_nil]
  cases new : n with
  | none => rfl
  | some P =>
    have sourced_P := sourced P (by simp [new])
    have path : P.path = filePath := own P (by simp [new])
    have found := atEnd P new
    rw [Option.toList_some, List.flatMap_singleton, List.flatMap_singleton]
    refine FileParse.placedAt_congr found.fields ?_ a f
    intro d deferred x zipped
    rw [found.fields d deferred] at zipped
    have left : ∀ e ∈ (v.remove filePath).definitions x.1 ++ [], e.file ≠ P.path := by
      intro e member
      rw [List.append_nil] at member
      rw [path]
      exact of_decide_eq_true (List.mem_filter.1 member).2
    have scanned : ∀ e ∈ definitionsOf F x.1 ++ definitionsOf B x.1, e.file ≠ P.path := by
      intro e member
      rw [← definitionsOf_append] at member
      obtain ⟨Q, among, file⟩ := file_of_mem_definitionsOf
        (fun R h => sourced R (List.mem_append_left _ h)) member
      rw [file, path]
      exact others Q among
    have same := found.positional _ (mem_positions_of_zip deferred zipped)
    unfold FileParse.finds at same
    rw [deferred_path sourced_P deferred, definitionsOf_append, definitionsOf_append,
      definitionsOf_singleton, resolve_own scanned sourced_P.functions, ← definitionsOf_append, ← same]
    have whole := resolve_own (n := x.1) left sourced_P.functions
    rw [List.append_nil, List.append_nil] at whole
    exact whole

end Merged

section Renewed

variable {v : View} (same : SameDeclarations o.toList n.toList)
  (before : Aside filePath (F ++ o.toList ++ B)) (after : Aside filePath (F ++ n.toList ++ B))
  (old : ∀ P ∈ o, ∀ n ∈ P.assigned (declaredRoots (F ++ [P])),
    (P.finds (definitionsOf F) n).file = filePath)
  (atEnd : ∀ P ∈ n, FoundAtEnd F P B (v.remove filePath))
  (agrees : v.SameRecords (View.empty.build (F ++ o.toList ++ B)))

include others own sourced

/-- Removing the definitions of a file and appending the new ones. -/
theorem renewed_definitions (agrees : v.SameRecords (View.empty.build (F ++ o.toList ++ B))) (m : String) :
    (((v.remove filePath).build n.toList).definitions m).Perm
      (definitionsOf (F ++ n.toList ++ B) m) := by
  have listed := agrees.definitions m
  rw [(build_declares _).2.2, definitionsOf_append, definitionsOf_append] at listed
  have sides : ∀ (p : Bool) (Rs : List FileParse), (∀ R ∈ Rs, R.SourcedFrom R.path) →
      (∀ R ∈ Rs, decide (R.path ≠ filePath) = p) →
        (definitionsOf Rs m).filter (fun d => decide (d.file ≠ filePath)) =
          if p then definitionsOf Rs m else [] := by
    intro p Rs sourced side
    have all : ∀ d ∈ definitionsOf Rs m, decide (d.file ≠ filePath) = p := by
      intro d member
      obtain ⟨Q, among, file⟩ := file_of_mem_definitionsOf sourced member
      rw [file]
      exact side Q among
    cases p with
    | true => exact List.filter_eq_self.2 all
    | false => exact List.filter_eq_nil_iff.2 fun d member => by rw [all d member]; exact Bool.false_ne_true
  have kept := listed.filter fun d => decide (d.file ≠ filePath)
  rw [List.filter_append, List.filter_append,
    sides true F (fun R h => sourced R (by simp [h])) (fun R h => decide_eq_true (others R (by simp [h]))),
    sides false o.toList (fun R h => sourced R (by simp at h ⊢; tauto))
      (fun R h => decide_eq_false (not_not.2 (own R (List.mem_append_left _ h)))),
    sides true B (fun R h => sourced R (by simp [h])) (fun R h => decide_eq_true (others R (by simp [h])))]
    at kept
  unfold View.build
  rw [(View.foldl_resolve_keeps _ _).1, View.foldl_merge_definitions, definitionsOf_append,
    definitionsOf_append]
  refine (kept.append_right _).trans ?_
  simp only [if_true, Bool.false_eq_true, if_false, List.append_nil, List.append_assoc]
  exact List.perm_append_comm.append_left _

include same before after old atEnd agrees

/-- What one edit leaves of the records of a scan, when it is isolated. -/
theorem renewed_sameRecords
    (leads : ∀ a f, FirstOfKey.LeadsKept ConcreteLocation.site
      (fun k => decide (k.2.1 = filePath)) (fun l => decide (l.assignmentFile = some filePath))
      (directs (F ++ o.toList ++ B) a f) (placed (F ++ o.toList ++ B) a f)
      (directs (F ++ n.toList ++ B) a f) (placed (F ++ n.toList ++ B) a f)) :
    ((v.remove filePath).build n.toList).SameRecords (View.empty.build (F ++ n.toList ++ B)) where
  vtables a f := by
    have start := agrees.vtables a f
    rw [build_vtable] at start ⊢
    have placed_there := merged_placed others own sourced atEnd a f
    unfold FileParse.placedAt at placed_there
    rw [vtable_build_from, placed_there, merged_directs sourced atEnd]
    exact (leads a f).perm start
      (listed_renewed (local_directsAt a f) others own sourced same before after old)
  handlers t := by
    have start := agrees.handlers t
    rw [build_handlers] at start ⊢
    unfold View.build
    rw [(View.foldl_resolve_keeps _ _).2.2.2, merged_handlers sourced atEnd]
    exact ((start.filter _).append_right _).trans
      (listed_renewed (local_handlersAt t) others own sourced same before after old).symm
  definitions m := by
    rw [(build_declares (F ++ n.toList ++ B)).2.2]
    exact renewed_definitions others own sourced agrees m

end Renewed

end Step

theorem sourced_parses {parser : Parser} (W : Workspace) : ∀ R ∈ W.parses parser, R.SourcedFrom R.path := by
  intro R member
  obtain ⟨x, -, rfl⟩ := List.mem_map.1 member
  have sourced := parser.sourced x.1 x.2
  have path : (parser.parseFileWithDefs x.1 x.2).path = x.1 := sourced.path
  rwa [path]

/-- A file is created, changed or deleted; the scan lists the others as before. -/
structure Edit where
  front : Workspace
  back : Workspace
  filePath : String
  old : Option String
  new : Option String
  other : ∀ x ∈ front ++ back, x.1 ≠ filePath

namespace Edit

/-- The workspace with the given text of the file. -/
def workspace (e : Edit) (text : Option String) : Workspace :=
  e.front ++ text.toList.map (Prod.mk e.filePath) ++ e.back

def before (e : Edit) : Workspace := e.workspace e.old

def after (e : Edit) : Workspace := e.workspace e.new

/-- What the file watcher calls. -/
def follow (parser : Parser) (hashText : String → String) (e : Edit) (s : WorkspaceIndexer) :
    WorkspaceIndexer :=
  match e.new with
  | some _ => reindexFile parser hashText e.after.disk e.filePath s
  | none => removeFile e.filePath s

/-- The parse of the file with the given text. -/
def parse (parser : Parser) (e : Edit) (text : Option String) : Option FileParse :=
  text.map (parser.parseFileWithDefs e.filePath)

/-- The declarations of the file stay. -/
def KeepsDeclarations (parser : Parser) (e : Edit) : Prop :=
  SameDeclarations (e.parse parser e.old).toList (e.parse parser e.new).toList

/-- The edit of a workspace whose index is `v` is isolated. No other file finds a function that
it assigns directly in the edited one, before or after the edit, and the old text finds what
it assigns directly in its own file. The new text finds at the end what it finds at its
place. And of the positional assignments that lead their sites, those with a site outside
the edited file stay, and none come but those of the edited file. -/
structure Isolated (parser : Parser) (e : Edit) (v : View) : Prop where
  before : Aside e.filePath (e.before.parses parser)
  after : Aside e.filePath (e.after.parses parser)
  old : ∀ P ∈ e.parse parser e.old, ∀ n ∈ P.assigned (declaredRoots (e.front.parses parser ++ [P])),
    (P.finds (definitionsOf (e.front.parses parser)) n).file = e.filePath
  new : ∀ P ∈ e.parse parser e.new,
    FoundAtEnd (e.front.parses parser) P (e.back.parses parser) (v.remove e.filePath)
  stay : ∀ a f l, l.file ≠ e.filePath → Leading (e.before.parses parser) a f l →
    Leading (e.after.parses parser) a f l
  come : ∀ a f l, Leading (e.after.parses parser) a f l → l.assignmentFile ≠ some e.filePath →
    l.file ≠ e.filePath ∧ Leading (e.before.parses parser) a f l

theorem workspace_parses (parser : Parser) (e : Edit) (text : Option String) :
    (e.workspace text).parses parser =
      e.front.parses parser ++ (e.parse parser text).toList ++ e.back.parses parser := by
  unfold workspace Workspace.parses parse
  rw [List.map_append, List.map_append, List.map_map]
  cases text <;> rfl

section Paths

variable (parser : Parser) (e : Edit)

theorem others_path : ∀ R ∈ e.front.parses parser ++ e.back.parses parser, R.path ≠ e.filePath := by
  intro R member
  unfold Workspace.parses at member
  rw [← List.map_append] at member
  obtain ⟨x, there, rfl⟩ := List.mem_map.1 member
  have path : (parser.parseFileWithDefs x.1 x.2).path = x.1 := (parser.sourced x.1 x.2).path
  rw [path]
  exact e.other x there

theorem parse_sourced {text : Option String} {P : FileParse} (member : P ∈ (e.parse parser text).toList) :
    P.path = e.filePath ∧ P.SourcedFrom P.path := by
  obtain ⟨text, -, rfl⟩ := Option.map_eq_some_iff.1 (Option.mem_toList.1 member)
  have sourced := parser.sourced e.filePath text
  refine ⟨sourced.path, ?_⟩
  unfold FileParse.path
  rwa [sourced.path]

theorem own_path : ∀ R ∈ (e.parse parser e.old).toList ++ (e.parse parser e.new).toList,
    R.path = e.filePath := by
  intro R member
  rcases List.mem_append.1 member with old | new
  · exact (e.parse_sourced parser old).1
  · exact (e.parse_sourced parser new).1

theorem sourced : ∀ R ∈ e.front.parses parser ++ e.back.parses parser ++
    ((e.parse parser e.old).toList ++ (e.parse parser e.new).toList), R.SourcedFrom R.path := by
  intro R member
  rcases List.mem_append.1 member with h | h
  · rcases List.mem_append.1 h with h | h
    · exact sourced_parses _ R h
    · exact sourced_parses _ R h
  · rcases List.mem_append.1 h with old | new
    · exact (e.parse_sourced parser old).2
    · exact (e.parse_sourced parser new).2

end Paths

theorem distinct_after {e : Edit} (distinct : e.before.files.Nodup) : e.after.files.Nodup := by
  have others : (e.front ++ e.back).files.Nodup := by
    refine distinct.sublist ?_
    unfold before workspace Workspace.files
    rw [List.append_assoc]
    exact ((List.sublist_append_right _ _).append_left _).map _
  unfold after workspace
  cases e.new with
  | none => simpa using others
  | some text =>
    have moved : (e.front ++ [(e.filePath, text)] ++ e.back).Perm
        ((e.filePath, text) :: (e.front ++ e.back)) := by
      rw [List.append_assoc]
      exact List.perm_middle
    refine ((moved.map Prod.fst).nodup_iff).2 (List.nodup_cons.2 ⟨fun h => ?_, others⟩)
    obtain ⟨x, member, same⟩ := List.mem_map.1 h
    exact e.other x member same

end Edit

/-- The workspaces and indexers reached by edits: a scan by a new indexer, then each edit
followed by what the watcher calls for it. -/
inductive Edited (parser : Parser) (hashText : String → String) (ok : Edit → WorkspaceIndexer → Prop) :
    Workspace → WorkspaceIndexer → Prop
  | scanned (W : Workspace) (distinct : W.files.Nodup) :
      Edited parser hashText ok W (fullIndex parser hashText W.disk W.files .fresh)
  | edited {W : Workspace} {s : WorkspaceIndexer} (e : Edit) (current : e.before = W)
      (run : Edited parser hashText ok W s) (here : ok e s) :
      Edited parser hashText ok e.after (e.follow parser hashText s)

section Runs

variable {parser : Parser} {hashText : String → String}

theorem Edited.distinct {ok : Edit → WorkspaceIndexer → Prop} {W : Workspace} {s : WorkspaceIndexer}
    (run : Edited parser hashText ok W s) : W.files.Nodup := by
  induction run with
  | scanned W distinct => exact distinct
  | edited e current run here ih => exact Edit.distinct_after (current ▸ ih)

theorem view_scan {W : Workspace} (distinct : W.files.Nodup) :
    view (fullIndex parser hashText W.disk W.files .fresh).index =
      View.empty.build (W.parses parser) := by
  rw [view_fullIndex, W.parses_disk parser distinct]
  rfl

/-- What the watcher calls removes the records of the file and builds those of its new text. -/
theorem view_follow {e : Edit} (distinct : e.after.files.Nodup) (s : WorkspaceIndexer) :
    view (e.follow parser hashText s).index =
      ((view s.index).remove e.filePath).build (e.parse parser e.new).toList := by
  unfold Edit.follow Edit.parse
  cases new : e.new with
  | none => exact view_removeFileRecords s.index e.filePath
  | some text =>
    have read : e.after.disk e.filePath = some text := by
      apply Workspace.disk_of_mem distinct (x := (e.filePath, text))
      unfold Edit.after Edit.workspace
      rw [new]
      simp
    have parsed : parser.parses e.after.disk [e.filePath] =
        [parser.parseFileWithDefs e.filePath text] := by
      unfold Parser.parses
      rw [List.filterMap_cons, read]
      rfl
    show view (reindexFile parser hashText e.after.disk e.filePath s).index = _
    rw [view_reindexFile, parsed]
    rfl

/-- What one edit does to an index with the records of a scan. -/
theorem sameRecords_follow {e : Edit} (distinct : e.after.files.Nodup) (same : e.KeepsDeclarations parser)
    {s : WorkspaceIndexer} (isolated : e.Isolated parser (view s.index))
    (agrees : (view s.index).SameRecords (View.empty.build (e.before.parses parser))) :
    (view (e.follow parser hashText s).index).SameRecords
      (View.empty.build (e.after.parses parser)) := by
  obtain ⟨before, after, old, new, stay, come⟩ := isolated
  unfold Edit.before at before agrees stay come
  unfold Edit.after at after stay come ⊢
  rw [e.workspace_parses] at before after agrees ⊢
  rw [view_follow distinct]
  refine renewed_sameRecords (e.others_path parser) (e.own_path parser) (e.sourced parser) same before
    after old new agrees fun a f => ?_
  rw [← e.workspace_parses, ← e.workspace_parses]
  constructor
  · intro l outside leading
    exact stay a f l (of_decide_eq_false outside) leading
  · intro l leading other
    obtain ⟨outside, there⟩ := come a f l leading (of_decide_eq_false other)
    exact ⟨decide_eq_false outside, there⟩

/-- In every run of edits that keep the declarations and are isolated, the index has the
records of a scan of the final files. -/
theorem incremental_equals_batch {W : Workspace} {s : WorkspaceIndexer}
    (run : Edited parser hashText
      (fun e s => e.KeepsDeclarations parser ∧ e.Isolated parser (view s.index)) W s) :
    (view s.index).SameRecords (view (fullIndex parser hashText W.disk W.files .fresh).index) := by
  have agrees : (view s.index).SameRecords (View.empty.build (W.parses parser)) := by
    induction run with
    | scanned W distinct =>
      rw [view_scan distinct]
      exact ⟨fun _ _ => .refl _, fun _ => .refl _, fun _ => .refl _⟩
    | edited e current run here ih =>
      subst current
      exact sameRecords_follow (Edit.distinct_after run.distinct) here.1 here.2 ih
  rw [view_scan run.distinct]
  exact agrees

end Runs

/-- The two files of the workspace in which `Log` is assigned and defined. -/
def logWorkspace : Workspace :=
  [("/w/init.c", "const LOG_API_T gtLogApi = { .Log = Log };"), ("/w/log.c", "void Log(void) {}")]

/-- The file with the vtable is saved again. -/
def saveInit : Edit where
  front := []
  back := [("/w/log.c", "void Log(void) {}")]
  filePath := "/w/init.c"
  old := some "const LOG_API_T gtLogApi = { .Log = Log };"
  new := some "const LOG_API_T gtLogApi = { .Log = Log };"
  other := by decide

theorem saveInit_keeps : saveInit.KeepsDeclarations logParser :=
  ⟨fun _ => Iff.rfl, fun _ => Iff.rfl, fun _ => Iff.rfl, rfl⟩

/-- The scan lists `Log` where it is assigned, and saving that file again lists it where it
is defined. -/
theorem save_moves_record :
    ¬ ∀ (W : Workspace) (s : WorkspaceIndexer),
      Edited logParser id (fun e _ => e.KeepsDeclarations logParser) W s →
        (view s.index).SameRecords (view (fullIndex logParser id W.disk W.files .fresh).index) := by
  intro all
  have run : Edited logParser id (fun e _ => e.KeepsDeclarations logParser) saveInit.after
      (saveInit.follow logParser id
        (fullIndex logParser id logWorkspace.disk logWorkspace.files .fresh)) :=
    .edited saveInit rfl (.scanned logWorkspace (by decide)) saveInit_keeps
  have same := (all _ _ run).vtables "LOG_API_T" "Log"
  revert same
  decide

section Decidable

theorem aside_iff {filePath : String} {Rs : List FileParse} :
    Aside filePath Rs ↔ ∀ x ∈ Prefixed.all Rs, x.2.path ≠ filePath →
      ∀ n ∈ x.2.assigned (declaredRoots (x.1 ++ [x.2])), (x.2.finds (definitionsOf x.1) n).file ≠ filePath := by
  constructor
  · intro aside x member
    obtain ⟨after, split⟩ := Prefixed.mem_all.1 (show (x.1, x.2) ∈ Prefixed.all Rs from member)
    exact aside x.1 x.2 after split
  · intro all before R after split
    exact all (before, R) (Prefixed.mem_all.2 ⟨after, split⟩)

instance (filePath : String) (Rs : List FileParse) : Decidable (Aside filePath Rs) :=
  decidable_of_iff _ aside_iff.symm

instance (Rs : List FileParse) (a f : String) (l : ConcreteLocation) : Decidable (Leading Rs a f l) :=
  decidable_of_iff ((placed Rs a f).find? (fun y => decide (y.site = l.site)) = some l ∧
      ∀ y ∈ directs Rs a f, y.site ≠ l.site)
    ⟨fun h => ⟨h.1, h.2⟩, fun h => ⟨h.first, h.unseen⟩⟩

/-- What leads a site is assigned by position to one of the fields. -/
theorem Leading.positioned {Rs : List FileParse} {a f : String} {l : ConcreteLocation}
    (leading : Leading Rs a f l) :
    (a, f, l.functionName) ∈ Rs.flatMap (FileParse.positions (declaredFields Rs)) ∧ l ∈ placed Rs a f := by
  have member := List.mem_of_find?_eq_some leading.first
  refine ⟨?_, member⟩
  obtain ⟨R, among, there⟩ := List.mem_flatMap.1 member
  obtain ⟨d, deferred, at_field⟩ := List.mem_flatMap.1 there
  obtain ⟨rfl, -, zipped⟩ := mem_placementsAt at_field
  exact List.mem_flatMap.2 ⟨R, among, mem_positions_of_zip deferred zipped⟩

end Decidable

/-- The parse of a file that fills a vtable of two fields by position, and assigns a failure
handler through a parameter of a module root type. -/
def FileParse.appModule (filePath : String) : FileParse where
  parsed := { ParsedFile.blank filePath with
    moduleRoots := [⟨"APP_T", "APP_API_T"⟩]
    apiStructDefinitions := [⟨"APP_API_T", ["Run", "Trace"]⟩]
    pendingPositionalVtables := [⟨"APP_API_T", ["Run", "Log"], filePath, [4, 4], some "gtAppApi"⟩]
    failureHandlerAssigns := [⟨"", "OnFail", filePath, 6⟩]
    localTypeInfo := ⟨.empty, OrderedMap.empty.set "AppInit" [⟨"ptApp", "APP_T", true, false, false⟩]⟩ }
  functionDefs := [⟨"Run", filePath, 2, true, some "Run(...)"⟩, ⟨"OnFail", filePath, 3, true, some "OnFail(...)"⟩,
    ⟨"AppInit", filePath, 5, false, some "AppInit(...)"⟩]
  apiMemberRegistry := .empty

/-- The parses of a module, of the function that it traces with, and of a vtable with that
function. -/
def appParser : Parser where
  parseFileWithDefs filePath _ :=
    if filePath = "/w/app.c" then .appModule filePath
    else if filePath = "/w/init.c" then .logVtable filePath
    else .voidFunction "Log" filePath
  sourced filePath _ := by
    split
    · constructor <;> simp [FileParse.appModule, ParsedFile.blank]
    · split <;> constructor <;> simp [FileParse.logVtable, FileParse.voidFunction, ParsedFile.blank]

/-- The text of the module, with the given body of `Run`. -/
def appText (run : String) : String :=
  "struct APP_API_TAG \x7b void (*Run)(void); void (*Trace)(void); \x7d; struct APP_TAG JUNO_MODULE_ROOT(APP_API_T, );\n" ++
    "static void Run(void) \x7b" ++ run ++ "\x7d\n" ++
    "static void OnFail(void) \x7b\x7d\nstatic const APP_API_T gtAppApi = \x7b Run, Log \x7d;\n" ++
    "void AppInit(APP_T *ptApp) \x7b\n  ptApp->_pfcnFailureHandler = OnFail;\n\x7d"

/-- A file is added that assigns a function which is defined before it. -/
def createInit : Edit where
  front := [("/w/log.c", "void Log(void) {}"), ("/w/app.c", appText "")]
  back := []
  filePath := "/w/init.c"
  old := none
  new := some "const LOG_API_T gtLogApi = { .Log = Log };"
  other := by decide

/-- Then the module is saved with another body of `Run`. -/
def saveApp : Edit where
  front := [("/w/log.c", "void Log(void) {}")]
  back := [("/w/init.c", "const LOG_API_T gtLogApi = { .Log = Log };")]
  filePath := "/w/app.c"
  old := some (appText "")
  new := some (appText " Log(); ")
  other := by decide

/-- For edits of known files the leading assignments can be compared one by one. -/
theorem Edit.leading_of_positions {parser : Parser} {e : Edit}
    (stay : ∀ x ∈ (e.before.parses parser).flatMap
        (FileParse.positions (declaredFields (e.before.parses parser))),
      ∀ l ∈ placed (e.before.parses parser) x.1 x.2.1, l.file ≠ e.filePath →
        Leading (e.before.parses parser) x.1 x.2.1 l → Leading (e.after.parses parser) x.1 x.2.1 l)
    (come : ∀ x ∈ (e.after.parses parser).flatMap
        (FileParse.positions (declaredFields (e.after.parses parser))),
      ∀ l ∈ placed (e.after.parses parser) x.1 x.2.1, Leading (e.after.parses parser) x.1 x.2.1 l →
        l.assignmentFile ≠ some e.filePath →
          l.file ≠ e.filePath ∧ Leading (e.before.parses parser) x.1 x.2.1 l) :
    (∀ a f l, l.file ≠ e.filePath → Leading (e.before.parses parser) a f l →
        Leading (e.after.parses parser) a f l) ∧
      ∀ a f l, Leading (e.after.parses parser) a f l → l.assignmentFile ≠ some e.filePath →
        l.file ≠ e.filePath ∧ Leading (e.before.parses parser) a f l :=
  ⟨fun _ _ l outside leading => stay _ leading.positioned.1 l leading.positioned.2 outside leading,
    fun _ _ l leading other => come _ leading.positioned.1 l leading.positioned.2 leading other⟩

set_option maxRecDepth 2000 in
theorem createInit_isolated : createInit.Isolated appParser
    (view (fullIndex appParser id createInit.before.disk createInit.before.files .fresh).index) := by
  obtain ⟨stay, come⟩ := @Edit.leading_of_positions appParser createInit (by decide) (by decide)
  refine ⟨by decide, by decide, nofun, ?_, stay, come⟩
  intro P new
  cases (show some (appParser.parseFileWithDefs "/w/init.c" _) = some P from new)
  constructor <;> decide

set_option maxRecDepth 2000 in
theorem saveApp_isolated : saveApp.Isolated appParser
    (view (createInit.follow appParser id
      (fullIndex appParser id createInit.before.disk createInit.before.files .fresh)).index) := by
  obtain ⟨stay, come⟩ := @Edit.leading_of_positions appParser saveApp (by decide) (by decide)
  refine ⟨by decide, by decide, ?_, ?_, stay, come⟩
  · intro P old
    cases (show some (appParser.parseFileWithDefs "/w/app.c" _) = some P from old)
    decide
  · intro P new
    cases (show some (appParser.parseFileWithDefs "/w/app.c" _) = some P from new)
    constructor <;> decide

theorem incremental_equals_batch_app :
    (view (saveApp.follow appParser id (createInit.follow appParser id
        (fullIndex appParser id createInit.before.disk createInit.before.files .fresh))).index).SameRecords
      (view (fullIndex appParser id saveApp.after.disk saveApp.after.files .fresh).index) :=
  incremental_equals_batch (.edited saveApp rfl
    (.edited createInit rfl (.scanned createInit.before (by decide))
      ⟨⟨fun _ => Iff.rfl, fun _ => Iff.rfl, fun _ => Iff.rfl, rfl⟩, createInit_isolated⟩)
    ⟨⟨fun _ => Iff.rfl, fun _ => Iff.rfl, fun _ => Iff.rfl, rfl⟩, saveApp_isolated⟩)

end LibJuno.Indexer
