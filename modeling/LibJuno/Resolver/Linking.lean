import LibJuno.Indexer.Lookup
import LibJuno.Resolver.VtableResolver

/-!
# From the files to the functions that a call leads to

The indexer and the resolver together, as a linker of calls by name. `Call.LinksTo` says in
terms of the parsed files alone which functions a call leads to; `scan_links` says that the
resolver answers a call with these on the index of a scan, and that each location in its
answer is a definition of the function or the place that assigns it.
-/

namespace LibJuno.Resolver

open Indexer

section Links

variable (Ps : List FileParse)

/-- One of the files assigns the function to the field of the API type, by designation or by
position. -/
def Assigns (apiType field n : String) : Prop :=
  (∃ P ∈ Ps, ∃ r ∈ P.parsed.vtableAssignments,
    r.apiType = apiType ∧ r.field = field ∧ r.functionName = n) ∨
  ∃ P ∈ Ps, (apiType, field, n) ∈ P.positions (declaredFields Ps)

/-- The maps of an index that hold declarations, without its records. -/
def tables (index : NavigationIndex) : NavigationIndex :=
  { createEmptyIndex with
    moduleRoots := index.moduleRoots
    traitRoots := index.traitRoots
    derivationChain := index.derivationChain
    apiStructFields := index.apiStructFields
    apiMemberRegistry := index.apiMemberRegistry
    localTypeInfo := index.localTypeInfo }

/-- The declarations of a file, over those that are there. -/
def enter (index : NavigationIndex) (P : FileParse) : NavigationIndex :=
  { index.declare P.parsed with
    apiMemberRegistry :=
      P.apiMemberRegistry.entries.foldl (fun m e => m.set e.1 e.2) index.apiMemberRegistry
    localTypeInfo := index.localTypeInfo.set P.parsed.filePath P.parsed.localTypeInfo }

/-- The declarations of the files. -/
def declaredTables : NavigationIndex := Ps.foldl enter createEmptyIndex

/-- Where a call may lead: to what is assigned for the first of its API types that has the
field assigned, else, on a chain, to what is assigned for any type that declares the field. -/
def Call.LinksTo (file : String) (enclosingFunc : Option String) (c : Call) (n : String) : Prop :=
  (∃ before a after, c.apiTypes (declaredTables Ps) file enclosingFunc = before ++ a :: after ∧
    (∀ b ∈ before, ∀ m, ¬Assigns Ps b c.field m) ∧ Assigns Ps a c.field n) ∨
  (∀ a ∈ c.apiTypes (declaredTables Ps) file enclosingFunc, ∀ m, ¬Assigns Ps a c.field m) ∧
    (∃ primary lastMember field, c = .ofChain primary lastMember field) ∧
    ∃ a fields, declaredFields Ps a = some fields ∧ c.field ∈ fields ∧ Assigns Ps a c.field n

/-- The location is a definition of its function, or the place that assigns it. -/
def Grounded (l : ConcreteLocation) : Prop :=
  (∃ d ∈ definitionsOf Ps l.functionName, l.file = d.file ∧ l.line = d.line) ∨
    l.assignmentFile = some l.file ∧ l.assignmentLine = some l.line

end Links

section Tables

theorem apiTypes_tables (index : NavigationIndex) (file : String) (enclosingFunc : Option String)
    (c : Call) : c.apiTypes (tables index) file enclosingFunc = c.apiTypes index file enclosingFunc := by
  cases c <;> rfl

theorem tables_mergeInto {P : FileParse} (calls : P.parsed.initCallSites = []) (index : NavigationIndex)
    (deferred : List DeferredPositional) :
    tables (index.mergeInto P deferred).1 = enter (tables index) P := by
  unfold NavigationIndex.mergeInto
  dsimp only
  rw [calls, List.foldl_nil, foldl_appendVtable, foldl_appendHandler]
  rfl

theorem tables_resolvePositional (index : NavigationIndex) (d : DeferredPositional) :
    tables (index.resolvePositional d) = tables index := by
  unfold NavigationIndex.resolvePositional
  cases index.apiStructFields.get d.apiType with
  | none => rfl
  | some fields =>
    dsimp only
    generalize placements _ _ _ = xs
    suffices ∀ i : NavigationIndex, tables i = tables index →
        tables (xs.foldl (NavigationIndex.place d.apiType) i) = tables index by
      apply this
      rfl
    induction xs with
    | nil => exact fun _ same => same
    | cons x xs ih =>
      intro i same
      apply ih
      unfold NavigationIndex.place
      split
      · exact same
      · exact same

theorem tables_finishIndexing (disk : Disk) (s : WorkspaceIndexer) (deferred : List DeferredPositional) :
    tables (finishIndexing disk s deferred).index = tables s.index := by
  have rooted : ∀ index : NavigationIndex,
      tables (resolveCompositionRoots disk s.fileHashes.keys index) = tables index := by
    intro index
    unfold resolveCompositionRoots
    dsimp only
    split <;> rfl
  have resolved : ∀ index : NavigationIndex, tables (index.resolveDeferred deferred) = tables index := by
    induction deferred with
    | nil => exact fun _ => rfl
    | cons d ds ih => exact fun index => (ih _).trans (tables_resolvePositional index d)
  exact (rooted _).trans (resolved s.index)

variable (parser : Parser) (hashText : String → String) (disk : Disk)

theorem tables_indexFiles (files : List String) (s : WorkspaceIndexer) (deferred : List DeferredPositional) :
    tables (files.foldl (fun acc filePath => indexFile parser hashText disk filePath acc.1 acc.2)
      (s, deferred)).1.index = (parser.parses disk files).foldl enter (tables s.index) := by
  induction files generalizing s deferred with
  | nil => rfl
  | cons filePath files ih =>
    rw [List.foldl_cons, ih]
    cases read : disk filePath with
    | none =>
      rw [indexFile_none parser hashText disk read]
      simp [Parser.parses, read]
    | some text =>
      have parses : parser.parses disk (filePath :: files) =
          parser.parseFileWithDefs filePath text :: parser.parses disk files := by
        simp [Parser.parses, read]
      rw [parses, List.foldl_cons, ← tables_mergeInto (parser.sourced filePath text).calls s.index deferred]
      unfold indexFile
      rw [read]

/-- A scan leaves the declarations of the files. -/
theorem tables_fullIndex (files : List String) :
    tables (fullIndex parser hashText disk files .fresh).index =
      declaredTables (parser.parses disk files) := by
  unfold fullIndex indexFiles
  dsimp only
  rw [tables_finishIndexing, tables_indexFiles]
  rfl

end Tables

section Records

variable {Ps : List FileParse}

/-- What the search for a definition finds, in the parse, in the index, or nowhere. -/
theorem resolveDefinitionLocation_cases (functionName file : String)
    (functionDefs indexDefs : List FunctionDefinitionRecord) :
    (∃ d ∈ functionDefs, d.functionName = functionName ∧
      resolveDefinitionLocation functionName file functionDefs indexDefs = ⟨d.file, d.line⟩) ∨
    (∃ d ∈ indexDefs,
      resolveDefinitionLocation functionName file functionDefs indexDefs = ⟨d.file, d.line⟩) ∨
    resolveDefinitionLocation functionName file functionDefs indexDefs = ⟨file, 0⟩ := by
  unfold resolveDefinitionLocation
  cases here : functionDefs.find? fun d => decide (d.functionName = functionName ∧ d.file = file) with
  | some d =>
    have same := List.find?_some here
    rw [decide_eq_true_iff] at same
    exact .inl ⟨d, List.mem_of_find?_eq_some here, same.1, rfl⟩
  | none =>
    dsimp only
    cases there : indexDefs.find? fun d => decide (d.file = file) with
    | some d => exact .inr (.inl ⟨d, List.mem_of_find?_eq_some there, rfl⟩)
    | none =>
      cases indexDefs with
      | nil => exact .inr (.inr rfl)
      | cons first rest => exact .inr (.inl ⟨first, List.mem_cons_self, rfl⟩)

/-- A location with a definition that was found, or else at its assignment, is grounded. -/
theorem grounded_of_search (functionDefs indexDefs : List FunctionDefinitionRecord)
    {l : ConcreteLocation} {file : String} {line : Nat}
    (parsed : ∀ d ∈ functionDefs, d.functionName = l.functionName → d ∈ definitionsOf Ps l.functionName)
    (listed : ∀ d ∈ indexDefs, d ∈ definitionsOf Ps l.functionName)
    (assigned : l.assignmentFile = some file ∧ l.assignmentLine = some line)
    (found : (⟨l.file, l.line⟩ : DefinitionSite) =
      (resolveDefinitionLocation l.functionName file functionDefs indexDefs).orAt file line) :
    Grounded Ps l := by
  have at_assignment : (⟨l.file, l.line⟩ : DefinitionSite) = ⟨file, line⟩ → Grounded Ps l := by
    intro same
    obtain ⟨rfl, rfl⟩ := DefinitionSite.mk.inj same
    exact .inr assigned
  have at_definition : ∀ d ∈ definitionsOf Ps l.functionName,
      (⟨l.file, l.line⟩ : DefinitionSite) = (⟨d.file, d.line⟩ : DefinitionSite).orAt file line →
        Grounded Ps l := by
    intro d known same
    unfold DefinitionSite.orAt at same
    split at same
    · obtain ⟨sameFile, sameLine⟩ := DefinitionSite.mk.inj same
      exact .inl ⟨d, known, sameFile, sameLine⟩
    · exact at_assignment same
  rcases resolveDefinitionLocation_cases l.functionName file functionDefs indexDefs with
    ⟨d, member, name, search⟩ | ⟨d, member, search⟩ | search
  · exact at_definition d (parsed d member name) (search ▸ found)
  · exact at_definition d (listed d member) (search ▸ found)
  · rw [search] at found
    exact at_assignment found

end Records

section Builds

variable {Ps : List FileParse} {apiType field : String}

/-- The functions that a build lists under a field are those that the files assign to it. -/
theorem listed_iff_assigns (n : String) :
    (∃ l ∈ (View.empty.build Ps).vtable apiType field, l.functionName = n) ↔
      Assigns Ps apiType field n := by
  rw [vtable_build, FirstOfKey.foldl_add]
  constructor
  · rintro ⟨l, listed, rfl⟩
    rcases List.mem_append.1 listed with direct | placed
    · rcases mem_foldl_merge_vtable.1 direct with none_before | ⟨before, P, after, rfl, r, assigned, a, f, rfl⟩
      · cases none_before
      · exact .inl ⟨P, by simp, r, assigned, a, f, rfl⟩
    · obtain ⟨P, member, at_file⟩ := List.mem_flatMap.1 (FirstOfKey.mem_of_added _ placed)
      obtain ⟨d, there, at_field⟩ := List.mem_flatMap.1 at_file
      obtain ⟨rfl, -, zipped⟩ := mem_placementsAt at_field
      exact .inr ⟨P, member, mem_positions_of_zip there zipped⟩
  · rintro (⟨P, member, r, assigned, rfl, rfl, rfl⟩ | ⟨P, member, positioned⟩)
    · obtain ⟨before, after, rfl⟩ := List.append_of_mem member
      have direct := (mem_foldl_merge_vtable (v := .empty)).2
        (.inr ⟨before, P, after, rfl, r, assigned, rfl, rfl, rfl⟩)
      exact ⟨_, List.mem_append_left _ direct, rfl⟩
    · obtain ⟨d, there, zipped⟩ := List.mem_flatMap.1 positioned
      obtain ⟨x, pair, same⟩ := List.mem_map.1 zipped
      obtain ⟨rfl, rfl, rfl⟩ : d.apiType = apiType ∧ x.2 = field ∧ x.1 = n := by simpa using same
      obtain ⟨l, at_field, name⟩ := placementsAt_of_mem (definitionsOf Ps) pair
      have member' : l ∈ Ps.flatMap fun P => P.deferred.flatMap
          (placementsAt (definitionsOf Ps) (declaredFields Ps) d.apiType x.2) :=
        List.mem_flatMap.2 ⟨P, member, List.mem_flatMap.2 ⟨d, there, at_field⟩⟩
      -- the site is listed, by this location or an earlier one
      obtain ⟨l', listed, site⟩ := List.mem_map.1 (FirstOfKey.key_mem_added ConcreteLocation.site
        ((Ps.foldl View.merge .empty).vtable d.apiType x.2) member')
      exact ⟨l', listed, (congrArg Prod.fst site).trans name⟩

/-- What a build lists leads to a definition or to the assignment. -/
theorem grounded_of_listed {l : ConcreteLocation}
    (listed : l ∈ (View.empty.build Ps).vtable apiType field) : Grounded Ps l := by
  rw [vtable_build, FirstOfKey.foldl_add] at listed
  rcases List.mem_append.1 listed with direct | placed
  · rcases mem_foldl_merge_vtable.1 direct with none_before | ⟨before, P, after, rfl, r, -, -, -, rfl⟩
    · cases none_before
    · rw [definitions_foldl_merge]
      refine grounded_of_search P.functionDefs (definitionsOf before r.functionName) ?_ ?_
        ⟨rfl, rfl⟩ rfl
      · intro d member name
        exact List.mem_filter.2 ⟨List.mem_flatMap.2 ⟨P, by simp, member⟩, decide_eq_true name⟩
      · intro d early
        obtain ⟨there, name⟩ := List.mem_filter.1 early
        refine List.mem_filter.2 ⟨?_, name⟩
        rw [List.flatMap_append]
        exact List.mem_append_left _ there
  · obtain ⟨P, -, at_file⟩ := List.mem_flatMap.1 (FirstOfKey.mem_of_added _ placed)
    obtain ⟨d, -, at_field⟩ := List.mem_flatMap.1 at_file
    obtain ⟨-, ⟨i, same⟩, -⟩ := mem_placementsAt at_field
    rw [same]
    exact grounded_of_search [] (definitionsOf Ps l.functionName) nofun (fun _ known => known)
      ⟨rfl, rfl⟩ rfl

end Builds

section Sites

/-- An item of the first list that is not empty, or of the list to use when there is none. -/
theorem mem_first_nonempty {α β : Type*} (f : α → List β) (xs : List α) (ys : List β) (y : β) :
    y ∈ ((xs.map f).find? fun l => !l.isEmpty).getD ys ↔
      (∃ before x after, xs = before ++ x :: after ∧ (∀ b ∈ before, f b = []) ∧ y ∈ f x) ∨
        (∀ x ∈ xs, f x = []) ∧ y ∈ ys := by
  induction xs with
  | nil => simp
  | cons x xs ih =>
    rw [List.map_cons, List.find?_cons]
    cases here : f x with
    | nil =>
      rw [show (!([] : List β).isEmpty) = false from rfl]
      dsimp only
      rw [ih]
      constructor
      · rintro (⟨before, z, after, rfl, early, there⟩ | ⟨never, there⟩)
        · exact .inl ⟨x :: before, z, after, rfl, List.forall_mem_cons.2 ⟨here, early⟩, there⟩
        · exact .inr ⟨List.forall_mem_cons.2 ⟨here, never⟩, there⟩
      · rintro (⟨before, z, after, split, early, there⟩ | ⟨never, there⟩)
        · cases before with
          | nil =>
            obtain ⟨rfl, -⟩ := List.cons.inj split
            rw [here] at there
            cases there
          | cons b before =>
            obtain ⟨rfl, rfl⟩ := List.cons.inj split
            exact .inl ⟨before, z, after, rfl, (List.forall_mem_cons.1 early).2, there⟩
        · exact .inr ⟨(List.forall_mem_cons.1 never).2, there⟩
    | cons z zs =>
      rw [show (!(z :: zs).isEmpty) = true from rfl]
      dsimp only
      rw [Option.getD_some]
      constructor
      · intro there
        exact .inl ⟨[], x, xs, rfl, nofun, here ▸ there⟩
      · rintro (⟨before, w, after, split, early, there⟩ | ⟨never, -⟩)
        · cases before with
          | nil =>
            obtain ⟨rfl, -⟩ := List.cons.inj split
            rwa [here] at there
          | cons b before =>
            obtain ⟨rfl, -⟩ := List.cons.inj split
            exact absurd (early x List.mem_cons_self) (by simp [here])
        · exact absurd (never x List.mem_cons_self) (by simp [here])

end Sites

section BuiltFrom

variable {Ps : List FileParse} {index : NavigationIndex}

/-- An index with the view that the files build and their declarations. -/
structure BuiltFrom (Ps : List FileParse) (index : NavigationIndex) : Prop where
  records : view index = View.empty.build Ps
  declarations : tables index = declaredTables Ps

namespace BuiltFrom

variable (scanned : BuiltFrom Ps index)

include scanned

theorem listed {apiType field n : String} :
    (∃ l ∈ implementations index.vtableAssignments apiType field, l.functionName = n) ↔
      Assigns Ps apiType field n := by
  rw [← listed_iff_assigns, ← scanned.records]
  constructor
  · rintro ⟨l, member, rfl⟩
    exact ⟨l.unstamped, List.mem_map_of_mem member, rfl⟩
  · rintro ⟨l, member, rfl⟩
    obtain ⟨l', there, rfl⟩ := List.mem_map.1 member
    exact ⟨l', there, rfl⟩

theorem grounded {apiType field : String} {l : ConcreteLocation}
    (member : l ∈ implementations index.vtableAssignments apiType field) : Grounded Ps l := by
  have shown : l.unstamped ∈ (View.empty.build Ps).vtable apiType field :=
    scanned.records ▸ List.mem_map_of_mem member
  have known : Grounded Ps l.unstamped := grounded_of_listed shown
  exact known

theorem unassigned {apiType field : String} :
    implementations index.vtableAssignments apiType field = [] ↔ ∀ m, ¬Assigns Ps apiType field m := by
  simp only [← scanned.listed, List.eq_nil_iff_forall_not_mem]
  constructor
  · rintro none_listed m ⟨l, member, -⟩
    exact none_listed l member
  · intro never l member
    exact never l.functionName ⟨l, member, rfl⟩

theorem mem_fieldLocations {field : String} {l : ConcreteLocation} :
    l ∈ fieldLocations index field ↔ ∃ a fields, declaredFields Ps a = some fields ∧ field ∈ fields ∧
      l ∈ implementations index.vtableAssignments a field := by
  have fields : index.apiStructFields.get = declaredFields Ps :=
    (congrArg View.fields scanned.records).trans (build_declares Ps).2.1
  rw [fieldLocations, List.mem_flatMap, ← fields]
  constructor
  · rintro ⟨e, entry, member⟩
    split at member
    · next has => exact ⟨e.1, e.2, OrderedMap.get_of_mem entry, has, member⟩
    · cases member
  · rintro ⟨a, fs, declared, has, member⟩
    refine ⟨(a, fs), OrderedMap.mem_of_get declared, ?_⟩
    rwa [if_pos has]

/-- A call leads to the functions that it links to. -/
theorem sites_iff_linksTo (file : String) (enclosingFunc : Option String) (c : Call) (n : String) :
    (∃ l ∈ c.sites index file enclosingFunc, l.functionName = n) ↔
      c.LinksTo Ps file enclosingFunc n := by
  unfold Call.sites Call.LinksTo
  simp only [mem_first_nonempty]
  rw [← scanned.declarations, apiTypes_tables]
  constructor
  · rintro ⟨l, ⟨before, a, after, types, early, member⟩ | ⟨never, member⟩, rfl⟩
    · refine .inl ⟨before, a, after, types, fun b there => ?_, scanned.listed.1 ⟨l, member, rfl⟩⟩
      exact scanned.unassigned.1 (early b there)
    · cases c with
      | ofRoot rootType field => cases member
      | ofChain primary lastMember field =>
        obtain ⟨a, fields, declared, has, there⟩ := scanned.mem_fieldLocations.1 member
        refine .inr ⟨fun b asked => ?_, ⟨primary, lastMember, field, rfl⟩, a, fields, declared, has, ?_⟩
        · exact scanned.unassigned.1 (never b asked)
        · exact scanned.listed.1 ⟨l, there, rfl⟩
  · rintro (⟨before, a, after, types, early, assigned⟩ |
      ⟨never, ⟨primary, lastMember, field, rfl⟩, a, fields, declared, has, assigned⟩)
    · obtain ⟨l, member, name⟩ := scanned.listed.2 assigned
      refine ⟨l, .inl ⟨before, a, after, types, fun b there => ?_, member⟩, name⟩
      exact scanned.unassigned.2 (early b there)
    · obtain ⟨l, there, name⟩ := scanned.listed.2 assigned
      refine ⟨l, .inr ⟨fun b asked => ?_, ?_⟩, name⟩
      · exact scanned.unassigned.2 (never b asked)
      · exact scanned.mem_fieldLocations.2 ⟨a, fields, declared, has, there⟩

theorem grounded_of_sites {file : String} {enclosingFunc : Option String} {c : Call}
    {l : ConcreteLocation} (member : l ∈ c.sites index file enclosingFunc) : Grounded Ps l := by
  unfold Call.sites at member
  rcases (mem_first_nonempty _ _ _ _).1 member with ⟨before, a, after, -, -, there⟩ | ⟨-, elsewhere⟩
  · exact scanned.grounded there
  · cases c with
    | ofRoot rootType field => cases elsewhere
    | ofChain primary lastMember field =>
      obtain ⟨a, fields, -, -, there⟩ := scanned.mem_fieldLocations.1 elsewhere
      exact scanned.grounded there

end BuiltFrom

variable (parser : Parser) (hashText : String → String) (disk : Disk) (files : List String)

/-- The index of a new indexer after a scan that lists the files. -/
def scannedIndex : NavigationIndex := (fullIndex parser hashText disk files .fresh).index

theorem builtFrom_scannedIndex :
    BuiltFrom (parser.parses disk files) (scannedIndex parser hashText disk files) :=
  ⟨view_fullIndex parser hashText disk files .fresh, tables_fullIndex parser hashText disk files⟩

/-- After a scan the resolver finds a call if and only if the files link it, answers with
the functions that it links to, and leads to a definition or an assignment of each. -/
theorem scan_links (file : String) (line column : Nat) (lineText : CodeUnits)
    (functionName : Option String) :
    let index := scannedIndex parser hashText disk files
    let enclosingFunc := functionName.or (index.findEnclosingFunction file line)
    let Ps := parser.parses disk files
    let result := resolve index file line column lineText functionName
    (∀ n, (∃ l ∈ result.locations, l.functionName = n) ↔
      ∃ c, callAt lineText column = some c ∧ c.LinksTo Ps file enclosingFunc n) ∧
    (result.found = true ↔
      ∃ c n, callAt lineText column = some c ∧ c.LinksTo Ps file enclosingFunc n) ∧
    ∀ l ∈ result.locations, Grounded Ps l := by
  intro index enclosingFunc Ps result
  have scanned : BuiltFrom Ps index := builtFrom_scannedIndex parser hashText disk files
  obtain ⟨found, locations⟩ := resolve_answers index file line column lineText functionName
  rw [found, locations]
  cases callAt lineText column with
  | none => simp
  | some c =>
    rw [Option.map_some, Option.getD_some]
    have links := scanned.sites_iff_linksTo file enclosingFunc c
    refine ⟨fun n => by simpa using links n, ?_, fun l member => scanned.grounded_of_sites member⟩
    have some_site : (!(c.sites index file enclosingFunc).isEmpty) = true ↔
        ∃ l, l ∈ c.sites index file enclosingFunc := by
      rw [Bool.not_eq_true', List.isEmpty_eq_false_iff_exists_mem]
    rw [some_site]
    constructor
    · rintro ⟨l, member⟩
      exact ⟨c, l.functionName, rfl, (links _).1 ⟨l, member, rfl⟩⟩
    · rintro ⟨c', n, same, linked⟩
      obtain rfl := Option.some.inj same
      obtain ⟨l, member, -⟩ := (links n).2 linked
      exact ⟨l, member⟩

/-- Two files: one assigns `Log`, the other has a function with an API pointer `p`. -/
def callParser : Parser where
  parseFileWithDefs filePath _ :=
    if filePath = "/w/init.c" then .logVtable filePath
    else
      { parsed := { ParsedFile.blank filePath with
          localTypeInfo :=
            ⟨.empty, OrderedMap.empty.set "main" [⟨"p", "LOG_API_T", true, false, false⟩]⟩ }
        functionDefs := [⟨"main", filePath, 1, false, some "main(...)"⟩]
        apiMemberRegistry := .empty }
  sourced filePath _ := by
    split <;> constructor <;> simp [FileParse.logVtable, ParsedFile.blank]

/-- The call through `p` in the one file leads to what the other one assigns. -/
theorem scan_links_log :
    ∃ l ∈ (resolve (scannedIndex callParser id (fun _ => some "") ["/w/init.c", "/w/use.c"])
      "/w/use.c" 1 0 (utf16 "p->Log()") (some "main")).locations, l.functionName = "Log" := by
  apply ((scan_links callParser id (fun _ => some "") ["/w/init.c", "/w/use.c"] "/w/use.c" 1 0
    (utf16 "p->Log()") (some "main")).1 "Log").2
  refine ⟨.ofChain "p" none "Log", by decide +kernel, .inl ⟨[], "LOG_API_T", [], by decide +kernel, nofun, ?_⟩⟩
  exact .inl ⟨.logVtable "/w/init.c", List.mem_cons_self, _, List.mem_cons_self, rfl, rfl, rfl⟩

end BuiltFrom

end LibJuno.Resolver
