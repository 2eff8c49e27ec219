import LibJuno.Indexer.View

/-!
# Indexing an unchanged workspace again

The reindex command runs a full pass on the indexer that it has, without removing what the
files contributed before. Declarations are overwritten by themselves, positional vtables
are not listed twice and the stamps come out as they were; but direct assignments, failure
handlers and function definitions are appended once more.
-/

namespace LibJuno.Indexer

/-- The same records, as multisets, under every key. -/
structure NavigationIndex.SameRecords (i j : NavigationIndex) : Prop where
  vtables : ∀ a f, (implementations i.vtableAssignments a f).Perm (implementations j.vtableAssignments a f)
  handlers : ∀ t, (i.failureHandlerAssignments.listAt t).Perm (j.failureHandlerAssignments.listAt t)
  definitions : ∀ n, (i.functionDefinitions.listAt n).Perm (j.functionDefinitions.listAt n)
  initCalls : ∀ n, (i.initCallIndex.listAt n).Perm (j.initCallIndex.listAt n)

/-- The maps that hold records are the same. -/
structure NavigationIndex.SameMaps (i j : NavigationIndex) : Prop where
  vtables : i.vtableAssignments = j.vtableAssignments
  handlers : i.failureHandlerAssignments = j.failureHandlerAssignments
  definitions : i.functionDefinitions = j.functionDefinitions
  initCalls : i.initCallIndex = j.initCallIndex

/-- Merging the file appends nothing, for the given root types. -/
structure FileParse.AppendsNothing (known : String → Bool) (P : FileParse) : Prop where
  definitions : P.functionDefs = []
  vtables : P.parsed.vtableAssignments = []
  handlers : ∀ r ∈ P.parsed.failureHandlerAssigns, P.handlerRoot known r = ""

/-- The root types known once the files are declared. -/
def knownAfter (known : String → Bool) (Ps : List FileParse) (t : String) : Bool :=
  known t || decide (t ∈ Ps.flatMap FileParse.rootTypes)

namespace NavigationIndex

theorem SameMaps.refl (i : NavigationIndex) : SameMaps i i := ⟨rfl, rfl, rfl, rfl⟩

theorem SameMaps.trans {i j k : NavigationIndex} (first : SameMaps i j) (second : SameMaps j k) :
    SameMaps i k :=
  ⟨first.vtables.trans second.vtables, first.handlers.trans second.handlers,
    first.definitions.trans second.definitions, first.initCalls.trans second.initCalls⟩

theorem SameMaps.symm {i j : NavigationIndex} (same : SameMaps i j) : SameMaps j i :=
  ⟨same.vtables.symm, same.handlers.symm, same.definitions.symm, same.initCalls.symm⟩

theorem SameMaps.sameRecords {i j : NavigationIndex} (same : SameMaps i j) : SameRecords i j := by
  constructor
  · intro a f; rw [same.vtables]
  · intro t; rw [same.handlers]
  · intro n; rw [same.definitions]
  · intro n; rw [same.initCalls]

end NavigationIndex

section Merging

theorem foldl_file_none {root : FailureHandlerRecord → String}
    {loc : FailureHandlerRecord → ConcreteLocation} {rs : List FailureHandlerRecord}
    (none : ∀ r ∈ rs, root r = "") (m : OrderedMap String (List ConcreteLocation)) :
    rs.foldl (fun m r => if root r = "" then m else m.push (root r) (loc r)) m = m := by
  induction rs with
  | nil => rfl
  | cons r rs ih =>
    rw [List.foldl_cons, if_pos (none r List.mem_cons_self)]
    exact ih fun r' member => none r' (List.mem_cons_of_mem _ member)

theorem sameMaps_mergeInto {P : FileParse} {filePath : String} (sourced : P.SourcedFrom filePath)
    {index : NavigationIndex} (nothing : P.AppendsNothing (index.declare P.parsed).knownRoots)
    (deferred : List DeferredPositional) : (index.mergeInto P deferred).1.SameMaps index := by
  unfold NavigationIndex.mergeInto
  dsimp only
  rw [sourced.calls, List.foldl_nil, nothing.vtables, List.foldl_nil, foldl_appendHandler,
    nothing.definitions, List.foldl_nil]
  exact ⟨rfl, foldl_file_none nothing.handlers _, rfl, rfl⟩

end Merging

section Positional

namespace NavigationIndex

/-- Resolving the positional vtable again changes nothing: its fields are not known, or each
has its site listed. -/
def Listed (index : NavigationIndex) (d : DeferredPositional) : Prop :=
  ∀ fields, index.apiStructFields.get d.apiType = some fields →
    (index.vtableAssignments.get d.apiType).isSome = true ∧
      ∀ x ∈ placements index.functionDefinitions.listAt fields d,
        (implementations index.vtableAssignments d.apiType x.1).any (·.sameSite x.2) = true

/-- The second index lists everything that the first one does, with the same declarations
and definitions. -/
structure Grows (i j : NavigationIndex) : Prop where
  fields : j.apiStructFields.get = i.apiStructFields.get
  definitions : j.functionDefinitions = i.functionDefinitions
  maps : ∀ a, (i.vtableAssignments.get a).isSome = true → (j.vtableAssignments.get a).isSome = true
  sites : ∀ a f l, l ∈ implementations i.vtableAssignments a f →
    ∃ l' ∈ implementations j.vtableAssignments a f, l'.sameSite = l.sameSite

theorem Grows.refl (i : NavigationIndex) : Grows i i :=
  ⟨rfl, rfl, fun _ h => h, fun _ _ l member => ⟨l, member, rfl⟩⟩

theorem Grows.trans {i j k : NavigationIndex} (first : Grows i j) (second : Grows j k) :
    Grows i k where
  fields := second.fields.trans first.fields
  definitions := second.definitions.trans first.definitions
  maps a h := second.maps a (first.maps a h)
  sites a f l member := by
    obtain ⟨l', member', same⟩ := first.sites a f l member
    obtain ⟨l'', member'', same'⟩ := second.sites a f l' member'
    exact ⟨l'', member'', same'.trans same⟩

theorem Listed.of_grows {i j : NavigationIndex} {d : DeferredPositional} (listed : i.Listed d)
    (grows : Grows i j) : j.Listed d := by
  intro fields known
  rw [grows.fields] at known
  obtain ⟨there, all⟩ := listed fields known
  refine ⟨grows.maps _ there, ?_⟩
  rw [grows.definitions]
  intro x member
  obtain ⟨l, found, same⟩ := List.any_eq_true.1 (all x member)
  obtain ⟨l', found', same'⟩ := grows.sites _ _ l found
  exact List.any_eq_true.2 ⟨l', found', by rw [same']; exact same⟩

theorem place_grows (apiType : String) (index : NavigationIndex) (x : String × ConcreteLocation) :
    Grows index (index.place apiType x) ∧
      (implementations (index.place apiType x).vtableAssignments apiType x.1).any (·.sameSite x.2) =
        true := by
  unfold place
  split
  · next found => exact ⟨Grows.refl index, found⟩
  · refine ⟨⟨rfl, rfl, ?_, ?_⟩, ?_⟩
    · intro a there
      show (OrderedMap.get (OrderedMap.set _ _ _) a).isSome = true
      rw [OrderedMap.get_set]
      split
      · rfl
      · exact there
    · intro a f l member
      refine ⟨l, ?_, rfl⟩
      dsimp only
      rw [implementations_pushImplementation]
      split
      · exact List.mem_append_left _ member
      · exact member
    · dsimp only
      rw [implementations_pushImplementation, if_pos ⟨rfl, rfl⟩]
      simp [ConcreteLocation.sameSite]

theorem foldl_place_grows (apiType : String) (xs : List (String × ConcreteLocation))
    (index : NavigationIndex) :
    Grows index (xs.foldl (place apiType) index) ∧
      ∀ x ∈ xs, (implementations (xs.foldl (place apiType) index).vtableAssignments apiType x.1).any
        (·.sameSite x.2) = true := by
  induction xs generalizing index with
  | nil =>
    exact ⟨Grows.refl index, fun x member => nomatch member⟩
  | cons y ys ih =>
    obtain ⟨first, placed⟩ := place_grows apiType index y
    obtain ⟨rest, all⟩ := ih (index.place apiType y)
    refine ⟨first.trans rest, fun x member => ?_⟩
    rcases List.mem_cons.1 member with rfl | later
    · obtain ⟨l, found, same⟩ := List.any_eq_true.1 placed
      obtain ⟨l', found', same'⟩ := rest.sites _ _ l found
      exact List.any_eq_true.2 ⟨l', found', by rw [same']; exact same⟩
    · exact all x later

/-- The index with a field map for the API type, empty when there was none. -/
def prepare (apiType : String) (index : NavigationIndex) : NavigationIndex :=
  { index with
    vtableAssignments := index.vtableAssignments.set apiType
      ((index.vtableAssignments.get apiType).getD .empty) }

theorem prepare_grows (apiType : String) (index : NavigationIndex) :
    Grows index (index.prepare apiType) := by
  refine ⟨rfl, rfl, ?_, ?_⟩
  · intro a there
    unfold prepare
    dsimp only
    rw [OrderedMap.get_set]
    split
    · rfl
    · exact there
  · intro a f l member
    refine ⟨l, ?_, rfl⟩
    unfold implementations prepare at *
    dsimp only
    rw [OrderedMap.get_set]
    split
    · next same => rw [same] at member; exact member
    · exact member

theorem resolvePositional_grows (index : NavigationIndex) (d : DeferredPositional) :
    Grows index (index.resolvePositional d) ∧ (index.resolvePositional d).Listed d := by
  cases fields : index.apiStructFields.get d.apiType with
  | none =>
    have skipped : index.resolvePositional d = index := by
      unfold resolvePositional
      rw [fields]
    rw [skipped]
    refine ⟨Grows.refl index, ?_⟩
    intro fields' known
    rw [fields] at known
    cases known
  | some fields' =>
    have turn : index.resolvePositional d =
        (placements index.functionDefinitions.listAt fields' d).foldl (place d.apiType)
          (index.prepare d.apiType) := by
      unfold resolvePositional
      rw [fields]
      rfl
    rw [turn]
    obtain ⟨placed, all⟩ := foldl_place_grows d.apiType
      (placements index.functionDefinitions.listAt fields' d) (index.prepare d.apiType)
    refine ⟨(prepare_grows d.apiType index).trans placed, ?_⟩
    intro known same
    rw [placed.fields] at same
    cases fields.symm.trans same
    refine ⟨placed.maps _ ?_, ?_⟩
    · unfold prepare
      rw [OrderedMap.get_set_self]
      rfl
    · rw [placed.definitions]
      exact all

theorem resolveDeferred_grows (deferred : List DeferredPositional) (index : NavigationIndex) :
    Grows index (index.resolveDeferred deferred) ∧
      ∀ d ∈ deferred, (index.resolveDeferred deferred).Listed d := by
  unfold resolveDeferred
  induction deferred generalizing index with
  | nil =>
    exact ⟨Grows.refl index, fun d member => nomatch member⟩
  | cons d ds ih =>
    obtain ⟨first, listed⟩ := resolvePositional_grows index d
    obtain ⟨rest, all⟩ := ih (index.resolvePositional d)
    refine ⟨first.trans rest, fun d' member => ?_⟩
    rcases List.mem_cons.1 member with rfl | later
    · exact listed.of_grows rest
    · exact all d' later

theorem foldl_place_of_listed {apiType : String} {xs : List (String × ConcreteLocation)}
    {index : NavigationIndex}
    (listed : ∀ x ∈ xs, (implementations index.vtableAssignments apiType x.1).any (·.sameSite x.2) = true) :
    xs.foldl (place apiType) index = index := by
  induction xs with
  | nil => rfl
  | cons x xs ih =>
    have kept : index.place apiType x = index := if_pos (listed x List.mem_cons_self)
    rw [List.foldl_cons, kept]
    exact ih fun y member => listed y (List.mem_cons_of_mem _ member)

theorem resolvePositional_of_listed {index : NavigationIndex} {d : DeferredPositional}
    (listed : index.Listed d) : index.resolvePositional d = index := by
  unfold resolvePositional
  cases fields : index.apiStructFields.get d.apiType with
  | none => rfl
  | some fields' =>
    obtain ⟨there, all⟩ := listed fields' fields
    obtain ⟨fieldMap, found⟩ := Option.isSome_iff_exists.1 there
    have prepared : index.vtableAssignments.set d.apiType
        ((index.vtableAssignments.get d.apiType).getD .empty) = index.vtableAssignments := by
      rw [found]
      exact OrderedMap.set_eq_self found
    dsimp only
    rw [prepared]
    exact foldl_place_of_listed all

theorem resolveDeferred_of_listed {deferred : List DeferredPositional} {index : NavigationIndex}
    (listed : ∀ d ∈ deferred, index.Listed d) : index.resolveDeferred deferred = index := by
  unfold resolveDeferred
  induction deferred with
  | nil => rfl
  | cons d ds ih =>
    rw [List.foldl_cons, resolvePositional_of_listed (listed d List.mem_cons_self)]
    exact ih fun d' member => listed d' (List.mem_cons_of_mem _ member)

end NavigationIndex

end Positional

section Stamps

/-- The initialiser call goes by the API variable alone. -/
theorem stampInitCall_eq (sites : OrderedMap String (List CallSite)) :
    ∃ first : Option String → Option CallSite, ∀ l, stampInitCall sites l =
      match first l.apiVarName with
      | none => l
      | some site => { l with initCallFile := some site.file, initCallLine := some site.line } := by
  refine ⟨fun name => (name.filter (· ≠ "")).bind fun varName => (sites.listAt varName).head?,
    fun l => ?_⟩
  unfold stampInitCall
  dsimp only
  cases l.apiVarName.filter (· ≠ "") with
  | none => rfl
  | some varName =>
    dsimp only [Option.bind_some]
    cases sites.listAt varName with
    | nil => rfl
    | cons site rest => rfl

/-- The composition root goes by the initialiser call alone. -/
theorem stampCompRoot_eq (disk : Disk) (files : List String) (index : NavigationIndex) :
    ∃ caller : Option String → Option Nat → Option CallSite, ∀ l,
      stampCompRoot disk files index l =
        match caller l.initCallFile l.initCallLine with
        | none => l
        | some site => { l with compRootFile := some site.file, compRootLine := some site.line } := by
  refine ⟨fun file line => (file.filter (· ≠ "")).bind fun file => (line.filter (· ≠ 0)).bind fun line =>
    ((index.findEnclosingFunction file line).filter (fun name => name ≠ "" ∧ name ≠ "main")).bind
      (findCaller disk files index), fun l => ?_⟩
  unfold stampCompRoot
  dsimp only
  cases l.initCallFile.filter (· ≠ "") with
  | none => rfl
  | some file =>
    cases l.initCallLine.filter (· ≠ 0) with
    | none => rfl
    | some line =>
      dsimp only [Option.bind_some]
      cases (index.findEnclosingFunction file line).filter (fun name => name ≠ "" ∧ name ≠ "main") with
      | none => rfl
      | some initFnName => rfl

/-- What the two stamping passes do to a location. -/
def stampPass (disk : Disk) (files : List String) (index : NavigationIndex) (l : ConcreteLocation) :
    ConcreteLocation :=
  stampCompRoot disk files index
    (if index.apiVarNames = [] then l
      else stampInitCall (addressSites disk index.apiVarNames files) l)

/-- Stamping twice is stamping once. -/
theorem stampPass_again (disk : Disk) (files : List String) (index : NavigationIndex)
    (l : ConcreteLocation) :
    stampPass disk files index (stampPass disk files index l) = stampPass disk files index l := by
  obtain ⟨caller, compRoot⟩ := stampCompRoot_eq disk files index
  obtain ⟨first, initCall⟩ := stampInitCall_eq (addressSites disk index.apiVarNames files)
  unfold stampPass
  by_cases unnamed : index.apiVarNames = []
  · simp only [if_pos unnamed, compRoot]
    cases called : caller l.initCallFile l.initCallLine <;> simp [called]
  · simp only [if_neg unnamed, compRoot, initCall]
    cases site : first l.apiVarName with
    | none => cases called : caller l.initCallFile l.initCallLine <;> simp [site, called]
    | some site' =>
      cases called : caller (some site'.file) (some site'.line) <;> simp [site, called]

theorem stampPass_unstamped (disk : Disk) (files : List String) (index : NavigationIndex)
    (l : ConcreteLocation) : (stampPass disk files index l).unstamped = l.unstamped := by
  unfold stampPass
  rw [stampCompRoot_unstamped]
  split
  · rfl
  · exact stampInitCall_unstamped _ l

namespace NavigationIndex

theorem stampAll_stampAll (f g : ConcreteLocation → ConcreteLocation) (index : NavigationIndex) :
    (index.stampAll f).stampAll g = index.stampAll fun l => g (f l) := by
  unfold stampAll
  dsimp only
  simp only [OrderedMap.mapValues_mapValues, List.map_map]
  rfl

theorem apiVarNames_stampAll {stamp : ConcreteLocation → ConcreteLocation}
    (same : ∀ l, (stamp l).unstamped = l.unstamped) (index : NavigationIndex) :
    (index.stampAll stamp).apiVarNames = index.apiVarNames := by
  have stamped : ((index.stampAll stamp).vtableAssignments.values.map OrderedMap.values).flatten.flatten =
      (index.vtableAssignments.values.map OrderedMap.values).flatten.flatten.map stamp := by
    unfold stampAll
    dsimp only
    simp only [OrderedMap.values_mapValues, List.map_flatten, List.map_map, Function.comp_def]
  have name : ∀ l, (stamp l).apiVarName = l.apiVarName := fun l => by
    have whole := same l
    injection whole
  unfold apiVarNames
  dsimp only
  rw [stamped, List.filterMap_map]
  simp only [Function.comp_def, name]

theorem stampAll_grows {stamp : ConcreteLocation → ConcreteLocation}
    (same : ∀ l, (stamp l).unstamped = l.unstamped) (index : NavigationIndex) :
    Grows index (index.stampAll stamp) := by
  refine ⟨rfl, rfl, ?_, ?_⟩
  · intro a there
    unfold stampAll
    dsimp only
    rw [OrderedMap.get_mapValues]
    simpa using there
  · intro a f l member
    refine ⟨stamp l, ?_, ?_⟩
    · rw [implementations_stampAll]
      exact List.mem_map_of_mem member
    · funext loc
      have site := same l
      injection site with name file line
      unfold ConcreteLocation.sameSite
      rw [name, file, line]

/-- What the stamping passes leave in the record maps. -/
theorem stamping_maps (disk : Disk) (files : List String) (index : NavigationIndex) :
    (resolveInitCallers disk files (resolveCompositionRoots disk files index)).SameMaps
      { index.stampAll (stampPass disk files index) with
        initCallIndex :=
          if index.apiVarNames = [] then index.initCallIndex
          else addressSites disk index.apiVarNames files } := by
  unfold resolveInitCallers resolveCompositionRoots stampPass
  dsimp only
  split
  · exact SameMaps.refl _
  · refine ⟨?_, rfl, rfl, rfl⟩
    -- the second pass reads the definitions only, which the first one leaves
    have both := congrArg vtableAssignments
      (stampAll_stampAll (stampInitCall (addressSites disk index.apiVarNames files))
        (stampCompRoot disk files index) index)
    exact both

/-- Finishing again, on what a first finish left, changes no record. -/
theorem finishIndexing_again (disk : Disk) {s t : WorkspaceIndexer}
    {deferred : List DeferredPositional} (maps : t.index.SameMaps (finishIndexing disk s deferred).index)
    (fields : t.index.apiStructFields.get = s.index.apiStructFields.get)
    (hashes : t.fileHashes = s.fileHashes) :
    (finishIndexing disk t deferred).index.SameMaps (finishIndexing disk s deferred).index := by
  obtain ⟨grown, listed⟩ := resolveDeferred_grows deferred s.index
  unfold finishIndexing at *
  dsimp only at *
  rw [hashes]
  generalize s.index.resolveDeferred deferred = resolved at *
  have first := stamping_maps disk s.fileHashes.keys resolved
  have stamped := maps.trans first
  have kept : t.index.resolveDeferred deferred = t.index := by
    apply resolveDeferred_of_listed
    intro d member
    apply (listed d member).of_grows
    have grows := stampAll_grows (stampPass_unstamped disk s.fileHashes.keys resolved) resolved
    refine ⟨fields.trans grown.fields.symm, stamped.definitions, ?_, ?_⟩
    · rw [stamped.vtables]; exact grows.maps
    · rw [stamped.vtables]; exact grows.sites
  have names : t.index.apiVarNames = resolved.apiVarNames := by
    rw [← apiVarNames_stampAll (stampPass_unstamped disk s.fileHashes.keys resolved) resolved]
    unfold apiVarNames
    rw [stamped.vtables]
  have same : stampPass disk s.fileHashes.keys t.index =
      stampPass disk s.fileHashes.keys resolved := by
    funext l
    unfold stampPass stampCompRoot findCaller findEnclosingFunction
    rw [names, stamped.definitions]
    rfl
  rw [kept]
  refine (stamping_maps disk s.fileHashes.keys t.index).trans (SameMaps.trans ?_ first.symm)
  refine ⟨?_, stamped.handlers, stamped.definitions, ?_⟩
  · have again := congrArg vtableAssignments (stampAll_stampAll
      (stampPass disk s.fileHashes.keys resolved) (stampPass disk s.fileHashes.keys resolved) resolved)
    simp only [stampPass_again] at again
    rw [same, ← again]
    unfold stampAll at stamped ⊢
    dsimp only at stamped ⊢
    rw [stamped.vtables]
  · dsimp only
    rw [names, stamped.initCalls]
    split <;> rfl

end NavigationIndex

end Stamps

section Passes

variable (parser : Parser) (hashText : String → String) (disk : Disk)

/-- What a pass declares. -/
theorem knownRoots_fullIndex (files : List String) (s : WorkspaceIndexer) :
    (fullIndex parser hashText disk files s).index.knownRoots =
      knownAfter s.index.knownRoots (parser.parses disk files) := by
  have built := congrArg View.known (view_fullIndex parser hashText disk files s)
  funext t
  refine (congrFun built t).trans ?_
  unfold View.build
  rw [(View.foldl_resolve_keeps _ _).2.1, View.foldl_merge_known]
  rfl

theorem apiStructFields_indexFiles (files : List String) (s : WorkspaceIndexer) :
    (indexFiles parser hashText disk files s).1.index.apiStructFields.get =
      declareFields ((parser.parses disk files).flatMap fun P => P.parsed.apiStructDefinitions)
        s.index.apiStructFields.get := by
  have merged := congrArg View.fields (view_indexFiles parser hashText disk files s).1
  rw [View.foldl_merge_fields] at merged
  exact merged

theorem apiStructFields_fullIndex (files : List String) (s : WorkspaceIndexer) :
    (fullIndex parser hashText disk files s).index.apiStructFields.get =
      (indexFiles parser hashText disk files s).1.index.apiStructFields.get := by
  have built := congrArg View.fields (view_fullIndex parser hashText disk files s)
  rw [View.build, (View.foldl_resolve_keeps _ _).2.2.1,
    ← (view_indexFiles parser hashText disk files s).1] at built
  exact built

theorem fileHashes_indexFiles (files : List String) (s : WorkspaceIndexer) :
    (indexFiles parser hashText disk files s).1.fileHashes =
      (files.filter fun path => (disk path).isSome).foldl
        (fun m path => m.set path (hashText ((disk path).getD ""))) s.fileHashes := by
  have general : ∀ (s : WorkspaceIndexer) (deferred : List DeferredPositional),
      (files.foldl (fun acc path => indexFile parser hashText disk path acc.1 acc.2)
        (s, deferred)).1.fileHashes =
      (files.filter fun path => (disk path).isSome).foldl
        (fun m path => m.set path (hashText ((disk path).getD ""))) s.fileHashes := by
    induction files with
    | nil => exact fun _ _ => rfl
    | cons path files ih =>
      intro s deferred
      rw [List.foldl_cons, ih]
      unfold indexFile
      cases read : disk path <;> simp [read]
  exact general s []

/-- A pass over files that append nothing and are declared already. -/
theorem sameMaps_indexFiles (files : List String) (s : WorkspaceIndexer)
    (declared : ∀ P ∈ parser.parses disk files, ∀ t ∈ P.rootTypes, s.index.knownRoots t = true)
    (nothing : ∀ P ∈ parser.parses disk files, P.AppendsNothing s.index.knownRoots) :
    (indexFiles parser hashText disk files s).1.index.SameMaps s.index := by
  have general : ∀ (t : WorkspaceIndexer) (deferred : List DeferredPositional),
      t.index.knownRoots = s.index.knownRoots →
      (files.foldl (fun acc path => indexFile parser hashText disk path acc.1 acc.2)
        (t, deferred)).1.index.SameMaps t.index := by
    induction files with
    | nil => exact fun t _ _ => NavigationIndex.SameMaps.refl t.index
    | cons path files ih =>
      intro t deferred known
      rw [List.foldl_cons]
      cases read : disk path with
      | none =>
        rw [indexFile_none parser hashText disk read]
        simp only [Parser.parses, List.filterMap_cons, read, Option.map_none] at declared nothing
        exact ih declared nothing t deferred known
      | some text =>
        simp only [Parser.parses, List.filterMap_cons, read, Option.map_some] at declared nothing
        have rest := ih (fun P member => declared P (List.mem_cons_of_mem _ member))
          fun P member => nothing P (List.mem_cons_of_mem _ member)
        have same : (t.index.declare (parser.parseFileWithDefs path text).parsed).knownRoots =
            s.index.knownRoots := by
          have own := congrArg View.known (view_declare (parser.parseFileWithDefs path text) t.index)
          refine own.trans ?_
          funext x
          show (t.index.knownRoots x || decide _) = _
          rw [known]
          by_cases here : x ∈ (parser.parseFileWithDefs path text).rootTypes
          · rw [declared _ List.mem_cons_self x here, Bool.true_or]
          · simp [here]
        have merged : (indexFile parser hashText disk path t deferred).1.index.SameMaps t.index := by
          unfold indexFile
          rw [read]
          refine sameMaps_mergeInto (parser.sourced path text) ?_ deferred
          rw [same]
          exact nothing _ List.mem_cons_self
        have known' : (indexFile parser hashText disk path t deferred).1.index.knownRoots =
            s.index.knownRoots := by
          have view := congrArg View.known (view_indexFile parser hashText disk read t deferred).1
          exact view.trans ((congrArg View.known (view_declare _ _)).symm.trans same)
        exact (rest (indexFile parser hashText disk path t deferred).1
          (indexFile parser hashText disk path t deferred).2 known').trans merged
  exact general s [] rfl

/-- Merging grows the lists by the contributions of the files. -/
theorem length_foldl_merge_vtable (Ps : List FileParse) (v : View) (a f : String) :
    ((Ps.foldl View.merge v).vtable a f).length =
      (v.vtable a f).length + ((Ps.flatMap fun P => P.parsed.vtableAssignments).filter fun r =>
        decide (r.apiType = a ∧ r.field = f)).length := by
  induction Ps generalizing v with
  | nil => simp
  | cons P Ps ih =>
    rw [List.foldl_cons, ih, List.flatMap_cons, List.filter_append, List.length_append]
    show (v.vtable a f ++ _).length + _ = _
    rw [List.length_append, List.length_map]
    omega

theorem length_foldl_merge_handlers (known : String → Bool) (Ps : List FileParse) (v : View)
    (declared : ∀ P ∈ Ps, ∀ t ∈ P.rootTypes, known t = true) (same : v.known = known) (t : String) :
    ((Ps.foldl View.merge v).handlers t).length =
      (v.handlers t).length + (Ps.flatMap fun P => P.parsed.failureHandlerAssigns.filter fun r =>
        decide (P.handlerRoot known r = t ∧ t ≠ "")).length := by
  induction Ps generalizing v with
  | nil => simp
  | cons P Ps ih =>
    have kept : (v.declare P).known = known := by
      funext x
      show (v.known x || decide (x ∈ P.rootTypes)) = _
      rw [same]
      by_cases here : x ∈ P.rootTypes
      · rw [declared P List.mem_cons_self x here, Bool.true_or]
      · simp [here]
    rw [List.foldl_cons, ih (v.merge P) (fun Q member => declared Q (List.mem_cons_of_mem _ member)) kept,
      List.flatMap_cons, List.length_append]
    show (v.handlers t ++ _).length + _ = _
    rw [List.length_append, List.length_map, kept]
    omega

/-- Files that leave the lengths of all lists as they were have nothing to append. -/
theorem appendsNothing_of_lengths {v : View} {Ps : List FileParse}
    (declared : ∀ P ∈ Ps, ∀ t ∈ P.rootTypes, v.known t = true)
    (vtables : ∀ a f, ((v.build Ps).vtable a f).length = (v.vtable a f).length)
    (handlers : ∀ t, ((v.build Ps).handlers t).length = (v.handlers t).length)
    (definitions : ∀ n, ((v.build Ps).definitions n).length = (v.definitions n).length)
    {P : FileParse} (member : P ∈ Ps) : P.AppendsNothing v.known := by
  have kept := View.foldl_resolve_keeps (Ps.flatMap FileParse.deferred) (Ps.foldl View.merge v)
  refine ⟨?_, ?_, ?_⟩
  · apply List.eq_nil_iff_forall_not_mem.2
    intro d defined
    have length := definitions d.functionName
    rw [View.build, kept.1, View.foldl_merge_definitions, List.length_append] at length
    have none_more : (Ps.flatMap FileParse.functionDefs).filter
        (fun e => decide (e.functionName = d.functionName)) = [] := by
      apply List.eq_nil_of_length_eq_zero
      omega
    have there := List.filter_eq_nil_iff.1 none_more d (List.mem_flatMap.2 ⟨P, member, defined⟩)
    simp at there
  · apply List.eq_nil_iff_forall_not_mem.2
    intro r assigned
    have longer := (View.foldl_resolve_prefix (Ps.flatMap FileParse.deferred) (Ps.foldl View.merge v)
      r.apiType r.field).length_le
    rw [length_foldl_merge_vtable] at longer
    have chosen : 0 < ((Ps.flatMap fun P => P.parsed.vtableAssignments).filter fun r' =>
        decide (r'.apiType = r.apiType ∧ r'.field = r.field)).length := by
      apply List.length_pos_of_mem (a := r)
      simp only [List.mem_filter, List.mem_flatMap, and_self, decide_true, and_true]
      exact ⟨P, member, assigned⟩
    have length := vtables r.apiType r.field
    unfold View.build at length
    omega
  · intro r assigned
    by_contra resolved
    have length := handlers (P.handlerRoot v.known r)
    rw [View.build, kept.2.2.2, length_foldl_merge_handlers v.known _ _ declared rfl] at length
    have chosen : 0 < (Ps.flatMap fun Q => Q.parsed.failureHandlerAssigns.filter fun r' =>
        decide (Q.handlerRoot v.known r' = P.handlerRoot v.known r ∧ P.handlerRoot v.known r ≠ "")).length := by
      apply List.length_pos_of_mem (a := r)
      refine List.mem_flatMap.2 ⟨P, member, ?_⟩
      simp [assigned, resolved]
    omega

/-- Indexing an unchanged workspace again leaves every record list as it was, exactly when
no readable file has a definition, a direct vtable assignment or a failure handler that
resolves to a root type. -/
theorem fullIndex_idempotent_iff (files : List String) (s : WorkspaceIndexer) :
    (fullIndex parser hashText disk files (fullIndex parser hashText disk files s)).index.SameRecords
        (fullIndex parser hashText disk files s).index ↔
      ∀ P ∈ parser.parses disk files,
        P.AppendsNothing (knownAfter s.index.knownRoots (parser.parses disk files)) := by
  have known := knownRoots_fullIndex parser hashText disk files s
  have declared : ∀ P ∈ parser.parses disk files, ∀ t ∈ P.rootTypes,
      (fullIndex parser hashText disk files s).index.knownRoots t = true := by
    intro P member t here
    rw [known]
    unfold knownAfter
    rw [decide_eq_true (List.mem_flatMap.2 ⟨P, member, here⟩), Bool.or_true]
  rw [← known]
  constructor
  · intro same P member
    have built := view_fullIndex parser hashText disk files (fullIndex parser hashText disk files s)
    generalize fullIndex parser hashText disk files s = once at *
    apply appendsNothing_of_lengths (v := view once.index) declared _ _ _ member
    all_goals rw [← built]
    · intro a f
      show (List.map _ _).length = (List.map _ _).length
      rw [List.length_map, List.length_map]
      exact (same.vtables a f).length_eq
    · exact fun t => (same.handlers t).length_eq
    · exact fun n => (same.definitions n).length_eq
  · intro nothing
    apply NavigationIndex.SameMaps.sameRecords
    have merged := sameMaps_indexFiles parser hashText disk files
      (fullIndex parser hashText disk files s) declared nothing
    have deferred := (view_indexFiles parser hashText disk files
      (fullIndex parser hashText disk files s)).2
    rw [← (view_indexFiles parser hashText disk files s).2] at deferred
    conv_lhs => rw [fullIndex]
    rw [deferred]
    apply NavigationIndex.finishIndexing_again
    · exact merged
    · rw [apiStructFields_indexFiles, apiStructFields_fullIndex, apiStructFields_indexFiles,
        declareFields_again]
    · rw [fileHashes_indexFiles]
      show List.foldl _ (indexFiles parser hashText disk files s).1.fileHashes _ = _
      rw [fileHashes_indexFiles]
      exact OrderedMap.foldl_set_again id (fun path => hashText ((disk path).getD "")) _ _

end Passes

/-- The definition of `Log` is listed once by the first pass and twice after the second. -/
theorem fullIndex_twice_duplicates :
    ¬ (fullIndex logParser id logDisk ["/w/log.c"]
        (fullIndex logParser id logDisk ["/w/log.c"] .fresh)).index.SameRecords
      (fullIndex logParser id logDisk ["/w/log.c"] .fresh).index := by
  intro same
  have length := (same.definitions "Log").length_eq
  revert length
  decide

end LibJuno.Indexer
