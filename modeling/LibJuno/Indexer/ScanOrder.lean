import LibJuno.Indexer.Lookup

/-!
# The order in which files are scanned

A definition site is looked up in the half-built index, and so is the root type of a
failure handler, so a record depends on the files before it unless its own file settles it.
Positional vtables are resolved when all definitions are there, but of two that give the
same site the first one is kept, with its own place of assignment.
-/

namespace LibJuno.Indexer

/-- Every API struct and every function is defined at most once. -/
structure DefinedOnce (Ps : List FileParse) : Prop where
  apiStructs : ((Ps.flatMap fun P => P.parsed.apiStructDefinitions).map ApiStructRecord.apiType).Nodup
  functions : (Ps.flatMap FileParse.defined).Nodup

/-- The files settle their records themselves: a function that is assigned directly is
defined in the same file or nowhere, a failure handler finds its root type among those of
its file, and two files fill a field with the same function only when the file that defines
it does so directly. -/
structure OrderFree (Ps : List FileParse) : Prop where
  vtables : ∀ P ∈ Ps, ∀ Q ∈ Ps, ∀ r ∈ P.parsed.vtableAssignments,
    r.functionName ∈ Q.defined → Q.path = P.path
  roots : ∀ P ∈ Ps, ∀ r ∈ P.parsed.failureHandlerAssigns,
    P.handlerRoot (declaredRoots [P]) r = P.handlerRoot (declaredRoots Ps) r
  handlers : ∀ P ∈ Ps, ∀ Q ∈ Ps, ∀ r ∈ P.parsed.failureHandlerAssigns,
    P.handlerRoot (declaredRoots [P]) r ≠ "" → r.functionName ∈ Q.defined → Q.path = P.path
  positions : ∀ P ∈ Ps, ∀ Q ∈ Ps, ∀ R ∈ Ps, P.path ≠ Q.path →
    ∀ x ∈ P.positions (declaredFields Ps), x ∈ Q.positions (declaredFields Ps) →
      x.2.2 ∈ R.defined →
      ∃ r ∈ R.parsed.vtableAssignments, (r.apiType, r.field, r.functionName) = x

/-- The same vtable and failure handler records, as multisets, under every key. -/
structure View.SameAssignments (v w : View) : Prop where
  vtables : ∀ a f, (v.vtable a f).Perm (w.vtable a f)
  handlers : ∀ t, (v.handlers t).Perm (w.handlers t)

/-- The parses of files of different paths, with every API struct and function defined
at most once. -/
structure Scanned (Ps : List FileParse) : Prop extends DefinedOnce Ps where
  sourced : ∀ P ∈ Ps, P.SourcedFrom P.path
  paths : (Ps.map FileParse.path).Nodup

namespace Scanned

variable {Ps Qs : List FileParse}

theorem perm (scanned : Scanned Ps) (perm : Qs.Perm Ps) : Scanned Qs where
  apiStructs := ((perm.flatMap_right _).map _).nodup_iff.2 scanned.apiStructs
  functions := (perm.flatMap_right _).nodup_iff.2 scanned.functions
  sourced P member := scanned.sourced P (perm.mem_iff.1 member)
  paths := (perm.map _).nodup_iff.2 scanned.paths

/-- A file that is split off defines what no other file defines. -/
theorem undefined {P Q : FileParse} (scanned : Scanned (P :: Ps)) (member : Q ∈ Ps) {n : String}
    (here : n ∈ P.defined) : n ∉ Q.defined := by
  have distinct := scanned.functions
  rw [List.flatMap_cons, List.nodup_append] at distinct
  exact fun there => distinct.2.2 n here n (List.mem_flatMap.2 ⟨Q, member, there⟩) rfl

theorem definitions_names (scanned : Scanned Ps) :
    ((Ps.flatMap FileParse.functionDefs).map FunctionDefinitionRecord.functionName).Nodup := by
  rw [List.map_flatMap]
  exact scanned.functions

/-- The definitions of a function, in every order of the files. -/
theorem definitions_perm (scanned : Scanned Ps) (perm : Qs.Perm Ps) (n : String) :
    (Qs.flatMap FileParse.functionDefs).filter (fun d => decide (d.functionName = n)) =
      (Ps.flatMap FileParse.functionDefs).filter fun d => decide (d.functionName = n) :=
  (filter_key_perm (perm.symm.flatMap_right _) scanned.definitions_names n).symm

/-- The field orders, in every order of the files. -/
theorem fields_perm (scanned : Scanned Ps) (perm : Qs.Perm Ps) :
    declaredFields Qs = declaredFields Ps := by
  funext t
  unfold declaredFields
  rw [declareFields_apply, declareFields_apply]
  have reversed : (Ps.flatMap fun P => P.parsed.apiStructDefinitions).reverse.Perm
      (Qs.flatMap fun P => P.parsed.apiStructDefinitions).reverse :=
    (List.reverse_perm _).trans ((perm.symm.flatMap_right _).trans (List.reverse_perm _).symm)
  have distinct : ((Ps.flatMap fun P => P.parsed.apiStructDefinitions).reverse.map
      ApiStructRecord.apiType).Nodup := by
    rw [List.map_reverse, List.nodup_reverse]
    exact scanned.apiStructs
  rw [find_key_perm reversed distinct]

end Scanned

theorem declaredRoots_perm {Ps Qs : List FileParse} (perm : Qs.Perm Ps) :
    declaredRoots Qs = declaredRoots Ps := by
  funext t
  exact decide_eq_decide.2 (perm.flatMap_right FileParse.rootTypes).mem_iff

section Sufficient

/-- The vtable locations of a file that settles them itself. -/
def FileParse.ownVtables (a f : String) (P : FileParse) : List ConcreteLocation :=
  (P.parsed.vtableAssignments.filter fun r => decide (r.apiType = a ∧ r.field = f)).map
    (vtableLocation (fun _ => []) P.functionDefs)

/-- The failure handlers of a file that settles them itself. -/
def FileParse.ownHandlers (t : String) (P : FileParse) : List ConcreteLocation :=
  (P.parsed.failureHandlerAssigns.filter fun r =>
    decide (P.handlerRoot (declaredRoots [P]) r = t ∧ t ≠ "")).map
    (handlerLocation (fun _ => []) P.functionDefs)

/-- The view has its definitions and its root types from the files. -/
structure View.PartOf (Ps : List FileParse) (v : View) : Prop where
  definitions : ∀ n, ∀ d ∈ v.definitions n, ∃ Q ∈ Ps, n ∈ Q.defined
  known : ∀ t, v.known t = true → declaredRoots Ps t = true

variable {Ps : List FileParse} {v : View} {P : FileParse}

theorem View.PartOf.declare (part : v.PartOf Ps) (member : P ∈ Ps) (t : String)
    (h : (v.declare P).known t = true) : declaredRoots Ps t = true := by
  rcases Bool.or_eq_true_iff.1 h with known | own
  · exact part.known t known
  · exact decide_eq_true (List.mem_flatMap.2 ⟨P, member, of_decide_eq_true own⟩)

theorem View.PartOf.merge (part : v.PartOf Ps) (member : P ∈ Ps) : (v.merge P).PartOf Ps where
  definitions n d listed := by
    rcases List.mem_append.1 listed with before | own
    · exact part.definitions n d before
    · obtain ⟨there, name⟩ := List.mem_filter.1 own
      exact ⟨P, member, List.mem_map.2 ⟨d, there, of_decide_eq_true name⟩⟩
  known t h := part.declare member t h

theorem View.PartOf.empty : View.empty.PartOf Ps :=
  ⟨fun _ _ h => (List.not_mem_nil h).elim, fun _ h => (Bool.false_ne_true h).elim⟩

theorem Scanned.blank (scanned : Scanned Ps) : declaredRoots Ps "" = false := by
  apply decide_eq_false
  intro h
  obtain ⟨P, member, root⟩ := List.mem_flatMap.1 h
  obtain ⟨r, declared, name⟩ := List.mem_map.1 root
  exact (scanned.sourced P member).roots r declared name

theorem Scanned.eq_of_path (scanned : Scanned Ps) {Q : FileParse} (member : P ∈ Ps) (member' : Q ∈ Ps)
    (same : Q.path = P.path) : Q = P :=
  List.inj_on_of_nodup_map scanned.paths member' member same

/-- A function defined in no file but this one is found in it, or nowhere. -/
theorem View.PartOf.settled (part : v.PartOf Ps) (scanned : Scanned Ps) (member : P ∈ Ps) {n : String}
    (own : ∀ Q ∈ Ps, n ∈ Q.defined → Q.path = P.path) :
    (∃ d ∈ P.functionDefs, d.functionName = n ∧ d.file = P.path) ∨ v.definitions n = [] := by
  by_cases here : n ∈ P.defined
  · obtain ⟨d, there, name⟩ := List.mem_map.1 here
    exact .inl ⟨d, there, name, (scanned.sourced P member).functions d there⟩
  · refine .inr (List.eq_nil_iff_forall_not_mem.2 fun d listed => ?_)
    obtain ⟨Q, among, defined⟩ := part.definitions n d listed
    exact here (scanned.eq_of_path member among (own Q among defined) ▸ defined)

theorem OrderFree.merge_vtable (free : OrderFree Ps) (scanned : Scanned Ps) (member : P ∈ Ps)
    (part : v.PartOf Ps) (a f : String) :
    (v.merge P).vtable a f = v.vtable a f ++ P.ownVtables a f := by
  have sourced := scanned.sourced P member
  show v.vtable a f ++ _ = _
  congr 1
  apply List.map_congr_left
  intro r chosen
  have assigned := List.mem_of_mem_filter chosen
  have settled := part.settled scanned member fun Q among => free.vtables P member Q among r assigned
  unfold vtableLocation
  rw [sourced.vtables r assigned, resolve_settled settled]

theorem OrderFree.merge_handlers (free : OrderFree Ps) (scanned : Scanned Ps) (member : P ∈ Ps)
    (part : v.PartOf Ps) (t : String) :
    (v.merge P).handlers t = v.handlers t ++ P.ownHandlers t := by
  have sourced := scanned.sourced P member
  have root : ∀ r ∈ P.parsed.failureHandlerAssigns,
      P.handlerRoot (v.declare P).known r = P.handlerRoot (declaredRoots [P]) r := by
    intro r assigned
    apply FileParse.handlerRoot_between _ (part.declare member)
      (fun h => by rw [scanned.blank] at h; cases h) (free.roots P member r assigned)
    intro t own
    refine Bool.or_eq_true_iff.2 (.inr (decide_eq_true ?_))
    simpa using of_decide_eq_true own
  show v.handlers t ++ _ = _
  congr 1
  unfold FileParse.ownHandlers
  rw [List.filter_congr fun r assigned => by rw [root r assigned]]
  apply List.map_congr_left
  intro r chosen
  obtain ⟨assigned, filed⟩ := List.mem_filter.1 chosen
  obtain ⟨found, named⟩ := of_decide_eq_true filed
  have settled := part.settled scanned member fun Q among =>
    free.handlers P member Q among r assigned (found ▸ named)
  unfold handlerLocation
  rw [sourced.handlers r assigned, resolve_settled settled]

/-- What the files list when each settles its records itself. -/
theorem OrderFree.foldl_merge (free : OrderFree Ps) (scanned : Scanned Ps) (Qs : List FileParse)
    (among : ∀ P ∈ Qs, P ∈ Ps) (part : v.PartOf Ps) :
    (∀ a f, (Qs.foldl View.merge v).vtable a f =
        v.vtable a f ++ Qs.flatMap (FileParse.ownVtables a f)) ∧
      ∀ t, (Qs.foldl View.merge v).handlers t = v.handlers t ++ Qs.flatMap (FileParse.ownHandlers t) := by
  induction Qs generalizing v with
  | nil => simp
  | cons Q Qs ih =>
    have member := among Q List.mem_cons_self
    obtain ⟨vtables, handlers⟩ := ih (fun P later => among P (List.mem_cons_of_mem _ later))
      (part.merge member)
    constructor
    · intro a f
      rw [List.foldl_cons, vtables, free.merge_vtable scanned member part, List.append_assoc,
        List.flatMap_cons]
    · intro t
      rw [List.foldl_cons, handlers, free.merge_handlers scanned member part, List.append_assoc,
        List.flatMap_cons]

theorem Scanned.definitionsOf_eq (scanned : Scanned Ps) (member : P ∈ Ps)
    {e : FunctionDefinitionRecord} (here : e ∈ P.functionDefs) :
    definitionsOf Ps e.functionName = [e] :=
  filter_key_of_mem scanned.definitions_names (List.mem_flatMap.2 ⟨P, member, here⟩)

theorem mem_positions {fields : String → Option (List String)} {a f : String}
    {d : DeferredPositional} (here : d ∈ P.deferred) {indexDefs : String → List FunctionDefinitionRecord}
    {l : ConcreteLocation} (h : l ∈ placementsAt indexDefs fields a f d) :
    (a, f, l.functionName) ∈ P.positions fields := by
  obtain ⟨rfl, -, zipped⟩ := mem_placementsAt h
  exact mem_positions_of_zip here zipped

/-- Files that share a positional site share it with a direct assignment. -/
theorem OrderFree.apart (free : OrderFree Ps) (scanned : Scanned Ps) {Q : FileParse} (member : P ∈ Ps)
    (member' : Q ∈ Ps) (distinct : P.path ≠ Q.path) {a f : String} {x y : ConcreteLocation}
    (here : x ∈ P.deferred.flatMap (placementsAt (definitionsOf Ps) (declaredFields Ps) a f))
    (there : y ∈ Q.deferred.flatMap (placementsAt (definitionsOf Ps) (declaredFields Ps) a f))
    (same : x.site = y.site) :
    x.site ∈ (Ps.flatMap (FileParse.ownVtables a f)).map ConcreteLocation.site := by
  obtain ⟨d, deferred, placed⟩ := List.mem_flatMap.1 here
  obtain ⟨d', deferred', placed'⟩ := List.mem_flatMap.1 there
  obtain ⟨-, ⟨i, at_i⟩, -⟩ := mem_placementsAt placed
  obtain ⟨-, ⟨j, at_j⟩, -⟩ := mem_placementsAt placed'
  have name : x.functionName = y.functionName := congrArg Prod.fst same
  have file : x.file = y.file := congrArg (fun s => s.2.1) same
  cases listed : definitionsOf Ps x.functionName with
  | nil =>
    -- an undefined function is at its place of assignment, and the files differ
    rw [at_i, at_j, positionalLocation_undefined listed,
      positionalLocation_undefined (name ▸ listed), deferred_path (scanned.sourced P member) deferred,
      deferred_path (scanned.sourced Q member') deferred'] at file
    exact absurd file distinct
  | cons e rest =>
    have e_listed : e ∈ definitionsOf Ps x.functionName := listed ▸ List.mem_cons_self
    obtain ⟨e_there, e_name⟩ := List.mem_filter.1 e_listed
    obtain ⟨R, among, defined⟩ := List.mem_flatMap.1 e_there
    have e_name : e.functionName = x.functionName := of_decide_eq_true e_name
    have sourced := scanned.sourced R among
    have in_R : x.functionName ∈ R.defined := List.mem_map.2 ⟨e, defined, e_name⟩
    obtain ⟨r, assigned, at_field⟩ := free.positions P member Q member' R among distinct
      (a, f, x.functionName) (mem_positions deferred placed) (name ▸ mem_positions deferred' placed')
      in_R
    injection at_field with type at_field
    injection at_field with field function
    have one := scanned.definitionsOf_eq among defined
    obtain ⟨e', defined', e'_name, site⟩ := vtableLocation_site sourced assigned (function ▸ in_R)
    have equal : e' = e := by
      have both := scanned.definitionsOf_eq among defined'
      rw [e'_name, function, ← e_name, one] at both
      exact (List.singleton_inj.1 both).symm
    refine List.mem_map.2 ⟨_, List.mem_flatMap.2 ⟨R, among, ?_⟩, site.trans ?_⟩
    · exact List.mem_map_of_mem (List.mem_filter.2 ⟨assigned, by simp [type, field]⟩)
    · rw [equal, function, at_i, positionalLocation_site (e_name ▸ one) (sourced.lines e defined)]
      rfl

/-- When the files settle their records, their order does not matter. -/
theorem OrderFree.sameAssignments (free : OrderFree Ps) (scanned : Scanned Ps) {Qs : List FileParse}
    (perm : Qs.Perm Ps) : (View.empty.build Qs).SameAssignments (View.empty.build Ps) := by
  have among : ∀ P ∈ Qs, P ∈ Ps := fun P => perm.mem_iff.1
  obtain ⟨vtables, handlers⟩ := free.foldl_merge scanned Qs among View.PartOf.empty
  obtain ⟨vtables', handlers'⟩ := free.foldl_merge scanned Ps (fun P => id) View.PartOf.empty
  have definitions : definitionsOf Qs = definitionsOf Ps := funext (scanned.definitions_perm perm)
  constructor
  · intro a f
    rw [vtable_build, vtable_build, definitions, scanned.fields_perm perm, vtables, vtables']
    have start : ((View.empty.vtable a f) ++ Qs.flatMap (FileParse.ownVtables a f)).Perm
        ((View.empty.vtable a f) ++ Ps.flatMap (FileParse.ownVtables a f)) :=
      (perm.flatMap_right _).append_left _
    apply FirstOfKey.foldl_add_perm _ _ perm start
    have paths : Qs.Pairwise fun P Q => P.path ≠ Q.path := List.pairwise_map.1 (scanned.perm perm).paths
    refine paths.imp_of_mem ?_
    intro P Q member member' distinct x here y there same
    have shared := free.apart scanned (among P member) (among Q member') distinct here there same
    exact ((start.map _).mem_iff).2 shared
  · intro t
    unfold View.build
    rw [(View.foldl_resolve_keeps _ _).2.2.2, (View.foldl_resolve_keeps _ _).2.2.2, handlers, handlers']
    exact (perm.flatMap_right _).append_left _

end Sufficient

section Anchored

/-- Every record of the function is at its definition, which is in the file `q`. -/
structure View.Anchored (n q : String) (v : View) : Prop where
  defined : ∃ d, d ∈ v.definitions n
  definitions : ∀ d ∈ v.definitions n, d.file = q ∧ d.line ≠ 0
  vtables : ∀ a f, ∀ l ∈ v.vtable a f, l.functionName = n → l.file = q
  handlers : ∀ t, ∀ l ∈ v.handlers t, l.functionName = n → l.file = q

variable {n q : String} {v : View} {P : FileParse}

theorem View.Anchored.resolve_file (anchored : v.Anchored n q)
    {functionDefs : List FunctionDefinitionRecord} (absent : ∀ d ∈ functionDefs, d.functionName ≠ n)
    (file : String) (line : Nat) :
    ((resolveDefinitionLocation n file functionDefs (v.definitions n)).orAt file line).file = q := by
  rw [resolve_absent absent]
  unfold resolveDefinitionLocation
  rw [List.find?_nil]
  dsimp only
  cases own : (v.definitions n).find? fun d => decide (d.file = file) with
  | some d =>
    obtain ⟨same, line⟩ := anchored.definitions d (List.mem_of_find?_eq_some own)
    simp [DefinitionSite.orAt, same, line]
  | none =>
    obtain ⟨d, listed⟩ := anchored.defined
    cases all : v.definitions n with
    | nil => rw [all] at listed; cases listed
    | cons first rest =>
      obtain ⟨same, line⟩ := anchored.definitions first (all ▸ List.mem_cons_self)
      simp [DefinitionSite.orAt, same, line]

theorem FileParse.not_defined (absent : n ∉ P.defined) : ∀ d ∈ P.functionDefs, d.functionName ≠ n :=
  fun d member same => absent (List.mem_map.2 ⟨d, member, same⟩)

theorem View.Anchored.merge (anchored : v.Anchored n q) (absent : n ∉ P.defined) :
    (v.merge P).Anchored n q := by
  have absent' := FileParse.not_defined absent
  have listed : (v.merge P).definitions n = v.definitions n := by
    have none_more : P.functionDefs.filter (fun d => decide (d.functionName = n)) = [] := by
      rw [List.filter_eq_nil_iff]
      intro d member
      simp [absent' d member]
    show v.definitions n ++ _ = _
    rw [none_more, List.append_nil]
  refine ⟨listed ▸ anchored.defined, listed ▸ anchored.definitions, ?_, ?_⟩
  · intro a f l member name
    rcases List.mem_append.1 member with before | own
    · exact anchored.vtables a f l before name
    · obtain ⟨r, -, rfl⟩ := List.mem_map.1 own
      have function : r.functionName = n := name
      unfold vtableLocation
      rw [function]
      exact anchored.resolve_file absent' r.file r.line
  · intro t l member name
    rcases List.mem_append.1 member with before | own
    · exact anchored.handlers t l before name
    · obtain ⟨r, -, rfl⟩ := List.mem_map.1 own
      have function : r.functionName = n := name
      unfold handlerLocation
      rw [function]
      exact anchored.resolve_file absent' r.file r.line

theorem View.Anchored.foldl_merge (anchored : v.Anchored n q) {Ps : List FileParse}
    (absent : ∀ P ∈ Ps, n ∉ P.defined) : (Ps.foldl View.merge v).Anchored n q := by
  induction Ps generalizing v with
  | nil => exact anchored
  | cons P Ps ih =>
    exact ih (anchored.merge (absent P List.mem_cons_self))
      fun Q member => absent Q (List.mem_cons_of_mem _ member)

theorem View.Anchored.foldl_resolve (anchored : v.Anchored n q) (ds : List DeferredPositional) :
    (ds.foldl View.resolve v).Anchored n q := by
  obtain ⟨definitions, -, -, handlers⟩ := View.foldl_resolve_keeps ds v
  refine ⟨definitions ▸ anchored.defined, definitions ▸ anchored.definitions, ?_,
    handlers ▸ anchored.handlers⟩
  intro a f l member name
  rw [vtable_foldl_resolve, FirstOfKey.foldl_add] at member
  rcases List.mem_append.1 member with before | added
  · exact anchored.vtables a f l before name
  · obtain ⟨d, -, placed⟩ := List.mem_flatMap.1 (FirstOfKey.mem_of_added _ added)
    obtain ⟨-, ⟨i, at_i⟩, -⟩ := mem_placementsAt placed
    rw [at_i, name]
    exact anchored.resolve_file (by simp) d.filePath _

/-- The file that defines a function anchors it. -/
theorem View.Anchored.first (sourced : P.SourcedFrom P.path) (here : n ∈ P.defined) :
    (View.empty.merge P).Anchored n P.path := by
  obtain ⟨d, member, name⟩ := List.mem_map.1 here
  have found : ∀ (file : String) (line : Nat), file = P.path →
      ((resolveDefinitionLocation n file P.functionDefs []).orAt file line).file = P.path := by
    intro file line same
    unfold resolveDefinitionLocation
    cases own : P.functionDefs.find? fun d => decide (d.functionName = n ∧ d.file = file) with
    | none =>
      have missed := List.find?_eq_none.1 own d member
      exact (missed (decide_eq_true ⟨name, (sourced.functions d member).trans same.symm⟩)).elim
    | some e =>
      have there := List.mem_of_find?_eq_some own
      simp [DefinitionSite.orAt, sourced.lines e there, sourced.functions e there]
  refine ⟨⟨d, List.mem_filter.2 ⟨member, decide_eq_true name⟩⟩, ?_, ?_, ?_⟩
  · intro e listed
    have there := (List.mem_filter.1 listed).1
    exact ⟨sourced.functions e there, sourced.lines e there⟩
  · intro a f l listed name
    obtain ⟨r, chosen, rfl⟩ := List.mem_map.1 listed
    have function : r.functionName = n := name
    unfold vtableLocation
    rw [function]
    exact found r.file r.line (sourced.vtables r (List.mem_of_mem_filter chosen))
  · intro t l listed name
    obtain ⟨r, chosen, rfl⟩ := List.mem_map.1 listed
    have function : r.functionName = n := name
    unfold handlerLocation
    rw [function]
    exact found r.file r.line (sourced.handlers r (List.mem_of_mem_filter chosen))

/-- With the file that defines a function scanned first, its records are in that file. -/
theorem anchored_build {Ps : List FileParse} (scanned : Scanned (P :: Ps)) (here : n ∈ P.defined) :
    (View.empty.build (P :: Ps)).Anchored n P.path := by
  apply View.Anchored.foldl_resolve
  apply View.Anchored.foldl_merge
    (View.Anchored.first (scanned.sourced P List.mem_cons_self) here)
  exact fun Q member => scanned.undefined member here

end Anchored

section Necessary

variable {Ps : List FileParse}

theorem definitions_empty_of_undefined {n : String} (absent : ∀ P ∈ Ps, n ∉ P.defined) :
    (Ps.foldl View.merge .empty).definitions n = [] := by
  rw [definitions_foldl_merge]
  unfold definitionsOf
  rw [List.filter_eq_nil_iff]
  intro d member
  obtain ⟨P, among, here⟩ := List.mem_flatMap.1 member
  simp only [decide_eq_true_iff]
  exact fun name => absent P among (List.mem_map.2 ⟨d, here, name⟩)

/-- Before its definition is scanned, a function is listed at the place of its assignment. -/
theorem vtable_unanchored {P : FileParse} {before : List FileParse} (after : List FileParse)
    (sourced : P.SourcedFrom P.path) {r : VtableAssignmentRecord}
    (assigned : r ∈ P.parsed.vtableAssignments) (absent : r.functionName ∉ P.defined)
    (unseen : ∀ Q ∈ before, r.functionName ∉ Q.defined) :
    ∃ l ∈ (View.empty.build (before ++ P :: after)).vtable r.apiType r.field,
      l.functionName = r.functionName ∧ l.file = P.path := by
  have empty := definitions_empty_of_undefined unseen
  refine ⟨vtableLocation (before.foldl View.merge .empty).definitions P.functionDefs r, ?_, rfl, ?_⟩
  · unfold View.build
    apply (View.foldl_resolve_prefix _ _ _ _).subset
    rw [List.foldl_append, List.foldl_cons]
    apply (View.foldl_merge_vtable_prefix _ _ _ _).subset
    apply List.mem_append_right
    exact List.mem_map_of_mem (List.mem_filter.2 ⟨assigned, by simp⟩)
  · unfold vtableLocation
    rw [empty, resolve_absent (FileParse.not_defined absent)]
    exact sourced.vtables r assigned

theorem handler_unanchored {P : FileParse} {before : List FileParse} (after : List FileParse)
    (sourced : P.SourcedFrom P.path) {r : FailureHandlerRecord}
    (assigned : r ∈ P.parsed.failureHandlerAssigns) (absent : r.functionName ∉ P.defined)
    (unseen : ∀ Q ∈ before, r.functionName ∉ Q.defined)
    (resolved : P.handlerRoot (declaredRoots (before ++ [P])) r ≠ "") :
    ∃ t, ∃ l ∈ (View.empty.build (before ++ P :: after)).handlers t,
      l.functionName = r.functionName ∧ l.file = P.path := by
  have empty := definitions_empty_of_undefined unseen
  have known : ((before.foldl View.merge .empty).declare P).known = declaredRoots (before ++ [P]) := by
    rw [← known_foldl_merge, List.foldl_append]
    rfl
  refine ⟨P.handlerRoot (declaredRoots (before ++ [P])) r,
    handlerLocation (before.foldl View.merge .empty).definitions P.functionDefs r, ?_, rfl, ?_⟩
  · unfold View.build
    rw [(View.foldl_resolve_keeps _ _).2.2.2, List.foldl_append, List.foldl_cons]
    apply (View.foldl_merge_handlers_prefix _ _ _).subset
    apply List.mem_append_right
    refine List.mem_map_of_mem (List.mem_filter.2 ⟨assigned, ?_⟩)
    rw [known]
    exact decide_eq_true ⟨rfl, resolved⟩
  · unfold handlerLocation
    rw [empty, resolve_absent (FileParse.not_defined absent)]
    exact sourced.handlers r assigned

/-- The records are the same in every order of the files. -/
def AnyOrder (Ps : List FileParse) : Prop :=
  ∀ Qs : List FileParse, Qs.Perm Ps → (View.empty.build Qs).SameAssignments (View.empty.build Ps)

theorem AnyOrder.between {As Bs : List FileParse} (orders : AnyOrder Ps) (first : As.Perm Ps)
    (second : Bs.Perm Ps) : (View.empty.build As).SameAssignments (View.empty.build Bs) where
  vtables a f := ((orders As first).vtables a f).trans ((orders Bs second).vtables a f).symm
  handlers t := ((orders As first).handlers t).trans ((orders Bs second).handlers t).symm

/-- Of two files one can be taken to the front. -/
theorem perm_front {P Q : FileParse} (member : P ∈ Ps) (member' : Q ∈ Ps) (distinct : P.path ≠ Q.path) :
    ∃ before after, (Q :: (before ++ P :: after)).Perm Ps := by
  obtain ⟨left, right, rfl⟩ := List.append_of_mem member'
  have elsewhere : P ∈ left ++ right := by
    rcases List.mem_append.1 member with h | h
    · exact List.mem_append_left _ h
    · rcases List.mem_cons.1 h with rfl | h
      · exact absurd rfl distinct
      · exact List.mem_append_right _ h
  obtain ⟨before, after, split⟩ := List.append_of_mem elsewhere
  refine ⟨before, after, ?_⟩
  rw [← split]
  exact List.perm_middle.symm

/-- The one file can be scanned first or last, with the other one in between. -/
theorem AnyOrder.front_last {P Q : FileParse} (orders : AnyOrder Ps) (member : P ∈ Ps) (member' : Q ∈ Ps)
    (distinct : P.path ≠ Q.path) : ∃ before after, (Q :: (before ++ P :: after)).Perm Ps ∧
      (View.empty.build (before ++ P :: (after ++ [Q]))).SameAssignments
        (View.empty.build (Q :: (before ++ P :: after))) := by
  obtain ⟨before, after, perm⟩ := perm_front member member' distinct
  have last : (before ++ P :: (after ++ [Q])).Perm (Q :: (before ++ P :: after)) := by
    rw [← List.cons_append, ← List.append_assoc]
    exact List.perm_append_singleton _ _
  exact ⟨before, after, perm, orders.between (last.trans perm) perm⟩

section Settled

variable {P Q : FileParse} (scanned : Scanned Ps) (orders : AnyOrder Ps) (member : P ∈ Ps)
  (member' : Q ∈ Ps)

include scanned orders member member'

theorem AnyOrder.vtables {r : VtableAssignmentRecord} (assigned : r ∈ P.parsed.vtableAssignments)
    (defined : r.functionName ∈ Q.defined) : Q.path = P.path := by
  by_contra distinct
  obtain ⟨before, after, perm, same⟩ := orders.front_last member member' (Ne.symm distinct)
  have scanned' := scanned.perm perm
  have anchored := anchored_build scanned' defined
  -- scanned before its definition, the function is listed in the assigning file
  obtain ⟨l, listed, name, file⟩ := vtable_unanchored (after ++ [Q])
    (scanned.sourced P member) assigned
    (scanned'.undefined (List.mem_append_right _ List.mem_cons_self) defined)
    fun R early => scanned'.undefined (List.mem_append_left _ early) defined
  have listed' := (same.vtables r.apiType r.field).mem_iff.1 listed
  exact distinct ((anchored.vtables _ _ l listed' name).symm.trans file)

theorem AnyOrder.handlers {r : FailureHandlerRecord}
    (assigned : r ∈ P.parsed.failureHandlerAssigns)
    (root : P.handlerRoot (declaredRoots [P]) r = P.handlerRoot (declaredRoots Ps) r)
    (resolved : P.handlerRoot (declaredRoots [P]) r ≠ "")
    (defined : r.functionName ∈ Q.defined) : Q.path = P.path := by
  by_contra distinct
  obtain ⟨before, after, perm, same⟩ := orders.front_last member member' (Ne.symm distinct)
  have scanned' := scanned.perm perm
  have anchored := anchored_build scanned' defined
  have between : P.handlerRoot (declaredRoots (before ++ [P])) r = P.handlerRoot (declaredRoots [P]) r := by
    apply FileParse.handlerRoot_between _ _ (fun h => by rw [scanned.blank] at h; cases h) root
    · intro t own
      unfold declaredRoots at *
      rw [List.flatMap_append]
      exact decide_eq_true (List.mem_append_right _ (of_decide_eq_true own))
    · intro t some
      unfold declaredRoots at *
      obtain ⟨R, early, here⟩ := List.mem_flatMap.1 (of_decide_eq_true some)
      refine decide_eq_true (List.mem_flatMap.2 ⟨R, perm.mem_iff.1 ?_, here⟩)
      rcases List.mem_append.1 early with h | h
      · exact List.mem_cons_of_mem _ (List.mem_append_left _ h)
      · rw [List.mem_singleton.1 h]
        exact List.mem_cons_of_mem _ (List.mem_append_right _ List.mem_cons_self)
  obtain ⟨t, l, listed, name, file⟩ := handler_unanchored (after ++ [Q])
    (scanned.sourced P member) assigned
    (scanned'.undefined (List.mem_append_right _ List.mem_cons_self) defined)
    (fun R early => scanned'.undefined (List.mem_append_left _ early) defined)
    (between ▸ resolved)
  have listed' := (same.handlers t).mem_iff.1 listed
  exact distinct ((anchored.handlers _ l listed' name).symm.trans file)

end Settled

section Counting

variable {P G : FileParse} {known known' : String → Bool} {t : String}

/-- How many failure handlers of a file go to a root type. -/
def FileParse.handlerCount (known : String → Bool) (t : String) (P : FileParse) : Nat :=
  (P.parsed.failureHandlerAssigns.filter fun r =>
    decide (P.handlerRoot known r = t ∧ t ≠ "")).length

theorem length_merge_handlers (v : View) (P : FileParse) (t : String) :
    ((v.merge P).handlers t).length = (v.handlers t).length + P.handlerCount (v.declare P).known t := by
  show (v.handlers t ++ _).length = _
  rw [List.length_append, List.length_map]
  rfl

/-- How many handlers later files add depends on the known root types alone. -/
theorem length_foldl_merge_congr (Qs : List FileParse) {v w : View} (known : v.known = w.known) :
    (w.handlers t).length + ((Qs.foldl View.merge v).handlers t).length =
      (v.handlers t).length + ((Qs.foldl View.merge w).handlers t).length := by
  induction Qs generalizing v w with
  | nil => exact Nat.add_comm _ _
  | cons Q Qs ih =>
    have declared : (v.declare Q).known = (w.declare Q).known := by
      unfold View.declare
      rw [known]
    have rest := @ih (v.merge Q) (w.merge Q) declared
    rw [length_merge_handlers, length_merge_handlers, declared] at rest
    rw [List.foldl_cons, List.foldl_cons]
    omega

/-- A root type that was known already gets no more handlers when others are declared. -/
theorem handlerCount_le (le : ∀ t, known t = true → known' t = true) (here : known t = true) :
    P.handlerCount known' t ≤ P.handlerCount known t := by
  apply List.Sublist.length_le
  apply List.monotone_filter_right
  intro r filed
  obtain ⟨root, named⟩ := of_decide_eq_true filed
  refine decide_eq_true ⟨?_, named⟩
  exact (FileParse.handlerRoot_of_le le (root ▸ here)).trans root

/-- A root type that was not known gets the handlers that change to it. -/
theorem handlerCount_lt (le : ∀ t, known t = true → known' t = true) (blank : known' "" = false)
    {r : FailureHandlerRecord} (assigned : r ∈ P.parsed.failureHandlerAssigns)
    (changed : P.handlerRoot known r ≠ P.handlerRoot known' r) :
    P.handlerCount known (P.handlerRoot known' r) < P.handlerCount known' (P.handlerRoot known' r) := by
  obtain ⟨there, absent, inferred⟩ := FileParse.handlerRoot_changed le changed
  have named : P.handlerRoot known' r ≠ "" := fun empty => by
    rw [empty, blank] at there
    cases there
  unfold FileParse.handlerCount
  generalize root : P.handlerRoot known' r = t at *
  -- those filed under it before name it themselves, and still do
  have kept : ∀ r' : FailureHandlerRecord, P.handlerRoot known r' = t → P.handlerRoot known' r' = t := by
    intro r' before
    rw [P.handlerRoot_eq] at before ⊢
    split at before
    · next own => rw [if_pos own]; exact before
    · cases found : (P.searched r').find? known with
      | none => exact absurd (by rw [found] at before; exact before.symm) named
      | some t' =>
        rw [found] at before
        have known_t : known t' = true := List.find?_some found
        rw [show t' = t from before, absent] at known_t
        cases known_t
  have fewer : (P.parsed.failureHandlerAssigns.filter fun r =>
        decide (P.handlerRoot known r = t ∧ t ≠ "")) =
      (P.parsed.failureHandlerAssigns.filter fun r =>
        decide (P.handlerRoot known' r = t ∧ t ≠ "")).filter fun r =>
        decide (P.handlerRoot known r = t ∧ t ≠ "") := by
    rw [List.filter_filter]
    apply List.filter_congr
    intro r' _
    by_cases before : P.handlerRoot known r' = t
    · simp [before, kept r' before]
    · simp [before]
  rw [fewer, List.length_filter_lt_length_iff_exists]
  exact ⟨r, List.mem_filter.2 ⟨assigned, decide_eq_true ⟨root, named⟩⟩, by simp [changed]⟩

theorem declaredRoots_le {As Bs : List FileParse} (among : ∀ P ∈ As, P ∈ Bs) (t : String)
    (h : declaredRoots As t = true) : declaredRoots Bs t = true := by
  obtain ⟨P, member, here⟩ := List.mem_flatMap.1 (of_decide_eq_true h)
  exact decide_eq_true (List.mem_flatMap.2 ⟨P, among P member, here⟩)

/-- Where a root type changes as files are put before this one, one file changes it. -/
theorem exists_change {r : FailureHandlerRecord} (before after : List FileParse)
    (changed : P.handlerRoot (declaredRoots (before ++ [P])) r ≠
      P.handlerRoot (declaredRoots (before ++ after ++ [P])) r) :
    ∃ left G right, before ++ after = left ++ G :: right ∧
      P.handlerRoot (declaredRoots (left ++ [P])) r ≠
        P.handlerRoot (declaredRoots (left ++ [G, P])) r := by
  induction after generalizing before with
  | nil => rw [List.append_nil] at changed; exact absurd rfl changed
  | cons G after ih =>
    by_cases here : P.handlerRoot (declaredRoots (before ++ [P])) r =
        P.handlerRoot (declaredRoots (before ++ [G, P])) r
    · have split : before ++ G :: after = before ++ [G] ++ after := by simp
      have again : before ++ [G] ++ [P] = before ++ [G, P] := by simp
      rw [split]
      rw [split] at changed
      apply ih
      rw [again, ← here]
      exact changed
    · exact ⟨before, G, after, rfl, here⟩

/-- A root type that a file before the last one adds is its own or came earlier. -/
theorem declaredRoots_added {left : List FileParse} {G : FileParse}
    (there : declaredRoots (left ++ [G, P]) t = true) (absent : declaredRoots (left ++ [P]) t = false) :
    declaredRoots (left ++ [G]) t = true := by
  obtain ⟨Q, among, here⟩ := List.mem_flatMap.1 (of_decide_eq_true there)
  have elsewhere : Q ∉ left ++ [P] := by
    intro h
    have there : declaredRoots (left ++ [P]) t = true := decide_eq_true (List.mem_flatMap.2 ⟨Q, h, here⟩)
    rw [absent] at there
    cases there
  rw [show left ++ [G, P] = left ++ [G] ++ [P] by simp] at among
  rcases List.mem_append.1 among with front | last
  · exact decide_eq_true (List.mem_flatMap.2 ⟨Q, front, here⟩)
  · exact absurd (List.mem_append_right left last) elsewhere

/-- A file adds its own handlers of the type to those of the files before it. -/
theorem length_handlers_snoc (As : List FileParse) (A : FileParse) :
    (((As ++ [A]).foldl View.merge .empty).handlers t).length =
      ((As.foldl View.merge .empty).handlers t).length + A.handlerCount (declaredRoots (As ++ [A])) t := by
  rw [List.foldl_append, List.foldl_cons, List.foldl_nil, length_merge_handlers, ← known_foldl_merge,
    List.foldl_append]
  rfl

/-- Two neighbours that may be exchanged add up to as many handlers in both orders. -/
theorem length_handlers_swap {left right : List FileParse} {G : FileParse}
    (same : ((View.empty.build (left ++ P :: G :: right)).handlers t).length =
      ((View.empty.build (left ++ G :: P :: right)).handlers t).length) :
    P.handlerCount (declaredRoots (left ++ [P])) t + G.handlerCount (declaredRoots (left ++ [P, G])) t =
      G.handlerCount (declaredRoots (left ++ [G])) t + P.handlerCount (declaredRoots (left ++ [G, P])) t := by
  have pair : declaredRoots (left ++ [P, G]) = declaredRoots (left ++ [G, P]) :=
    declaredRoots_perm ((List.Perm.swap _ _ _).append_left left)
  have order_one := length_handlers_snoc (t := t) (left ++ [P]) G
  have order_two := length_handlers_snoc (t := t) (left ++ [G]) P
  rw [length_handlers_snoc left P] at order_one
  rw [length_handlers_snoc left G] at order_two
  rw [List.append_assoc, List.singleton_append] at order_one order_two
  have rest := length_foldl_merge_congr (t := t) right
    (show ((left ++ [P, G]).foldl View.merge .empty).known =
      ((left ++ [G, P]).foldl View.merge .empty).known by rw [known_foldl_merge, known_foldl_merge, pair])
  rw [← List.foldl_append, ← List.foldl_append, List.append_assoc, List.append_assoc] at rest
  unfold View.build at same
  rw [(View.foldl_resolve_keeps _ _).2.2.2, (View.foldl_resolve_keeps _ _).2.2.2] at same
  simp only [List.cons_append, List.nil_append] at rest
  omega

theorem AnyOrder.roots (scanned : Scanned Ps) (orders : AnyOrder Ps) (member : P ∈ Ps)
    {r : FailureHandlerRecord} (assigned : r ∈ P.parsed.failureHandlerAssigns) :
    P.handlerRoot (declaredRoots [P]) r = P.handlerRoot (declaredRoots Ps) r := by
  by_contra differ
  obtain ⟨front, back, rfl⟩ := List.append_of_mem member
  have last : (front ++ back ++ [P]).Perm (front ++ P :: back) := by
    rw [List.append_assoc]
    exact (List.perm_append_singleton P back).append_left front
  rw [← declaredRoots_perm last] at differ
  obtain ⟨left, G, right, split, changed⟩ := exists_change [] (front ++ back) differ
  rw [List.nil_append] at split
  -- the two orders differ in these two files alone
  have first : (left ++ P :: G :: right).Perm (front ++ P :: back) := by
    refine (List.perm_middle.trans ?_).trans List.perm_middle.symm
    rw [split]
  have second : (left ++ G :: P :: right).Perm (front ++ P :: back) :=
    ((List.Perm.swap _ _ _).append_left left).trans first
  have pair : declaredRoots (left ++ [P, G]) = declaredRoots (left ++ [G, P]) :=
    declaredRoots_perm ((List.Perm.swap _ _ _).append_left left)
  have blank := (scanned.perm second).blank
  have blank' : declaredRoots (left ++ [G, P]) "" = false := by
    cases here : declaredRoots (left ++ [G, P]) "" with
    | false => rfl
    | true =>
      rw [declaredRoots_le (by intro Q; simp; tauto) "" here] at blank
      cases blank
  have le : ∀ t, declaredRoots (left ++ [P]) t = true → declaredRoots (left ++ [G, P]) t = true :=
    declaredRoots_le (by intro Q; simp; tauto)
  have le' : ∀ t, declaredRoots (left ++ [G]) t = true → declaredRoots (left ++ [P, G]) t = true :=
    declaredRoots_le (by intro Q; simp; tauto)
  obtain ⟨there, absent, -⟩ := FileParse.handlerRoot_changed le changed
  have more := handlerCount_lt le blank' assigned changed
  generalize P.handlerRoot (declaredRoots (left ++ [G, P])) r = t at *
  have fewer := handlerCount_le le' (declaredRoots_added there absent) (P := G)
  have equal := length_handlers_swap ((orders.between first second).handlers t).length_eq
  rw [pair] at equal fewer
  omega

end Counting

section Positions

variable {a f n : String}

theorem placementsAt_site {indexDefs : String → List FunctionDefinitionRecord}
    {fields : String → Option (List String)} {d : DeferredPositional} {l : ConcreteLocation}
    {e : FunctionDefinitionRecord} (placed : l ∈ placementsAt indexDefs fields a f d)
    (listed : indexDefs l.functionName = [e]) (line : e.line ≠ 0) :
    l.site = (l.functionName, e.file, e.line) := by
  obtain ⟨-, ⟨i, at_i⟩, -⟩ := mem_placementsAt placed
  conv_lhs => rw [at_i]
  exact positionalLocation_site listed line

/-- Of the files that place a defined function at a field, the first one scanned is the
place of assignment, unless the function is assigned there directly. -/
theorem first_places {P R : FileParse} (scanned : Scanned (P :: Ps))
    (placed : (a, f, n) ∈ P.positions (declaredFields (P :: Ps))) (among : R ∈ P :: Ps)
    (defined : n ∈ R.defined)
    (indirect : ∀ l ∈ ((P :: Ps).foldl View.merge .empty).vtable a f, l.functionName ≠ n) :
    (∃ l ∈ (View.empty.build (P :: Ps)).vtable a f, l.functionName = n) ∧
      ∀ l ∈ (View.empty.build (P :: Ps)).vtable a f, l.functionName = n →
        l.assignmentFile = some P.path := by
  obtain ⟨e, there, name⟩ := List.mem_map.1 defined
  have listed : definitionsOf (P :: Ps) n = [e] := name ▸ scanned.definitionsOf_eq among there
  have line := (scanned.sourced R among).lines e there
  obtain ⟨d, deferred, here⟩ := List.mem_flatMap.1 placed
  obtain ⟨pair, zipped, equal⟩ := List.mem_map.1 here
  injection equal with type field
  injection field with field function
  obtain ⟨y, y_placed, y_name⟩ := placementsAt_of_mem (definitionsOf (P :: Ps))
    (show (n, f) ∈ _ by rw [← field, ← function]; exact zipped)
  rw [type] at y_placed
  have y_site := placementsAt_site y_placed (y_name ▸ listed) line
  rw [y_name] at y_site
  rw [vtable_build, FirstOfKey.foldl_add, List.flatMap_cons, FirstOfKey.added_append]
  have y_block := List.mem_flatMap.2 ⟨d, deferred, y_placed⟩
  have y_there := FirstOfKey.key_mem_added ConcreteLocation.site
    (((P :: Ps).foldl View.merge .empty).vtable a f) y_block
  rw [y_site] at y_there
  constructor
  · obtain ⟨l, l_there, same⟩ := List.mem_map.1 y_there
    refine ⟨l, ?_, congrArg Prod.fst same⟩
    rw [← List.append_assoc]
    exact List.mem_append_left _ l_there
  · intro l member l_name
    rcases List.mem_append.1 member with direct | added
    · exact absurd l_name (indirect l direct)
    rcases List.mem_append.1 added with own | later
    · obtain ⟨d', deferred', placed'⟩ := List.mem_flatMap.1 (FirstOfKey.mem_of_added _ own)
      obtain ⟨-, ⟨i, at_i⟩, -⟩ := mem_placementsAt placed'
      rw [at_i, ← deferred_path (scanned.sourced P List.mem_cons_self) deferred']
      rfl
    · -- a later file gives the same site, which is there
      have fresh := FirstOfKey.added_fresh _ later
      obtain ⟨Q, -, inside⟩ := List.mem_flatMap.1 (FirstOfKey.mem_of_added _ later)
      obtain ⟨d', -, placed'⟩ := List.mem_flatMap.1 inside
      rw [placementsAt_site placed' (l_name ▸ listed) line, l_name] at fresh
      exact absurd y_there fresh

theorem AnyOrder.positions (scanned : Scanned Ps) (orders : AnyOrder Ps) {P Q R : FileParse}
    (member : P ∈ Ps) (member' : Q ∈ Ps) (among : R ∈ Ps) (distinct : P.path ≠ Q.path)
    {x : String × String × String} (placed : x ∈ P.positions (declaredFields Ps))
    (placed' : x ∈ Q.positions (declaredFields Ps)) (defined : x.2.2 ∈ R.defined) :
    ∃ r ∈ R.parsed.vtableAssignments, (r.apiType, r.field, r.functionName) = x := by
  by_contra direct
  obtain ⟨a, f, n⟩ := x
  have indirect : ∀ Qs : List FileParse, Qs.Perm Ps →
      ∀ l ∈ (Qs.foldl View.merge .empty).vtable a f, l.functionName ≠ n := by
    intro Qs perm l listed name
    rcases mem_foldl_merge_vtable.1 listed with
      none_there | ⟨before, X, after, rfl, r, assigned, type, field, rfl⟩
    · cases none_there
    · have there : X ∈ Ps := perm.mem_iff.1 (by simp)
      have function : r.functionName = n := name
      have path := orders.vtables scanned there among assigned (function ▸ defined)
      have same := scanned.eq_of_path there among path
      exact direct ⟨r, same ▸ assigned, by rw [type, field, function]⟩
  have front : ∀ X ∈ Ps, ∃ rest, (X :: rest).Perm Ps := by
    intro X there
    obtain ⟨left, right, rfl⟩ := List.append_of_mem there
    exact ⟨left ++ right, List.perm_middle.symm⟩
  obtain ⟨rest, perm⟩ := front P member
  obtain ⟨rest', perm'⟩ := front Q member'
  obtain ⟨⟨l, listed, name⟩, only⟩ := first_places (scanned.perm perm)
    (scanned.fields_perm perm ▸ placed) (perm.mem_iff.2 among) defined (indirect _ perm)
  obtain ⟨-, only'⟩ := first_places (scanned.perm perm')
    (scanned.fields_perm perm' ▸ placed') (perm'.mem_iff.2 among) defined (indirect _ perm')
  have same := (orders.between perm perm').vtables a f
  have assigned := only' l (same.mem_iff.1 listed) name
  rw [only l listed name] at assigned
  exact distinct (Option.some.inj assigned)

end Positions

/-- The order of the files does not matter exactly when they settle their records. -/
theorem anyOrder_iff (scanned : Scanned Ps) : AnyOrder Ps ↔ OrderFree Ps := by
  constructor
  · intro orders
    have roots := fun P member r assigned => orders.roots scanned (P := P) member (r := r) assigned
    constructor
    · exact fun P member Q member' r assigned => orders.vtables scanned member member' assigned
    · exact roots
    · exact fun P member Q member' r assigned => orders.handlers scanned member member' assigned
        (roots P member r assigned)
    · exact fun P member Q member' R among distinct x placed placed' =>
        orders.positions scanned member member' among distinct placed placed'
  · exact fun free Qs perm => free.sameAssignments scanned perm

end Necessary

section Scans

variable (parser : Parser) (hashText : String → String) (disk : Disk)

theorem Parser.parses_paths (files : List String) :
    ((parser.parses disk files).map FileParse.path).Sublist files := by
  unfold Parser.parses
  induction files with
  | nil => exact List.Sublist.slnil
  | cons path files ih =>
    cases read : disk path with
    | none => simpa [read] using ih.cons path
    | some text =>
      have same : (parser.parseFileWithDefs path text).path = path := (parser.sourced path text).path
      simpa [read, same] using ih.cons_cons path

theorem Parser.scanned {files : List String} (distinct : files.Nodup)
    (once : DefinedOnce (parser.parses disk files)) : Scanned (parser.parses disk files) where
  toDefinedOnce := once
  sourced P member := by
    obtain ⟨path, -, read⟩ := List.mem_filterMap.1 member
    obtain ⟨text, -, rfl⟩ := Option.map_eq_some_iff.1 read
    have sourced := parser.sourced path text
    have same : (parser.parseFileWithDefs path text).path = path := sourced.path
    rw [same]
    exact sourced
  paths := distinct.sublist (parser.parses_paths disk files)

/-- Every order of the parses comes from an order of the files. -/
theorem Parser.exists_order (files : List String) {Qs : List FileParse}
    (perm : Qs.Perm (parser.parses disk files)) :
    ∃ files' : List String, files'.Perm files ∧ parser.parses disk files' = Qs := by
  induction Qs generalizing files with
  | nil => exact ⟨files, List.Perm.refl _, List.nil_perm.1 perm⟩
  | cons Q Qs ih =>
    obtain ⟨path, among, read⟩ := List.mem_filterMap.1 (perm.mem_iff.1 List.mem_cons_self)
    obtain ⟨left, right, rfl⟩ := List.append_of_mem among
    have rest : Qs.Perm (parser.parses disk (left ++ right)) := by
      apply (List.perm_cons Q).1
      refine perm.trans ?_
      unfold Parser.parses
      rw [List.filterMap_append, List.filterMap_append, List.filterMap_cons, read]
      exact List.perm_middle
    obtain ⟨files', order, same⟩ := ih (left ++ right) rest
    refine ⟨path :: files', (order.cons path).trans List.perm_middle.symm, ?_⟩
    unfold Parser.parses at *
    rw [List.filterMap_cons, read, same]

/-- The vtable and failure handler records of a full pass are the same in every order of
the files, exactly when the files settle their records themselves. -/
theorem scan_order_iff (files : List String) (distinct : files.Nodup)
    (once : DefinedOnce (parser.parses disk files)) :
    (∀ files' : List String, files'.Perm files →
        (view (fullIndex parser hashText disk files' .fresh).index).SameAssignments
          (view (fullIndex parser hashText disk files .fresh).index)) ↔
      OrderFree (parser.parses disk files) := by
  have scanned := parser.scanned disk distinct once
  have fresh : view WorkspaceIndexer.fresh.index = .empty := rfl
  rw [← anyOrder_iff scanned]
  constructor
  · intro orders Qs perm
    obtain ⟨files', order, rfl⟩ := parser.exists_order disk files perm
    have same := orders files' order
    rw [view_fullIndex, view_fullIndex, fresh] at same
    exact same
  · intro orders files' order
    rw [view_fullIndex, view_fullIndex, fresh]
    exact orders _ (order.filterMap _)

end Scans

theorem log_distinct : ["/w/init.c", "/w/log.c"].Nodup := by decide

theorem log_definedOnce : DefinedOnce (logParser.parses logDisk ["/w/init.c", "/w/log.c"]) := by
  constructor <;> decide

/-- In the workspace of the two files the order matters. -/
theorem scan_order_iff_log :
    (∀ files' : List String, files'.Perm ["/w/init.c", "/w/log.c"] →
        (view (fullIndex logParser id logDisk files' .fresh).index).SameAssignments
          (view (fullIndex logParser id logDisk ["/w/init.c", "/w/log.c"] .fresh).index)) ↔
      OrderFree (logParser.parses logDisk ["/w/init.c", "/w/log.c"]) :=
  scan_order_iff logParser id logDisk ["/w/init.c", "/w/log.c"] log_distinct log_definedOnce

/-- With the vtable scanned first, `Log` is listed where it is assigned, and not where it
is defined. -/
theorem scan_order_matters :
    ["/w/init.c", "/w/log.c"].Nodup ∧
      DefinedOnce (logParser.parses logDisk ["/w/init.c", "/w/log.c"]) ∧
      ¬ ∀ files' : List String, files'.Perm ["/w/init.c", "/w/log.c"] →
        (view (fullIndex logParser id logDisk files' .fresh).index).SameAssignments
          (view (fullIndex logParser id logDisk ["/w/init.c", "/w/log.c"] .fresh).index) := by
  refine ⟨log_distinct, log_definedOnce, fun orders => ?_⟩
  have same := (orders ["/w/log.c", "/w/init.c"] (List.Perm.swap _ _ _)).vtables "LOG_API_T" "Log"
  revert same
  decide

end LibJuno.Indexer
