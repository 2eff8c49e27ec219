import LibJuno.Indexer.View
import LibJuno.Lib.FirstOfKey

/-!
# What a record finds

How the root type of a failure handler depends on the known root types, which locations the
positional vtables give for a field, and when the definition site of a function does not
depend on what else the index lists.
-/

namespace LibJuno.Indexer

section Roots

variable {known known' : String → Bool}

/-- The type names that the root type of a failure handler is searched in. -/
def FileParse.searched (P : FileParse) (r : FailureHandlerRecord) : List String :=
  (searchedTypes P.parsed.localTypeInfo
    ((findContainingFunction r.line r.file P.functionDefs).filter (· ≠ ""))).map TypeInfo.typeName

theorem FileParse.handlerRoot_eq (P : FileParse) (known : String → Bool) (r : FailureHandlerRecord) :
    P.handlerRoot known r =
      if r.rootType ≠ "" then r.rootType else ((P.searched r).find? known).getD "" := by
  unfold FileParse.handlerRoot resolveFailureHandlerRootType FileParse.searched
  rw [List.find?_map]
  split
  · rfl
  · dsimp only [Function.comp_def]
    cases (searchedTypes P.parsed.localTypeInfo _).find? fun ti => known ti.typeName <;> rfl

/-- A name found among more that is there among fewer is found among them. -/
theorem find_of_le {names : List String} (le : ∀ t, known t = true → known' t = true) {t : String}
    (found : names.find? known' = some t) (here : known t = true) : names.find? known = some t := by
  induction names with
  | nil => cases found
  | cons x names ih =>
    rw [List.find?_cons] at found ⊢
    cases there : known' x with
    | true =>
      rw [there] at found
      cases found
      rw [here]
    | false =>
      rw [there] at found
      have unknown : known x = false := by
        cases some : known x with
        | false => rfl
        | true => rw [le x some] at there; cases there
      rw [unknown]
      exact ih found

theorem find_none_of_le {names : List String} (le : ∀ t, known t = true → known' t = true)
    (absent : names.find? known' = none) : names.find? known = none := by
  rw [List.find?_eq_none] at absent ⊢
  exact fun x member here => absent x member (le x here)

/-- A root type known before more were declared is found then too. -/
theorem FileParse.handlerRoot_of_le {P : FileParse} {r : FailureHandlerRecord}
    (le : ∀ t, known t = true → known' t = true)
    (here : known (P.handlerRoot known' r) = true) :
    P.handlerRoot known r = P.handlerRoot known' r := by
  rw [P.handlerRoot_eq known', P.handlerRoot_eq known] at *
  split
  · rfl
  · next inferred =>
    rw [if_neg inferred] at here
    cases found : (P.searched r).find? known' with
    | none => rw [find_none_of_le le found]
    | some t =>
      rw [found] at here
      rw [find_of_le le found here]

/-- When more root types change the result, it is one of those. -/
theorem FileParse.handlerRoot_changed {P : FileParse} {r : FailureHandlerRecord}
    (le : ∀ t, known t = true → known' t = true)
    (changed : P.handlerRoot known r ≠ P.handlerRoot known' r) :
    known' (P.handlerRoot known' r) = true ∧ known (P.handlerRoot known' r) = false ∧
      r.rootType = "" := by
  have absent : known (P.handlerRoot known' r) = false := by
    cases here : known (P.handlerRoot known' r) with
    | false => rfl
    | true => exact absurd (FileParse.handlerRoot_of_le le here) changed
  have inferred : r.rootType = "" := by
    by_contra own
    rw [P.handlerRoot_eq, P.handlerRoot_eq, if_pos own, if_pos own] at changed
    exact changed rfl
  refine ⟨?_, absent, inferred⟩
  rw [P.handlerRoot_eq, P.handlerRoot_eq, if_neg (not_not.2 inferred), if_neg (not_not.2 inferred)] at changed
  rw [P.handlerRoot_eq, if_neg (not_not.2 inferred)]
  cases found : (P.searched r).find? known' with
  | none =>
    exact absurd (by rw [found, find_none_of_le le found]) changed
  | some t => simpa using List.find?_some found

/-- Between two sets of root types that agree nothing changes. -/
theorem FileParse.handlerRoot_between {P : FileParse} {r : FailureHandlerRecord}
    {few most : String → Bool} (le : ∀ t, few t = true → known t = true)
    (le' : ∀ t, known t = true → most t = true) (blank : most "" = true → few "" = true)
    (same : P.handlerRoot few r = P.handlerRoot most r) :
    P.handlerRoot known r = P.handlerRoot few r := by
  rw [P.handlerRoot_eq, P.handlerRoot_eq] at same ⊢
  split at same
  · next own => rw [if_pos own, if_pos own]
  · next inferred =>
    rw [if_neg inferred, if_neg inferred]
    cases last : (P.searched r).find? most with
    | none => rw [find_none_of_le le' last, find_none_of_le le (find_none_of_le le' last)]
    | some t =>
      rw [last, Option.getD_some] at same
      -- the smallest set has what the largest one finds, so the one between finds it too
      have here : few t = true := by
        cases first : (P.searched r).find? few with
        | none =>
          rw [first, Option.getD_none] at same
          rw [← same]
          exact blank (same ▸ List.find?_some last)
        | some t' =>
          rw [first, Option.getD_some] at same
          exact same ▸ List.find?_some first
      rw [find_of_le le' last (le t here), find_of_le (fun t h => le' t (le t h)) last here]

end Roots

section Positional

theorem deferred_path {R : FileParse} (sourced : R.SourcedFrom R.path) {d : DeferredPositional}
    (h : d ∈ R.deferred) : d.filePath = R.path := by
  obtain ⟨pp, pending, rfl⟩ := List.mem_map.1 h
  exact sourced.positional pp pending

/-- What makes two locations the same when positional ones are listed. -/
def ConcreteLocation.site (l : ConcreteLocation) : String × String × Nat :=
  (l.functionName, l.file, l.line)

/-- The locations that a positional vtable gives for a field. -/
def placementsAt (indexDefs : String → List FunctionDefinitionRecord)
    (fields : String → Option (List String)) (a f : String) (d : DeferredPositional) :
    List ConcreteLocation :=
  if d.apiType = a then
    ((placements indexDefs ((fields d.apiType).getD []) d).filter fun x => decide (x.1 = f)).map
      Prod.snd
  else []

theorem any_sameSite (ls : List ConcreteLocation) (loc : ConcreteLocation) :
    ls.any (·.sameSite loc) = true ↔ loc.site ∈ ls.map ConcreteLocation.site := by
  rw [List.any_eq_true, List.mem_map]
  apply exists_congr
  intro l
  apply and_congr_right
  intro _
  unfold ConcreteLocation.sameSite ConcreteLocation.site
  rw [decide_eq_true_iff, Prod.mk.injEq, Prod.mk.injEq]

theorem vtable_place (apiType : String) (v : View) (x : String × ConcreteLocation) (a f : String) :
    (v.place apiType x).vtable a f =
      if apiType = a ∧ x.1 = f then FirstOfKey.add ConcreteLocation.site (v.vtable a f) x.2
      else v.vtable a f := by
  unfold View.place FirstOfKey.add
  by_cases here : apiType = a ∧ x.1 = f
  · obtain ⟨rfl, rfl⟩ := here
    simp only [any_sameSite, and_self, if_true]
    split <;> simp
  · have other : ¬ (a = apiType ∧ f = x.1) := fun h => here ⟨h.1.symm, h.2.symm⟩
    rw [if_neg here]
    split
    · rfl
    · exact if_neg other

theorem vtable_foldl_place (apiType : String) (xs : List (String × ConcreteLocation)) (v : View)
    (a f : String) :
    (xs.foldl (View.place apiType) v).vtable a f =
      (if apiType = a then (xs.filter fun x => decide (x.1 = f)).map Prod.snd else []).foldl
        (FirstOfKey.add ConcreteLocation.site) (v.vtable a f) := by
  induction xs generalizing v with
  | nil => split <;> rfl
  | cons x xs ih =>
    rw [List.foldl_cons, ih, vtable_place]
    by_cases type : apiType = a
    · by_cases field : x.1 = f <;> simp [type, field]
    · simp [type]

/-- A field gets the locations of the positional vtables, the first one of each site. -/
theorem vtable_foldl_resolve (ds : List DeferredPositional) (v : View) (a f : String) :
    (ds.foldl View.resolve v).vtable a f =
      (ds.flatMap (placementsAt v.definitions v.fields a f)).foldl
        (FirstOfKey.add ConcreteLocation.site) (v.vtable a f) := by
  induction ds generalizing v with
  | nil => rfl
  | cons d ds ih =>
    have kept := View.foldl_resolve_keeps [d] v
    rw [List.foldl_cons, List.foldl_nil] at kept
    rw [List.foldl_cons, ih, kept.1, kept.2.2.1, List.flatMap_cons, List.foldl_append]
    congr 1
    unfold View.resolve placementsAt
    cases v.fields d.apiType with
    | none =>
      dsimp only [Option.getD_none]
      unfold placements
      rw [List.zip_nil_right]
      split <;> rfl
    | some fields => exact vtable_foldl_place d.apiType _ v a f

theorem mem_placementsAt {indexDefs : String → List FunctionDefinitionRecord}
    {fields : String → Option (List String)} {a f : String} {d : DeferredPositional}
    {l : ConcreteLocation} (h : l ∈ placementsAt indexDefs fields a f d) :
    d.apiType = a ∧ (∃ i, l = positionalLocation indexDefs d l.functionName i) ∧
      (l.functionName, f) ∈ d.initializers.zip ((fields d.apiType).getD []) := by
  unfold placementsAt at h
  split at h
  · next type =>
    obtain ⟨x, chosen, rfl⟩ := List.mem_map.1 h
    obtain ⟨placed, field⟩ := List.mem_filter.1 chosen
    unfold placements at placed
    obtain ⟨y, zipped, rfl⟩ := List.mem_map.1 placed
    refine ⟨type, ⟨y.2, rfl⟩, ?_⟩
    have pair := List.fst_mem_of_mem_zipIdx zipped
    rw [← of_decide_eq_true field]
    exact pair
  · cases h

theorem placementsAt_of_mem (indexDefs : String → List FunctionDefinitionRecord)
    {fields : String → Option (List String)} {f n : String} {d : DeferredPositional}
    (h : (n, f) ∈ d.initializers.zip ((fields d.apiType).getD [])) :
    ∃ l ∈ placementsAt indexDefs fields d.apiType f d, l.functionName = n := by
  obtain ⟨i, there⟩ := List.mem_iff_getElem?.1 h
  refine ⟨positionalLocation indexDefs d n i, ?_, rfl⟩
  unfold placementsAt placements
  rw [if_pos rfl]
  refine List.mem_map.2 ⟨(f, positionalLocation indexDefs d n i), ?_, rfl⟩
  rw [List.mem_filter]
  refine ⟨List.mem_map.2 ⟨((n, f), i), ?_, rfl⟩, decide_eq_true rfl⟩
  exact List.mem_zipIdx_iff_getElem?.2 there

end Positional

section Builds

variable (Ps : List FileParse)

/-- What a build lists for a field: the direct assignments, then the first positional one of
each site, with all definitions and fields known. -/
theorem vtable_build_from (v : View) (a f : String) :
    (v.build Ps).vtable a f =
      (Ps.flatMap fun P => P.deferred.flatMap
        (placementsAt (Ps.foldl View.merge v).definitions (Ps.foldl View.merge v).fields a f)).foldl
        (FirstOfKey.add ConcreteLocation.site) ((Ps.foldl View.merge v).vtable a f) := by
  unfold View.build
  rw [vtable_foldl_resolve, List.flatMap_assoc]

theorem vtable_build (a f : String) :
    (View.empty.build Ps).vtable a f =
      (Ps.flatMap fun P => P.deferred.flatMap
        (placementsAt (definitionsOf Ps) (declaredFields Ps) a f)).foldl
        (FirstOfKey.add ConcreteLocation.site) ((Ps.foldl View.merge .empty).vtable a f) := by
  rw [vtable_build_from, definitions_foldl_merge, View.foldl_merge_fields]
  rfl

variable {Ps}

/-- What the merged files list directly under a field, with what was listed before. -/
theorem mem_foldl_merge_vtable {v : View} {a f : String} {l : ConcreteLocation} :
    l ∈ (Ps.foldl View.merge v).vtable a f ↔
      l ∈ v.vtable a f ∨ ∃ before P after, Ps = before ++ P :: after ∧
        ∃ r ∈ P.parsed.vtableAssignments, r.apiType = a ∧ r.field = f ∧
          vtableLocation (before.foldl View.merge v).definitions P.functionDefs r = l := by
  induction Ps generalizing v with
  | nil => simp
  | cons P Ps ih =>
    rw [List.foldl_cons, ih]
    have one : l ∈ (v.merge P).vtable a f ↔ l ∈ v.vtable a f ∨
        ∃ r ∈ P.parsed.vtableAssignments, r.apiType = a ∧ r.field = f ∧
          vtableLocation v.definitions P.functionDefs r = l := by
      unfold View.merge
      simp only [List.mem_append, List.mem_map, List.mem_filter, decide_eq_true_eq, and_assoc]
    rw [one, or_assoc]
    apply or_congr_right
    constructor
    · rintro (direct | ⟨before, Q, after, rfl, direct⟩)
      · exact ⟨[], P, Ps, rfl, direct⟩
      · exact ⟨P :: before, Q, after, rfl, direct⟩
    · rintro ⟨before, Q, after, split, direct⟩
      cases before with
      | nil =>
        obtain ⟨rfl, rfl⟩ := List.cons.inj split
        exact .inl direct
      | cons R before =>
        obtain ⟨rfl, rfl⟩ := List.cons.inj split
        exact .inr ⟨before, Q, after, rfl, direct⟩

end Builds

section Sites

variable {functionName file : String} {functionDefs indexDefs : List FunctionDefinitionRecord}
  {indexDefs' : String → List FunctionDefinitionRecord}

/-- What the index lists does not matter when the parse has the function, or when it lists
nothing. -/
theorem resolve_settled
    (settled : (∃ d ∈ functionDefs, d.functionName = functionName ∧ d.file = file) ∨ indexDefs = []) :
    resolveDefinitionLocation functionName file functionDefs indexDefs =
      resolveDefinitionLocation functionName file functionDefs [] := by
  unfold resolveDefinitionLocation
  cases here : functionDefs.find? fun d => decide (d.functionName = functionName ∧ d.file = file) with
  | some d => rfl
  | none =>
    rcases settled with ⟨d, member, same⟩ | none_listed
    · exact absurd same (by simpa using List.find?_eq_none.1 here d member)
    · rw [none_listed]

/-- The parse does not matter when it has not got the function. -/
theorem resolve_absent (absent : ∀ d ∈ functionDefs, d.functionName ≠ functionName) :
    resolveDefinitionLocation functionName file functionDefs indexDefs =
      resolveDefinitionLocation functionName file [] indexDefs := by
  have none_here : functionDefs.find? (fun d =>
      decide (d.functionName = functionName ∧ d.file = file)) = none := by
    rw [List.find?_eq_none]
    intro d member
    simp [absent d member]
  unfold resolveDefinitionLocation
  rw [none_here]
  rfl

/-- A function that is listed once is found there. -/
theorem resolve_listed (absent : ∀ d ∈ functionDefs, d.functionName ≠ functionName)
    {e : FunctionDefinitionRecord} :
    resolveDefinitionLocation functionName file functionDefs [e] = ⟨e.file, e.line⟩ := by
  rw [resolve_absent absent]
  unfold resolveDefinitionLocation
  by_cases own : e.file = file <;> simp [own]

theorem positionalLocation_site {d : DeferredPositional} {n : String} {i : Nat}
    {e : FunctionDefinitionRecord} (listed : indexDefs' n = [e]) (line : e.line ≠ 0) :
    (positionalLocation indexDefs' d n i).site = (n, e.file, e.line) := by
  unfold positionalLocation ConcreteLocation.site DefinitionSite.orAt
  rw [listed, resolve_listed (by simp)]
  simp [line]

theorem positionalLocation_undefined {d : DeferredPositional} {n : String} {i : Nat}
    (absent : indexDefs' n = []) : (positionalLocation indexDefs' d n i).file = d.filePath := by
  unfold positionalLocation
  rw [absent]
  rfl

/-- A function that the file assigns and defines is listed with its definition. -/
theorem vtableLocation_site {P : FileParse} (sourced : P.SourcedFrom P.path)
    {r : VtableAssignmentRecord} (assigned : r ∈ P.parsed.vtableAssignments)
    (here : r.functionName ∈ P.defined) :
    ∃ e ∈ P.functionDefs, e.functionName = r.functionName ∧
      (vtableLocation (fun _ => []) P.functionDefs r).site = (r.functionName, e.file, e.line) := by
  obtain ⟨d, member, name⟩ := List.mem_map.1 here
  have file : d.file = r.file := (sourced.functions d member).trans (sourced.vtables r assigned).symm
  unfold vtableLocation resolveDefinitionLocation ConcreteLocation.site
  cases found : P.functionDefs.find? fun d =>
      decide (d.functionName = r.functionName ∧ d.file = r.file) with
  | none =>
    have missed := List.find?_eq_none.1 found d member
    exact (missed (decide_eq_true ⟨name, file⟩)).elim
  | some e =>
    have there := List.mem_of_find?_eq_some found
    have same : e.functionName = r.functionName ∧ e.file = r.file := by
      simpa using List.find?_some found
    refine ⟨e, there, same.1, ?_⟩
    unfold DefinitionSite.orAt
    simp [sourced.lines e there]

end Sites

end LibJuno.Indexer
