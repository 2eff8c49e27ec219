import LibJuno.Indexer.View

/-!
# Which file a record belongs to

A record belongs to the file of the definition it names, and pruning goes by that file. As
long as no file resolves a function into a file on the other side of a division of all
files in two, the two sides do not see each other: the operations commute with taking the
records of one side, and what the files of the other side do there is to declare. Every
comparison of two ways to index a workspace is a use of these laws.
-/

namespace LibJuno.Indexer

/-- The functions that a file assigns directly, those of failure handlers that find a root
type among the known ones included. -/
def FileParse.assigned (known : String → Bool) (P : FileParse) : List String :=
  P.parsed.vtableAssignments.map VtableAssignmentRecord.functionName ++
    (P.parsed.failureHandlerAssigns.filter fun r => decide (P.handlerRoot known r ≠ "")).map
      FailureHandlerRecord.functionName

/-- A function named in `file` is found there, or all its definitions are on the side `p`. -/
def Settled (p : String → Bool) (file functionName : String)
    (functionDefs indexDefs : List FunctionDefinitionRecord) : Prop :=
  (∃ d ∈ functionDefs, d.functionName = functionName ∧ d.file = file) ∨
    (∃ d ∈ indexDefs, d.file = file) ∨ ∀ d ∈ indexDefs, p d.file = true

section Sites

variable {p : String → Bool} {file functionName : String}
  {functionDefs indexDefs : List FunctionDefinitionRecord}

/-- A settled function is resolved to a site on its side, whatever the other side lists. -/
theorem Settled.resolve (settled : Settled p file functionName functionDefs indexDefs)
    (inside : p file = true) :
    resolveDefinitionLocation functionName file functionDefs (indexDefs.filter fun d => p d.file) =
        resolveDefinitionLocation functionName file functionDefs indexDefs ∧
      p (resolveDefinitionLocation functionName file functionDefs indexDefs).file = true := by
  have sameFile : (indexDefs.filter fun d => p d.file).find? (fun d => decide (d.file = file)) =
      indexDefs.find? fun d => decide (d.file = file) := by
    rw [List.find?_filter]
    congr 1
    funext d
    by_cases own : d.file = file <;> simp [own, inside]
  unfold resolveDefinitionLocation
  rw [sameFile]
  cases here : functionDefs.find? fun d => decide (d.functionName = functionName ∧ d.file = file) with
  | some d =>
    have found : d.functionName = functionName ∧ d.file = file := by
      simpa using List.find?_some here
    refine ⟨rfl, ?_⟩
    dsimp only
    rw [found.2]
    exact inside
  | none =>
    dsimp only
    cases own : indexDefs.find? fun d => decide (d.file = file) with
    | some d =>
      have found : d.file = file := by simpa using List.find?_some own
      refine ⟨rfl, ?_⟩
      dsimp only
      rw [found]
      exact inside
    | none =>
      -- neither the parse nor the index has it in this file
      have all : ∀ d ∈ indexDefs, p d.file = true := by
        rcases settled with ⟨d, member, same⟩ | ⟨d, member, same⟩ | all
        · exact absurd same (by simpa using List.find?_eq_none.1 here d member)
        · exact absurd same (by simpa using List.find?_eq_none.1 own d member)
        · exact all
      rw [List.filter_eq_self.2 all]
      refine ⟨rfl, ?_⟩
      cases indexDefs with
      | nil => exact inside
      | cons d rest => exact all d List.mem_cons_self

theorem orAt_file (site : DefinitionSite) (line : Nat) (inside : p file = true)
    (found : p site.file = true) : p (site.orAt file line).file = true := by
  unfold DefinitionSite.orAt
  split
  · exact found
  · exact inside

end Sites

theorem filter_append_of_none {α : Type*} {q : α → Bool} {xs ys : List α}
    (none_right : ∀ y ∈ ys, ¬ q y = true) : (xs ++ ys).filter q = xs.filter q := by
  have dropped : ys.filter q = [] := List.filter_eq_nil_iff.2 none_right
  rw [List.filter_append, dropped, List.append_nil]

namespace View

variable {p : String → Bool} {v : View}

theorem filter_filter (q : String → Bool) (v : View) :
    (v.filter p).filter q = v.filter fun file => p file && q file := by
  apply View.ext
  · funext a f
    exact (List.filter_filter ..).trans (by simp only [Bool.and_comm]; rfl)
  · funext t
    exact (List.filter_filter ..).trans (by simp only [Bool.and_comm]; rfl)
  · funext n
    exact (List.filter_filter ..).trans (by simp only [Bool.and_comm]; rfl)
  · rfl
  · rfl

theorem filter_of_all (all : ∀ file, p file = true) (v : View) : v.filter p = v := by
  apply View.ext
  · funext a f
    exact List.filter_eq_self.2 fun l _ => all l.file
  · funext t
    exact List.filter_eq_self.2 fun l _ => all l.file
  · funext n
    exact List.filter_eq_self.2 fun d _ => all d.file
  · rfl
  · rfl

/-- The functions a file assigns directly stay on the side `p`. -/
def DirectWithin (p : String → Bool) (v : View) (P : FileParse) : Prop :=
  ∀ n ∈ P.assigned (v.declare P).known, Settled p P.path n P.functionDefs (v.definitions n)

/-- The functions of a positional vtable stay on the side `p`. -/
def PositionalWithin (p : String → Bool) (v : View) (d : DeferredPositional) : Prop :=
  ∀ x ∈ d.initializers.zip ((v.fields d.apiType).getD []),
    Settled p d.filePath x.1 [] (v.definitions x.1)

section Merge

variable {P : FileParse} (sourced : P.SourcedFrom P.path)

include sourced

theorem vtableLocation_filter (inside : p P.path = true) (within : DirectWithin p v P)
    {r : VtableAssignmentRecord} (member : r ∈ P.parsed.vtableAssignments) :
    vtableLocation (v.filter p).definitions P.functionDefs r =
        vtableLocation v.definitions P.functionDefs r ∧
      p (vtableLocation v.definitions P.functionDefs r).file = true := by
  have named : r.functionName ∈ P.assigned (v.declare P).known :=
    List.mem_append_left _ (List.mem_map_of_mem member)
  have file := sourced.vtables r member
  obtain ⟨same, found⟩ := (within r.functionName named).resolve inside
  unfold vtableLocation
  rw [file]
  dsimp only [View.filter]
  rw [same]
  exact ⟨rfl, orAt_file _ _ inside found⟩

theorem handlerLocation_filter (inside : p P.path = true) (within : DirectWithin p v P)
    {t : String} {r : FailureHandlerRecord}
    (chosen : r ∈ P.parsed.failureHandlerAssigns.filter fun r =>
      decide (P.handlerRoot (v.declare P).known r = t ∧ t ≠ "")) :
    handlerLocation (v.filter p).definitions P.functionDefs r =
        handlerLocation v.definitions P.functionDefs r ∧
      p (handlerLocation v.definitions P.functionDefs r).file = true := by
  obtain ⟨member, filed⟩ := List.mem_filter.1 chosen
  obtain ⟨root, named⟩ := of_decide_eq_true filed
  have named : r.functionName ∈ P.assigned (v.declare P).known :=
    List.mem_append_right _ (List.mem_map_of_mem
      (List.mem_filter.2 ⟨member, decide_eq_true (root ▸ named)⟩))
  have file := sourced.handlers r member
  obtain ⟨same, found⟩ := (within r.functionName named).resolve inside
  unfold handlerLocation
  rw [file]
  dsimp only [View.filter]
  rw [same]
  exact ⟨rfl, orAt_file _ _ inside found⟩

/-- Merging a file commutes with taking its side. -/
theorem filter_merge (inside : p P.path = true) (within : DirectWithin p v P) :
    (v.merge P).filter p = (v.filter p).merge P := by
  apply View.ext
  · funext a f
    dsimp only [View.filter, View.merge]
    rw [List.filter_append]
    congr 1
    rw [List.filter_eq_self.2]
    · apply List.map_congr_left
      intro r member
      exact (vtableLocation_filter sourced inside within (List.mem_of_mem_filter member)).1.symm
    · intro l member
      obtain ⟨r, chosen, rfl⟩ := List.mem_map.1 member
      exact (vtableLocation_filter sourced inside within (List.mem_of_mem_filter chosen)).2
  · funext t
    dsimp only [View.filter, View.merge]
    rw [List.filter_append]
    congr 1
    rw [List.filter_eq_self.2]
    · apply List.map_congr_left
      intro r member
      exact (handlerLocation_filter sourced inside within member).1.symm
    · intro l member
      obtain ⟨r, chosen, rfl⟩ := List.mem_map.1 member
      exact (handlerLocation_filter sourced inside within chosen).2
  · funext n
    dsimp only [View.filter, View.merge]
    rw [List.filter_append]
    congr 1
    rw [List.filter_eq_self.2]
    intro d member
    rw [sourced.functions d (List.mem_of_mem_filter member)]
    exact inside
  · rfl
  · rfl

end Merge

section Resolve

theorem filter_place (apiType : String) (v : View) (x : String × ConcreteLocation) :
    (v.place apiType x).filter p =
      if p x.2.file then (v.filter p).place apiType x else v.filter p := by
  by_cases inside : p x.2.file = true
  · have found : ((v.filter p).vtable apiType x.1).any (·.sameSite x.2) =
        (v.vtable apiType x.1).any (·.sameSite x.2) := by
      dsimp only [View.filter]
      rw [List.any_filter]
      congr 1
      funext e
      by_cases same : e.sameSite x.2 = true
      · have file : e.file = x.2.file := (of_decide_eq_true same).2.1
        simp [file, inside]
      · simp [same]
    rw [if_pos inside]
    unfold View.place
    rw [found]
    split
    · rfl
    · apply View.ext
      · funext a f
        dsimp only [View.filter]
        split
        · simp [inside]
        · rfl
      · rfl
      · rfl
      · rfl
      · rfl
  · rw [if_neg inside]
    unfold View.place
    split
    · rfl
    · apply View.ext
      · funext a f
        dsimp only [View.filter]
        split
        · simp [inside]
        · rfl
      · rfl
      · rfl
      · rfl
      · rfl

theorem foldl_place_filter (apiType : String) (xs : List (String × ConcreteLocation)) (v : View) :
    (xs.foldl (View.place apiType) v).filter p =
      (xs.filter fun x => p x.2.file).foldl (View.place apiType) (v.filter p) := by
  induction xs generalizing v with
  | nil => rfl
  | cons x xs ih =>
    rw [List.foldl_cons, ih, filter_place]
    by_cases inside : p x.2.file = true <;> simp [inside]

theorem placements_filter {d : DeferredPositional} (inside : p d.filePath = true)
    {fields : List String} (known : v.fields d.apiType = some fields) (within : PositionalWithin p v d) :
    placements (v.filter p).definitions fields d = placements v.definitions fields d ∧
      ∀ x ∈ placements v.definitions fields d, p x.2.file = true := by
  unfold PositionalWithin at within
  rw [known, Option.getD_some] at within
  have each : ∀ x ∈ d.initializers.zip fields, ∀ i,
      positionalLocation (v.filter p).definitions d x.1 i = positionalLocation v.definitions d x.1 i ∧
        p (positionalLocation v.definitions d x.1 i).file = true := by
    intro x member i
    obtain ⟨same, found⟩ := (within x member).resolve inside
    unfold positionalLocation
    dsimp only [View.filter]
    rw [same]
    exact ⟨rfl, orAt_file _ _ inside found⟩
  constructor
  · apply List.map_congr_left
    intro x member
    rw [(each x.1 (List.fst_mem_of_mem_zipIdx member) x.2).1]
  · intro x member
    obtain ⟨y, zipped, rfl⟩ := List.mem_map.1 member
    exact (each y.1 (List.fst_mem_of_mem_zipIdx zipped) y.2).2

/-- Resolving a positional vtable commutes with taking its side. -/
theorem filter_resolve {d : DeferredPositional} (inside : p d.filePath = true)
    (within : PositionalWithin p v d) : (v.resolve d).filter p = (v.filter p).resolve d := by
  have declared : (v.filter p).fields = v.fields := rfl
  unfold View.resolve
  rw [declared]
  cases known : v.fields d.apiType with
  | none => rfl
  | some fields =>
    obtain ⟨same, all⟩ := placements_filter inside known within
    dsimp only
    rw [foldl_place_filter, List.filter_eq_self.2 all, same]

/-- Resolving a positional vtable of the other side changes nothing. -/
theorem filter_resolve_other {d : DeferredPositional} (outside : p d.filePath = false)
    (within : PositionalWithin (fun file => !p file) v d) : (v.resolve d).filter p = v.filter p := by
  unfold View.resolve
  cases known : v.fields d.apiType with
  | none => rfl
  | some fields =>
    obtain ⟨-, all⟩ := placements_filter (by simp [outside]) known within
    dsimp only
    rw [foldl_place_filter, List.filter_eq_nil_iff.2]
    · rfl
    · intro x member
      simpa using all x member

end Resolve

section Passes

theorem filter_foldl_resolve {ds : List DeferredPositional}
    (within : ∀ d ∈ ds, PositionalWithin (fun file => p file == p d.filePath) v d) :
    (ds.foldl resolve v).filter p = (ds.filter fun d => p d.filePath).foldl resolve (v.filter p) := by
  induction ds generalizing v with
  | nil => rfl
  | cons d ds ih =>
    have own := within d List.mem_cons_self
    have kept := foldl_resolve_keeps [d] v
    rw [List.foldl_cons, List.foldl_nil] at kept
    have rest := @ih (v.resolve d) fun d' later => by
      unfold PositionalWithin
      rw [kept.1, kept.2.2.1]
      exact within d' (List.mem_cons_of_mem _ later)
    rw [List.foldl_cons, rest]
    cases side : p d.filePath with
    | true =>
      simp only [side, beq_true] at own
      simp only [List.filter_cons, side, if_true, List.foldl_cons]
      rw [filter_resolve side own]
    | false =>
      simp only [side, beq_false] at own
      simp only [List.filter_cons, side, Bool.false_eq_true, if_false]
      rw [filter_resolve_other side own]

end Passes

end View

end LibJuno.Indexer
