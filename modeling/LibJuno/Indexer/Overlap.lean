import LibJuno.Indexer.Incremental
import LibJuno.Lib.Machine

/-!
# Re-index calls that overlap

The file watcher calls `reindexFile` for every event and does not wait for the calls before.
A call removes the records of its file, is suspended while the file is read, merges the
parse, and is suspended once more before it resolves what was deferred. Overlapping calls
act as if they had been run one after another, in the order in which they merge, as long as
each of their steps is `Undisturbed`: a call starts when no other one of its file is busy,
no function is looked up while its definitions in another file are removed and not merged
again, and nothing is merged while positional vtables wait. `Serialised` relates the index
between two steps to the run one after another.
-/

namespace LibJuno.Indexer

/-- Where a call of `reindexFile` is suspended. A call that reads its file carries the names
of the functions whose definitions it has removed, which no step looks at. -/
inductive Phase where
  | waiting
  | reading (removed : List String)
  | merged (deferred : List DeferredPositional)
  | done
deriving DecidableEq

namespace Phase

/-- The records of the file are removed and not merged yet. -/
def reads : Phase → Bool
  | .reading _ => true
  | _ => false

def removed : Phase → List String
  | .reading names => names
  | _ => []

/-- The positional vtables that are left to resolve. -/
def deferred : Phase → List DeferredPositional
  | .merged ds => ds
  | _ => []

def hasMerged : Phase → Bool
  | .merged _ | .done => true
  | _ => false

/-- The call has records of its file still to add. -/
def Busy (phase : Phase) : Prop := phase.reads = true ∨ phase.deferred ≠ []

instance (phase : Phase) : Decidable phase.Busy :=
  inferInstanceAs (Decidable (phase.reads = true ∨ phase.deferred ≠ []))

end Phase

structure ReindexCall where
  filePath : String
  phase : Phase
deriving DecidableEq

/-- The functions that the index lists a definition of in the file. -/
def NavigationIndex.definedIn (index : NavigationIndex) (filePath : String) : List String :=
  index.functionDefinitions.keys.filter fun n =>
    (index.functionDefinitions.listAt n).any fun d => decide (d.file = filePath)

theorem NavigationIndex.mem_definedIn {index : NavigationIndex} {n : String}
    {d : FunctionDefinitionRecord} (listed : d ∈ index.functionDefinitions.listAt n) :
    n ∈ index.definedIn d.file :=
  List.mem_filter.2 ⟨OrderedMap.mem_keys_of_listAt listed,
    List.any_eq_true.2 ⟨d, listed, decide_eq_true rfl⟩⟩

/-- The indexer and the calls on it. -/
structure Watcher where
  indexer : WorkspaceIndexer
  calls : List ReindexCall

/-- The calls that the events for the files make. -/
def Watcher.started (filePaths : List String) (s : WorkspaceIndexer) : Watcher :=
  ⟨s, filePaths.map fun filePath => ⟨filePath, .waiting⟩⟩

section Steps

variable (parser : Parser) (hashText : String → String) (disk : Disk)

/-- `reindexFile` from where the call is suspended to its next `await`. -/
def resume (c : ReindexCall) (s : WorkspaceIndexer) : WorkspaceIndexer × Phase :=
  match c.phase with
  | .waiting => (removeFile c.filePath s, .reading (s.index.definedIn c.filePath))
  | .reading _ =>
    let r := indexFile parser hashText disk c.filePath s []
    (r.1, .merged r.2)
  | .merged deferred => (finishIndexing disk s deferred, .done)
  | .done => (s, .done)

/-- The event loop, in which any call can be the next one to go on. -/
def eventLoop : Machine Watcher Nat Unit where
  step w k :=
    match w.calls[k]? with
    | none => ((), w)
    | some c =>
      let r := resume parser hashText disk c w.indexer
      ((), ⟨r.1, w.calls.set k ⟨c.filePath, r.2⟩⟩)

/-- The calls run one after another. -/
def reindexFiles (filePaths : List String) (s : WorkspaceIndexer) : WorkspaceIndexer :=
  filePaths.foldl (fun s filePath => reindexFile parser hashText disk filePath s) s

end Steps

section Conditions

variable (parser : Parser) (disk : Disk)

/-- A call of another file has removed definitions of the function and not merged yet. -/
def Watcher.Hidden (w : Watcher) (filePath functionName : String) : Prop :=
  ∃ b ∈ w.calls, b.filePath ≠ filePath ∧ functionName ∈ b.phase.removed

instance (w : Watcher) (filePath functionName : String) : Decidable (w.Hidden filePath functionName) :=
  inferInstanceAs (Decidable (∃ b ∈ w.calls, b.filePath ≠ filePath ∧ functionName ∈ b.phase.removed))

/-- The call goes on as it would if the others ran before or after it. -/
structure Undisturbed (w : Watcher) (c : ReindexCall) : Prop where
  alone : c.phase = .waiting → ∀ b ∈ w.calls, b.filePath = c.filePath → ¬ b.phase.Busy
  uninterrupted : c.phase.reads = true → ∀ b ∈ w.calls, b.phase.deferred = []
  direct : c.phase.reads = true → ∀ text, disk c.filePath = some text →
    let P := parser.parseFileWithDefs c.filePath text
    ∀ n ∈ P.assigned (w.indexer.index.declare P.parsed).knownRoots,
      n ∈ P.defined ∨ ¬ w.Hidden c.filePath n
  positional : ∀ d ∈ c.phase.deferred,
    ∀ x ∈ d.initializers.zip ((w.indexer.index.apiStructFields.get d.apiType).getD []),
      (∃ e ∈ w.indexer.index.functionDefinitions.listAt x.1, e.file = c.filePath) ∨
        ¬ w.Hidden c.filePath x.1

instance (w : Watcher) (c : ReindexCall) :
    Decidable (Undisturbed parser disk w c) :=
  decidable_of_iff
    ((c.phase = .waiting → ∀ b ∈ w.calls, b.filePath = c.filePath → ¬ b.phase.Busy) ∧
      (c.phase.reads = true → ∀ b ∈ w.calls, b.phase.deferred = []) ∧
      (c.phase.reads = true → ∀ text ∈ disk c.filePath,
        ∀ n ∈ (parser.parseFileWithDefs c.filePath text).assigned
            (w.indexer.index.declare (parser.parseFileWithDefs c.filePath text).parsed).knownRoots,
          n ∈ (parser.parseFileWithDefs c.filePath text).defined ∨ ¬ w.Hidden c.filePath n) ∧
      ∀ d ∈ c.phase.deferred,
        ∀ x ∈ d.initializers.zip ((w.indexer.index.apiStructFields.get d.apiType).getD []),
          (∃ e ∈ w.indexer.index.functionDefinitions.listAt x.1, e.file = c.filePath) ∨
            ¬ w.Hidden c.filePath x.1)
    ⟨fun h => ⟨h.1, h.2.1, h.2.2.1, h.2.2.2⟩, fun h => ⟨h.alone, h.uninterrupted, h.direct, h.positional⟩⟩

/-- The step is one of a call that is undisturbed, or no call has that number. -/
def Calm (w : Watcher) (k : Nat) : Prop :=
  ∀ c, w.calls[k]? = some c → Undisturbed parser disk w c

instance (w : Watcher) (k : Nat) : Decidable (Calm parser disk w k) :=
  inferInstanceAs (Decidable (∀ c ∈ w.calls[k]?, Undisturbed parser disk w c))

end Conditions

section Serial

/-- A call of the file has removed its records and not merged yet. -/
def reads (calls : List ReindexCall) (file : String) : Bool :=
  calls.any fun c => c.phase.reads && decide (c.filePath = file)

variable (parser : Parser) (hashText : String → String) (disk : Disk)

/-- Between two steps: the calls that have merged, one after another in this order, lead to
the view `base`, up to the positional vtables that wait; the index lacks the records of the
files that are read. -/
structure Serialised (s₀ : WorkspaceIndexer) (w : Watcher) (order : List String) (base : View) :
    Prop where
  shown : view w.indexer.index = base.filter fun file => !reads w.calls file
  resolved : (w.calls.flatMap fun c => c.phase.deferred).foldl View.resolve base =
    view (reindexFiles parser hashText disk order s₀).index
  removed : ∀ c ∈ w.calls, c.phase.reads = true →
    ∀ n, ∀ d ∈ base.definitions n, d.file = c.filePath → n ∈ c.phase.removed
  alone : w.calls.Pairwise fun b c => b.filePath = c.filePath → ¬ (b.phase.Busy ∧ c.phase.Busy)
  single : w.calls.Pairwise fun b c => b.phase.deferred = [] ∨ c.phase.deferred = []
  own : ∀ c ∈ w.calls, ∀ d ∈ c.phase.deferred, d.filePath = c.filePath
  merged : order.Perm ((w.calls.filter fun c => c.phase.hasMerged).map ReindexCall.filePath)

end Serial

section Replacing

variable {front rest : List ReindexCall} {c : ReindexCall}

theorem forall_mem_middle {P : ReindexCall → Prop} :
    (∀ b ∈ front ++ c :: rest, P b) ↔ P c ∧ ∀ b ∈ front ++ rest, P b := by
  simp only [List.mem_append, List.mem_cons]
  constructor
  · exact fun all => ⟨all c (.inr (.inl rfl)), fun b member => all b (by tauto)⟩
  · rintro ⟨first, others⟩ b (member | rfl | member)
    · exact others b (.inl member)
    · exact first
    · exact others b (.inr member)

theorem pairwise_replace {R : ReindexCall → ReindexCall → Prop} (symm : ∀ {b c}, R b c → R c b)
    {c' : ReindexCall} (all : (front ++ c :: rest).Pairwise R)
    (kept : ∀ b ∈ front ++ rest, R c b → R c' b) : (front ++ c' :: rest).Pairwise R := by
  rw [List.pairwise_middle symm, List.pairwise_cons] at all ⊢
  exact ⟨fun b member => kept b member (all.1 b member), all.2⟩

theorem reads_middle (file : String) :
    reads (front ++ c :: rest) file =
      (c.phase.reads && decide (c.filePath = file) || reads (front ++ rest) file) := by
  unfold reads
  rw [List.any_append, List.any_cons, List.any_append, Bool.or_left_comm]

theorem reads_of_mem {calls : List ReindexCall} {file : String} :
    reads calls file = true ↔ ∃ b ∈ calls, b.phase.reads = true ∧ b.filePath = file := by
  unfold reads
  rw [List.any_eq_true]
  simp

theorem reads_idle {calls : List ReindexCall} {file : String}
    (idle : ∀ b ∈ calls, b.filePath = file → ¬ b.phase.Busy) : reads calls file = false := by
  rw [Bool.eq_false_iff]
  intro pending
  obtain ⟨b, member, reading, path⟩ := reads_of_mem.1 pending
  exact idle b member path (.inl reading)

/-- While a file is read the index shows what it shows without the file. -/
theorem filter_reading (reading : c.phase.reads = true) (v : View) :
    v.filter (fun file => !reads (front ++ c :: rest) file) =
      (v.remove c.filePath).filter fun file => !reads (front ++ rest) file := by
  unfold View.remove
  rw [View.filter_filter]
  congr 1
  funext file
  rw [reads_middle, reading]
  by_cases here : file = c.filePath
  · simp [here]
  · simp [here, Ne.symm here]

/-- What waits is what one call has left when the others have nothing. -/
theorem deferred_only (none_waits : ∀ b ∈ front ++ rest, b.phase.deferred = []) :
    ((front ++ c :: rest).flatMap fun b => b.phase.deferred) = c.phase.deferred := by
  have others := List.flatMap_eq_nil_iff.2 none_waits
  rw [List.flatMap_append] at others
  obtain ⟨front_none, rest_none⟩ := List.append_eq_nil_iff.1 others
  rw [List.flatMap_append, List.flatMap_cons, front_none, rest_none, List.nil_append, List.append_nil]

end Replacing

section StepLemmas

variable {parser : Parser} {hashText : String → String} {disk : Disk} {s₀ s : WorkspaceIndexer}
  {w : Watcher} {order : List String} {base : View} {front rest : List ReindexCall} {c : ReindexCall}

/-- While a call is busy the other calls of its file are not. -/
theorem Serialised.idle (h : Serialised parser hashText disk s₀ ⟨s, front ++ c :: rest⟩ order base)
    (busy : c.phase.Busy) : ∀ b ∈ front ++ rest, b.filePath = c.filePath → ¬ b.phase.Busy := by
  have alone := h.alone
  rw [List.pairwise_middle fun apart same both => apart same.symm both.symm, List.pairwise_cons] at alone
  exact fun b member same both => alone.1 b member same.symm ⟨busy, both⟩

/-- A function that is not hidden has no definition in the files that other calls read. -/
theorem Serialised.visible (h : Serialised parser hashText disk s₀ w order base) {X n : String}
    (seen : ¬ w.Hidden X n) {d : FunctionDefinitionRecord} (listed : d ∈ base.definitions n)
    (other : d.file ≠ X) : reads w.calls d.file = false := by
  rw [Bool.eq_false_iff]
  intro pending
  obtain ⟨b, member, reading, path⟩ := reads_of_mem.1 pending
  exact seen ⟨b, member, path ▸ other, h.removed b member reading n d listed path.symm⟩

/-- A call starts: its file is out of the index until it merges. -/
theorem Serialised.starts (h : Serialised parser hashText disk s₀ ⟨s, front ++ c :: rest⟩ order base)
    (waiting : c.phase = .waiting) (calm : Undisturbed parser disk ⟨s, front ++ c :: rest⟩ c) :
    Serialised parser hashText disk s₀
      ⟨removeFile c.filePath s,
        front ++ ⟨c.filePath, .reading (s.index.definedIn c.filePath)⟩ :: rest⟩ order base := by
  have idle := calm.alone waiting
  rw [forall_mem_middle] at idle
  have before : ∀ file, reads (front ++ c :: rest) file = reads (front ++ rest) file := by
    intro file
    rw [reads_middle, waiting]
    rfl
  constructor
  · show view (removeFileRecords s.index c.filePath) = _
    rw [view_removeFileRecords, h.shown]
    unfold View.remove
    rw [View.filter_filter]
    congr 1
    funext file
    rw [before, reads_middle]
    by_cases here : file = c.filePath
    · simp [here, Phase.reads]
    · simp [here, Ne.symm here]
  · rw [← h.resolved]
    simp [Phase.deferred, waiting]
  · rw [forall_mem_middle]
    refine ⟨fun _ n d listed path => ?_, (forall_mem_middle.1 h.removed).2⟩
    -- the file was not read, so the index listed the definition
    have shown : d ∈ (view s.index).definitions n := by
      rw [h.shown]
      refine List.mem_filter.2 ⟨listed, ?_⟩
      rw [path]
      show (!reads (front ++ c :: rest) c.filePath) = true
      rw [before, reads_idle idle.2]
      rfl
    exact path ▸ NavigationIndex.mem_definedIn shown
  · refine pairwise_replace (fun apart same both => apart same.symm both.symm) h.alone ?_
    exact fun b member _ same both => idle.2 b member same.symm both.2
  · exact pairwise_replace Or.symm h.single fun b _ _ => .inl rfl
  · rw [forall_mem_middle]
    exact ⟨fun d waits => absurd waits List.not_mem_nil, (forall_mem_middle.1 h.own).2⟩
  · refine h.merged.trans (.of_eq ?_)
    simp [Phase.hasMerged, waiting]

/-- What a call finds does not depend on the files that other calls read. -/
theorem Serialised.direct (h : Serialised parser hashText disk s₀ ⟨s, front ++ c :: rest⟩ order base)
    (reading : c.phase.reads = true) (calm : Undisturbed parser disk ⟨s, front ++ c :: rest⟩ c)
    {text : String} (read : disk c.filePath = some text) :
    View.DirectWithin (fun file => !reads (front ++ rest) file) (base.remove c.filePath)
      (parser.parseFileWithDefs c.filePath text) := by
  have sourced := parser.sourced c.filePath text
  have path : (parser.parseFileWithDefs c.filePath text).path = c.filePath := sourced.path
  intro n assigned
  have known : ((base.remove c.filePath).declare (parser.parseFileWithDefs c.filePath text)).known =
      (s.index.declare (parser.parseFileWithDefs c.filePath text).parsed).knownRoots := by
    show _ = (view (s.index.declare (parser.parseFileWithDefs c.filePath text).parsed)).known
    rw [view_declare, h.shown]
    rfl
  rw [known] at assigned
  rw [path]
  rcases calm.direct reading text read n assigned with here | seen
  · obtain ⟨d, member, name⟩ := List.mem_map.1 here
    exact .inl ⟨d, member, name, sourced.functions d member⟩
  · refine .inr (.inr fun d listed => ?_)
    obtain ⟨there, other⟩ := List.mem_filter.1 listed
    have visible := h.visible seen there (of_decide_eq_true other)
    rw [reads_middle, Bool.or_eq_false_iff] at visible
    show (!reads (front ++ rest) d.file) = true
    rw [visible.2]
    rfl

/-- Merging the file gives the index what merging it in its place gives. -/
theorem Serialised.shows_merge (h : Serialised parser hashText disk s₀ ⟨s, front ++ c :: rest⟩ order base)
    (reading : c.phase.reads = true) (calm : Undisturbed parser disk ⟨s, front ++ c :: rest⟩ c) :
    (parser.parses disk [c.filePath]).foldl View.merge (view s.index) =
      ((parser.parses disk [c.filePath]).foldl View.merge (base.remove c.filePath)).filter
        fun file => !reads (front ++ rest) file := by
  rw [h.shown, filter_reading reading]
  cases read : disk c.filePath with
  | none => simp [Parser.parses, read]
  | some text =>
    have path : (parser.parseFileWithDefs c.filePath text).path = c.filePath :=
      (parser.sourced c.filePath text).path
    simp only [Parser.parses, List.filterMap_cons, List.filterMap_nil, read, Option.map_some,
      List.foldl_cons, List.foldl_nil]
    refine (View.filter_merge ?_ ?_ (h.direct reading calm read)).symm
    · rw [path]
      exact parser.sourced c.filePath text
    · rw [path, reads_idle (h.idle (.inl reading))]
      rfl

theorem sourced_parses_one {filePath : String} {P : FileParse}
    (parsed : P ∈ parser.parses disk [filePath]) : P.SourcedFrom filePath := by
  obtain ⟨X, only, read⟩ := List.mem_filterMap.1 parsed
  obtain ⟨text, -, rfl⟩ := Option.map_eq_some_iff.1 read
  exact List.mem_singleton.1 only ▸ parser.sourced X text

/-- A call merges: it takes its place behind those that have merged. -/
theorem Serialised.merges (h : Serialised parser hashText disk s₀ ⟨s, front ++ c :: rest⟩ order base)
    (reading : c.phase.reads = true) (calm : Undisturbed parser disk ⟨s, front ++ c :: rest⟩ c) :
    let r := indexFile parser hashText disk c.filePath s []
    Serialised parser hashText disk s₀ ⟨r.1, front ++ ⟨c.filePath, .merged r.2⟩ :: rest⟩
      (order ++ [c.filePath])
      ((parser.parses disk [c.filePath]).foldl View.merge (base.remove c.filePath)) := by
  intro r
  obtain ⟨merged, deferred⟩ : view r.1.index =
      (parser.parses disk [c.filePath]).foldl View.merge (view s.index) ∧
        r.2 = (parser.parses disk [c.filePath]).flatMap FileParse.deferred :=
    view_indexFiles parser hashText disk [c.filePath] s
  have idle := h.idle (.inl reading)
  obtain ⟨none_left, none_waits⟩ := forall_mem_middle.1 (calm.uninterrupted reading)
  constructor
  · have after : ∀ file, reads (front ++ ⟨c.filePath, .merged r.2⟩ :: rest) file =
        reads (front ++ rest) file := fun file => reads_middle file
    simp only [after]
    exact merged.trans (h.shows_merge reading calm)
  · have serial : view (reindexFiles parser hashText disk order s₀).index = base := by
      rw [← h.resolved]
      show List.foldl _ base (List.flatMap _ (front ++ c :: rest)) = base
      rw [deferred_only none_waits, none_left]
      rfl
    show List.foldl _ _ (List.flatMap _ (front ++ ⟨c.filePath, .merged r.2⟩ :: rest)) = _
    rw [deferred_only none_waits]
    show List.foldl _ _ r.2 = _
    unfold reindexFiles at serial ⊢
    rw [List.foldl_append, List.foldl_cons, List.foldl_nil, view_reindexFile, serial, deferred]
    rfl
  · rw [forall_mem_middle]
    refine ⟨fun reads => absurd reads Bool.false_ne_true, fun b member pending n d listed path => ?_⟩
    rw [View.foldl_merge_definitions] at listed
    rcases List.mem_append.1 listed with kept | own
    · exact (forall_mem_middle.1 h.removed).2 b member pending n d (List.mem_of_mem_filter kept) path
    · obtain ⟨P, parsed, defined⟩ := List.mem_flatMap.1 (List.mem_of_mem_filter own)
      have file : d.file = c.filePath := (sourced_parses_one parsed).functions d defined
      exact absurd (.inl pending) (idle b member (path.symm.trans file))
  · refine pairwise_replace (fun apart same both => apart same.symm both.symm) h.alone ?_
    exact fun b member _ same both => idle b member same.symm both.2
  · exact pairwise_replace Or.symm h.single fun b member _ => .inr (none_waits b member)
  · rw [forall_mem_middle]
    refine ⟨fun d member => ?_, (forall_mem_middle.1 h.own).2⟩
    change d ∈ r.2 at member
    rw [deferred] at member
    obtain ⟨P, parsed, pending⟩ := List.mem_flatMap.1 member
    obtain ⟨pp, listed, rfl⟩ := List.mem_map.1 pending
    exact (sourced_parses_one parsed).positional pp listed
  · have unmerged : c.phase.hasMerged = false := by
      cases phase : c.phase <;> simp_all [Phase.reads, Phase.hasMerged]
    have before := h.merged
    rw [List.filter_append, List.filter_cons_of_neg (by simp [unmerged]), List.map_append] at before
    show List.Perm _ (((front ++ ⟨c.filePath, .merged r.2⟩ :: rest).filter _).map _)
    rw [List.filter_append, List.filter_cons_of_pos rfl, List.map_append, List.map_cons]
    refine (before.append_right _).trans ?_
    rw [List.append_assoc]
    exact (List.perm_append_singleton _ _).append_left _

/-- What a call finds for its positional vtables does not depend on them either. -/
theorem Serialised.positional (h : Serialised parser hashText disk s₀ ⟨s, front ++ c :: rest⟩ order base)
    (calm : Undisturbed parser disk ⟨s, front ++ c :: rest⟩ c) {d : DeferredPositional}
    (pending : d ∈ c.phase.deferred) :
    View.PositionalWithin (fun file => !reads (front ++ rest) file) base d := by
  have path : d.filePath = c.filePath := h.own c (by simp) d pending
  have idle := reads_idle (h.idle (.inr (List.ne_nil_of_mem pending)))
  intro x zipped
  have fields : base.fields = s.index.apiStructFields.get :=
    (congrArg View.fields h.shown).symm
  rw [fields] at zipped
  rw [path]
  rcases calm.positional d pending x zipped with ⟨e, listed, file⟩ | seen
  · have there : e ∈ (view s.index).definitions x.1 := listed
    rw [h.shown] at there
    exact .inr (.inl ⟨e, List.mem_of_mem_filter there, file⟩)
  · refine .inr (.inr fun e listed => ?_)
    show (!reads (front ++ rest) e.file) = true
    by_cases here : e.file = c.filePath
    · rw [here, idle]
      rfl
    · have visible := h.visible seen listed here
      rw [reads_middle, Bool.or_eq_false_iff] at visible
      rw [visible.2]
      rfl

/-- A call finishes: its positional vtables are resolved as if right after its merge. -/
theorem Serialised.finishes (h : Serialised parser hashText disk s₀ ⟨s, front ++ c :: rest⟩ order base)
    {deferred : List DeferredPositional} (merged : c.phase = .merged deferred)
    (calm : Undisturbed parser disk ⟨s, front ++ c :: rest⟩ c) :
    Serialised parser hashText disk s₀
      ⟨finishIndexing disk s deferred, front ++ ⟨c.filePath, .done⟩ :: rest⟩ order
      (deferred.foldl View.resolve base) := by
  have pending : c.phase.deferred = deferred := by rw [merged]; rfl
  have before : ∀ file, reads (front ++ c :: rest) file = reads (front ++ rest) file := by
    intro file
    rw [reads_middle, merged]
    rfl
  constructor
  · have inside : ∀ d ∈ deferred, (!reads (front ++ rest) d.filePath) = true := by
      intro d member
      rw [← pending] at member
      rw [h.own c (by simp) d member, reads_idle (h.idle (.inr (List.ne_nil_of_mem member)))]
      rfl
    have within : ∀ d ∈ deferred, View.PositionalWithin
        (fun file => (!reads (front ++ rest) file) == !reads (front ++ rest) d.filePath) base d := by
      intro d member
      simp only [inside d member, beq_true]
      exact h.positional calm (pending ▸ member)
    have after : ∀ file, reads (front ++ ⟨c.filePath, .done⟩ :: rest) file =
        reads (front ++ rest) file := fun file => reads_middle file
    rw [view_finishIndexing, h.shown]
    simp only [before, after]
    rw [View.filter_foldl_resolve within, List.filter_eq_self.2 inside]
  · have resolved := h.resolved
    show List.foldl _ _ (List.flatMap _ (front ++ _ :: rest)) = _
    by_cases none_left : deferred = []
    · rw [List.flatMap_append, List.flatMap_cons, pending, none_left] at resolved
      rw [List.flatMap_append, List.flatMap_cons, none_left]
      exact resolved
    · -- no other call has positional vtables to resolve
      have single := h.single
      rw [List.pairwise_middle Or.symm, List.pairwise_cons] at single
      have others : ∀ b ∈ front ++ rest, b.phase.deferred = [] := fun b member =>
        (single.1 b member).resolve_left fun empty => none_left (pending.symm.trans empty)
      rw [deferred_only others, pending] at resolved
      rw [deferred_only others]
      exact resolved
  · rw [forall_mem_middle, (View.foldl_resolve_keeps deferred base).1]
    exact ⟨fun reads => absurd reads Bool.false_ne_true, (forall_mem_middle.1 h.removed).2⟩
  · refine pairwise_replace (fun apart same both => apart same.symm both.symm) h.alone ?_
    rintro b - - - ⟨reading | left, -⟩
    · cases reading
    · exact left rfl
  · exact pairwise_replace Or.symm h.single fun b _ _ => .inl rfl
  · rw [forall_mem_middle]
    exact ⟨fun d waits => absurd waits List.not_mem_nil, (forall_mem_middle.1 h.own).2⟩
  · refine h.merged.trans (.of_eq ?_)
    simp [Phase.hasMerged, merged]

end StepLemmas

section Runs

variable {parser : Parser} {hashText : String → String} {disk : Disk} {s₀ : WorkspaceIndexer}

theorem split_at_call {calls : List ReindexCall} {k : Nat} {c : ReindexCall} (call : calls[k]? = some c) :
    ∃ front rest, calls = front ++ c :: rest ∧ ∀ c', calls.set k c' = front ++ c' :: rest := by
  obtain ⟨bound, rfl⟩ := List.getElem?_eq_some_iff.1 call
  refine ⟨calls.take k, calls.drop (k + 1), ?_, fun c' => ?_⟩
  · rw [← List.drop_eq_getElem_cons bound, List.take_append_drop]
  · rw [List.set_eq_take_append_cons_drop, if_pos bound]

theorem Serialised.step {w : Watcher} {order : List String} {base : View}
    (h : Serialised parser hashText disk s₀ w order base) {k : Nat} (calm : Calm parser disk w k) :
    ∃ order base, Serialised parser hashText disk s₀ ((eventLoop parser hashText disk).step w k).2
      order base := by
  obtain ⟨s, calls⟩ := w
  unfold eventLoop
  dsimp only
  cases call : calls[k]? with
  | none => exact ⟨order, base, h⟩
  | some c =>
    have undisturbed := calm c call
    obtain ⟨front, rest, rfl, replaced⟩ := split_at_call call
    dsimp only
    rw [replaced]
    unfold resume
    cases phase : c.phase with
    | waiting => exact ⟨order, base, h.starts phase undisturbed⟩
    | reading names => exact ⟨_, _, h.merges (by rw [phase]; rfl) undisturbed⟩
    | merged deferred => exact ⟨order, _, h.finishes phase undisturbed⟩
    | done =>
      have same : c = ⟨c.filePath, .done⟩ := by rw [← phase]
      rw [same] at h
      exact ⟨order, base, h⟩

theorem serialised_started (filePaths : List String) :
    Serialised parser hashText disk s₀ (.started filePaths s₀) [] (view s₀.index) where
  shown := by
    refine (View.filter_of_all (fun file => ?_) _).symm
    rw [reads_idle]
    · rfl
    · simp [Watcher.started, Phase.Busy, Phase.reads, Phase.deferred]
  resolved := by
    have none_left : (Watcher.started filePaths s₀).calls.flatMap (fun c => c.phase.deferred) = [] := by
      simp [Watcher.started, Phase.deferred]
    rw [none_left]
    rfl
  removed := by simp [Watcher.started, Phase.reads]
  alone := by
    unfold Watcher.started
    rw [List.pairwise_map]
    exact List.pairwise_of_forall fun _ _ => by simp [Phase.Busy, Phase.reads, Phase.deferred]
  single := by
    unfold Watcher.started
    rw [List.pairwise_map]
    exact List.pairwise_of_forall fun _ _ => .inl rfl
  own := by simp [Watcher.started, Phase.deferred]
  merged := by simp [Watcher.started, Phase.hasMerged]

theorem step_filePaths (w : Watcher) (k : Nat) :
    ((eventLoop parser hashText disk).step w k).2.calls.map ReindexCall.filePath =
      w.calls.map ReindexCall.filePath := by
  unfold eventLoop
  dsimp only
  cases call : w.calls[k]? with
  | none => rfl
  | some c =>
    obtain ⟨front, rest, split, replaced⟩ := split_at_call call
    dsimp only
    rw [replaced, split, List.map_append, List.map_append, List.map_cons, List.map_cons]

/-- Once all calls have finished nothing is left out and nothing waits. -/
theorem Serialised.finished {w : Watcher} {order : List String} {base : View}
    (h : Serialised parser hashText disk s₀ w order base) (done : ∀ c ∈ w.calls, c.phase = .done) :
    order.Perm (w.calls.map ReindexCall.filePath) ∧
      view w.indexer.index = view (reindexFiles parser hashText disk order s₀).index := by
  have idle : ∀ file, (!reads w.calls file) = true := by
    intro file
    rw [reads_idle]
    · rfl
    · intro c member _
      rw [done c member]
      simp [Phase.Busy, Phase.reads, Phase.deferred]
  have none_left : w.calls.flatMap (fun c => c.phase.deferred) = [] :=
    List.flatMap_eq_nil_iff.2 fun c member => by rw [done c member]; rfl
  have all : w.calls.filter (fun c => c.phase.hasMerged) = w.calls :=
    List.filter_eq_self.2 fun c member => by rw [done c member]; rfl
  constructor
  · exact all ▸ h.merged
  · rw [← h.resolved, none_left, h.shown]
    exact View.filter_of_all idle base

/-- Overlapping calls whose steps are undisturbed leave the records that the calls leave when
they are run one after another. -/
theorem overlapping_calls_serialise {filePaths : List String} {ks : List Nat}
    (calm : (eventLoop parser hashText disk).Along (Calm parser disk) (.started filePaths s₀) ks)
    (done : ∀ c ∈ ((eventLoop parser hashText disk).run (.started filePaths s₀) ks).calls, c.phase = .done) :
    ∃ order, order.Perm filePaths ∧
      (view ((eventLoop parser hashText disk).run (.started filePaths s₀) ks).indexer.index).SameRecords
        (view (reindexFiles parser hashText disk order s₀).index) := by
  obtain ⟨⟨order, base, h⟩, paths⟩ := Machine.invariant
    (I := fun w => (∃ order base, Serialised parser hashText disk s₀ w order base) ∧
      w.calls.map ReindexCall.filePath = filePaths)
    (fun w k inv undisturbed => by
      obtain ⟨⟨order, base, h⟩, paths⟩ := inv
      exact ⟨h.step undisturbed, (step_filePaths w k).trans paths⟩)
    ⟨⟨[], _, serialised_started filePaths⟩, by simp [Watcher.started, Function.comp_def]⟩ calm
  obtain ⟨perm, same⟩ := h.finished done
  refine ⟨order, paths ▸ perm, ?_⟩
  rw [same]
  exact ⟨fun _ _ => .rfl, fun _ => .rfl, fun _ => .rfl⟩

end Runs

/-- Two files whose calls overlap, the vtable merged before the function that it names. -/
theorem overlapping_calls_log :
    ∃ order, order.Perm ["/w/log.c", "/w/init.c"] ∧
      (view ((eventLoop logParser id logDisk).run (.started ["/w/log.c", "/w/init.c"] .fresh)
        [0, 1, 1, 0, 1, 0]).indexer.index).SameRecords
        (view (reindexFiles logParser id logDisk order .fresh).index) :=
  overlapping_calls_serialise (by decide) (by decide)

/-- Two calls of one file that both remove its records before either merges list them twice. -/
theorem overlap_lists_twice :
    ¬ ∀ (filePaths : List String) (s₀ : WorkspaceIndexer) (ks : List Nat),
      (∀ c ∈ ((eventLoop logParser id logDisk).run (.started filePaths s₀) ks).calls, c.phase = .done) →
      ∃ order, order.Perm filePaths ∧
        (view ((eventLoop logParser id logDisk).run (.started filePaths s₀) ks).indexer.index).SameRecords
          (view (reindexFiles logParser id logDisk order s₀).index) := by
  intro all
  obtain ⟨order, perm, same⟩ := all ["/w/log.c", "/w/log.c"]
    (fullIndex logParser id logDisk ["/w/log.c"] .fresh) [0, 1, 0, 0, 1, 1] (by decide)
  have both : order = List.replicate 2 "/w/log.c" := List.perm_replicate.1 perm
  subst both
  have twice := same.definitions "Log"
  revert twice
  decide
end LibJuno.Indexer
