import LibJuno.Indexer.LoadFromCache

/-!
# A workspace before and after some changes

Some files of an indexed workspace are edited and some are added. A loaded index keeps the
saved records that lie in unchanged files, and removes and merges those of the changed ones
in the order of the scan, on top of what was saved. When the unchanged files define
nothing and the changed ones do not look into texts that are gone, this gives the records
of a full pass over the current files.
-/

namespace LibJuno.Indexer

/-- A file of the current workspace, with the text it had when the index was saved. -/
structure FileChange where
  filePath : String
  old : Option String
  new : String

/-- The files in the order of the scan. Edits and additions leave the order of the others. -/
abbrev Changes := List FileChange

namespace FileChange

/-- The file was edited or added. -/
def changed (c : FileChange) : Bool := decide (c.old ≠ some c.new)

variable (parser : Parser)

def parse (c : FileChange) : FileParse := parser.parseFileWithDefs c.filePath c.new

/-- The parse of the saved text, when there was one. -/
def oldParse (c : FileChange) : List FileParse :=
  c.old.toList.map (parser.parseFileWithDefs c.filePath)

theorem parse_path (c : FileChange) : (c.parse parser).path = c.filePath :=
  (parser.sourced c.filePath c.new).path

theorem parse_sourced (c : FileChange) : (c.parse parser).SourcedFrom (c.parse parser).path := by
  rw [c.parse_path parser]
  exact parser.sourced c.filePath c.new

theorem oldParse_sourced {c : FileChange} {Q : FileParse} (h : Q ∈ c.oldParse parser) :
    Q.path = c.filePath ∧ Q.SourcedFrom Q.path := by
  obtain ⟨text, -, rfl⟩ := List.mem_map.1 h
  have sourced := parser.sourced c.filePath text
  refine ⟨sourced.path, ?_⟩
  unfold FileParse.path
  rwa [sourced.path]

theorem oldParse_unchanged {c : FileChange} (unchanged : c.changed = false) :
    c.oldParse parser = [c.parse parser] := by
  unfold oldParse parse
  rw [not_not.1 (of_decide_eq_false unchanged)]
  rfl

end FileChange

namespace Changes

open FileChange

/-- The workspace that was indexed and saved. -/
def saved (cs : Changes) : Workspace := cs.flatMap fun c => c.old.toList.map (Prod.mk c.filePath)

/-- The workspace that the new indexer finds. -/
def current (cs : Changes) : Workspace := cs.map fun c => (c.filePath, c.new)

/-- The file was edited or added. -/
def touches (cs : Changes) (file : String) : Bool :=
  decide (file ∈ (cs.filter changed).map filePath)

theorem current_files (cs : Changes) : cs.current.files = cs.map filePath := List.map_map ..

theorem touches_of_mem {cs : Changes} (distinct : cs.current.files.Nodup) {c : FileChange}
    (member : c ∈ cs) : cs.touches c.filePath = c.changed := by
  rw [current_files] at distinct
  unfold touches
  cases changed : c.changed with
  | true => exact decide_eq_true (List.mem_map_of_mem (List.mem_filter.2 ⟨member, changed⟩))
  | false =>
    refine decide_eq_false fun h => ?_
    obtain ⟨b, among, same⟩ := List.mem_map.1 h
    obtain ⟨member', edited⟩ := List.mem_filter.1 among
    obtain rfl := List.inj_on_of_nodup_map distinct member' member same
    rw [changed] at edited
    cases edited

variable (parser : Parser)

/-- The new parses of the changed files. -/
def renewed (cs : Changes) : List FileParse := (cs.filter changed).map (FileChange.parse parser)

theorem saved_parses (cs : Changes) : cs.saved.parses parser = cs.flatMap (FileChange.oldParse parser) := by
  unfold saved Workspace.parses FileChange.oldParse
  rw [List.map_flatMap]
  congr 1
  funext c
  rw [List.map_map]
  rfl

theorem current_parses (cs : Changes) : cs.current.parses parser = cs.map (FileChange.parse parser) :=
  List.map_map ..

theorem saved_files_sublist (cs : Changes) : cs.saved.files.Sublist cs.current.files := by
  induction cs with
  | nil => exact List.Sublist.refl _
  | cons c cs ih =>
    unfold saved current Workspace.files at *
    rw [List.flatMap_cons, List.map_append, List.map_cons, List.map_cons]
    cases c.old with
    | none => exact ih.cons _
    | some text => exact ih.cons_cons _

/-- What the files had declared when the records that a loaded index has of the file were
made: the files scanned before it, or, if it was changed, all that were saved and the
changed ones before it. -/
def declarers (cs before : Changes) (c : FileChange) : List FileParse :=
  if c.changed then cs.saved.parses parser ++ renewed parser (before ++ [c])
  else (saved (before ++ [c])).parses parser

/-- Unchanged files assign nothing that the files before them define. -/
def Unfound (cs : Changes) (kind : AssignmentKind) : Prop :=
  ∀ before c after, cs = before ++ c :: after → c.changed = false →
    ∀ n ∈ (c.parse parser).names (declaredRoots ((current (before ++ [c])).parses parser)) kind,
      ∀ Q ∈ (saved before).parses parser ++ (current before).parses parser, n ∉ Q.defined

/-- The assignments of a kind find in a loaded index what they find in a full pass: an
unchanged file assigns nothing that the files before it define, a changed one only what it
defines or no later file had defined, and the root types are the same. -/
structure Finds (cs : Changes) (kind : AssignmentKind) : Prop where
  unchanged : cs.Unfound parser kind
  changed : ∀ before c after, cs = before ++ c :: after → c.changed = true →
    ∀ n ∈ (c.parse parser).names (declaredRoots ((current (before ++ [c])).parses parser)) kind,
      n ∈ (c.parse parser).defined ∨ ∀ Q ∈ (saved after).parses parser, n ∉ Q.defined
  roots : ∀ before c after, cs = before ++ c :: after → ∀ r ∈ (c.parse parser).rooted kind,
    (c.parse parser).handlerRoot (declaredRoots (cs.declarers parser before c)) r =
      (c.parse parser).handlerRoot (declaredRoots ((current (before ++ [c])).parses parser)) r

/-- No unchanged file defines a function. -/
def Quiet (cs : Changes) : Prop := ∀ c ∈ cs, c.changed = false → (c.parse parser).functionDefs = []

/-- What the changed files assign by position, with the definitions of all files, and the
fields that the saved files declare and then the changed ones. -/
def replaced (cs : Changes) (a f : String) : List ConcreteLocation :=
  (cs.renewed parser).flatMap fun P =>
    P.placedAt (definitionsOf (cs.current.parses parser))
      (declaredFields (cs.saved.parses parser ++ cs.renewed parser)) a f

/-- The positional assignments that lead their sites are those of a full pass: at places in
unchanged files those of the saved scan, at places in changed files those of the changed files. -/
structure Leads (cs : Changes) : Prop where
  unchanged : ∀ a f l, cs.touches l.file = false →
    (Leading (cs.saved.parses parser) a f l ↔ Leading (cs.current.parses parser) a f l)
  changed : ∀ a f l, cs.touches l.file = true →
    (FirstOfKey.Leads ConcreteLocation.site (directs (cs.current.parses parser) a f) (cs.replaced parser a f) l ↔
      Leading (cs.current.parses parser) a f l)

end Changes

namespace View

/-- Files that are renewed declare as files that are merged. -/
theorem foldl_renew_declares (Ps : List FileParse) (v : View) :
    (Ps.foldl renew v).known = (Ps.foldl merge v).known ∧
      (Ps.foldl renew v).fields = (Ps.foldl merge v).fields := by
  have general : ∀ v w : View, v.known = w.known → v.fields = w.fields →
      (Ps.foldl renew v).known = (Ps.foldl merge w).known ∧
        (Ps.foldl renew v).fields = (Ps.foldl merge w).fields := by
    induction Ps with
    | nil => exact fun _ _ known fields => ⟨known, fields⟩
    | cons P Ps ih =>
      intro v w known fields
      apply ih
      · show (fun t => v.known t || decide (t ∈ P.rootTypes)) = fun t => w.known t || _
        rw [known]
      · show declareFields P.parsed.apiStructDefinitions v.fields = declareFields _ w.fields
        rw [fields]
  exact general v v rfl rfl

/-- Renewed files have the definitions of their new texts, behind those of the other files. -/
theorem foldl_renew_definitions {Ps : List FileParse} (distinct : (Ps.map FileParse.path).Nodup)
    (sourced : ∀ P ∈ Ps, P.SourcedFrom P.path) (v : View) (n : String) :
    (Ps.foldl renew v).definitions n =
      (v.definitions n).filter (fun d => decide (d.file ∉ Ps.map FileParse.path)) ++ definitionsOf Ps n := by
  induction Ps generalizing v with
  | nil => simp [definitionsOf]
  | cons P Ps ih =>
    obtain ⟨first, distinct⟩ := List.nodup_cons.1 distinct
    obtain ⟨own, sourced⟩ := List.forall_mem_cons.1 sourced
    rw [List.foldl_cons, ih distinct sourced]
    show (List.filter _ _ ++ List.filter _ _).filter _ ++ definitionsOf Ps n = _
    have kept : (P.functionDefs.filter fun d => decide (d.functionName = n)).filter
        (fun d => decide (d.file ∉ Ps.map FileParse.path)) =
        P.functionDefs.filter fun d => decide (d.functionName = n) := by
      rw [List.filter_eq_self]
      intro d member
      rw [own.functions d (List.mem_of_mem_filter member)]
      exact decide_eq_true first
    have once : ∀ file, (decide (file ∉ Ps.map FileParse.path) && decide (file ≠ P.path)) =
        decide (file ∉ (P :: Ps).map FileParse.path) := by
      intro file
      by_cases here : file = P.path <;> simp [here]
    rw [List.filter_append, kept, List.filter_filter, List.append_assoc]
    simp only [once]
    unfold definitionsOf
    rw [List.flatMap_cons, List.filter_append]

end View

section Renewing

open FileChange Changes

variable {parser : Parser} {cs : Changes}

theorem renewed_paths (before : Changes) :
    (renewed parser before).map FileParse.path = (before.filter changed).map filePath := by
  unfold renewed
  rw [List.map_map]
  exact List.map_congr_left fun c _ => c.parse_path parser

theorem renewed_sourced (before : Changes) : ∀ P ∈ renewed parser before, P.SourcedFrom P.path := by
  intro P member
  obtain ⟨c, -, rfl⟩ := List.mem_map.1 member
  exact c.parse_sourced parser

theorem renewed_snoc (before : Changes) (c : FileChange) :
    renewed parser (before ++ [c]) =
      renewed parser before ++ if c.changed then [c.parse parser] else [] := by
  unfold renewed
  rw [List.filter_append, List.map_append, List.filter_singleton]
  cases c.changed <;> rfl

theorem touches_append (before after : Changes) (file : String) :
    touches (before ++ after) file = (before.touches file || after.touches file) := by
  unfold touches
  rw [List.filter_append, List.map_append, ← Bool.decide_or]
  exact decide_eq_decide.2 List.mem_append

theorem touches_singleton (c : FileChange) (file : String) :
    touches [c] file = (c.changed && decide (file = c.filePath)) := by
  unfold touches
  rw [List.filter_singleton]
  cases c.changed with
  | false => rfl
  | true =>
    rw [Bool.true_and]
    exact decide_eq_decide.2 List.mem_singleton

theorem touches_snoc_unchanged (before : Changes) {c : FileChange} (unchanged : c.changed = false) :
    touches (before ++ [c]) = before.touches := by
  funext file
  rw [touches_append, touches_singleton, unchanged, Bool.false_and, Bool.or_false]

theorem parses_snoc (before : Changes) (c : FileChange) :
    (saved (before ++ [c])).parses parser = (saved before).parses parser ++ c.oldParse parser ∧
      (current (before ++ [c])).parses parser = (current before).parses parser ++ [c.parse parser] := by
  rw [saved_parses, saved_parses, current_parses, current_parses, List.flatMap_append,
    List.flatMap_singleton, List.map_append]
  exact ⟨rfl, rfl⟩

theorem sourced_saved (bs : Changes) : ∀ R ∈ bs.flatMap (oldParse parser), R.SourcedFrom R.path := by
  intro R member
  obtain ⟨b, -, parsed⟩ := List.mem_flatMap.1 member
  exact (oldParse_sourced parser parsed).2

variable (distinct : cs.current.files.Nodup)

/-- The files before a file have other paths. -/
theorem other_path {before after : Changes} {c : FileChange} (distinct : cs.current.files.Nodup)
    (split : cs = before ++ c :: after) : ∀ b ∈ before, b.filePath ≠ c.filePath := by
  intro b member same
  rw [current_files, split, List.map_append, List.map_cons] at distinct
  exact (List.nodup_append.1 distinct).2.2 _ (List.mem_map_of_mem member) _ List.mem_cons_self same

section Definitions

variable (quiet : cs.Quiet parser)

include quiet

/-- Where nothing is defined in unchanged files, all definitions are in changed ones. -/
theorem defined_in_changed {before : Changes} (among : ∀ b ∈ before, b ∈ cs) {n : String}
    {d : FunctionDefinitionRecord}
    (listed : d ∈ definitionsOf ((saved before).parses parser) n ∨
      d ∈ definitionsOf ((current before).parses parser) n) :
    ∃ b ∈ before, b.changed = true ∧ d.file = b.filePath := by
  rcases listed with old | new
  · rw [saved_parses] at old
    obtain ⟨Q, member, there, -⟩ := mem_definitionsOf old
    obtain ⟨b, inside, parsed⟩ := List.mem_flatMap.1 member
    obtain ⟨path, sourced⟩ := oldParse_sourced parser parsed
    refine ⟨b, inside, ?_, (sourced.functions d there).trans path⟩
    cases changed : b.changed with
    | true => rfl
    | false =>
      rw [oldParse_unchanged parser changed, List.mem_singleton] at parsed
      rw [parsed, quiet b (among b inside) changed] at there
      cases there
  · rw [current_parses] at new
    obtain ⟨Q, member, there, -⟩ := mem_definitionsOf new
    obtain ⟨b, inside, rfl⟩ := List.mem_map.1 member
    refine ⟨b, inside, ?_, ((b.parse_sourced parser).functions d there).trans (b.parse_path parser)⟩
    cases changed : b.changed with
    | true => rfl
    | false =>
      rw [quiet b (among b inside) changed] at there
      cases there

/-- The changed files alone have the definitions of all. -/
theorem definitionsOf_renewed {before : Changes} (among : ∀ b ∈ before, b ∈ cs) (n : String) :
    definitionsOf (renewed parser before) n = definitionsOf ((current before).parses parser) n := by
  rw [current_parses]
  induction before using List.reverseRecOn with
  | nil => rfl
  | append_singleton before c ih =>
    rw [renewed_snoc, List.map_append, definitionsOf_append, definitionsOf_append,
      ih fun b h => among b (List.mem_append_left _ h)]
    congr 1
    cases changed : c.changed with
    | true => rfl
    | false =>
      rw [List.map_singleton, definitionsOf_singleton, quiet c (among c (by simp)) changed]
      rfl

end Definitions

end Renewing

section Lists

open FileChange Changes

variable {parser : Parser} {cs : Changes} {c : Contribution} {kind : AssignmentKind}
  (contribution : c.Local kind) (distinct : cs.current.files.Nodup) (quiet : cs.Quiet parser)

theorem listed_snoc (c : Contribution) (Rs : List FileParse) (R : FileParse) :
    listed c (Rs ++ [R]) = listed c Rs ++ c (declaredRoots (Rs ++ [R])) (definitionsOf Rs) R := by
  unfold listed
  rw [Prefixed.all_concat, List.flatMap_append, List.flatMap_singleton]

theorem definitionsOf_eq_nil {Rs : List FileParse} {n : String} (absent : ∀ Q ∈ Rs, n ∉ Q.defined) :
    definitionsOf Rs n = [] := by
  rw [List.eq_nil_iff_forall_not_mem]
  intro d listed
  obtain ⟨Q, member, -, defined⟩ := mem_definitionsOf listed
  exact absent Q member defined

/-- A function is found in the file itself, or where the listed definitions are. -/
theorem FileParse.finds_file {P : FileParse} {indexDefs : String → List FunctionDefinitionRecord}
    {q : String → Bool} (own : q P.path = true) {n : String} (all : ∀ d ∈ indexDefs n, q d.file = true) :
    q (P.finds indexDefs n).file = true :=
  (Settled.resolve (p := q) (.inr (.inr all)) own).2

/-- What the changed files add to a list in a full pass. -/
def Changes.fresh (parser : Parser) (c : Contribution) (before : Changes) : List ConcreteLocation :=
  (Prefixed.all before).flatMap fun x =>
    if x.2.changed then
      c (declaredRoots ((current (x.1 ++ [x.2])).parses parser))
        (definitionsOf ((current x.1).parses parser)) (x.2.parse parser)
    else []

theorem fresh_snoc (c : Contribution) (before : Changes) (b : FileChange) :
    fresh parser c (before ++ [b]) = fresh parser c before ++
      if b.changed then
        c (declaredRoots ((current (before ++ [b])).parses parser))
          (definitionsOf ((current before).parses parser)) (b.parse parser)
      else [] := by
  unfold fresh
  rw [Prefixed.all_concat, List.flatMap_append, List.flatMap_singleton]

section Files

variable {q : String → Bool} {before : Changes}

include contribution in
/-- The records of changed files are in changed files. -/
theorem fresh_file (quiet : cs.Quiet parser)
    (among : ∀ b ∈ before, b ∈ cs) (inside : ∀ b ∈ before, b.changed = true → q b.filePath = true) :
    ∀ l ∈ fresh parser c before, q l.file = true := by
  intro l member
  obtain ⟨x, there, added⟩ := List.mem_flatMap.1 member
  have within := Prefixed.of_mem_all there
  split at added
  · next changed =>
    have own : q (x.2.parse parser).path = true := by
      rw [x.2.parse_path parser]
      exact inside x.2 (within x.2 (by simp)) changed
    refine contribution.file (x.2.parse_sourced parser) own (fun n _ => FileParse.finds_file own ?_) l added
    intro d listed
    obtain ⟨b, earlier, edited, file⟩ := defined_in_changed quiet
      (fun b h => among b (within b (List.mem_append_left _ h))) (.inr listed)
    rw [file]
    exact inside b (within b (List.mem_append_left _ earlier)) edited
  · cases added

end Files

theorem touches_of_changed {b : FileChange} (member : b ∈ cs) (changed : b.changed = true) :
    cs.touches b.filePath = true :=
  decide_eq_true (List.mem_map_of_mem (List.mem_filter.2 ⟨member, changed⟩))

omit distinct in
include quiet contribution in
/-- What the saved text of a changed file added is at places in changed files. -/
theorem oldParse_touched {before : Changes} {b : FileChange} (among : ∀ b ∈ before, b ∈ cs)
    (member : b ∈ cs) (changed : b.changed = true) :
    ((listed c ((saved before).parses parser ++ b.oldParse parser)).filter fun l => !cs.touches l.file) =
      (listed c ((saved before).parses parser)).filter fun l => !cs.touches l.file := by
  have touched := touches_of_changed member changed
  unfold FileChange.oldParse
  cases old : b.old with
  | none => rw [Option.toList_none, List.map_nil, List.append_nil]
  | some text =>
    obtain ⟨path, sourced⟩ := oldParse_sourced parser (c := b)
      (Q := parser.parseFileWithDefs b.filePath text) (by
        unfold FileChange.oldParse
        rw [old]
        exact List.mem_singleton.2 rfl)
    rw [Option.toList_some, List.map_singleton, listed_snoc]
    apply filter_append_of_none
    intro l added
    have own : cs.touches (parser.parseFileWithDefs b.filePath text).path = true := by rw [path, touched]
    have inside := contribution.file sourced own (fun n _ => FileParse.finds_file own fun d listed => by
      obtain ⟨b', earlier, edited, file⟩ := defined_in_changed quiet among (.inl listed)
      rw [file]
      exact touches_of_changed (among b' earlier) edited) l added
    simp [inside]

variable (finds : cs.Finds parser kind)

include distinct quiet finds

include contribution in
omit quiet in
/-- An unchanged file adds the same in both scans, at places in unchanged files. -/
theorem unchanged_alike {before after : Changes} {b : FileChange} (split : cs = before ++ b :: after)
    (unchanged : b.changed = false) :
    c (declaredRoots ((current (before ++ [b])).parses parser))
        (definitionsOf ((current before).parses parser)) (b.parse parser) =
        c (declaredRoots ((saved before).parses parser ++ [b.parse parser]))
          (definitionsOf ((saved before).parses parser)) (b.parse parser) ∧
      ∀ l ∈ c (declaredRoots ((current (before ++ [b])).parses parser))
        (definitionsOf ((current before).parses parser)) (b.parse parser), (!cs.touches l.file) = true := by
  have roots := finds.roots before b after split
  have absent := finds.unchanged before b after split unchanged
  unfold declarers at roots
  rw [unchanged, if_neg Bool.false_ne_true, (@parses_snoc parser before b).1,
    oldParse_unchanged parser unchanged] at roots
  have nowhere : ∀ n ∈ (b.parse parser).names (declaredRoots ((current (before ++ [b])).parses parser)) kind,
      definitionsOf ((current before).parses parser) n = [] ∧
        definitionsOf ((saved before).parses parser) n = [] := fun n named =>
    ⟨definitionsOf_eq_nil fun Q h => absent n named Q (List.mem_append_right _ h),
      definitionsOf_eq_nil fun Q h => absent n named Q (List.mem_append_left _ h)⟩
  constructor
  · refine contribution.congr (b.parse_sourced parser) (fun r h => (roots r h).symm) fun n named => ?_
    unfold FileParse.finds
    rw [(nowhere n named).1, (nowhere n named).2]
  · have member : b ∈ cs := by rw [split]; simp
    have untouched : (!cs.touches (b.parse parser).path) = true := by
      rw [b.parse_path parser, touches_of_mem distinct member, unchanged]
      rfl
    refine contribution.file (q := fun file => !cs.touches file) (b.parse_sourced parser) untouched
      fun n named => FileParse.finds_file (q := fun file => !cs.touches file) untouched fun d h => ?_
    rw [(nowhere n named).1] at h
    cases h

include contribution in
/-- A scan of the current workspace lists what one of the saved workspace lists in unchanged
files, and what the changed files add. -/
theorem listed_current {before after : Changes} (split : cs = before ++ after) :
    (listed c ((current before).parses parser)).Perm
      (((listed c ((saved before).parses parser)).filter fun l => !cs.touches l.file) ++
        fresh parser c before) := by
  induction before using List.reverseRecOn generalizing after with
  | nil => exact .refl _
  | append_singleton before b ih =>
    have split : cs = before ++ b :: after := by rw [split, List.append_assoc]; rfl
    have member : b ∈ cs := by rw [split]; simp
    have among : ∀ b ∈ before, b ∈ cs := fun b h => by rw [split]; simp [h]
    have ih := ih split
    obtain ⟨saves, currents⟩ := @parses_snoc parser before b
    rw [saves, currents, listed_snoc, fresh_snoc, currents]
    cases changed : b.changed with
    | false =>
      -- it finds nothing, in either scan, and stays where it is
      obtain ⟨same, outside⟩ := unchanged_alike contribution distinct finds split changed
      rw [currents] at same outside
      rw [oldParse_unchanged parser changed, listed_snoc, ← same, List.filter_append,
        List.filter_eq_self.2 outside, if_neg Bool.false_ne_true, List.append_nil, List.append_assoc]
      refine (ih.append_right _).trans ?_
      rw [List.append_assoc]
      exact List.perm_append_comm.append_left _
    | true =>
      rw [oldParse_touched contribution quiet among member changed, if_pos rfl, ← List.append_assoc]
      exact ih.append_right _

section Loading

variable {v : View} (known : v.known = declaredRoots (cs.saved.parses parser))
  (definitions : v.definitions = definitionsOf (cs.saved.parses parser))

omit quiet finds in
/-- The definitions that a loaded index has once some files are renewed: those saved for the
other files, then those of the new texts. -/
theorem definitions_renewed (v : View) {before after : Changes} (split : cs = before ++ after) (n : String) :
    ((renewed parser before).foldl View.renew v).definitions n =
      (v.definitions n).filter (fun d => !before.touches d.file) ++
        definitionsOf (renewed parser before) n := by
  have paths : ((renewed parser before).map FileParse.path).Nodup := by
    rw [current_files, split, List.map_append] at distinct
    rw [renewed_paths]
    exact distinct.of_append_left.sublist (List.filter_sublist.map _)
  rw [View.foldl_renew_definitions paths (renewed_sourced before), renewed_paths]
  congr 2
  funext d
  exact decide_not

omit distinct quiet finds in
include known in
/-- The root types that are known when a changed file is merged. -/
theorem known_renewed {before : Changes} {b : FileChange} (changed : b.changed = true) :
    ((((renewed parser before).foldl View.renew v).remove (b.parse parser).path).declare
      (b.parse parser)).known = declaredRoots (cs.declarers parser before b) := by
  funext t
  show (((renewed parser before).foldl View.renew v).known t || decide _) = _
  unfold declarers
  rw [if_pos changed, renewed_snoc, if_pos changed, (View.foldl_renew_declares _ v).1,
    View.foldl_merge_known, known]
  unfold declaredRoots
  simp [List.flatMap_append, Bool.or_assoc]

omit distinct finds in
/-- When no file after the given one defined a function in its saved text, its saved definitions
are gone or lie in that file. -/
theorem saved_replaced {before after : Changes} {b : FileChange} (split : cs = before ++ b :: after)
    {n : String} (absent : ∀ Q ∈ (saved after).parses parser, n ∉ Q.defined) :
    ((cs.saved.parses parser).flatMap FileParse.functionDefs).filter
      (fun d => decide (d.functionName = n) && (!before.touches d.file && decide (d.file ≠ b.filePath))) = [] := by
  have among : ∀ b ∈ before, b ∈ cs := fun b h => by rw [split]; simp [h]
  rw [List.filter_eq_nil_iff]
  intro d listed kept
  simp only [Bool.and_eq_true, decide_eq_true_eq, Bool.not_eq_true'] at kept
  obtain ⟨name, untouched, other⟩ := kept
  obtain ⟨Q, member, defined⟩ := List.mem_flatMap.1 listed
  rw [saved_parses] at member
  obtain ⟨b', inside, parsed⟩ := List.mem_flatMap.1 member
  obtain ⟨path, sourced'⟩ := oldParse_sourced parser parsed
  have file : d.file = b'.filePath := (sourced'.functions d defined).trans path
  rw [split] at inside
  rcases List.mem_append.1 inside with front | back
  · cases changed' : b'.changed with
    | true =>
      rw [file, touches_of_changed front changed'] at untouched
      cases untouched
    | false =>
      rw [oldParse_unchanged parser changed', List.mem_singleton] at parsed
      rw [parsed, quiet b' (among b' front) changed'] at defined
      cases defined
  · rcases List.mem_cons.1 back with rfl | back
    · exact other file
    · refine absent Q ?_ (List.mem_map.2 ⟨d, defined, name⟩)
      rw [saved_parses]
      exact List.mem_flatMap.2 ⟨b', back, parsed⟩

include definitions in
/-- When a changed file is merged, it finds what it finds in a full pass. -/
theorem finds_renewed {before after : Changes} {b : FileChange} (split : cs = before ++ b :: after)
    (changed : b.changed = true) {n : String}
    (named : n ∈ (b.parse parser).names (declaredRoots ((current (before ++ [b])).parses parser)) kind) :
    (b.parse parser).finds
        (((renewed parser before).foldl View.renew v).remove (b.parse parser).path).definitions n =
      (b.parse parser).finds (definitionsOf ((current before).parses parser)) n := by
  have sourced := b.parse_sourced parser
  have among : ∀ b ∈ before, b ∈ cs := fun b h => by rw [split]; simp [h]
  rcases finds.changed before b after split changed n named with here | absent
  · obtain ⟨d, there, name⟩ := List.mem_map.1 here
    have found : ∀ defs : List FunctionDefinitionRecord,
        resolveDefinitionLocation n (b.parse parser).path (b.parse parser).functionDefs defs =
          resolveDefinitionLocation n (b.parse parser).path (b.parse parser).functionDefs [] :=
      fun defs => resolve_settled (.inl ⟨d, there, name, sourced.functions d there⟩)
    exact (found _).trans (found _).symm
  · -- what was saved is gone already, or lies in the file itself
    have saved_gone := saved_replaced quiet split absent
    have left : (((renewed parser before).foldl View.renew v).remove (b.parse parser).path).definitions n =
        definitionsOf ((current before).parses parser) n := by
      show (((renewed parser before).foldl View.renew v).definitions n).filter _ = _
      rw [definitions_renewed distinct v split, definitionsOf_renewed quiet among, definitions,
        List.filter_append, b.parse_path parser]
      unfold definitionsOf at saved_gone ⊢
      rw [List.filter_filter, List.filter_filter]
      have order : (fun d : FunctionDefinitionRecord =>
          (decide (d.file ≠ b.filePath) && !before.touches d.file) && decide (d.functionName = n)) =
          fun d => decide (d.functionName = n) && (!before.touches d.file && decide (d.file ≠ b.filePath)) := by
        funext d
        simp only [Bool.and_comm]
      rw [order, saved_gone, List.nil_append, List.filter_eq_self]
      intro d listed
      have current : d ∈ definitionsOf ((Changes.current before).parses parser) n := listed
      obtain ⟨b', earlier, -, file⟩ := defined_in_changed quiet among (.inr current)
      rw [file]
      exact decide_eq_true (other_path distinct split b' earlier)
    unfold FileParse.finds
    rw [left]

include contribution known definitions in
/-- Renewing the changed files leaves what was saved for the others, and lists what a full
pass lists for them. -/
theorem read_renewed (read : View → List ConcreteLocation)
    (one : ∀ v P, read (v.merge P) = read v ++ c (v.declare P).known v.definitions P)
    (removed : ∀ v X, read (v.remove X) = (read v).filter fun l => decide (l.file ≠ X))
    {before after : Changes} (split : cs = before ++ after) :
    read ((renewed parser before).foldl View.renew v) =
      ((read v).filter fun l => !before.touches l.file) ++ fresh parser c before := by
  induction before using List.reverseRecOn generalizing after with
  | nil => exact (List.filter_eq_self.2 fun l _ => rfl).symm.trans (List.append_nil _).symm
  | append_singleton before b ih =>
    have split : cs = before ++ b :: after := by rw [split, List.append_assoc]; rfl
    have among : ∀ b ∈ before, b ∈ cs := fun b h => by rw [split]; simp [h]
    rw [renewed_snoc, fresh_snoc, List.foldl_append]
    cases changed : b.changed with
    | false =>
      rw [touches_snoc_unchanged before changed, if_neg Bool.false_ne_true, if_neg Bool.false_ne_true,
        List.append_nil]
      exact ih split
    | true =>
      have roots := finds.roots before b after split
      have others := fresh_file contribution (q := fun file => decide (file ≠ b.filePath)) quiet among
        fun b' h _ => decide_eq_true (other_path distinct split b' h)
      have same := contribution.congr (b.parse_sourced parser)
        (fun r h => (roots r h).symm.trans (by rw [known_renewed known changed]) :
          ∀ r ∈ (b.parse parser).rooted kind, _ = (b.parse parser).handlerRoot
            ((((renewed parser before).foldl View.renew v).remove (b.parse parser).path).declare
              (b.parse parser)).known r)
        fun n named => (finds_renewed distinct quiet finds definitions split changed named).symm
      rw [if_pos rfl, if_pos rfl, List.foldl_cons, List.foldl_nil, View.renew, one, removed, ih split, ← same,
        List.filter_append, b.parse_path parser, List.filter_eq_self.2 others, List.filter_filter,
        List.append_assoc]
      congr 2
      funext l
      rw [touches_append, touches_singleton, changed, Bool.true_and, Bool.not_or, Bool.and_comm,
        decide_not]

section Loaded

variable (parser) in
/-- What a load makes of a saved index. -/
def loadedOver (cs : Changes) (v : View) : View :=
  ((renewed parser cs).flatMap FileParse.deferred).foldl View.resolve ((renewed parser cs).foldl View.renew v)

omit distinct quiet finds in
theorem mem_renewed {P : FileParse} (member : P ∈ renewed parser cs) : cs.touches P.path = true := by
  obtain ⟨b, there, rfl⟩ := List.mem_map.1 member
  obtain ⟨inside, changed⟩ := List.mem_filter.1 there
  rw [b.parse_path parser]
  exact touches_of_changed inside changed

omit distinct quiet finds in
/-- Once some files are renewed, the records are those listed before at places in other files,
and records without stamps that the renewed files assign. -/
theorem mem_foldl_renew {before : Changes} {v : View} {a f : String} {l : ConcreteLocation}
    (member : l ∈ ((renewed parser before).foldl View.renew v).vtable a f) :
    l ∈ v.vtable a f ∧ before.touches l.file = false ∨
      l.unstamped = l ∧ ∃ P ∈ renewed parser before, l.assignmentFile = some P.path := by
  induction before using List.reverseRecOn with
  | nil => exact .inl ⟨member, rfl⟩
  | append_singleton before b ih =>
    rw [renewed_snoc] at member ⊢
    cases changed : b.changed with
    | false =>
      rw [changed, if_neg Bool.false_ne_true, List.append_nil] at member
      rw [touches_snoc_unchanged before changed, if_neg Bool.false_ne_true, List.append_nil]
      exact ih member
    | true =>
      rw [changed, if_pos rfl, List.foldl_append] at member
      rw [if_pos rfl]
      rcases List.mem_append.1 (show l ∈ List.filter _ _ ++ FileParse.directsAt _ _ a f from member) with kept | added
      · obtain ⟨there, other⟩ := List.mem_filter.1 kept
        have other : l.file ≠ b.filePath := b.parse_path parser ▸ of_decide_eq_true other
        rcases ih there with ⟨listed, outside⟩ | ⟨plain, P, earlier, file⟩
        · refine .inl ⟨listed, ?_⟩
          rw [touches_append, touches_singleton, outside, decide_eq_false other, Bool.and_false]
          rfl
        · exact .inr ⟨plain, P, List.mem_append_left _ earlier, file⟩
      · obtain ⟨r, chosen, rfl⟩ := List.mem_map.1 added
        refine .inr ⟨rfl, b.parse parser, List.mem_append_right _ (List.mem_singleton.2 rfl), ?_⟩
        exact congrArg some ((b.parse_sourced parser).vtables r (List.mem_of_mem_filter chosen))

omit distinct quiet finds in
/-- A loaded record was saved at a place in an unchanged file, or is assigned by a changed
file and has no stamps. -/
theorem mem_loaded {v : View} {a f : String} {l : ConcreteLocation}
    (member : l ∈ (loadedOver parser cs v).vtable a f) :
    l ∈ v.vtable a f ∧ cs.touches l.file = false ∨
      l.unstamped = l ∧ l.assignmentFile.any cs.touches = true := by
  have merged : ∀ P ∈ renewed parser cs, l.assignmentFile = some P.path →
      l.assignmentFile.any cs.touches = true := fun P there file => by
    rw [file]
    exact mem_renewed there
  unfold loadedOver at member
  rw [vtable_foldl_resolve, FirstOfKey.mem_foldl_add] at member
  rcases member with direct | leads
  · rcases mem_foldl_renew direct with saved | ⟨plain, P, there, file⟩
    · exact .inl saved
    · exact .inr ⟨plain, merged P there file⟩
  · obtain ⟨d, deferred, placed⟩ := List.mem_flatMap.1 (List.mem_of_find?_eq_some leads.first)
    obtain ⟨P, there, deferred⟩ := List.mem_flatMap.1 deferred
    obtain ⟨-, ⟨i, at_i⟩, -⟩ := mem_placementsAt placed
    refine .inr ⟨by rw [at_i]; rfl, merged P there ?_⟩
    rw [at_i]
    exact congrArg some (deferred_path (renewed_sourced cs P there) deferred)

omit finds in
/-- When all saved definitions are in changed files, the loaded ones are those of a full pass. -/
theorem definitions_loaded {v : View} (gone : ∀ n, ∀ d ∈ v.definitions n, cs.touches d.file = true) :
    ((renewed parser cs).foldl View.renew v).definitions = definitionsOf (cs.current.parses parser) := by
  funext n
  rw [definitions_renewed distinct v (List.append_nil cs).symm, definitionsOf_renewed quiet fun _ h => h]
  rw [List.filter_eq_nil_iff.2 fun d listed => by simp [gone n d listed], List.nil_append]

omit distinct finds in
theorem saved_gone {n : String} {d : FunctionDefinitionRecord}
    (listed : d ∈ definitionsOf (cs.saved.parses parser) n ∨ d ∈ definitionsOf (cs.current.parses parser) n) :
    cs.touches d.file = true := by
  obtain ⟨b, member, changed, file⟩ := defined_in_changed quiet (fun _ h => h) listed
  rw [file]
  exact touches_of_changed member changed

variable (fields : v.fields = declaredFields (cs.saved.parses parser))

include definitions fields in
omit finds in
/-- By position a load adds what the changed files assign with all definitions, and the
fields declared until they are merged. -/
theorem placed_renewed (a f : String) :
    ((renewed parser cs).flatMap fun P =>
        P.placedAt ((renewed parser cs).foldl View.renew v).definitions
          ((renewed parser cs).foldl View.renew v).fields a f) = cs.replaced parser a f := by
  have defined := definitions_loaded distinct quiet (v := v)
    fun n d listed => saved_gone quiet (.inl (definitions ▸ listed))
  have declared : ((renewed parser cs).foldl View.renew v).fields =
      declaredFields (cs.saved.parses parser ++ renewed parser cs) := by
    rw [(View.foldl_renew_declares _ v).2, View.foldl_merge_fields, fields]
    unfold declaredFields
    rw [List.flatMap_append, declareFields_append]
  rw [declared, defined]
  rfl

include known definitions

omit finds in
include fields in
theorem vtable_loaded (vtables : cs.Finds parser .vtable) (a f : String) :
    (loadedOver parser cs v).vtable a f =
      (cs.replaced parser a f).foldl (FirstOfKey.add ConcreteLocation.site)
        (((v.vtable a f).filter fun l => !cs.touches l.file) ++
          fresh parser (fun _ indexDefs P => P.directsAt indexDefs a f) cs) := by
  have direct := read_renewed (local_directsAt a f) distinct quiet vtables known definitions
    (fun v => v.vtable a f) (fun _ _ => rfl) (fun _ _ => rfl) (List.append_nil cs).symm
  have positioned := placed_renewed distinct quiet definitions fields a f
  unfold FileParse.placedAt at positioned
  unfold loadedOver
  rw [vtable_foldl_resolve, List.flatMap_assoc, positioned, direct]

omit finds in
theorem handlers_loaded (handlers : cs.Finds parser .handler) (t : String) :
    (loadedOver parser cs v).handlers t =
      ((v.handlers t).filter fun l => !cs.touches l.file) ++
        fresh parser (fun known indexDefs P => P.handlersAt known indexDefs t) cs := by
  unfold loadedOver
  rw [(View.foldl_resolve_keeps _ _).2.2.2]
  exact read_renewed (local_handlersAt t) distinct quiet handlers known definitions
    (fun v => v.handlers t) (fun _ _ => rfl) (fun _ _ => rfl) (List.append_nil cs).symm

end Loaded

end Loading

end Lists

end LibJuno.Indexer
