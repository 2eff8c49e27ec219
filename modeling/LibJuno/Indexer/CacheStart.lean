import LibJuno.Indexer.Changes
import LibJuno.Indexer.Stamps

/-!
# Starting from the cache against a full pass

A workspace is indexed and saved, some files are edited or added, and a new indexer loads
the cache. What it lists are saved records at places in unchanged files, and records of
changed files that no pass has stamped; the definitions of unchanged files come back
without their signatures. The conditions under which these are the records of a full pass
speak of the texts and their parses.
-/

namespace LibJuno.Indexer

section Saving

variable (parser : Parser) (hashText : String → String) {W : Workspace}

/-- The records that a full pass leaves are those of its view, stamped. -/
theorem viewBy_scan (distinct : W.files.Nodup) :
    viewBy id (fullIndex parser hashText W.disk W.files .fresh).index =
      { View.empty.build (W.parses parser) with
        vtable := fun a f => ((View.empty.build (W.parses parser)).vtable a f).map
          (scanStamp parser hashText W) } := by
  have scanned : view (fullIndex parser hashText W.disk W.files .fresh).index =
      View.empty.build (W.parses parser) := view_scan distinct
  have built := viewBy_resolved parser hashText distinct
  unfold scanStamp
  unfold fullIndex finishIndexing at *
  generalize indexFiles parser hashText W.disk W.files .fresh = r at *
  have stamped := (NavigationIndex.stamping_maps W.disk r.1.fileHashes.keys
    (r.1.index.resolveDeferred r.2)).vtables
  unfold viewBy
  rw [scanned]
  refine congrArg (fun vtable => { View.empty.build (W.parses parser) with vtable := vtable }) ?_
  funext a f
  have listed := congrFun (congrFun (congrArg View.vtable built) a) f
  dsimp only at stamped ⊢
  rw [stamped, List.map_id]
  refine (implementations_stampAll _ _ a f).trans (congrArg (List.map _) ?_)
  exact (List.map_id _).symm.trans listed

/-- A full pass keeps the hash of every file. -/
theorem fileHashes_scan (path : String) :
    (fullIndex parser hashText W.disk W.files .fresh).fileHashes.get path =
      (W.disk path).map hashText := by
  unfold fullIndex finishIndexing
  dsimp only
  rw [fileHashes_indexFiles]
  cases read : W.disk path with
  | some text =>
    have member : path ∈ W.files.filter fun path => (W.disk path).isSome :=
      List.mem_filter.2 ⟨W.mem_files_of_disk read, by rw [read]; rfl⟩
    have found := OrderedMap.get_foldl_set_of_mem id (fun path => hashText ((W.disk path).getD "")) member
      OrderedMap.empty
    simp only [id, read] at found
    exact found
  | none =>
    have absent := OrderedMap.has_foldl_set id (fun path => hashText ((W.disk path).getD ""))
      (W.files.filter fun path => (W.disk path).isSome) OrderedMap.empty path
    have unread : path ∉ (W.files.filter fun path => (W.disk path).isSome).map id := by
      rw [List.map_id]
      intro h
      have readable := (List.mem_filter.1 h).2
      rw [read] at readable
      cases readable
    rw [decide_eq_false unread, Bool.or_false] at absent
    exact Option.isNone_iff_eq_none.1 (Option.isSome_eq_false_iff.1 absent)

end Saving

/-- Two functions with a common inverse have the same images if and only if they agree. -/
theorem map_perm_map_iff {α β : Type} {f g : α → β} {h : β → α} {l : List α}
    (left : ∀ x ∈ l, h (f x) = x) (right : ∀ x ∈ l, h (g x) = x) :
    (l.map f).Perm (l.map g) ↔ ∀ x ∈ l, f x = g x := by
  refine ⟨fun same x member => ?_, fun agree => List.Perm.of_eq (List.map_congr_left agree)⟩
  obtain ⟨y, member', image⟩ := List.mem_map.1 (same.mem_iff.2 (List.mem_map_of_mem member))
  have at_x : y = x := by rw [← left y member', image, right x member]
  exact at_x ▸ image

section Starting

open FileChange Changes

variable (parser : Parser) (hashText : String → String)

/-- The indexer of a full pass over the workspace. -/
def scan (W : Workspace) : WorkspaceIndexer := fullIndex parser hashText W.disk W.files .fresh

/-- What a new indexer does on the current workspace with the cache of the saved one. -/
def start (savedAt startedAt : String) (cs : Changes) : Loading :=
  loadFromCache parser hashText cs.current.disk startedAt
    (some (saveToCache savedAt (scan parser hashText cs.saved))) cs.current.files .fresh

/-- No file was edited to a text with the hash of the old one. -/
def CollisionFree (cs : Changes) : Prop :=
  ∀ c ∈ cs, ∀ text, c.old = some text → hashText text = hashText c.new → text = c.new

variable {parser hashText} {cs : Changes}

theorem saved_distinct (distinct : cs.current.files.Nodup) : cs.saved.files.Nodup :=
  distinct.sublist cs.saved_files_sublist

theorem saved_disk (distinct : cs.current.files.Nodup) {c : FileChange} (member : c ∈ cs) :
    cs.saved.disk c.filePath = c.old := by
  cases old : c.old with
  | some text =>
    refine cs.saved.disk_of_mem (saved_distinct distinct) (x := (c.filePath, text)) ?_
    exact List.mem_flatMap.2 ⟨c, member, by rw [old]; exact List.mem_singleton.2 rfl⟩
  | none =>
    cases read : cs.saved.disk c.filePath with
    | none => rfl
    | some text =>
      obtain ⟨x, found, -⟩ := Option.map_eq_some_iff.1 read
      have same : x.1 = c.filePath := by simpa using List.find?_some found
      obtain ⟨b, among, there⟩ := List.mem_flatMap.1 (List.mem_of_find?_eq_some found)
      obtain ⟨text', old', rfl⟩ := List.mem_map.1 there
      rw [current_files] at distinct
      obtain rfl := List.inj_on_of_nodup_map distinct among member same
      rw [old] at old'
      cases old'

/-- The stale files are the changed ones. -/
theorem stale_parses (distinct : cs.current.files.Nodup) (collisionFree : CollisionFree hashText cs)
    (plain : PlainKeys (scan parser hashText cs.saved)) (savedAt : String) :
    Workspace.parses parser (cs.current.filter (stale hashText (indexToCache
      (scan parser hashText cs.saved).index (scan parser hashText cs.saved).fileHashes savedAt).fileHashes)) =
      renewed parser cs := by
  have stored : ∀ c ∈ cs, stale hashText (indexToCache (scan parser hashText cs.saved).index
      (scan parser hashText cs.saved).fileHashes savedAt).fileHashes (c.filePath, c.new) = c.changed := by
    intro c member
    have hash : (scan parser hashText cs.saved).fileHashes.get c.filePath = c.old.map hashText := by
      unfold scan
      rw [fileHashes_scan, saved_disk distinct member]
    have copied : (toObject id (scan parser hashText cs.saved).fileHashes).get c.filePath =
        c.old.map hashText := by
      rw [get_toObject, hash]
      split
      · next lost =>
        rw [← hash, lost]
        exact plain.fileHashes.symm
      · exact congrFun Option.map_id _
    unfold stale FileChange.changed indexToCache
    dsimp only
    rw [copied]
    refine decide_eq_decide.2 (not_congr ⟨fun same => ?_, fun same => by rw [same]; rfl⟩)
    obtain ⟨text, old, hashes⟩ := Option.map_eq_some_iff.1 same
    rw [old, collisionFree c member text old hashes]
  unfold current renewed
  rw [List.filter_map, ← List.filter_congr fun c member => stored c member]
  exact List.map_map ..

/-- What a new indexer shows of the cache, before it looks at the files. -/
theorem view_saved (distinct : cs.current.files.Nodup)
    (plain : PlainKeys (scan parser hashText cs.saved)) (savedAt : String) :
    viewBy id (cacheToIndex (indexToCache (scan parser hashText cs.saved).index
      (scan parser hashText cs.saved).fileHashes savedAt)) =
      (viewBy id (scan parser hashText cs.saved).index).unsigned := by
  have scanned : view (scan parser hashText cs.saved).index =
      View.empty.build (cs.saved.parses parser) := view_scan (saved_distinct distinct)
  generalize scan parser hashText cs.saved = s at *
  apply viewBy_cacheToIndex plain
  intro n d listed
  have shown : d ∈ (view s.index).definitions n := listed
  rw [scanned, (build_declares _).2.2] at shown
  exact of_decide_eq_true (List.mem_filter.1 shown).2

/-- What a new indexer shows of the current workspace. -/
theorem start_view (distinct : cs.current.files.Nodup) (collisionFree : CollisionFree hashText cs)
    (plain : PlainKeys (scan parser hashText cs.saved)) (savedAt startedAt : String) :
    (start parser hashText savedAt startedAt cs).returned = true ∧
      viewBy id (start parser hashText savedAt startedAt cs).indexer.index =
        ((renewed parser cs).flatMap FileParse.deferred).foldl View.resolve
          ((renewed parser cs).foldl View.renew
            (viewBy id (scan parser hashText cs.saved).index).unsigned) := by
  have renews := stale_parses distinct collisionFree plain savedAt
  have shown := view_saved distinct plain savedAt
  unfold start saveToCache
  generalize scan parser hashText cs.saved = s at *
  have version : (indexToCache s.index s.fileHashes savedAt).version = CACHE_VERSION := rfl
  generalize indexToCache s.index s.fileHashes savedAt = cache at *
  have loaded := loadFromCache_view parser hashText distinct version startedAt shows_id
  rw [renews, shown] at loaded
  exact loaded

end Starting

/-- A full pass over the files lists the record: they assign it directly, or by position and
first of its site. -/
def Assigned (Rs : List FileParse) (a f : String) (l : ConcreteLocation) : Prop :=
  l ∈ directs Rs a f ∨ Leading Rs a f l

theorem assigned_iff {Rs : List FileParse} {a f : String} {l : ConcreteLocation} :
    l ∈ (View.empty.build Rs).vtable a f ↔ Assigned Rs a f l :=
  mem_build_vtable

namespace Changes

variable (parser : Parser)

/-- A full pass over the current files stamps as a load does: no file takes the address of a
variable whose record is at a place in a changed file, and for a record at a place in an
unchanged file the first address and the caller around it are those of the saved files. -/
structure Stamped (cs : Changes) : Prop where
  changed : ∀ a f l, Assigned (cs.current.parses parser) a f l → cs.touches l.file = true →
    cs.current.addressOf l = none
  unchanged : ∀ a f l, Assigned (cs.current.parses parser) a f l → cs.touches l.file = false →
    cs.current.addressOf l = cs.saved.addressOf l ∧
      ∀ site, cs.current.addressOf l = some site →
        cs.current.rootCaller parser site = cs.saved.rootCaller parser site

/-- The changes leave every record of a loaded index where a full pass puts it. -/
structure Fits (cs : Changes) : Prop where
  quiet : cs.Quiet parser
  vtables : cs.Finds parser .vtable
  handlers : cs.Finds parser .handler
  leads : cs.Leads parser
  stamped : cs.Stamped parser

end Changes

section Records

open FileChange Changes

variable {parser : SourceParser} {hashText : String → String} {cs : Changes}

/-- A start from the cache leaves the records of a full pass over the current files. -/
def StartsAfresh (parser : Parser) (hashText : String → String) (savedAt startedAt : String)
    (cs : Changes) : Prop :=
  (start parser hashText savedAt startedAt cs).returned = true ∧
    (viewBy id (start parser hashText savedAt startedAt cs).indexer.index).SameRecords
      (viewBy id (scan parser hashText cs.current).index)

/-- A function that is defined in the files is found in one of them. -/
theorem orAt_listed {p : String → Bool} {n file file' : String} {line : Nat}
    {defs : List FunctionDefinitionRecord} (listed : defs ≠ [])
    (all : ∀ d ∈ defs, p d.file = true ∧ d.line ≠ 0) :
    p ((resolveDefinitionLocation n file [] defs).orAt file' line).file = true := by
  have at_some : ∀ d ∈ defs, p ((⟨d.file, d.line⟩ : DefinitionSite).orAt file' line).file = true := by
    intro d member
    unfold DefinitionSite.orAt
    rw [if_pos (all d member).2]
    exact (all d member).1
  unfold resolveDefinitionLocation
  rw [List.find?_nil]
  dsimp only
  cases own : defs.find? fun d => decide (d.file = file) with
  | some d => exact at_some d (List.mem_of_find?_eq_some own)
  | none =>
    cases defs with
    | nil => exact absurd rfl listed
    | cons d rest => exact at_some d List.mem_cons_self

/-- A definition in the files of a workspace has a line. -/
theorem lined_of_mem {W : Workspace} {n : String} {d : FunctionDefinitionRecord}
    (listed : d ∈ definitionsOf (W.parses parser.toParser) n) : d.line ≠ 0 := by
  obtain ⟨Q, member, there, -⟩ := mem_definitionsOf listed
  obtain ⟨x, -, rfl⟩ := List.mem_map.1 member
  exact parser.lined x.1 x.2 d there

theorem parses_paths (parser : Parser) (W : Workspace) : (W.parses parser).map FileParse.path = W.files := by
  unfold Workspace.parses Workspace.files
  rw [List.map_map]
  exact List.map_congr_left fun x _ => (parser.sourced x.1 x.2).path

theorem definitionsOf_ne_nil {Rs : List FileParse} {Q : FileParse} {n : String} (member : Q ∈ Rs)
    (defined : n ∈ Q.defined) : definitionsOf Rs n ≠ [] := by
  obtain ⟨d, there, name⟩ := List.mem_map.1 defined
  apply List.ne_nil_of_mem (a := d)
  exact List.mem_filter.2 ⟨List.mem_flatMap.2 ⟨Q, member, there⟩, decide_eq_true name⟩

/-- What the files of the workspace define is found in changed files. -/
theorem found_touched {W : Workspace} {n file file' : String} {line : Nat} {Q : FileParse}
    (all : ∀ d ∈ definitionsOf (W.parses parser.toParser) n, cs.touches d.file = true)
    (member : Q ∈ W.parses parser.toParser) (defined : n ∈ Q.defined) :
    cs.touches ((resolveDefinitionLocation n file []
      (definitionsOf (W.parses parser.toParser) n)).orAt file' line).file = true :=
  orAt_listed (definitionsOf_ne_nil member defined) fun d listed => ⟨all d listed, lined_of_mem listed⟩

section Start

variable (distinct : cs.current.files.Nodup) (collisionFree : CollisionFree hashText cs)
  (plain : PlainKeys (scan parser.toParser hashText cs.saved)) (savedAt startedAt : String)

/-- The records of a scan of the saved files, as they are stamped there. -/
def savedView (parser : Parser) (hashText : String → String) (cs : Changes) : View :=
  { View.empty.build (cs.saved.parses parser) with
    vtable := fun a f => ((View.empty.build (cs.saved.parses parser)).vtable a f).map
      (scanStamp parser hashText cs.saved) }

include distinct collisionFree plain

/-- What a start leaves: the changed files renewed over the saved records, and no signatures
of saved definitions. -/
theorem start_records :
    (start parser.toParser hashText savedAt startedAt cs).returned = true ∧
      (viewBy id (start parser.toParser hashText savedAt startedAt cs).indexer.index).vtable =
        (loadedOver parser.toParser cs (savedView parser.toParser hashText cs)).vtable ∧
      (viewBy id (start parser.toParser hashText savedAt startedAt cs).indexer.index).handlers =
        (loadedOver parser.toParser cs (savedView parser.toParser hashText cs)).handlers ∧
      (viewBy id (start parser.toParser hashText savedAt startedAt cs).indexer.index).definitions =
        ((renewed parser.toParser cs).foldl View.renew
          (savedView parser.toParser hashText cs).unsigned).definitions := by
  obtain ⟨returned, shown⟩ := start_view distinct collisionFree plain savedAt startedAt
  have shows : viewBy id (scan parser.toParser hashText cs.saved).index =
      savedView parser.toParser hashText cs := viewBy_scan parser.toParser hashText (saved_distinct distinct)
  have same := View.unsigned_load (renewed parser.toParser cs)
    ((renewed parser.toParser cs).flatMap FileParse.deferred) (savedView parser.toParser hashText cs)
  rw [shows] at shown
  rw [shown]
  exact ⟨returned, (congrArg View.vtable same :), (congrArg View.handlers same :),
    (View.foldl_resolve_keeps _ _).1⟩

end Start

section Lists

variable (distinct : cs.current.files.Nodup)

/-- The saved records declare and define as the saved files do. -/
theorem savedView_declares (parser : Parser) (hashText : String → String) (cs : Changes) :
    (savedView parser hashText cs).known = declaredRoots (cs.saved.parses parser) ∧
      (savedView parser hashText cs).fields = declaredFields (cs.saved.parses parser) ∧
      (savedView parser hashText cs).definitions = definitionsOf (cs.saved.parses parser) :=
  build_declares (cs.saved.parses parser)

theorem plain_of_listed {W : Workspace} (distinct : W.files.Nodup) {a f : String} {l : ConcreteLocation}
    (listed : l ∈ (View.empty.build (W.parses parser.toParser)).vtable a f) : l.unstamped = l := by
  have scanned : view (scan parser.toParser id W).index = View.empty.build (W.parses parser.toParser) :=
    view_scan distinct
  rw [← scanned] at listed
  exact unstamped_of_mem_view listed

theorem file_of_unstamped {l l' : ConcreteLocation} (same : l.unstamped = l'.unstamped) :
    l.file = l'.file :=
  (congrArg ConcreteLocation.file same :)

theorem site_of_unstamped {l l' : ConcreteLocation} (same : l.unstamped = l'.unstamped) :
    l.site = l'.site :=
  (congrArg ConcreteLocation.site same :)

/-- By position the changed files assign at places in changed files. -/
theorem replaced_file (quiet : cs.Quiet parser.toParser) (a f : String) :
    ∀ l ∈ cs.replaced parser.toParser a f, cs.touches l.file = true := by
  intro l member
  obtain ⟨P, among, placed⟩ := List.mem_flatMap.1 member
  exact FileParse.placedAt_file (renewed_sourced cs P among) (mem_renewed among)
    (fun _ _ listed => saved_gone quiet (.inr listed)) placed

/-- Directly they assign there, too. -/
theorem fresh_touched (quiet : cs.Quiet parser.toParser) (a f : String) :
    ∀ l ∈ fresh parser.toParser (fun _ indexDefs P => P.directsAt indexDefs a f) cs,
      cs.touches l.file = true :=
  fresh_file (local_directsAt a f) quiet (fun _ h => h) fun _ => touches_of_changed

include distinct in
/-- At places in unchanged files a load lists records with the stamps that were saved, the
others are as without stamps. -/
theorem loaded_stamped (quiet : cs.Quiet parser.toParser) (vtables : cs.Finds parser.toParser .vtable)
    (a f : String) :
    (loadedOver parser.toParser cs (savedView parser.toParser hashText cs)).vtable a f =
      ((loadedOver parser.toParser cs (View.empty.build (cs.saved.parses parser.toParser))).vtable a f).map
        fun l => if cs.touches l.file then l else scanStamp parser.toParser hashText cs.saved l := by
  obtain ⟨known, fields, definitions⟩ := savedView_declares parser.toParser hashText cs
  obtain ⟨known', fields', definitions'⟩ := build_declares (cs.saved.parses parser.toParser)
  have stamped : ∀ l, (scanStamp parser.toParser hashText cs.saved l).unstamped = l.unstamped :=
    scanStamp_unstamped parser.toParser hashText cs.saved
  have kept : ((savedView parser.toParser hashText cs).vtable a f).filter (fun l => !cs.touches l.file) =
      (((View.empty.build (cs.saved.parses parser.toParser)).vtable a f).filter fun l => !cs.touches l.file).map
        (scanStamp parser.toParser hashText cs.saved) := by
    refine (List.filter_map ..).trans (congrArg (List.map _) (List.filter_congr fun l _ => ?_))
    exact congrArg (fun file => !cs.touches file) (file_of_unstamped (stamped l))
  rw [vtable_loaded distinct quiet known definitions fields vtables,
    vtable_loaded distinct quiet known' definitions' fields' vtables, kept]
  have placed_there := replaced_file quiet a f
  have fresh_there := fresh_touched quiet a f
  generalize fresh parser.toParser (fun _ indexDefs P => P.directsAt indexDefs a f) cs = new at *
  generalize cs.replaced parser.toParser a f = ys at *
  have untouched : ∀ l ∈ ((View.empty.build (cs.saved.parses parser.toParser)).vtable a f).filter
      (fun l => !cs.touches l.file), cs.touches l.file = false := by
    intro l member
    simpa using (List.mem_filter.1 member).2
  generalize ((View.empty.build (cs.saved.parses parser.toParser)).vtable a f).filter
    (fun l => !cs.touches l.file) = old at *
  have keys : FirstOfKey.added ConcreteLocation.site
      (old.map (scanStamp parser.toParser hashText cs.saved) ++ new) ys =
        FirstOfKey.added ConcreteLocation.site (old ++ new) ys := by
    apply FirstOfKey.added_congr
    intro l _
    have same : (old.map (scanStamp parser.toParser hashText cs.saved)).map ConcreteLocation.site =
        old.map ConcreteLocation.site := by
      rw [List.map_map]
      exact List.map_congr_left fun l _ => site_of_unstamped (stamped l)
    rw [List.map_append, List.map_append, same]
  have alone : ∀ ls : List ConcreteLocation, (∀ l ∈ ls, cs.touches l.file = true) →
      ls.map (fun l => if cs.touches l.file then l else scanStamp parser.toParser hashText cs.saved l) = ls := by
    intro ls inside
    exact (List.map_congr_left fun l h => if_pos (inside l h)).trans (List.map_id' ls)
  rw [FirstOfKey.foldl_add, FirstOfKey.foldl_add, keys, List.map_append, List.map_append,
    alone new fresh_there, alone _ fun l h => placed_there l (FirstOfKey.mem_of_added _ h),
    List.map_congr_left fun l h => if_neg (by rw [untouched l h]; exact Bool.false_ne_true)]

section Agreement

variable (quiet : cs.Quiet parser.toParser)

include distinct quiet

/-- Without stamps, a load lists what a full pass does if and only if the same positional
assignments lead. -/
theorem loaded_perm_iff (vtables : cs.Finds parser.toParser .vtable) :
    (∀ a f, ((loadedOver parser.toParser cs (View.empty.build (cs.saved.parses parser.toParser))).vtable a f).Perm
      ((View.empty.build (cs.current.parses parser.toParser)).vtable a f)) ↔ cs.Leads parser.toParser := by
  obtain ⟨known, fields, definitions⟩ := build_declares (cs.saved.parses parser.toParser)
  have each : ∀ a f, _ := fun a f => @FirstOfKey.perm_foldl_add_iff _ _ _ ConcreteLocation.site
    (fun k => cs.touches k.2.1) _ _ _ _ (placed (cs.current.parses parser.toParser) a f) _ _
    (List.Perm.of_eq (build_vtable (cs.saved.parses parser.toParser) a f))
    (listed_current (local_directsAt a f) distinct quiet vtables (List.append_nil cs).symm)
    (fresh_touched quiet a f) (replaced_file quiet a f) _
  have loaded : ∀ a f, _ := vtable_loaded distinct quiet known definitions fields vtables
  constructor
  · intro same
    refine ⟨fun a f => ?_, fun a f => ?_⟩
    all_goals
      have perm := same a f
      rw [loaded, build_vtable (cs.current.parses parser.toParser)] at perm
    · exact ((each a f).1 perm).1
    · exact ((each a f).1 perm).2
  · intro leads a f
    rw [loaded, build_vtable (cs.current.parses parser.toParser)]
    exact (each a f).2 ⟨leads.unchanged a f, leads.changed a f⟩

/-- A record that a changed file assigns is at a place in a changed file. -/
theorem touched_of_assignmentFile {a f : String} {l : ConcreteLocation}
    (assigned : Assigned (cs.current.parses parser.toParser) a f l)
    (changed : l.assignmentFile.any cs.touches = true) : cs.touches l.file = true := by
  have all : ∀ {bs : Changes}, (∀ b ∈ bs, b ∈ cs) → ∀ {n : String},
      ∀ d ∈ definitionsOf (bs.current.parses parser.toParser) n, cs.touches d.file = true := by
    intro bs among n d listed
    obtain ⟨b, earlier, edited, file⟩ := defined_in_changed quiet among (.inr listed)
    rw [file]
    exact touches_of_changed (among b earlier) edited
  rcases assigned with direct | leads
  · obtain ⟨before, R, after, split, r, member, -, -, rfl⟩ := mem_directs.1 direct
    rw [current_parses] at split
    obtain ⟨bs, rest, rfl, rfl, behind⟩ := List.map_eq_append_iff.1 split
    obtain ⟨b, cs', rfl, rfl, -⟩ := List.map_eq_cons_iff.1 behind
    have own := b.parse_sourced parser.toParser
    have touched : Changes.touches (bs ++ b :: cs') (b.parse parser.toParser).path = true := by
      unfold vtableLocation at changed
      rwa [own.vtables r member] at changed
    rw [← current_parses]
    exact FileParse.directsAt_file own touched
      (fun n _ => FileParse.finds_file touched (all fun _ h => List.mem_append_left _ h))
      (List.mem_map_of_mem (List.mem_filter.2 ⟨member, decide_eq_true ⟨rfl, rfl⟩⟩))
  · obtain ⟨R, among, d, deferred, i, at_i⟩ := mem_placed (List.mem_of_find?_eq_some leads.first)
    rw [current_parses] at among
    obtain ⟨b, -, rfl⟩ := List.mem_map.1 among
    have path := deferred_path (b.parse_sourced parser.toParser) deferred
    rw [at_i] at changed ⊢
    have touched : cs.touches d.filePath = true := changed
    exact orAt_file _ _ touched (Settled.resolve (p := cs.touches) (.inr (.inr (all fun _ h => h))) touched).2

section Stamping

variable (hashText) in
omit quiet in
/-- For records that are listed in both scans when their place is in an unchanged file, the
passes stamp as a load does if and only if the texts say so. -/
theorem stamped_iff
    (saved : ∀ a f l, Assigned (cs.current.parses parser.toParser) a f l → cs.touches l.file = false →
      Assigned (cs.saved.parses parser.toParser) a f l) :
    (∀ a f, ∀ l ∈ (View.empty.build (cs.current.parses parser.toParser)).vtable a f,
      (if cs.touches l.file then l else scanStamp parser.toParser hashText cs.saved l) =
        scanStamp parser.toParser hashText cs.current l) ↔ cs.Stamped parser.toParser := by
  have each : ∀ a f l, Assigned (cs.current.parses parser.toParser) a f l →
      ((if cs.touches l.file then l else scanStamp parser.toParser hashText cs.saved l) =
          scanStamp parser.toParser hashText cs.current l ↔
        if cs.touches l.file then cs.current.addressOf l = none
        else cs.current.addressOf l = cs.saved.addressOf l ∧ ∀ site, cs.current.addressOf l = some site →
          cs.current.rootCaller parser.toParser site = cs.saved.rootCaller parser.toParser site) := by
    intro a f l assigned
    have plain := plain_of_listed distinct (assigned_iff.2 assigned)
    rw [scanStamp_listed hashText distinct (assigned_iff.2 assigned) plain]
    cases touched : cs.touches l.file with
    | true => exact eq_comm.trans (Workspace.stamped_eq_self_iff parser.toParser cs.current plain)
    | false =>
      rw [scanStamp_listed hashText (saved_distinct distinct)
        (assigned_iff.2 (saved a f l assigned touched)) plain]
      exact eq_comm.trans (Workspace.stamped_eq_iff parser.toParser plain)
  constructor
  · intro same
    have at_l := fun a f l assigned => (each a f l assigned).1 (same a f l (assigned_iff.2 assigned))
    exact ⟨fun a f l assigned touched => (if_pos touched).mp (at_l a f l assigned),
      fun a f l assigned outside => (if_neg (by rw [outside]; exact Bool.false_ne_true)).mp (at_l a f l assigned)⟩
  · intro stamped a f l listed
    have assigned := assigned_iff.1 listed
    refine (each a f l assigned).2 ?_
    split
    · next touched => exact stamped.changed a f l assigned touched
    · next outside => exact stamped.unchanged a f l assigned (Bool.not_eq_true _ ▸ outside)

/-- A record of a full pass at a place in an unchanged file was listed in the saved scan. -/
theorem saved_of_leads (vtables : cs.Finds parser.toParser .vtable) (leads : cs.Leads parser.toParser)
    {a f : String} {l : ConcreteLocation} (assigned : Assigned (cs.current.parses parser.toParser) a f l)
    (outside : cs.touches l.file = false) : Assigned (cs.saved.parses parser.toParser) a f l := by
  rcases assigned with direct | leading
  · have listed := listed_current (local_directsAt a f) distinct quiet vtables (List.append_nil cs).symm
    rcases List.mem_append.1 (listed.mem_iff.1 direct) with saved | fresh
    · exact .inl (List.mem_of_mem_filter saved)
    · rw [fresh_touched quiet a f l fresh] at outside
      cases outside
  · exact .inr ((leads.unchanged a f l outside).2 leading)

/-- Where the functions are found as in a full pass, the vtables are those of a full pass if
and only if the same positional assignments lead and the records are stamped alike. -/
theorem vtables_iff (vtables : cs.Finds parser.toParser .vtable) :
    (∀ a f, ((loadedOver parser.toParser cs (savedView parser.toParser hashText cs)).vtable a f).Perm
      (((View.empty.build (cs.current.parses parser.toParser)).vtable a f).map
        (scanStamp parser.toParser hashText cs.current))) ↔
      cs.Leads parser.toParser ∧ cs.Stamped parser.toParser := by
  have loaded := fun a f => @loaded_stamped parser hashText cs distinct quiet vtables a f
  have perms := loaded_perm_iff distinct quiet vtables
  have stamps := fun leads => stamped_iff hashText distinct
    (fun a f l => @saved_of_leads parser cs distinct quiet vtables leads a f l)
  have plain : ∀ a f, ∀ l ∈ (loadedOver parser.toParser cs
      (View.empty.build (cs.saved.parses parser.toParser))).vtable a f, l.unstamped = l := by
    intro a f l member
    rcases mem_loaded member with ⟨saved, -⟩ | ⟨plain, -⟩
    · exact plain_of_listed (saved_distinct distinct) saved
    · exact plain
  have unstamps : ∀ l : ConcreteLocation,
      (if cs.touches l.file then l else scanStamp parser.toParser hashText cs.saved l).unstamped =
        l.unstamped := by
    intro l
    split
    · rfl
    · exact scanStamp_unstamped parser.toParser hashText cs.saved l
  have unstamps' := scanStamp_unstamped parser.toParser hashText cs.current
  have plain' : ∀ a f, ∀ l ∈ (View.empty.build (cs.current.parses parser.toParser)).vtable a f,
      l.unstamped = l := fun a f l => plain_of_listed distinct
  generalize loadedOver parser.toParser cs (View.empty.build (cs.saved.parses parser.toParser)) = base at *
  have agree : ∀ a f, (base.vtable a f).Perm
      ((View.empty.build (cs.current.parses parser.toParser)).vtable a f) →
        (((base.vtable a f).map fun l => if cs.touches l.file then l
            else scanStamp parser.toParser hashText cs.saved l).Perm
          (((View.empty.build (cs.current.parses parser.toParser)).vtable a f).map
            (scanStamp parser.toParser hashText cs.current)) ↔
          ∀ l ∈ (View.empty.build (cs.current.parses parser.toParser)).vtable a f,
            (if cs.touches l.file then l else scanStamp parser.toParser hashText cs.saved l) =
              scanStamp parser.toParser hashText cs.current l) := by
    intro a f perm
    refine ((perm.map _).congr_left _).trans (map_perm_map_iff (h := ConcreteLocation.unstamped) ?_ ?_)
    · exact fun l member => (unstamps l).trans (plain' a f l member)
    · exact fun l member => (unstamps' l).trans (plain' a f l member)
  simp only [loaded]
  constructor
  · intro same
    have unstamped : ∀ a f, (base.vtable a f).Perm
        ((View.empty.build (cs.current.parses parser.toParser)).vtable a f) := by
      intro a f
      have mapped := (same a f).map ConcreteLocation.unstamped
      rw [List.map_map, List.map_map] at mapped
      refine (List.Perm.of_eq ?_).trans (mapped.trans (List.Perm.of_eq ?_))
      · exact ((List.map_congr_left fun l h => (unstamps l).trans (plain a f l h)).trans (List.map_id' _)).symm
      · exact (List.map_congr_left fun l h => (unstamps' l).trans (plain' a f l h)).trans (List.map_id' _)
    have leads := perms.1 unstamped
    exact ⟨leads, (stamps leads).1 fun a f => (agree a f (unstamped a f)).1 (same a f)⟩
  · rintro ⟨leads, stamped⟩ a f
    exact (agree a f (perms.2 leads a f)).2 ((stamps leads).2 stamped a f)

end Stamping

omit quiet in
/-- What an unchanged file assigns directly was looked up among the files saved before it. -/
theorem saved_direct_of {before after : Changes} {c : FileChange} (split : cs = before ++ c :: after)
    (unchanged : c.changed = false) {a f : String} {l : ConcreteLocation}
    (listed : l ∈ directs (cs.saved.parses parser.toParser) a f)
    (assigned : l.assignmentFile = some c.filePath) :
    ∃ r ∈ (c.parse parser.toParser).parsed.vtableAssignments,
      vtableLocation (definitionsOf ((saved before).parses parser.toParser))
        (c.parse parser.toParser).functionDefs r = l := by
  obtain ⟨before', R, after', split', r, member, -, -, rfl⟩ := mem_directs.1 listed
  have path : R.path = c.filePath := by
    have sourced : R.SourcedFrom R.path := by
      apply sourced_saved cs
      rw [← saved_parses, split']
      simp
    exact (sourced.vtables r member).symm.trans (Option.some.inj assigned :)
  have known_split : cs.saved.parses parser.toParser = (saved before).parses parser.toParser ++
      c.parse parser.toParser :: (saved after).parses parser.toParser := by
    rw [split, saved_parses, saved_parses, saved_parses, List.flatMap_append, List.flatMap_cons,
      oldParse_unchanged parser.toParser unchanged]
    rfl
  have paths : ((cs.saved.parses parser.toParser).map FileParse.path).Nodup := by
    rw [parses_paths]
    exact saved_distinct distinct
  rw [known_split] at paths split'
  obtain ⟨rfl, rfl⟩ := Prefixed.before_unique FileParse.path paths split'
    ((c.parse_path parser.toParser).trans path.symm)
  exact ⟨r, member, rfl⟩

section Necessary

variable (same : ∀ a f, ((loadedOver parser.toParser cs (savedView parser.toParser hashText cs)).vtable a f).Perm
  (((View.empty.build (cs.current.parses parser.toParser)).vtable a f).map
    (scanStamp parser.toParser hashText cs.current)))

include same

/-- When a load leaves the vtables of a full pass, each of their records was saved with its
stamps, at a place in an unchanged file, or is assigned by a changed file and not stamped. -/
theorem origin_of_same {a f : String} {l : ConcreteLocation}
    (assigned : Assigned (cs.current.parses parser.toParser) a f l) :
    (cs.touches l.file = false ∧ Assigned (cs.saved.parses parser.toParser) a f l ∧
        scanStamp parser.toParser hashText cs.saved l = scanStamp parser.toParser hashText cs.current l) ∨
      (cs.touches l.file = true ∧ l.assignmentFile.any cs.touches = true ∧
        scanStamp parser.toParser hashText cs.current l = l) := by
  have plain := plain_of_listed distinct (assigned_iff.2 assigned)
  have unstamps := scanStamp_unstamped parser.toParser hashText cs.current l
  have listed := (same a f).mem_iff.2 (List.mem_map_of_mem (assigned_iff.2 assigned))
  rcases mem_loaded listed with ⟨saved, outside⟩ | ⟨unstamped, changed⟩
  · obtain ⟨l', there, stamped⟩ := List.mem_map.1 saved
    have again := scanStamp_unstamped parser.toParser hashText cs.saved l'
    rw [stamped, unstamps, plain, plain_of_listed (saved_distinct distinct) there] at again
    subst again
    rw [file_of_unstamped unstamps] at outside
    exact .inl ⟨outside, assigned_iff.1 there, stamped⟩
  · have as_listed : scanStamp parser.toParser hashText cs.current l = l :=
      unstamped.symm.trans (unstamps.trans plain)
    rw [as_listed] at changed
    exact .inr ⟨touched_of_assignmentFile distinct quiet assigned changed, changed, as_listed⟩

theorem stamped_of_same : cs.Stamped parser.toParser := by
  have origin := @origin_of_same parser hashText cs distinct quiet same
  refine (stamped_iff hashText distinct fun a f l assigned outside => ?_).1 fun a f l listed => ?_
  · rcases origin assigned with ⟨-, saved, -⟩ | ⟨touched, -⟩
    · exact saved
    · rw [outside] at touched; cases touched
  · rcases origin (assigned_iff.1 listed) with ⟨outside, -, stamped⟩ | ⟨touched, -, stamped⟩
    · rw [if_neg (by rw [outside]; exact Bool.false_ne_true)]
      exact stamped
    · rw [if_pos touched]
      exact stamped.symm

/-- An unchanged file then assigns nothing that the files before it define. -/
theorem unfound_of_same : cs.Unfound parser.toParser .vtable := by
  intro before c after split unchanged n named Q among defined
  obtain ⟨r, member, rfl⟩ := List.mem_map.1 named
  have inside : c ∈ cs := by rw [split]; simp
  have none_own := quiet c inside unchanged
  have outside : cs.touches c.filePath = false := (touches_of_mem distinct inside).trans unchanged
  have all : ∀ {bs : Changes}, (∀ b ∈ bs, b ∈ cs) → ∀ d,
      d ∈ definitionsOf (bs.saved.parses parser.toParser) r.functionName ∨
        d ∈ definitionsOf (bs.current.parses parser.toParser) r.functionName → cs.touches d.file = true := by
    intro bs among d listed
    obtain ⟨b, earlier, edited, file⟩ := defined_in_changed quiet among listed
    rw [file]
    exact touches_of_changed (among b earlier) edited
  have before_cs : ∀ b ∈ before, b ∈ cs := fun b h => by rw [split]; simp [h]
  have direct : vtableLocation (definitionsOf ((current before).parses parser.toParser))
      (c.parse parser.toParser).functionDefs r ∈ directs (cs.current.parses parser.toParser) r.apiType r.field := by
    refine mem_directs.2 ⟨_, _, after.map (FileChange.parse parser.toParser), ?_, r, member, rfl, rfl, rfl⟩
    rw [split, current_parses, current_parses, List.map_append]
    rfl
  have assignment : r.file = c.filePath :=
    ((c.parse_sourced parser.toParser).vtables r member).trans (c.parse_path parser.toParser)
  rcases origin_of_same distinct quiet same (.inl direct) with ⟨untouched, listed, -⟩ | ⟨-, changed, -⟩
  · rw [none_own] at untouched listed
    rcases List.mem_append.1 among with old | new
    · -- it was not found in the saved scan, or its record would be in a changed file
      rcases listed with listed | leads
      · obtain ⟨r', member', same_location⟩ := saved_direct_of distinct split unchanged listed
          (congrArg some assignment)
        have name : r'.functionName = r.functionName := congrArg ConcreteLocation.functionName same_location
        rw [none_own] at same_location
        have touched : cs.touches ((resolveDefinitionLocation r'.functionName r'.file []
            (definitionsOf ((saved before).parses parser.toParser) r'.functionName)).orAt r'.file r'.line).file =
              true := found_touched (fun d there => all before_cs d (.inl (name ▸ there))) old (name ▸ defined)
        rw [← same_location] at untouched
        unfold vtableLocation at untouched
        rw [touched] at untouched
        cases untouched
      · obtain ⟨R, there, d, deferred, i, at_i⟩ := mem_placed (List.mem_of_find?_eq_some leads.first)
        have among : Q ∈ cs.saved.parses parser.toParser := by
          rw [saved_parses] at old ⊢
          obtain ⟨b, earlier, parsed⟩ := List.mem_flatMap.1 old
          exact List.mem_flatMap.2 ⟨b, before_cs b earlier, parsed⟩
        have touched : cs.touches ((resolveDefinitionLocation r.functionName d.filePath []
            (definitionsOf (cs.saved.parses parser.toParser) r.functionName)).orAt d.filePath
              (d.lines.getD i 0)).file = true :=
          found_touched (fun d there => all (fun _ h => h) d (.inl there)) among defined
        rw [at_i] at untouched
        unfold positionalLocation at untouched
        exact Bool.false_ne_true (untouched.symm.trans touched)
    · have touched : cs.touches ((resolveDefinitionLocation r.functionName r.file []
          (definitionsOf ((current before).parses parser.toParser) r.functionName)).orAt r.file r.line).file =
            true := found_touched (fun d there => all before_cs d (.inr there)) new defined
      unfold vtableLocation at untouched
      rw [touched] at untouched
      cases untouched
  · unfold vtableLocation at changed
    rw [assignment] at changed
    rw [show cs.touches c.filePath = true from changed] at outside
    cases outside

end Necessary

end Agreement

end Lists

section Settling

variable (distinct : cs.current.files.Nodup) (collisionFree : CollisionFree hashText cs)
  (plain : PlainKeys (scan parser.toParser hashText cs.saved)) (savedAt startedAt : String)

include distinct

/-- The records of a full pass over the current files. -/
theorem current_records :
    (∀ a f, (viewBy id (scan parser.toParser hashText cs.current).index).vtable a f =
        ((View.empty.build (cs.current.parses parser.toParser)).vtable a f).map
          (scanStamp parser.toParser hashText cs.current)) ∧
      (∀ t, (viewBy id (scan parser.toParser hashText cs.current).index).handlers t =
        handled (cs.current.parses parser.toParser) t) ∧
      (viewBy id (scan parser.toParser hashText cs.current).index).definitions =
        definitionsOf (cs.current.parses parser.toParser) := by
  have shows : viewBy id (scan parser.toParser hashText cs.current).index = _ :=
    viewBy_scan parser.toParser hashText distinct
  rw [shows]
  exact ⟨fun _ _ => rfl, build_handlers _, (build_declares _).2.2⟩

include collisionFree plain

/-- When unchanged files define nothing, the definitions are those of a full pass. -/
theorem definitions_of_quiet (quiet : cs.Quiet parser.toParser) :
    (viewBy id (start parser.toParser hashText savedAt startedAt cs).indexer.index).definitions =
      definitionsOf (cs.current.parses parser.toParser) := by
  rw [(start_records distinct collisionFree plain savedAt startedAt).2.2.2]
  refine definitions_loaded distinct quiet fun n d listed => ?_
  obtain ⟨d', there, rfl⟩ := List.mem_map.1 listed
  rw [(savedView_declares parser.toParser hashText cs).2.2] at there
  exact (saved_gone quiet (.inl there) : cs.touches d'.file = true)

/-- The definitions of unchanged files come back without their signatures. -/
theorem quiet_of_definitions (same : ∀ n,
    ((viewBy id (start parser.toParser hashText savedAt startedAt cs).indexer.index).definitions n).Perm
      (definitionsOf (cs.current.parses parser.toParser) n)) : cs.Quiet parser.toParser := by
  intro c inside unchanged
  rw [List.eq_nil_iff_forall_not_mem]
  intro d defined
  have scanned : d ∈ definitionsOf (cs.current.parses parser.toParser) d.functionName := by
    refine List.mem_filter.2 ⟨List.mem_flatMap.2 ⟨c.parse parser.toParser, ?_, defined⟩, decide_eq_true rfl⟩
    rw [current_parses]
    exact List.mem_map_of_mem inside
  have file : d.file = c.filePath :=
    ((c.parse_sourced parser.toParser).functions d defined).trans (c.parse_path parser.toParser)
  have listed := (same d.functionName).mem_iff.2 scanned
  rw [(start_records distinct collisionFree plain savedAt startedAt).2.2.2,
    definitions_renewed distinct _ (List.append_nil cs).symm] at listed
  rcases List.mem_append.1 listed with saved | renewed
  · obtain ⟨d', -, unsigned⟩ := List.mem_map.1 (List.mem_of_mem_filter saved)
    apply parser.signed c.filePath c.new d defined
    rw [← unsigned]
    rfl
  · obtain ⟨P, among, there, -⟩ := mem_definitionsOf renewed
    have touched := mem_renewed among
    rw [← (renewed_sourced cs P among).functions d there, file, touches_of_mem distinct inside, unchanged]
      at touched
    cases touched

/-- A start from the cache leaves the records of a full pass over the current files when the
changes fit. When it does, unchanged files define no function and assign none directly that
the files before them define, the stamps are alike, and, where the changed files find what
they assign directly as in a full pass, the same positional assignments lead. -/
theorem cache_start_iff :
    (cs.Fits parser.toParser → StartsAfresh parser.toParser hashText savedAt startedAt cs) ∧
      (StartsAfresh parser.toParser hashText savedAt startedAt cs →
        cs.Quiet parser.toParser ∧ cs.Unfound parser.toParser .vtable ∧ cs.Stamped parser.toParser ∧
          (cs.Finds parser.toParser .vtable → cs.Leads parser.toParser)) := by
  obtain ⟨returned, loadedVtable, loadedHandlers, -⟩ :=
    start_records distinct collisionFree plain savedAt startedAt
  obtain ⟨vtable, handlers, definitions⟩ := @current_records parser hashText cs distinct
  constructor
  · intro fits
    refine ⟨returned, ⟨fun a f => ?_, fun t => ?_, fun n => ?_⟩⟩
    · rw [loadedVtable, vtable]
      exact (vtables_iff distinct fits.quiet fits.vtables).2 ⟨fits.leads, fits.stamped⟩ a f
    · obtain ⟨known, -, defined⟩ := savedView_declares parser.toParser hashText cs
      have saved : (savedView parser.toParser hashText cs).handlers t =
          handled (cs.saved.parses parser.toParser) t := build_handlers _ t
      rw [loadedHandlers, handlers, handlers_loaded distinct fits.quiet known defined fits.handlers, saved]
      exact (listed_current (local_handlersAt t) distinct fits.quiet fits.handlers (List.append_nil cs).symm).symm
    · rw [definitions_of_quiet distinct collisionFree plain savedAt startedAt fits.quiet, definitions]
  · intro same
    have quiet := quiet_of_definitions distinct collisionFree plain savedAt startedAt fun n => by
      rw [← definitions]
      exact same.2.definitions n
    have vtables : ∀ a f, ((loadedOver parser.toParser cs (savedView parser.toParser hashText cs)).vtable a f).Perm
        (((View.empty.build (cs.current.parses parser.toParser)).vtable a f).map
          (scanStamp parser.toParser hashText cs.current)) := by
      intro a f
      rw [← loadedVtable, ← vtable]
      exact same.2.vtables a f
    exact ⟨quiet, unfound_of_same distinct quiet vtables, stamped_of_same distinct quiet vtables,
      fun finds => ((vtables_iff distinct quiet finds).1 vtables).1⟩

end Settling

end Records

section Instances

theorem wordName_gtLogApi : WordName "gtLogApi" := wordName_of_all (by decide) rfl

/-- A vtable in one file, and the call that takes its address in another one. -/
def mainParser : SourceParser where
  parseFileWithDefs filePath _ :=
    if filePath = "/w/init.c" then .logVtable filePath else .voidFunction "main" filePath
  sourced filePath _ := by
    split <;> constructor <;> simp [FileParse.logVtable, FileParse.voidFunction, ParsedFile.blank]
  signed filePath _ d := by
    split <;> simp [FileParse.logVtable, FileParse.voidFunction]
    rintro rfl
    simp
  lined filePath _ d := by
    split <;> simp [FileParse.logVtable, FileParse.voidFunction]
    rintro rfl
    simp
  words filePath _ v named := by
    split <;> simp [FileParse.logVtable, FileParse.voidFunction, ParsedFile.blank]
    rintro rfl
    exact wordName_gtLogApi

/-- The file of the vtable is edited, the file of the call is not. -/
def editedVtable : Changes :=
  [⟨"/w/init.c", some "const LOG_API_T gtLogApi = { .Log = Log };",
      "const LOG_API_T gtLogApi = {.Log = Log};"⟩,
    ⟨"/w/main.c", some "int main(void) { LogInit(&gtLogApi); }",
      "int main(void) { LogInit(&gtLogApi); }"⟩]

/-- The record of the edited vtable comes back without its initialiser call. -/
theorem cache_start_loses_stamp :
    ¬ ∀ (parser : SourceParser) (hashText : String → String) (cs : Changes) (savedAt startedAt : String),
      cs.current.files.Nodup → CollisionFree hashText cs →
        StartsAfresh parser.toParser hashText savedAt startedAt cs := by
  intro all
  have same := (all mainParser id editedVtable "" "" (by decide)
    fun _ _ _ _ same => same).2.vtables "LOG_API_T" "Log"
  have loaded := (loadFromCache_view mainParser.toParser id (W := editedVtable.current) (by decide)
    (rfl : (indexToCache (scan mainParser.toParser id editedVtable.saved).index
      (scan mainParser.toParser id editedVtable.saved).fileHashes "").version = CACHE_VERSION) "" shows_id).2
  unfold start saveToCache at same
  rw [loaded] at same
  revert same
  decide

/-- The parse of a header that declares the API struct with one field. -/
def FileParse.logApi (filePath : String) : FileParse where
  parsed := { ParsedFile.blank filePath with apiStructDefinitions := [⟨"LOG_API_T", ["Log"]⟩] }
  functionDefs := []
  apiMemberRegistry := .empty

/-- The parse of a file that assigns `Log` by position. -/
def FileParse.traceVtable (filePath : String) : FileParse where
  parsed := { ParsedFile.blank filePath with
    pendingPositionalVtables := [⟨"LOG_API_T", ["Log"], filePath, [1], some "gtTraceApi"⟩] }
  functionDefs := []
  apiMemberRegistry := .empty

def traceParse (filePath : String) : FileParse :=
  if filePath = "/w/log_api.h" then .logApi filePath
  else if filePath = "/w/init.c" then .logVtable filePath
  else if filePath = "/w/trace.c" then .traceVtable filePath
  else .voidFunction "Log" filePath

theorem traceParse_cases {motive : FileParse → Prop} (filePath : String) (api : motive (.logApi filePath))
    (vtable : motive (.logVtable filePath)) (positional : motive (.traceVtable filePath))
    (function : motive (.voidFunction "Log" filePath)) : motive (traceParse filePath) := by
  unfold traceParse
  split
  · exact api
  · split
    · exact vtable
    · split
      · exact positional
      · exact function

/-- An API struct, two vtables with the same function and the function, each in its file. -/
def traceParser : SourceParser where
  parseFileWithDefs filePath _ := traceParse filePath
  sourced filePath _ := by
    apply traceParse_cases (motive := fun P => P.SourcedFrom filePath) <;> constructor <;>
      simp [FileParse.logApi, FileParse.logVtable, FileParse.traceVtable, FileParse.voidFunction, ParsedFile.blank]
  signed filePath _ := by
    apply traceParse_cases (motive := fun P => ∀ d ∈ P.functionDefs, d.signature ≠ none) <;>
      simp [FileParse.logApi, FileParse.logVtable, FileParse.traceVtable, FileParse.voidFunction]
  lined filePath _ := by
    apply traceParse_cases (motive := fun P => ∀ d ∈ P.functionDefs, d.line ≠ 0) <;>
      simp [FileParse.logApi, FileParse.logVtable, FileParse.traceVtable, FileParse.voidFunction]
  words filePath _ v _ := by
    apply traceParse_cases (motive := fun P => (∃ r ∈ P.parsed.vtableAssignments, r.varName = some v) ∨
        (∃ r ∈ P.parsed.pendingPositionalVtables, r.varName = some v) → WordName v) <;>
      simp [FileParse.logApi, FileParse.logVtable, FileParse.traceVtable, FileParse.voidFunction, ParsedFile.blank]
    · rintro rfl
      exact wordName_gtLogApi
    · rintro rfl
      exact wordName_of_all (by decide) rfl

/-- The header is not changed. -/
def sameApi : FileChange where
  filePath := "/w/log_api.h"
  old := some "struct LOG_API_TAG { void (*Log)(void); };"
  new := "struct LOG_API_TAG { void (*Log)(void); };"

/-- Nor is the file with a vtable, in which its address is taken. -/
def sameInit : FileChange where
  filePath := "/w/init.c"
  old := some "const LOG_API_T gtLogApi = { .Log = Log }; void *gpvLog = &gtLogApi;"
  new := "const LOG_API_T gtLogApi = { .Log = Log }; void *gpvLog = &gtLogApi;"

/-- The function behind it has a new body. -/
def editedLog : FileChange := ⟨"/w/log.c", some "void Log(void) {}", "void Log(void) { }"⟩

/-- A file is added that assigns the function by position. -/
def addedTrace : FileChange := ⟨"/w/trace.c", none, "const LOG_API_T gtTraceApi = { Log };"⟩

def tracedLog : Changes := [sameApi, sameInit, editedLog, addedTrace]

theorem tracedLog_split {before after : Changes} {c : FileChange} (split : tracedLog = before ++ c :: after) :
    (before = [] ∧ c = sameApi) ∨ (before = [sameApi] ∧ c = sameInit) ∨
      (before = [sameApi, sameInit] ∧ c = editedLog) ∨ c = addedTrace := by
  unfold tracedLog at split
  rcases before with _ | ⟨b, _ | ⟨b', _ | ⟨b'', before⟩⟩⟩
  · exact .inl ⟨rfl, (List.cons.inj split).1.symm⟩
  · obtain ⟨rfl, rest⟩ := List.cons.inj split
    exact .inr (.inl ⟨rfl, (List.cons.inj rest).1.symm⟩)
  · obtain ⟨first, rest⟩ := List.cons.inj split
    obtain ⟨second, rest⟩ := List.cons.inj rest
    exact .inr (.inr (.inl ⟨by rw [first, second], (List.cons.inj rest).1.symm⟩))
  · have lengths := congrArg List.length split
    simp at lengths
    obtain ⟨-, rest⟩ := List.cons.inj split
    obtain ⟨-, rest⟩ := List.cons.inj rest
    obtain ⟨-, rest⟩ := List.cons.inj rest
    obtain ⟨rfl, rfl⟩ : before = [] ∧ after = [] := ⟨List.length_eq_zero_iff.1 (by omega), List.length_eq_zero_iff.1 (by omega)⟩
    exact .inr (.inr (.inr (List.cons.inj rest).1.symm))

theorem tracedLog_quiet : tracedLog.Quiet traceParser.toParser := by
  unfold Changes.Quiet tracedLog
  decide

theorem tracedLog_finds (kind : AssignmentKind) : tracedLog.Finds traceParser.toParser kind where
  unchanged before c after split unchanged n named Q among := by
    rcases tracedLog_split split with ⟨rfl, rfl⟩ | ⟨rfl, rfl⟩ | ⟨rfl, rfl⟩ | rfl
    · cases among
    · rcases List.mem_append.1 among with there | there <;>
        exact (List.mem_singleton.1 there) ▸ List.not_mem_nil
    · exact absurd unchanged (by decide)
    · exact absurd unchanged (by decide)
  changed before c after split changed n named := by
    rcases tracedLog_split split with ⟨rfl, rfl⟩ | ⟨rfl, rfl⟩ | ⟨rfl, rfl⟩ | rfl
    · exact absurd changed (by decide)
    · exact absurd changed (by decide)
    · cases kind <;> exact absurd named List.not_mem_nil
    · cases kind <;> exact absurd named List.not_mem_nil
  roots before c after split r member := by
    rcases tracedLog_split split with ⟨rfl, rfl⟩ | ⟨rfl, rfl⟩ | ⟨rfl, rfl⟩ | rfl <;> cases kind <;>
      exact absurd member List.not_mem_nil

theorem tracedLog_leads : tracedLog.Leads traceParser.toParser := by
  have replaced : ∀ a f, tracedLog.replaced traceParser.toParser a f =
      placed (tracedLog.current.parses traceParser.toParser) a f := fun _ _ => rfl
  refine ⟨fun a f l outside => ⟨fun leads => ?_, fun leads => ?_⟩, fun a f l _ => ?_⟩
  · exact nomatch (show l ∈ [] from List.mem_of_find?_eq_some leads.first)
  · have member := List.mem_of_find?_eq_some leads.first
    rw [← replaced] at member
    rw [replaced_file tracedLog_quiet a f l member] at outside
    cases outside
  · rw [replaced]
    rfl

/-- The records that are assigned directly have the variable of their file. -/
theorem tracedLog_directs {a f : String} {l : ConcreteLocation}
    (direct : l ∈ directs (tracedLog.current.parses traceParser.toParser) a f) :
    l.file = "/w/init.c" ∧ l.apiVarName = some "gtLogApi" := by
  obtain ⟨before, R, after, split, r, member, -, -, rfl⟩ := mem_directs.1 direct
  rw [Changes.current_parses] at split
  obtain ⟨bs, rest, whole, rfl, behind⟩ := List.map_eq_append_iff.1 split
  obtain ⟨b, cs', rfl, rfl, -⟩ := List.map_eq_cons_iff.1 behind
  rcases tracedLog_split whole with ⟨rfl, rfl⟩ | ⟨rfl, rfl⟩ | ⟨rfl, rfl⟩ | rfl
  · exact nomatch (show r ∈ [] from member)
  · obtain rfl := List.mem_singleton.1 (show r ∈ [_] from member)
    exact ⟨rfl, rfl⟩
  · exact nomatch (show r ∈ [] from member)
  · exact nomatch (show r ∈ [] from member)

/-- Those that are assigned by position have the variable of the added file. -/
theorem tracedLog_placed {a f : String} {l : ConcreteLocation}
    (member : l ∈ placed (tracedLog.current.parses traceParser.toParser) a f) :
    l.apiVarName = some "gtTraceApi" := by
  obtain ⟨R, among, d, deferred, i, at_i⟩ := mem_placed member
  rw [Changes.current_parses] at among
  obtain ⟨b, inside, rfl⟩ := List.mem_map.1 among
  have named : ∀ b ∈ tracedLog, ∀ d ∈ (b.parse traceParser.toParser).deferred, d.varName = some "gtTraceApi" := by
    unfold tracedLog
    decide
  rw [at_i]
  exact named b inside d deferred

theorem tracedLog_stamped : tracedLog.Stamped traceParser.toParser where
  changed a f l assigned touched := by
    rcases assigned with direct | leads
    · rw [(tracedLog_directs direct).1] at touched
      exact absurd touched (by decide)
    · unfold Workspace.addressOf
      rw [tracedLog_placed (List.mem_of_find?_eq_some leads.first)]
      decide +kernel
  unchanged a f l assigned outside := by
    rcases assigned with direct | leads
    · have name := (tracedLog_directs direct).2
      have current : tracedLog.current.addressOf l = some ⟨"/w/init.c", 1⟩ := by
        unfold Workspace.addressOf
        rw [name]
        decide +kernel
      have saved : tracedLog.saved.addressOf l = some ⟨"/w/init.c", 1⟩ := by
        unfold Workspace.addressOf
        rw [name]
        decide +kernel
      refine ⟨current.trans saved.symm, fun site here => ?_⟩
      obtain rfl := Option.some.inj (current.symm.trans here)
      decide
    · have member := List.mem_of_find?_eq_some leads.first
      rw [replaced_file tracedLog_quiet a f l member] at outside
      cases outside

theorem tracedLog_plain : PlainKeys (scan traceParser.toParser id tracedLog.saved) where
  fileHashes := by decide
  moduleRoots := by decide
  traitRoots := by decide
  apiStructFields := by decide
  vtableAssignments := by decide
  fieldMaps apiType m found := by
    have only : (scan traceParser.toParser id tracedLog.saved).index.vtableAssignments.keys = ["LOG_API_T"] := by
      decide
    have there : apiType ∈ (scan traceParser.toParser id tracedLog.saved).index.vtableAssignments.keys :=
      List.mem_map_of_mem (OrderedMap.mem_of_get found)
    rw [only, List.mem_singleton] at there
    subst there
    obtain rfl := Option.some.inj found
    decide
  failureHandlerAssignments := by decide
  functionDefinitions := by decide

/-- The header and a vtable whose address is taken stay, the file of the function is edited,
and a file is added that assigns this function by position. -/
theorem cache_start_iff_trace : StartsAfresh traceParser.toParser id "" "" tracedLog :=
  (@cache_start_iff traceParser id tracedLog (by decide) (fun _ _ _ _ same => same) tracedLog_plain "" "").1
    ⟨tracedLog_quiet, tracedLog_finds .vtable, tracedLog_finds .handler, tracedLog_leads, tracedLog_stamped⟩

end Instances

end LibJuno.Indexer
