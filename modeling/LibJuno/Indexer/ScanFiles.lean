import LibJuno.Lib.Pieces
import LibJuno.Indexer.Reindex

/-!
# Which files are indexed

`WorkspaceIndexer.scanFiles`, over the tree of directory entries, and the file watcher. A scan
lists every C or C++ file once, unless an excluded directory is on its path; the watcher
reports the files of excluded directories too.
-/

namespace LibJuno.Indexer

/-- A directory entry. A directory that cannot be read is one; links and devices are neither
files nor directories. -/
inductive Node where
  | file (name : String)
  | directory (name : String) (readable : Bool) (entries : List Node)
  | other (name : String)

def Node.name : Node → String
  | .file name | .directory name _ _ | .other name => name

/-- `C_FILE_EXTENSIONS` -/
def C_FILE_EXTENSIONS : List String := [".c", ".h", ".cpp", ".hpp", ".hh", ".cc"]

/-- `path.extname` of a name: from its last dot on, when that is not its first character. -/
def extname (name : String) : String :=
  let extension := name.toList.reverse.takeWhile (· ≠ '.')
  if extension.length + 1 < name.toList.length then String.ofList ('.' :: extension.reverse) else ""

/-- `path.join(dir, name)` -/
def joinPath (dir name : String) : String := dir ++ "/" ++ name

section Scan

variable (excludedDirs : List String)

mutual

/-- One turn of the loop of `scanFiles`. -/
def scanEntry (dir : String) : Node → List String
  | .directory name readable entries =>
    if name ∈ excludedDirs then []
    else if name = ".libjuno" then []
    else if readable then scanFiles (joinPath dir name) entries
    else []
  | .file name => if extname name ∈ C_FILE_EXTENSIONS then [joinPath dir name] else []
  | .other _ => []

/-- `scanFiles`, on the entries of the directory. -/
def scanFiles (dir : String) : List Node → List String
  | [] => []
  | entry :: entries => scanEntry dir entry ++ scanFiles dir entries

end

end Scan

section Tree

/-- The names down to a C or C++ file. -/
inductive Holds : List Node → List String → Prop where
  | file {entries : List Node} {name : String} (here : .file name ∈ entries)
      (source : extname name ∈ C_FILE_EXTENSIONS) : Holds entries [name]
  | inside {entries inner : List Node} {name : String} {names : List String}
      (here : .directory name true inner ∈ entries) (below : Holds inner names) :
      Holds entries (name :: names)

/-- No directory on the way is left out of a scan. -/
def Entered (excludedDirs names : List String) : Prop :=
  ∀ name ∈ names.dropLast, name ∉ excludedDirs ∧ name ≠ ".libjuno"

/-- Names without slashes, distinct in each directory. -/
inductive WellNamed : List Node → Prop where
  | mk {entries : List Node} (distinct : (entries.map Node.name).Nodup)
      (plain : ∀ e ∈ entries, '/' ∉ e.name.toList)
      (inside : ∀ name readable inner, .directory name readable inner ∈ entries → WellNamed inner) :
      WellNamed entries

/-- The path that leads down the names. -/
def pathOf (dir : String) (names : List String) : String := names.foldl joinPath dir

theorem pathOf_cons (dir name : String) (names : List String) :
    pathOf dir (name :: names) = pathOf (joinPath dir name) names := rfl

theorem toList_pathOf (dir : String) (names : List String) :
    (pathOf dir names).toList = dir.toList ++ Pieces.joined '/' (names.map String.toList) := by
  induction names generalizing dir with
  | nil => simp [pathOf, Pieces.joined]
  | cons name names ih =>
    rw [pathOf_cons, ih, joinPath, String.toList_append, String.toList_append]
    simp [Pieces.joined]

theorem Holds.ne_nil {entries : List Node} {names : List String} (holds : Holds entries names) :
    names ≠ [] := by
  cases holds <;> exact List.cons_ne_nil _ _

theorem Holds.plain {entries : List Node} {names : List String} (holds : Holds entries names)
    (well : WellNamed entries) : ∀ n ∈ names, '/' ∉ n.toList := by
  induction holds with
  | file here =>
    cases well with
    | mk _ plain _ =>
      intro n member
      obtain rfl := List.mem_singleton.1 member
      exact plain _ here
  | inside here below ih =>
    cases well with
    | mk _ plain inside =>
      intro n member
      rcases List.mem_cons.1 member with rfl | later
      · exact plain _ here
      · exact ih (inside _ _ _ here) n later

/-- Two files have the same path only when the same names lead to them. -/
theorem Holds.path_inj {entries : List Node} {names names' : List String} {dir : String}
    (well : WellNamed entries) (holds : Holds entries names) (holds' : Holds entries names')
    (same : pathOf dir names = pathOf dir names') : names = names' := by
  have letters := congrArg String.toList same
  rw [toList_pathOf, toList_pathOf] at letters
  have pieces := Pieces.joined_inj ?_ ?_ (List.append_cancel_left letters)
  · exact List.map_injective_iff.2 (fun _ _ => String.toList_injective) pieces
  · intro x member
    obtain ⟨n, there, rfl⟩ := List.mem_map.1 member
    exact holds.plain well n there
  · intro x member
    obtain ⟨n, there, rfl⟩ := List.mem_map.1 member
    exact holds'.plain well n there

theorem entered_cons {excludedDirs : List String} {name : String} {names : List String}
    (more : names ≠ []) :
    Entered excludedDirs (name :: names) ↔
      (name ∉ excludedDirs ∧ name ≠ ".libjuno") ∧ Entered excludedDirs names := by
  unfold Entered
  rw [List.dropLast_cons_of_ne_nil more, List.forall_mem_cons]

end Tree

section Listing

variable (excludedDirs : List String)

theorem holds_cons {e : Node} {entries : List Node} {names : List String} :
    Holds (e :: entries) names ↔ Holds [e] names ∨ Holds entries names := by
  constructor
  · rintro (⟨here, source⟩ | ⟨here, below⟩)
    · rcases List.mem_cons.1 here with rfl | later
      · exact .inl (.file List.mem_cons_self source)
      · exact .inr (.file later source)
    · rcases List.mem_cons.1 here with rfl | later
      · exact .inl (.inside List.mem_cons_self below)
      · exact .inr (.inside later below)
  · rintro (first | rest)
    · cases first with
      | file here source => exact .file (List.mem_singleton.1 here ▸ List.mem_cons_self) source
      | inside here below => exact .inside (List.mem_singleton.1 here ▸ List.mem_cons_self) below
    · cases rest with
      | file here source => exact .file (List.mem_cons_of_mem _ here) source
      | inside here below => exact .inside (List.mem_cons_of_mem _ here) below

mutual

theorem mem_scanEntry (dir : String) (p : String) : ∀ e : Node,
    p ∈ scanEntry excludedDirs dir e ↔
      ∃ names, Holds [e] names ∧ Entered excludedDirs names ∧ p = pathOf dir names
  | .file name => by
    rw [scanEntry]
    constructor
    · intro listed
      split at listed
      · next source =>
        exact ⟨[name], .file List.mem_cons_self source, nofun, List.mem_singleton.1 listed⟩
      · cases listed
    · rintro ⟨names, holds, -, rfl⟩
      cases holds with
      | file here source =>
        obtain rfl := Node.file.inj (List.mem_singleton.1 here)
        rw [if_pos source]
        exact List.mem_cons_self
      | inside here below => cases List.mem_singleton.1 here
  | .other name => by
    rw [scanEntry]
    refine ⟨nofun, ?_⟩
    rintro ⟨names, holds, -⟩
    cases holds with
    | file here source => cases List.mem_singleton.1 here
    | inside here below => cases List.mem_singleton.1 here
  | .directory name readable inner => by
    rw [scanEntry]
    have listing := mem_scanFiles (joinPath dir name) p inner
    constructor
    · intro listed
      split at listed
      · cases listed
      · next kept =>
        split at listed
        · cases listed
        · next notCache =>
          split at listed
          · next opens =>
            obtain ⟨names, holds, entered, rfl⟩ := listing.1 listed
            subst opens
            exact ⟨name :: names, .inside List.mem_cons_self holds,
              (entered_cons holds.ne_nil).2 ⟨⟨kept, notCache⟩, entered⟩, rfl⟩
          · cases listed
    · rintro ⟨names, holds, entered, rfl⟩
      cases holds with
      | file here source => cases List.mem_singleton.1 here
      | inside here below =>
        obtain ⟨rfl, rfl, rfl⟩ := Node.directory.inj (List.mem_singleton.1 here)
        obtain ⟨⟨kept, notCache⟩, rest⟩ := (entered_cons below.ne_nil).1 entered
        rw [if_neg kept, if_neg notCache, if_pos rfl]
        exact listing.2 ⟨_, below, rest, rfl⟩

/-- A scan lists the paths of the files that no excluded directory leads to. -/
theorem mem_scanFiles (dir : String) (p : String) : ∀ entries : List Node,
    p ∈ scanFiles excludedDirs dir entries ↔
      ∃ names, Holds entries names ∧ Entered excludedDirs names ∧ p = pathOf dir names
  | [] => by
    rw [scanFiles]
    refine ⟨nofun, ?_⟩
    rintro ⟨names, holds, -⟩
    cases holds with
    | file here source => cases here
    | inside here below => cases here
  | e :: entries => by
    rw [scanFiles, List.mem_append, mem_scanEntry dir p e, mem_scanFiles dir p entries]
    constructor
    · rintro (⟨names, holds, entered⟩ | ⟨names, holds, entered⟩)
      · exact ⟨names, holds_cons.2 (.inl holds), entered⟩
      · exact ⟨names, holds_cons.2 (.inr holds), entered⟩
    · rintro ⟨names, holds, entered⟩
      rcases holds_cons.1 holds with first | rest
      · exact .inl ⟨names, first, entered⟩
      · exact .inr ⟨names, rest, entered⟩

end

theorem WellNamed.tail {e : Node} {entries : List Node} (well : WellNamed (e :: entries)) :
    WellNamed entries := by
  cases well with
  | mk distinct plain inside =>
    exact .mk (List.nodup_cons.1 distinct).2 (fun e' member => plain e' (List.mem_cons_of_mem _ member))
      fun name readable inner here => inside name readable inner (List.mem_cons_of_mem _ here)

/-- The first name is that of an entry. -/
theorem Holds.head {entries : List Node} {names : List String} (holds : Holds entries names) :
    ∃ e ∈ entries, names.head? = some e.name := by
  cases holds with
  | file here source => exact ⟨_, here, rfl⟩
  | inside here below => exact ⟨_, here, rfl⟩

mutual

theorem nodup_scanEntry (dir : String) : ∀ e : Node,
    (∀ name readable inner, e = .directory name readable inner → WellNamed inner) →
      (scanEntry excludedDirs dir e).Nodup
  | .file name, _ => by
    rw [scanEntry]
    split
    · exact List.nodup_singleton _
    · exact List.nodup_nil
  | .other name, _ => by
    rw [scanEntry]
    exact List.nodup_nil
  | .directory name readable inner, well => by
    rw [scanEntry]
    have listing := nodup_scanFiles (joinPath dir name) inner (well name readable inner rfl)
    split
    · exact List.nodup_nil
    · split
      · exact List.nodup_nil
      · split
        · exact listing
        · exact List.nodup_nil

/-- A scan lists no file twice. -/
theorem nodup_scanFiles (dir : String) : ∀ entries : List Node, WellNamed entries →
    (scanFiles excludedDirs dir entries).Nodup
  | [], _ => by
    rw [scanFiles]
    exact List.nodup_nil
  | e :: entries, well => by
    have inner : ∀ name readable inner, e = .directory name readable inner → WellNamed inner := by
      intro name readable inner here
      cases well with
      | mk _ _ inside => exact inside name readable inner (here ▸ List.mem_cons_self)
    rw [scanFiles, List.nodup_append]
    refine ⟨nodup_scanEntry dir e inner, nodup_scanFiles dir entries well.tail, ?_⟩
    rintro p first q rest rfl
    obtain ⟨names, holds, -, path⟩ := (mem_scanEntry excludedDirs dir p e).1 first
    obtain ⟨names', holds', -, path'⟩ := (mem_scanFiles excludedDirs dir p entries).1 rest
    -- one path in two entries is one list of names, so the entries share their name
    have same := Holds.path_inj well (holds_cons.2 (.inl holds)) (holds_cons.2 (.inr holds'))
      (path.symm.trans path')
    obtain ⟨e', member, head⟩ := holds'.head
    obtain ⟨e'', own, head'⟩ := holds.head
    obtain rfl := List.mem_singleton.1 own
    have name : e'.name = e''.name := by
      rw [← same, head'] at head
      exact (Option.some.inj head).symm
    cases well with
    | mk distinct _ _ =>
      have fresh := (List.nodup_cons.1 distinct).1
      exact fresh (name ▸ List.mem_map_of_mem member)

end

end Listing

section Indexed

variable (parser : Parser) (hashText : String → String) (disk : Disk) (excludedDirs : List String)

theorem fileHashes_resolvePasses (s : WorkspaceIndexer) (deferred : List DeferredPositional) :
    (finishIndexing disk s deferred).fileHashes = s.fileHashes := rfl

/-- The hash of a file that is read is there after its re-indexing. -/
theorem has_reindexFile (s : WorkspaceIndexer) {path : String} (readable : (disk path).isSome = true) :
    (reindexFile parser hashText disk path s).fileHashes.has path = true := by
  obtain ⟨text, read⟩ := Option.isSome_iff_exists.1 readable
  unfold reindexFile indexFile
  rw [read]
  dsimp only
  rw [fileHashes_resolvePasses, OrderedMap.has, OrderedMap.get_set_self]
  rfl

/-- A scan of a directory tree lists no file twice, and leaves indexed exactly the readable C
and C++ files of the tree with no excluded directory on their path. A change of any other
readable one that the watcher reports indexes it too. -/
theorem scanFiles_indexed {entries : List Node} (well : WellNamed entries) (root : String) :
    (scanFiles excludedDirs root entries).Nodup ∧
    (∀ names, Holds entries names →
      ((fullIndex parser hashText disk (scanFiles excludedDirs root entries) .fresh).fileHashes.has
          (pathOf root names) = true ↔
        (disk (pathOf root names)).isSome = true ∧ Entered excludedDirs names)) ∧
    (∀ p, (fullIndex parser hashText disk (scanFiles excludedDirs root entries) .fresh).fileHashes.has p =
        true → ∃ names, Holds entries names ∧ p = pathOf root names) ∧
    ∀ s names, Holds entries names → (disk (pathOf root names)).isSome = true →
      (reindexFile parser hashText disk (pathOf root names) s).fileHashes.has (pathOf root names) = true := by
  have indexed : ∀ p, (fullIndex parser hashText disk (scanFiles excludedDirs root entries)
      .fresh).fileHashes.has p = true ↔
        p ∈ scanFiles excludedDirs root entries ∧ (disk p).isSome = true := by
    intro p
    unfold fullIndex
    dsimp only
    rw [fileHashes_resolvePasses, fileHashes_indexFiles]
    have keys := OrderedMap.has_foldl_set id (fun path => hashText ((disk path).getD ""))
      ((scanFiles excludedDirs root entries).filter fun path => (disk path).isSome)
      (WorkspaceIndexer.fresh).fileHashes p
    rw [List.map_id] at keys
    refine (Eq.congr_left keys).trans ?_
    rw [Bool.or_eq_true, decide_eq_true_iff, List.mem_filter]
    exact or_iff_right nofun
  refine ⟨nodup_scanFiles excludedDirs root entries well, fun names holds => ?_, fun p listed => ?_,
    fun s names _ readable => has_reindexFile parser hashText disk s readable⟩
  · rw [indexed, mem_scanFiles]
    constructor
    · rintro ⟨⟨names', holds', entered, same⟩, readable⟩
      obtain rfl := Holds.path_inj well holds holds' same
      exact ⟨readable, entered⟩
    · rintro ⟨readable, entered⟩
      exact ⟨⟨names, holds, entered, rfl⟩, readable⟩
  · obtain ⟨names, holds, -, same⟩ := (mem_scanFiles excludedDirs root p entries).1 ((indexed p).1 listed).1
    exact ⟨names, holds, same⟩

/-- A source file in an excluded directory. -/
def buildTree : List Node := [.directory "build" true [.file "b.c"]]

/-- It is indexed by an event of the watcher and not by a scan. -/
theorem scanFiles_indexed_build :
    ¬(fullIndex logParser id (fun _ => some "") (scanFiles ["build"] "/w" buildTree) .fresh).fileHashes.has
        (pathOf "/w" ["build", "b.c"]) = true ∧
      (reindexFile logParser id (fun _ => some "") (pathOf "/w" ["build", "b.c"])
        (fullIndex logParser id (fun _ => some "") (scanFiles ["build"] "/w" buildTree) .fresh)).fileHashes.has
        (pathOf "/w" ["build", "b.c"]) = true := by
  have well : WellNamed buildTree := by
    refine .mk (by decide) (by simp [buildTree, Node.name]) ?_
    intro name readable inner here
    obtain ⟨rfl, rfl, rfl⟩ := Node.directory.inj (List.mem_singleton.1 here)
    refine .mk (by decide) (by simp [Node.name]) ?_
    intro name readable inner here
    cases List.mem_singleton.1 here
  have holds : Holds buildTree ["build", "b.c"] :=
    .inside List.mem_cons_self (.file List.mem_cons_self (by decide))
  obtain ⟨-, scanned, -, changed⟩ :=
    scanFiles_indexed logParser id (fun _ => some "") ["build"] well "/w"
  refine ⟨fun here => ?_, changed _ _ holds rfl⟩
  have entered := ((scanned _ holds).1 here).2
  exact (entered "build" List.mem_cons_self).1 List.mem_cons_self

end Indexed

end LibJuno.Indexer
