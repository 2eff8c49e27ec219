import LibJuno.Indexer.Incremental
import LibJuno.Indexer.Reindex
import LibJuno.Lib.RegexSearch

/-!
# The stamps of a full pass

A full pass searches the indexed files for the addresses of the listed API variables, all
names in one expression, and stamps each record with the first place that its variable is
found at and with the caller of the function around that place. For names that are words
the other names do not matter: a record is stamped with what its own variable finds in the
texts of the files.
-/

namespace LibJuno.Indexer

section Words

/-- A name made of letters, digits and underscores. -/
def WordName (v : String) : Prop := v ≠ "" ∧ ∀ c ∈ v.toList, c.isAlphanum = true ∨ c = '_'

theorem wordName_of_all {v : String} (named : v ≠ "")
    (all : (v.toList.all fun c => c.isAlphanum || decide (c = '_')) = true) : WordName v := by
  refine ⟨named, fun c member => ?_⟩
  simpa using List.all_eq_true.1 all c member

theorem utf16Char_of_word {c : Char} (word : c.isAlphanum = true ∨ c = '_') :
    utf16Char c = [c.toNat.toUInt16] ∧ isWord c.toNat.toUInt16 = true ∧
      Char.ofNat c.toNat.toUInt16.toNat = c := by
  have range : (48 ≤ c.toNat ∧ c.toNat ≤ 57) ∨ c.toNat = 95 ∨ (65 ≤ c.toNat ∧ c.toNat ≤ 90) ∨
      (97 ≤ c.toNat ∧ c.toNat ≤ 122) := by
    rcases word with letter | rfl
    · change ((decide (c.val ≥ 'A'.val ∧ c.val ≤ 'Z'.val) ||
        (decide (c.val ≥ 'a'.val) && decide (c.val ≤ 'z'.val))) ||
          (decide (c.val ≥ '0'.val) && decide (c.val ≤ '9'.val))) = true at letter
      simp only [Bool.or_eq_true, Bool.and_eq_true, decide_eq_true_eq, UInt32.le_iff_toNat_le,
        ge_iff_le] at letter
      change ((65 ≤ c.toNat ∧ c.toNat ≤ 90) ∨ (97 ≤ c.toNat ∧ c.toNat ≤ 122)) ∨
        (48 ≤ c.toNat ∧ c.toNat ≤ 57) at letter
      omega
    · exact .inr (.inl rfl)
  have unit : c.toNat.toUInt16.toNat = c.toNat := by
    apply UInt16.toNat_ofNat_of_lt'
    show c.toNat < 65536
    omega
  refine ⟨if_pos (by omega), ?_, ?_⟩
  · simp only [isWord, Bool.or_eq_true, Bool.and_eq_true, decide_eq_true_eq, beq_iff_eq,
      UInt16.le_iff_toNat_le, ← UInt16.toNat_inj, UInt16.reduceToNat, unit]
    omega
  · rw [unit, Char.ofNat_toNat]

variable {v : String} (word : WordName v)

include word

theorem WordName.units : utf16 v = v.toList.map fun c => c.toNat.toUInt16 := by
  rw [utf16, List.map_eq_flatMap]
  exact List.flatMap_congr fun c member => (utf16Char_of_word (word.2 c member)).1

theorem WordName.isWord {u : UInt16} (member : u ∈ utf16 v) : isWord u = true := by
  rw [word.units] at member
  obtain ⟨c, there, rfl⟩ := List.mem_map.1 member
  exact (utf16Char_of_word (word.2 c there)).2.1

theorem WordName.ofUnits : ofUnits (utf16 v) = v := by
  unfold LibJuno.Indexer.ofUnits
  rw [word.units, List.map_map]
  have same : v.toList.map ((fun u : UInt16 => Char.ofNat u.toNat) ∘ fun c : Char => c.toNat.toUInt16) =
      v.toList :=
    (List.map_congr_left fun c member => (utf16Char_of_word (word.2 c member)).2.2).trans (List.map_id' _)
  rw [same, String.ofList_toList]

theorem WordName.length_pos : 0 < (utf16 v).length := by
  rw [word.units, List.length_map, List.length_pos_iff]
  intro none
  exact word.1 (String.toList_eq_nil_iff.1 none)

end Words

section Addresses

/-- The pattern for the address of one variable. -/
def ownAddressPattern (v : String) : Regex UInt16 :=
  .chain [Pattern.text "&", Pattern.text v, Pattern.boundary]

/-- The line takes the address of the variable. -/
def takesAddress (v : String) (row : CodeUnits) : Bool := Regex.test row (ownAddressPattern v)

/-- At this position of the line an ampersand stands before the name, and the name ends there. -/
structure AddressAt (row : CodeUnits) (i : Nat) (v : String) : Prop where
  ampersand : row[i]? = some 38
  name : utf16 v <+: row.drop (i + 1)
  ends : ((row[i + (utf16 v).length]?.map isWord).getD false !=
    (row[i + 1 + (utf16 v).length]?.map isWord).getD false) = true

theorem utf16_ampersand : utf16 "&" = [38] := by decide

variable {row : CodeUnits} {i : Nat} {x : Nat × Regex.Captures}

theorem mem_runs_boundary {c : Regex.Captures} :
    x ∈ Regex.runs row Pattern.boundary (i + 1) c ↔ x = (i + 1, c) ∧
      ((row[i]?.map isWord).getD false != (row[i + 1]?.map isWord).getD false) = true := by
  unfold Pattern.boundary Regex.runs
  rw [if_neg (Nat.succ_ne_zero i), Nat.add_sub_cancel]
  split <;> simp_all

theorem mem_runs_ownAddress {v : String} (x : Nat × Regex.Captures) :
    x ∈ Regex.runs row (ownAddressPattern v) i [] ↔
      AddressAt row i v ∧ x = (i + 1 + (utf16 v).length, []) := by
  have apart : i + 1 + (utf16 v).length = i + (utf16 v).length + 1 := by omega
  have shape : ownAddressPattern v =
      .seq (Regex.lit [38]) (.seq (Regex.lit (utf16 v)) Pattern.boundary) := by
    unfold ownAddressPattern Pattern.text
    rw [utf16_ampersand]
    rfl
  rw [shape, Regex.mem_runs_seq]
  constructor
  · rintro ⟨y, first, rest⟩
    obtain ⟨rfl, ampersand⟩ := Regex.mem_runs_lit_one.1 first
    obtain ⟨z, second, third⟩ := Regex.mem_runs_seq.1 rest
    obtain ⟨rfl, name⟩ := Regex.mem_runs_lit.1 second
    dsimp only at third
    rw [apart, mem_runs_boundary] at third
    exact ⟨⟨ampersand, name, by rw [apart]; exact third.2⟩, by rw [apart]; exact third.1⟩
  · rintro ⟨⟨ampersand, name, ends⟩, rfl⟩
    refine ⟨(i + 1, []), Regex.mem_runs_lit_one.2 ⟨rfl, ampersand⟩, Regex.mem_runs_seq.2
      ⟨(i + 1 + (utf16 v).length, []), Regex.mem_runs_lit.2 ⟨rfl, name⟩, ?_⟩⟩
    dsimp only
    rw [apart] at ends ⊢
    exact mem_runs_boundary.2 ⟨rfl, ends⟩

theorem mem_runs_address {names : List String} (x : Nat × Regex.Captures) :
    x ∈ Regex.runs row (addressPattern names) i [] ↔
      ∃ v ∈ names, AddressAt row i v ∧
        x = (i + 1 + (utf16 v).length, [(1, i + 1, i + 1 + (utf16 v).length)]) := by
  have shape : addressPattern names = .seq (Regex.lit [38])
      (.seq (.group 1 (Regex.anyOf (names.map Pattern.text))) Pattern.boundary) := by
    unfold addressPattern Pattern.text
    rw [utf16_ampersand]
    rfl
  rw [shape, Regex.mem_runs_seq]
  constructor
  · rintro ⟨y, first, rest⟩
    obtain ⟨rfl, ampersand⟩ := Regex.mem_runs_lit_one.1 first
    obtain ⟨z, second, third⟩ := Regex.mem_runs_seq.1 rest
    obtain ⟨w, inner, rfl⟩ := Regex.mem_runs_group.1 second
    obtain ⟨r, among, inner⟩ := Regex.mem_runs_anyOf.1 inner
    obtain ⟨v, member, rfl⟩ := List.mem_map.1 among
    obtain ⟨rfl, name⟩ := Regex.mem_runs_lit.1 inner
    have apart : i + 1 + (utf16 v).length = i + (utf16 v).length + 1 := by omega
    dsimp only at third
    rw [apart, mem_runs_boundary] at third
    exact ⟨v, member, ⟨ampersand, name, by rw [apart]; exact third.2⟩, by rw [apart]; exact third.1⟩
  · rintro ⟨v, member, ⟨ampersand, name, ends⟩, rfl⟩
    have apart : i + 1 + (utf16 v).length = i + (utf16 v).length + 1 := by omega
    refine ⟨(i + 1, []), Regex.mem_runs_lit_one.2 ⟨rfl, ampersand⟩, Regex.mem_runs_seq.2
      ⟨(i + 1 + (utf16 v).length, [(1, i + 1, i + 1 + (utf16 v).length)]), ?_, ?_⟩⟩
    · exact Regex.mem_runs_group.2 ⟨(i + 1 + (utf16 v).length, []), Regex.mem_runs_anyOf.2
        ⟨_, List.mem_map_of_mem member, Regex.mem_runs_lit.2 ⟨rfl, name⟩⟩, rfl⟩
    · dsimp only
      rw [apart] at ends ⊢
      exact mem_runs_boundary.2 ⟨rfl, ends⟩

/-- Only one name stands at a place. -/
theorem AddressAt.unique {v v' : String} (word : WordName v) (word' : WordName v')
    (here : AddressAt row i v) (here' : AddressAt row i v') : v = v' := by
  -- a name that goes on further has a word character where the other one ends
  have shorter : ∀ {v v' : String}, WordName v → WordName v' → AddressAt row i v →
      AddressAt row i v' → (utf16 v).length < (utf16 v').length → False := by
    intro v v' word word' here here' less
    have at_index : ∀ {v : String}, WordName v → AddressAt row i v → ∀ k, k < (utf16 v).length →
        (row[i + 1 + k]?.map isWord).getD false = true := by
      intro v word here k below
      obtain ⟨rest, whole⟩ := here.name
      have there : row[i + 1 + k]? = some (utf16 v)[k] := by
        rw [← List.getElem?_drop, ← whole, List.getElem?_append_left below, List.getElem?_eq_getElem below]
      rw [there, Option.map_some, Option.getD_some]
      exact word.isWord (List.getElem_mem below)
    have last := at_index word here ((utf16 v).length - 1) (by have := word.length_pos; omega)
    have next := at_index word' here' (utf16 v).length less
    have ends := here.ends
    rw [show i + (utf16 v).length = i + 1 + ((utf16 v).length - 1) by have := word.length_pos; omega, last,
      next] at ends
    exact absurd ends (by decide)
  have lengths : (utf16 v).length = (utf16 v').length := by
    rcases Nat.lt_trichotomy (utf16 v).length (utf16 v').length with less | same | more
    · exact (shorter word word' here here' less).elim
    · exact same
    · exact (shorter word' word here' here more).elim
  have units : utf16 v = utf16 v' :=
    (List.prefix_of_prefix_length_le here.name here'.name lengths.le).eq_of_length lengths
  rw [← word.ofUnits, units, word'.ofUnits]

theorem takesAddress_iff {v : String} : takesAddress v row = true ↔ ∃ i, AddressAt row i v := by
  unfold takesAddress Regex.test
  rw [Regex.exec, List.findSome?_isSome_iff]
  constructor
  · rintro ⟨i, -, matched⟩
    obtain ⟨x, run⟩ := Regex.matchAt_isSome.1 matched
    exact ⟨i, ((mem_runs_ownAddress x).1 run).1⟩
  · rintro ⟨i, here⟩
    have bound := (List.getElem?_eq_some_iff.1 here.ampersand).1
    exact ⟨i, List.mem_range'_1.2 ⟨Nat.zero_le _, by omega⟩,
      Regex.matchAt_isSome.2 ⟨_, (mem_runs_ownAddress _).2 ⟨here, rfl⟩⟩⟩

/-- The name that a match of the search is for. -/
def matchedName (row : CodeUnits) (m : Regex.Match) : String := ofUnits ((m.group row 1).getD [])

variable {names : List String} (words : ∀ v ∈ names, WordName v)

include words

theorem matchedName_of_matchAt {m : Regex.Match}
    (found : Regex.matchAt row (addressPattern names) m.index = some m) :
    ∃ v ∈ names, AddressAt row m.index v ∧ matchedName row m = v ∧
      m.stop = m.index + 1 + (utf16 v).length := by
  obtain ⟨-, run⟩ := Regex.mem_of_matchAt found
  obtain ⟨v, member, here, same⟩ := (mem_runs_address _).1 run
  obtain ⟨stop, captures⟩ := Prod.mk.inj same
  refine ⟨v, member, here, ?_, stop⟩
  obtain ⟨rest, whole⟩ := here.name
  have text : m.group row 1 = some (utf16 v) := by
    unfold Regex.Match.group
    rw [captures, List.find?_cons_of_pos (by rfl), Option.map_some, ← whole]
    congr 1
    rw [show m.index + 1 + (utf16 v).length - (m.index + 1) = (utf16 v).length by omega, List.take_left]
  unfold matchedName
  rw [text, Option.getD_some, (words v member).ofUnits]

/-- The search for all names finds a name in the lines that take its address. -/
theorem exists_matched_iff {v : String} (member : v ∈ names) :
    (∃ m ∈ Regex.execAll row (addressPattern names), matchedName row m = v) ↔
      takesAddress v row = true := by
  have nonempty : Regex.nullable (addressPattern names) = false := by
    unfold addressPattern Pattern.text
    rw [utf16_ampersand]
    rfl
  rw [takesAddress_iff]
  constructor
  · rintro ⟨m, found, rfl⟩
    obtain ⟨v', -, here, same, -⟩ := matchedName_of_matchAt words (Regex.matchAt_of_mem nonempty found)
    exact ⟨m.index, same ▸ here⟩
  · rintro ⟨i, here⟩
    have bound := (List.getElem?_eq_some_iff.1 here.ampersand).1
    obtain ⟨m, found⟩ := Option.isSome_iff_exists.1
      (Regex.matchAt_isSome.2 ⟨_, (mem_runs_address _).2 ⟨v, member, here, rfl⟩⟩)
    obtain ⟨rfl, -⟩ := Regex.mem_of_matchAt found
    obtain ⟨v', member', here', same, -⟩ := matchedName_of_matchAt words found
    obtain rfl := here.unique (words v member) (words v' member') here'
    rcases Regex.mem_or_over nonempty found bound.le with searched | ⟨m', searched, before, beyond⟩
    · exact ⟨m, searched, same⟩
    · -- no ampersand is inside an earlier match
      obtain ⟨w, member'', around, -, stop⟩ :=
        matchedName_of_matchAt words (Regex.matchAt_of_mem nonempty searched)
      obtain ⟨rest, whole⟩ := around.name
      have inside : (utf16 w)[m.index - m'.index - 1]? = some 38 := by
        rw [← here.ampersand, show m.index = m'.index + 1 + (m.index - m'.index - 1) by omega,
          ← List.getElem?_drop, ← whole, List.getElem?_append_left (by omega)]
        congr 1
        omega
      have word := (words w member'').isWord (List.mem_of_getElem? inside)
      exact absurd word (by decide)

end Addresses

section Places

variable (disk : Disk) (files : List String)

/-- The first line in the files that takes the address of the variable. -/
def firstAddress (v : String) : Option CallSite :=
  (files.flatMap fun path => (splitLines (utf16 ((disk path).getD ""))).zipIdx.filterMap fun x =>
    if takesAddress v x.1 then some (⟨path, x.2 + 1⟩ : CallSite) else none).head?

/-- The search for all listed names starts the list of a name with its first address. -/
theorem head_addressSites {names : List String} (words : ∀ v ∈ names, WordName v) {v : String}
    (member : v ∈ names) : ((addressSites disk names files).listAt v).head? = firstAddress disk files v := by
  unfold addressSites firstAddress
  dsimp only
  rw [OrderedMap.listAt_foldl_push, OrderedMap.listAt_empty, List.nil_append, List.filter_flatMap,
    List.map_flatMap, List.head?_flatMap, List.head?_flatMap]
  congr 1
  funext path
  rw [List.filter_flatMap, List.map_flatMap, List.head?_flatMap, List.head?_filterMap]
  congr 1
  funext x
  have matched : _ ↔ takesAddress v x.1 = true := exists_matched_iff words member
  unfold matchedName at matched
  cases found : (((Regex.execAll x.1 (addressPattern names)).map fun m =>
      (ofUnits ((m.group x.1 1).getD []), (⟨path, x.2 + 1⟩ : CallSite))).filter
        fun y => decide (y.1 = v)) with
  | nil =>
    rw [List.filter_eq_nil_iff] at found
    rw [if_neg]
    · rfl
    · intro takes
      obtain ⟨m, searched, name⟩ := matched.2 takes
      exact found _ (List.mem_map_of_mem searched) (decide_eq_true name)
  | cons y rest =>
    have member : y ∈ ((Regex.execAll x.1 (addressPattern names)).map fun m =>
        (ofUnits ((m.group x.1 1).getD []), (⟨path, x.2 + 1⟩ : CallSite))).filter
          fun y => decide (y.1 = v) := found ▸ List.mem_cons_self
    obtain ⟨there, name⟩ := List.mem_filter.1 member
    obtain ⟨m, searched, rfl⟩ := List.mem_map.1 there
    rw [if_pos (matched.1 ⟨m, searched, of_decide_eq_true name⟩)]
    rfl

end Places

/-- A parser that names as the tree walk does: a definition has a signature and a line, and
an API variable with a name has one that is a word. -/
structure SourceParser extends Parser where
  signed : ∀ filePath text, ∀ d ∈ (parseFileWithDefs filePath text).functionDefs, d.signature ≠ none
  lined : ∀ filePath text, ∀ d ∈ (parseFileWithDefs filePath text).functionDefs, d.line ≠ 0
  words : ∀ filePath text v, v ≠ "" →
    (∃ r ∈ (parseFileWithDefs filePath text).parsed.vtableAssignments, r.varName = some v) ∨
      (∃ r ∈ (parseFileWithDefs filePath text).parsed.pendingPositionalVtables, r.varName = some v) →
    WordName v

namespace Workspace

variable (parser : Parser) (W : Workspace)

/-- The first line of the workspace that takes the address of the variable. -/
def firstAddress (v : String) : Option CallSite := LibJuno.Indexer.firstAddress W.disk W.files v

/-- The definitions of the files, in the order of the scan. -/
def definitionIndex : NavigationIndex :=
  { createEmptyIndex with
    functionDefinitions := ((W.parses parser).flatMap FileParse.functionDefs).foldl
      (fun m d => m.push d.functionName d) .empty }

/-- The first call of the function around the place, unless that is `main`. -/
def rootCaller (site : CallSite) : Option CallSite :=
  ((some site.file).filter (· ≠ "")).bind fun file => ((some site.line).filter (· ≠ 0)).bind fun line =>
    (((W.definitionIndex parser).findEnclosingFunction file line).filter
      fun name => name ≠ "" ∧ name ≠ "main").bind
        (findCaller W.disk W.files (W.definitionIndex parser))

/-- The place where the address of the record's variable is taken first. -/
def addressOf (l : ConcreteLocation) : Option CallSite :=
  (l.apiVarName.filter (· ≠ "")).bind W.firstAddress

/-- A record without stamps, with what the texts give it. -/
def stamped (l : ConcreteLocation) : ConcreteLocation :=
  match W.addressOf l with
  | none => l
  | some site =>
    { l with
      initCallFile := some site.file
      initCallLine := some site.line
      compRootFile := (W.rootCaller parser site).map CallSite.file
      compRootLine := (W.rootCaller parser site).map CallSite.line }

theorem stamped_eq_self_iff {l : ConcreteLocation} (plain : l.unstamped = l) :
    W.stamped parser l = l ↔ W.addressOf l = none := by
  have none_there : l.initCallFile = none := by rw [← plain]; rfl
  unfold stamped
  cases W.addressOf l with
  | none => exact ⟨fun _ => rfl, fun _ => rfl⟩
  | some site =>
    refine ⟨fun same => ?_, nofun⟩
    have there := congrArg ConcreteLocation.initCallFile same
    rw [none_there] at there
    cases there

/-- Two workspaces stamp a record alike when its address and the caller around it are the
same. -/
theorem stamped_eq_iff {V W : Workspace} {l : ConcreteLocation} (plain : l.unstamped = l) :
    V.stamped parser l = W.stamped parser l ↔ V.addressOf l = W.addressOf l ∧
      ∀ site, V.addressOf l = some site → V.rootCaller parser site = W.rootCaller parser site := by
  have caller_eq : ∀ x y : Option CallSite, x.map CallSite.file = y.map CallSite.file →
      x.map CallSite.line = y.map CallSite.line → x = y := by
    intro x y files lines
    match x, y with
    | none, none => rfl
    | some ⟨_, _⟩, some ⟨_, _⟩ => cases files; cases lines; rfl
  cases at_v : V.addressOf l with
  | none =>
    have same : V.stamped parser l = l := (stamped_eq_self_iff parser V plain).2 at_v
    rw [same, eq_comm, stamped_eq_self_iff parser W plain]
    exact ⟨fun none => ⟨none.symm, nofun⟩, fun same => same.1.symm⟩
  | some site =>
    constructor
    · intro same
      cases at_w : W.addressOf l with
      | none =>
        rw [(stamped_eq_self_iff parser W plain).2 at_w, stamped_eq_self_iff parser V plain, at_v] at same
        cases same
      | some site' =>
        unfold stamped at same
        rw [at_v, at_w] at same
        dsimp only at same
        have file := Option.some.inj (congrArg ConcreteLocation.initCallFile same :)
        have line := Option.some.inj (congrArg ConcreteLocation.initCallLine same :)
        obtain rfl : site = site' := by
          cases site
          cases site'
          cases (file :)
          cases (line :)
          rfl
        refine ⟨rfl, fun site'' here => ?_⟩
        cases here
        exact caller_eq _ _ (congrArg ConcreteLocation.compRootFile same :)
          (congrArg ConcreteLocation.compRootLine same :)
    · rintro ⟨there, callers⟩
      unfold stamped
      rw [at_v, ← there]
      dsimp only
      rw [callers site rfl]

end Workspace

section Scanned

variable (parser : Parser) (hashText : String → String) {W : Workspace}

/-- What the stamping passes of a full pass over the workspace do to a location. -/
def scanStamp (W : Workspace) : ConcreteLocation → ConcreteLocation :=
  let r := indexFiles parser hashText W.disk W.files .fresh
  stampPass W.disk r.1.fileHashes.keys (r.1.index.resolveDeferred r.2)

theorem scanStamp_unstamped (W : Workspace) (l : ConcreteLocation) :
    (scanStamp parser hashText W l).unstamped = l.unstamped :=
  stampPass_unstamped _ _ _ l

/-- A full pass indexes the files in their order. -/
theorem keys_scan (distinct : W.files.Nodup) :
    (indexFiles parser hashText W.disk W.files .fresh).1.fileHashes.keys = W.files := by
  have readable : (W.files.filter fun path => (W.disk path).isSome) = W.files := by
    rw [List.filter_eq_self]
    intro path member
    obtain ⟨x, there, rfl⟩ := List.mem_map.1 member
    rw [W.disk_of_mem distinct there]
    rfl
  have set_entries := OrderedMap.entries_foldl_set
    (W.files.map fun path => (path, hashText ((W.disk path).getD ""))) .empty (by
      rw [OrderedMap.empty, List.nil_append, List.map_map]
      exact (List.map_id' W.files).symm ▸ distinct)
  rw [List.foldl_map] at set_entries
  rw [fileHashes_indexFiles, readable]
  unfold OrderedMap.keys WorkspaceIndexer.fresh
  dsimp only
  rw [set_entries, OrderedMap.empty, List.nil_append, List.map_map]
  exact List.map_id' W.files

theorem mergeInto_definitions {P : FileParse} (calls : P.parsed.initCallSites = [])
    (index : NavigationIndex) (deferred : List DeferredPositional) :
    (index.mergeInto P deferred).1.functionDefinitions =
      P.functionDefs.foldl (fun m d => m.push d.functionName d) index.functionDefinitions := by
  unfold NavigationIndex.mergeInto
  dsimp only
  rw [calls, List.foldl_nil, foldl_appendVtable, foldl_appendHandler]
  rfl

/-- A full pass lists the definitions in the order of the scan. -/
theorem definitions_scan (distinct : W.files.Nodup) :
    (indexFiles parser hashText W.disk W.files .fresh).1.index.functionDefinitions =
      (W.definitionIndex parser).functionDefinitions := by
  have general : ∀ (V : Workspace), (∀ x ∈ V, x ∈ W) → ∀ (s : WorkspaceIndexer)
      (deferred : List DeferredPositional),
      ((V.files.foldl (fun acc filePath => indexFile parser hashText W.disk filePath acc.1 acc.2)
        (s, deferred)).1.index.functionDefinitions) =
        ((V.parses parser).flatMap FileParse.functionDefs).foldl
          (fun m d => m.push d.functionName d) s.index.functionDefinitions := by
    intro V
    induction V with
    | nil => exact fun _ _ _ => rfl
    | cons x V ih =>
      intro among s deferred
      obtain ⟨member, among⟩ := List.forall_mem_cons.1 among
      unfold Workspace.files Workspace.parses at ih ⊢
      rw [List.map_cons, List.map_cons, List.foldl_cons, List.flatMap_cons, List.foldl_append, ih among]
      congr 1
      unfold indexFile
      rw [W.disk_of_mem distinct member]
      exact mergeInto_definitions (parser.sourced x.1 x.2).calls s.index deferred
  exact general W (fun _ h => h) .fresh []

/-- A name is searched when it is that of a listed record. -/
theorem mem_apiVarNames {index : NavigationIndex} {v : String} :
    v ∈ index.apiVarNames ↔ v ≠ "" ∧ ∃ a f, ∃ l ∈ implementations index.vtableAssignments a f,
      l.apiVarName = some v := by
  unfold NavigationIndex.apiVarNames
  rw [List.mem_eraseDups, List.mem_filter, decide_eq_true_eq, and_comm, List.mem_filterMap]
  apply and_congr_right
  intro _
  constructor
  · rintro ⟨l, listed, name⟩
    obtain ⟨ls, there, member⟩ := List.mem_flatten.1 listed
    obtain ⟨maps, among, inside⟩ := List.mem_flatten.1 there
    obtain ⟨m, found, rfl⟩ := List.mem_map.1 among
    obtain ⟨⟨a, m'⟩, entry, rfl⟩ := List.mem_map.1 found
    obtain ⟨⟨f, ls'⟩, entry', rfl⟩ := List.mem_map.1 inside
    refine ⟨a, f, l, ?_, name⟩
    unfold implementations OrderedMap.listAt
    rw [OrderedMap.get_of_mem entry, Option.getD_some, OrderedMap.get_of_mem entry']
    exact member
  · rintro ⟨a, f, l, listed, name⟩
    refine ⟨l, ?_, name⟩
    unfold implementations OrderedMap.listAt at listed
    cases found : index.vtableAssignments.get a with
    | none => rw [found] at listed; cases listed
    | some m =>
      rw [found, Option.getD_some] at listed
      cases found' : m.get f with
      | none => rw [found'] at listed; cases listed
      | some ls =>
        rw [found'] at listed
        refine List.mem_flatten.2 ⟨ls, List.mem_flatten.2
          ⟨m.values, ?_, List.mem_map.2 ⟨_, OrderedMap.mem_of_get found', rfl⟩⟩, listed⟩
        exact List.mem_map.2 ⟨m, List.mem_map.2 ⟨_, OrderedMap.mem_of_get found, rfl⟩, rfl⟩

/-- A listed record has the variable of an assignment. -/
theorem word_of_listed {parser : SourceParser} {a f : String} {l : ConcreteLocation}
    (listed : l ∈ (View.empty.build (W.parses parser.toParser)).vtable a f) {v : String} (named : v ≠ "")
    (name : l.apiVarName = some v) : WordName v := by
  have parsed : ∀ R ∈ W.parses parser.toParser,
      (∃ r ∈ R.parsed.vtableAssignments, r.varName = some v) ∨
        (∃ r ∈ R.parsed.pendingPositionalVtables, r.varName = some v) → WordName v := by
    intro R member
    obtain ⟨x, -, rfl⟩ := List.mem_map.1 member
    exact parser.words x.1 x.2 v named
  rcases mem_build_vtable.1 listed with direct | leads
  · obtain ⟨before, R, after, split, r, member, -, -, rfl⟩ := mem_directs.1 direct
    exact parsed R (by rw [split]; simp) (.inl ⟨r, member, name⟩)
  · obtain ⟨R, among, d, deferred, i, at_i⟩ := mem_placed (List.mem_of_find?_eq_some leads.first)
    obtain ⟨pp, pending, rfl⟩ := List.mem_map.1 deferred
    rw [at_i] at name
    exact parsed R among (.inr ⟨pp, pending, name⟩)

/-- Before it is stamped, the index of a full pass shows what the files build. -/
theorem viewBy_resolved (distinct : W.files.Nodup) :
    viewBy id ((indexFiles parser hashText W.disk W.files .fresh).1.index.resolveDeferred
        (indexFiles parser hashText W.disk W.files .fresh).2) = View.empty.build (W.parses parser) := by
  obtain ⟨merged, deferred⟩ := shows_id.indexFiles parser hashText W.disk W.files .fresh
  rw [W.parses_disk parser distinct] at merged deferred
  rw [shows_id.resolveDeferred, merged, deferred]
  rfl

/-- The caller is searched from the place of the initialiser call. -/
theorem stampCompRoot_at {index : NavigationIndex}
    (definitions : index.functionDefinitions = (W.definitionIndex parser).functionDefinitions)
    (l : ConcreteLocation) (site : CallSite) (plain : l.compRootFile = none ∧ l.compRootLine = none) :
    stampCompRoot W.disk W.files index
        { l with initCallFile := some site.file, initCallLine := some site.line } =
      { l with
        initCallFile := some site.file
        initCallLine := some site.line
        compRootFile := (W.rootCaller parser site).map CallSite.file
        compRootLine := (W.rootCaller parser site).map CallSite.line } := by
  have callers : findCaller W.disk W.files index =
      findCaller W.disk W.files (W.definitionIndex parser) := by
    funext name
    unfold findCaller
    rw [definitions]
  have enclosing : ∀ file line, index.findEnclosingFunction file line =
      (W.definitionIndex parser).findEnclosingFunction file line := by
    intro file line
    unfold NavigationIndex.findEnclosingFunction
    rw [definitions]
  cases l
  obtain ⟨rfl, rfl⟩ := plain
  unfold stampCompRoot Workspace.rootCaller
  dsimp only
  cases (some site.file).filter (· ≠ "") with
  | none => rfl
  | some file =>
    cases (some site.line).filter (· ≠ 0) with
    | none => rfl
    | some line =>
      dsimp only [Option.bind_some]
      rw [enclosing, callers]
      cases ((W.definitionIndex parser).findEnclosingFunction file line).filter
          (fun name => name ≠ "" ∧ name ≠ "main") with
      | none => rfl
      | some name =>
        dsimp only [Option.bind_some]
        cases findCaller W.disk W.files (W.definitionIndex parser) name with
        | none => rfl
        | some caller => rfl

/-- A full pass stamps a record that it lists with what the texts give it. -/
theorem scanStamp_listed {parser : SourceParser} (distinct : W.files.Nodup) {a f : String}
    {l : ConcreteLocation} (listed : l ∈ (View.empty.build (W.parses parser.toParser)).vtable a f)
    (plain : l.unstamped = l) :
    scanStamp parser.toParser hashText W l = W.stamped parser.toParser l := by
  have shown := viewBy_resolved parser.toParser hashText distinct
  have keys := keys_scan parser.toParser hashText distinct
  have definitions := definitions_scan parser.toParser hashText distinct
  unfold scanStamp
  generalize indexFiles parser.toParser hashText W.disk W.files .fresh = r at *
  have kept := (NavigationIndex.resolveDeferred_grows r.2 r.1.index).1.definitions
  rw [definitions] at kept
  rw [keys]
  generalize r.1.index.resolveDeferred r.2 = index at *
  have at_field : ∀ a f, implementations index.vtableAssignments a f =
      (View.empty.build (W.parses parser.toParser)).vtable a f := by
    intro a f
    rw [← shown]
    exact (List.map_id _).symm
  have words : ∀ v ∈ index.apiVarNames, WordName v := by
    intro v member
    obtain ⟨named, a, f, l, there, name⟩ := mem_apiVarNames.1 member
    rw [at_field] at there
    exact word_of_listed there named name
  have unstamped : l.initCallFile = none ∧ l.compRootFile = none ∧ l.compRootLine = none := by
    rw [← plain]
    exact ⟨rfl, rfl, rfl⟩
  have unsearched : stampCompRoot W.disk W.files index l = l := by
    unfold stampCompRoot
    rw [unstamped.1]
    rfl
  unfold stampPass Workspace.stamped Workspace.addressOf
  cases name : l.apiVarName.filter (· ≠ "") with
  | none =>
    have same : stampInitCall (addressSites W.disk index.apiVarNames W.files) l = l := by
      unfold stampInitCall
      rw [name]
    rw [same, ite_self, unsearched]
    rfl
  | some v =>
    obtain ⟨own, named⟩ := Option.filter_eq_some_iff.1 name
    have member : v ∈ index.apiVarNames :=
      mem_apiVarNames.2 ⟨of_decide_eq_true named, a, f, l, by rw [at_field]; exact listed, own⟩
    have head := head_addressSites W.disk W.files words member
    rw [if_neg (List.ne_nil_of_mem member), Option.bind_some, Workspace.firstAddress, ← head]
    have found : stampInitCall (addressSites W.disk index.apiVarNames W.files) l =
        match ((addressSites W.disk index.apiVarNames W.files).listAt v).head? with
        | none => l
        | some site => { l with initCallFile := some site.file, initCallLine := some site.line } := by
      unfold stampInitCall
      rw [name]
      dsimp only
      cases (addressSites W.disk index.apiVarNames W.files).listAt v <;> rfl
    rw [found]
    cases ((addressSites W.disk index.apiVarNames W.files).listAt v).head? with
    | none => exact unsearched
    | some site => exact stampCompRoot_at parser.toParser kept l site unstamped.2

end Scanned

end LibJuno.Indexer
