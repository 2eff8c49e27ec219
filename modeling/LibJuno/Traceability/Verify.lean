import LibJuno.Traceability.FixImplements

/-!
# The verdict

`check_link_integrity`, `_scan_file`, `verify_coverage` and the run of
`verify_traceability.py`. Finding the annotation of a line and reading its JSON is a
parameter. The verdict is passed exactly when the files are well formed, every link resolves,
every requirement that is to be tested is verified, and every tag names a requirement
(`verify_passes_iff`); after `fix_implements` no parent is reported for not listing a child
(`fixImplements_keeps_verdict`).
-/

namespace LibJuno.Traceability

structure Report where
  errors : List Finding
  warnings : List Finding

namespace Report

def error (report : Report) (finding : Finding) : Report :=
  { report with errors := report.errors ++ [finding] }

def warn (report : Report) (finding : Finding) : Report :=
  { report with warnings := report.warnings ++ [finding] }

@[simp] theorem errors_error (report : Report) (finding : Finding) :
    (report.error finding).errors = report.errors ++ [finding] := rfl

@[simp] theorem errors_warn (report : Report) (finding : Finding) :
    (report.warn finding).errors = report.errors := rfl

@[simp] theorem warnings_warn (report : Report) (finding : Finding) :
    (report.warn finding).warnings = report.warnings ++ [finding] := rfl

end Report

section Links

variable (field back : String) (reqs : Requirements)

/-- The loop body over the links of a field: the target has to list the requirement in the
opposite field. -/
def checkLink (id : String) (r : Requirement) (report : Report) : Json → Option Report
  | .str target =>
    match reqs.get target with
    | none => some (report.error (.broken field r.source id (.str target)))
    | some other =>
      match other.entry.getOrEmpty back with
      | .arr items =>
        if id ∈ items.filterMap Json.text? then some report
        else some (report.warn (.oneSided field id (.str target)))
      | _ => some report
  | link =>
    if link.hashable then some (report.error (.broken field r.source id link)) else none

def checkField (id : String) (r : Requirement) (report : Report) : Option Report :=
  match r.entry.getOrEmpty field with
  | .arr items => items.foldlM (checkLink field back reqs id r) report
  | _ => some (report.error (.notArray field r.source id))

end Links

/-- The body of `check_link_integrity` for one requirement. -/
def checkRequirement (reqs : Requirements) (report : Report) (id : String) : Option Report :=
  match reqs.get id with
  | none => some report
  | some r =>
    (checkField "uses" "implements" reqs id r report).bind
      (checkField "implements" "uses" reqs id r)

/-- `check_link_integrity`. -/
def checkLinkIntegrity (reqs : Requirements) (report : Report) : Option Report :=
  (sortedSet reqs.keys).foldlM (checkRequirement reqs) report

section Scan

/-- A scanned file: its lines, unless it cannot be read. -/
structure SourceFile where
  path : String
  lines : Option (List String)

abbrev Tags := OrderedMap String (List (String × Nat))

structure Scanned where
  tags : Tags
  errors : List Finding

/-- The loop body over the identifiers of a tag. -/
def scanId (key path : String) (lineno : Nat) (s : Scanned) : Json → Scanned
  | .str id => { s with tags := s.tags.push id (path, lineno) }
  | _ => { s with errors := s.errors ++ [.tagNotString key path lineno] }

/-- The loop body of `_scan_file`. `tagOf` gives the JSON of a line with an annotation,
which is missing when it is malformed. -/
def scanLine (tagOf : String → Option (Option Json)) (key path : String) (s : Scanned)
    (line : String × Nat) : Scanned :=
  match tagOf line.1 with
  | none => s
  | some none => { s with errors := s.errors ++ [.malformedJson path (line.2 + 1)] }
  | some (some tag) =>
    match tag.get key with
    | none => s
    | some (.arr ids) => ids.foldl (scanId key path (line.2 + 1)) s
    | some _ => { s with errors := s.errors ++ [.tagNotArray key path (line.2 + 1)] }

/-- `_scan_file`. -/
def scanFile (tagOf : String → Option (Option Json)) (key : String) (s : Scanned)
    (file : SourceFile) : Scanned :=
  match file.lines with
  | none => { s with errors := s.errors ++ [.annotationUnreadable file.path] }
  | some lines => lines.zipIdx.foldl (scanLine tagOf key file.path) s

/-- `scan_annotations`, over the files that the directories and extensions select. -/
def scanAnnotations (tagOf : String → Option (Option Json)) (key : String)
    (files : List SourceFile) : Scanned :=
  files.foldl (scanFile tagOf key) ⟨.empty, []⟩

end Scan

section Coverage

/-- Whether an identifier is reported under a module filter. -/
def inScope (filterPrefix : Option String) (id : String) : Bool :=
  match filterPrefix with
  | none => true
  | some start => start.toList.isPrefixOf id.toList

/-- The loop body of `verify_coverage` over the requirements. -/
def coverRequirement (reqs : Requirements) (reqTags verifyTags : Tags) (report : Report)
    (id : String) : Report :=
  let report := if reqTags.has id then report else report.warn (.unannotated id)
  match reqs.get id with
  | none => report
  | some r =>
    match r.entry.get "verification_method" with
    | some (.str "Test") => if verifyTags.has id then report else report.error (.notVerified id)
    | _ => report

/-- The loop body over the tags: one error for each place of an orphaned one. -/
def orphanedTag (filterPrefix : Option String) (reqs : Requirements) (key : String) (tags : Tags)
    (report : Report) (id : String) : Report :=
  if reqs.has id then report
  else if !inScope filterPrefix id then report
  else (tags.listAt id).foldl (fun report place =>
    report.error (.orphaned key place.1 place.2 id)) report

/-- `verify_coverage`. -/
def verifyCoverage (filterPrefix : Option String) (reqs : Requirements) (reqTags verifyTags : Tags)
    (report : Report) : Report :=
  let report := ((sortedSet reqs.keys).filter (inScope filterPrefix)).foldl
    (coverRequirement reqs reqTags verifyTags) report
  let report := (sortedSet reqTags.keys).foldl
    (orphanedTag filterPrefix reqs "req" reqTags) report
  (sortedSet verifyTags.keys).foldl (orphanedTag filterPrefix reqs "verify" verifyTags) report

end Coverage

/-- What a run reads: the requirement files, the sources with the files of CMake behind them,
and the tests. -/
structure Project where
  store : Option Store
  sources : List SourceFile
  cmakeFiles : List SourceFile
  tests : List SourceFile

/-- The run without `--fix-implements`; the script exits with 0 when there are no errors. -/
def verify (tagOf : String → Option (Option Json)) (filterPrefix : Option String)
    (project : Project) : Option Report :=
  (loadRequirements project.store).bind fun loaded =>
    let reqScan := scanAnnotations tagOf "req" project.sources
    let cmakeScan := project.cmakeFiles.foldl (scanFile tagOf "req") ⟨reqScan.tags, []⟩
    let verifyScan := scanAnnotations tagOf "verify" project.tests
    let errors := loaded.errors ++ reqScan.errors ++ cmakeScan.errors ++ verifyScan.errors
    (checkLinkIntegrity loaded.reqs ⟨errors, []⟩).map
      (verifyCoverage filterPrefix loaded.reqs cmakeScan.tags verifyScan.tags)

section LinkIntegrity

variable {field back : String} {reqs : Requirements}

/-- A link to a loaded requirement. -/
def LinkOk (reqs : Requirements) (link : Json) : Prop :=
  ∃ target, link = .str target ∧ reqs.has target = true

/-- A field without links, or with an array of links to loaded requirements. -/
def FieldOk (reqs : Requirements) (field : String) (r : Requirement) : Prop :=
  ∃ items, r.entry.getOrEmpty field = .arr items ∧ ∀ link ∈ items, LinkOk reqs link

theorem checkLink_errors {id : String} {r : Requirement} {report report' : Report} {link : Json}
    (checked : checkLink field back reqs id r report link = some report') :
    report'.errors = [] ↔ report.errors = [] ∧ LinkOk reqs link := by
  unfold LinkOk OrderedMap.has
  unfold checkLink at checked
  split at checked
  · next target =>
    split at checked
    · next absent =>
      obtain rfl := Option.some.inj checked
      simp [absent]
    · next other here =>
      have ok : ∃ target', Json.str target = .str target' ∧ (reqs.get target').isSome = true :=
        ⟨target, rfl, by rw [here]; rfl⟩
      rw [and_iff_left ok]
      split at checked
      · split at checked
        · rw [Option.some.inj checked]
        · rw [← Option.some.inj checked, Report.errors_warn]
      · rw [Option.some.inj checked]
  · next other =>
    split at checked
    · obtain rfl := Option.some.inj checked
      have not_ok : ¬∃ target, link = .str target ∧ (reqs.get target).isSome = true :=
        fun ⟨target, same, _⟩ => other target same
      simp only [not_ok, and_false, iff_false, Report.errors_error]
      exact List.append_ne_nil_of_right_ne_nil _ (List.cons_ne_nil _ _)
    · cases checked

theorem checkField_errors {id : String} {r : Requirement} {report report' : Report}
    (checked : checkField field back reqs id r report = some report') :
    report'.errors = [] ↔ report.errors = [] ∧ FieldOk reqs field r := by
  unfold FieldOk
  unfold checkField at checked
  split at checked
  · next items listed =>
    have loop := Accumulate.allM (P := fun report : Report => report.errors = [])
      (fun _ _ _ _ taken => checkLink_errors taken) checked
    rw [loop, listed]
    simp
  · next unlisted =>
    obtain rfl := Option.some.inj checked
    have not_ok : ¬∃ items, r.entry.getOrEmpty field = .arr items ∧ ∀ link ∈ items, LinkOk reqs link :=
      fun ⟨items, listed, _⟩ => unlisted items listed
    simp only [not_ok, and_false, iff_false, Report.errors_error]
    exact List.append_ne_nil_of_right_ne_nil _ (List.cons_ne_nil _ _)

/-- The links of every requirement resolve. -/
def LinksOk (reqs : Requirements) : Prop :=
  ∀ id r, reqs.get id = some r → FieldOk reqs "uses" r ∧ FieldOk reqs "implements" r

theorem checkRequirement_errors {report report' : Report} {id : String}
    (checked : checkRequirement reqs report id = some report') :
    report'.errors = [] ↔ report.errors = [] ∧
      ∀ r, reqs.get id = some r → FieldOk reqs "uses" r ∧ FieldOk reqs "implements" r := by
  unfold checkRequirement at checked
  split at checked
  · next absent =>
    obtain rfl := Option.some.inj checked
    simp [absent]
  · next r here =>
    obtain ⟨between, first, second⟩ := Option.bind_eq_some_iff.1 checked
    rw [checkField_errors second, checkField_errors first, here]
    simp [and_assoc]

theorem checkLinkIntegrity_errors {report report' : Report}
    (checked : checkLinkIntegrity reqs report = some report') :
    report'.errors = [] ↔ report.errors = [] ∧ LinksOk reqs := by
  have loop := Accumulate.allM (P := fun report : Report => report.errors = [])
    (fun _ _ _ _ taken => checkRequirement_errors taken) checked
  rw [loop]
  refine and_congr_right fun _ => ?_
  constructor
  · intro each id r here
    have key : id ∈ reqs.keys := List.mem_map.2 ⟨(id, r), OrderedMap.mem_of_get here, rfl⟩
    exact each id (mem_sortedSet.2 key) r here
  · exact fun ok id _ r here => ok id r here

/-- The links of the field can be looked up. -/
def FieldHashable (field : String) (r : Requirement) : Prop :=
  ∀ items, r.entry.getOrEmpty field = .arr items → ∀ link ∈ items, link.hashable = true

theorem FieldOk.hashable {r : Requirement} (ok : FieldOk reqs field r) : FieldHashable field r := by
  obtain ⟨items, listed, resolve⟩ := ok
  intro items' listed' link member
  obtain rfl : items = items' := Json.arr.inj (listed.symm.trans listed')
  obtain ⟨target, rfl, -⟩ := resolve link member
  rfl

theorem checkLink_ends (id : String) (r : Requirement) (report : Report) (link : Json) :
    (checkLink field back reqs id r report link).isSome ↔ link.hashable = true := by
  unfold checkLink
  split
  · split
    · exact iff_of_true rfl rfl
    · split
      · split <;> exact iff_of_true rfl rfl
      · exact iff_of_true rfl rfl
  · split
    · next hashed => exact iff_of_true rfl hashed
    · next unhashed => exact iff_of_false nofun unhashed

theorem checkField_ends (id : String) (r : Requirement) (report : Report) :
    (checkField field back reqs id r report).isSome ↔ FieldHashable field r := by
  unfold checkField FieldHashable
  split
  · next items listed =>
    rw [Accumulate.endsM fun s link _ => checkLink_ends id r s link, listed]
    simp
  · next unlisted => exact iff_of_true rfl fun items listed => absurd listed (unlisted items)

theorem checkRequirement_ends (report : Report) (id : String) :
    (checkRequirement reqs report id).isSome ↔
      ∀ r, reqs.get id = some r → FieldHashable "uses" r ∧ FieldHashable "implements" r := by
  unfold checkRequirement
  split
  · next absent => simp [absent]
  · next r here =>
    have first : (checkField "uses" "implements" reqs id r report).isSome ↔ FieldHashable "uses" r :=
      checkField_ends id r report
    rw [here]
    cases between : checkField "uses" "implements" reqs id r report with
    | none =>
      rw [between] at first
      refine iff_of_false nofun fun hashed => ?_
      cases first.2 (hashed r rfl).1
    | some report' =>
      rw [between] at first
      rw [Option.bind_some, checkField_ends]
      exact ⟨fun hashed r' same => Option.some.inj same ▸ ⟨first.1 rfl, hashed⟩, fun hashed => (hashed r rfl).2⟩

/-- The check of the links ends exactly when every link can be looked up. -/
theorem checkLinkIntegrity_ends (report : Report) :
    (checkLinkIntegrity reqs report).isSome ↔
      ∀ id r, reqs.get id = some r → FieldHashable "uses" r ∧ FieldHashable "implements" r := by
  unfold checkLinkIntegrity
  rw [Accumulate.endsM fun s id _ => checkRequirement_ends s id]
  constructor
  · intro each id r here
    have key : id ∈ reqs.keys := List.mem_map.2 ⟨(id, r), OrderedMap.mem_of_get here, rfl⟩
    exact each id (mem_sortedSet.2 key) r here
  · exact fun hashed id _ r here => hashed id r here

/-- A parent is not reported for a child it lists. -/
theorem checkField_warnings {id : String} {r : Requirement} {report report' : Report}
    (checked : checkField field back reqs id r report = some report')
    (mirrored : ∀ target other, target ∈ linksOf field r.entry → reqs.get target = some other →
      id ∈ linksOf back other.entry) : report'.warnings = report.warnings := by
  unfold checkField at checked
  split at checked
  · next items listed =>
    refine Accumulate.keepsM (P := fun r : Report => r.warnings = report.warnings) ?_ rfl checked
    intro s link s' member same taken
    unfold checkLink at taken
    split at taken
    · next target =>
      split at taken
      · rw [← Option.some.inj taken]
        exact same
      · next other here =>
        have uses : target ∈ linksOf field r.entry := by
          rw [linksOf, listed]
          exact List.mem_filterMap.2 ⟨_, member, rfl⟩
        have lists := mirrored target other uses here
        split at taken
        · next back_items back_listed =>
          have there : id ∈ back_items.filterMap Json.text? := by
            rw [linksOf, back_listed] at lists
            exact lists
          rw [if_pos there] at taken
          rw [← Option.some.inj taken]
          exact same
        · rw [← Option.some.inj taken]
          exact same
    · split at taken
      · rw [← Option.some.inj taken]
        exact same
      · cases taken
  · rw [← Option.some.inj checked]
    rfl

/-- The warnings of a field name that field. -/
theorem checkField_warns {id : String} {r : Requirement} {report report' : Report}
    (checked : checkField field back reqs id r report = some report') {warning : Finding}
    (warned : warning ∈ report'.warnings) :
    warning ∈ report.warnings ∨ ∃ target, warning = .oneSided field id target := by
  unfold checkField at checked
  split at checked
  · refine Accumulate.keepsM (P := fun r : Report => warning ∈ r.warnings →
      warning ∈ report.warnings ∨ ∃ target, warning = .oneSided field id target)
      ?_ .inl checked warned
    intro s link s' _ before taken
    unfold checkLink at taken
    split at taken
    · split at taken
      · rw [← Option.some.inj taken]
        exact before
      · split at taken
        · split at taken
          · rw [← Option.some.inj taken]
            exact before
          · rw [← Option.some.inj taken, Report.warnings_warn, List.mem_append, List.mem_singleton]
            rintro (old | new)
            · exact before old
            · exact .inr ⟨_, new⟩
        · rw [← Option.some.inj taken]
          exact before
    · split at taken
      · rw [← Option.some.inj taken]
        exact before
      · cases taken
  · rw [← Option.some.inj checked] at warned
    exact .inl warned

/-- After the files were completed, no parent is reported for a child it does not list. -/
theorem checkLinkIntegrity_closed {report report' : Report}
    (closed : ∀ p c, ¬Missing reqs p c) (checked : checkLinkIntegrity reqs report = some report')
    {id : String} {target : Json} (warned : Finding.oneSided "uses" id target ∈ report'.warnings) :
    Finding.oneSided "uses" id target ∈ report.warnings := by
  refine Accumulate.keepsM (P := fun r : Report => Finding.oneSided "uses" id target ∈ r.warnings →
    Finding.oneSided "uses" id target ∈ report.warnings) ?_ (fun before => before) checked warned
  intro s child s' _ before taken there
  unfold checkRequirement at taken
  split at taken
  · rw [← Option.some.inj taken] at there
    exact before there
  · next r here =>
    obtain ⟨between, first, second⟩ := Option.bind_eq_some_iff.1 taken
    rcases checkField_warns second there with earlier | ⟨_, other⟩
    · rw [checkField_warnings first] at earlier
      · exact before earlier
      · intro p parent uses found
        by_contra lacks
        exact closed p child ⟨parent, r, found, here, uses, lacks⟩
    · simp at other

end LinkIntegrity

section Scanned

variable (tagOf : String → Option (Option Json)) (key : String)

/-- A line without an annotation, or with one whose identifiers are an array of strings. -/
def LineOk (line : String) : Prop :=
  ∀ tag, tagOf line = some tag → ∃ j, tag = some j ∧
    ∀ value, j.get key = some value → ∃ ids, value = .arr ids ∧ ∀ id ∈ ids, id.isString = true

def FileOk (file : SourceFile) : Prop :=
  ∃ lines, file.lines = some lines ∧ ∀ line ∈ lines, LineOk tagOf key line

/-- A line that names an identifier. -/
def LineTags (id line : String) : Prop :=
  ∃ j ids, tagOf line = some (some j) ∧ j.get key = some (.arr ids) ∧ Json.str id ∈ ids

def Tagged (file : SourceFile) (id : String) : Prop :=
  ∃ lines, file.lines = some lines ∧ ∃ line ∈ lines, LineTags tagOf key id line

/-- Every identifier of a tag has a place. -/
def Filled (tags : Tags) : Prop := ∀ id, tags.has id = true → tags.listAt id ≠ []

variable {tagOf key}

theorem filled_empty : Filled .empty := by
  intro id there
  cases there

theorem has_push {tags : Tags} {id id' : String} {place : String × Nat} :
    (tags.push id' place).has id = true ↔ tags.has id = true ∨ id = id' := by
  unfold OrderedMap.has OrderedMap.push
  rw [OrderedMap.get_set]
  split
  · next same => simp [same]
  · next other => simp [other]

theorem filled_push {tags : Tags} (filled : Filled tags) (id : String) (place : String × Nat) :
    Filled (tags.push id place) := by
  intro id' there
  rw [OrderedMap.listAt_push]
  split
  · simp
  · next other =>
    rcases has_push.1 there with old | same
    · exact filled id' old
    · exact absurd same other

theorem scanId_errors (path : String) (lineno : Nat) (s : Scanned) (j : Json) :
    (scanId key path lineno s j).errors = [] ↔ s.errors = [] ∧ j.isString = true := by
  cases j <;> simp [scanId, Json.isString]

theorem scanId_has (path : String) (lineno : Nat) (s : Scanned) (j : Json) (id : String) :
    (scanId key path lineno s j).tags.has id = true ↔ s.tags.has id = true ∨ j = .str id := by
  cases j with
  | str id' =>
    simp only [scanId, has_push, Json.str.injEq]
    rw [eq_comm (a := id)]
  | _ => simp [scanId]

theorem scanId_filled (path : String) (lineno : Nat) (s : Scanned) (j : Json)
    (filled : Filled s.tags) : Filled (scanId key path lineno s j).tags := by
  cases j with
  | str id => exact filled_push filled id _
  | _ => exact filled

theorem scanLine_errors (path : String) (s : Scanned) (line : String × Nat) :
    (scanLine tagOf key path s line).errors = [] ↔
      s.errors = [] ∧ LineOk tagOf key line.1 := by
  unfold scanLine LineOk
  split
  · next plain => simp [plain]
  · next malformed => simp [malformed]
  · next tag found =>
    simp only [found, Option.some.injEq, forall_eq']
    split
    · next untagged => simp [untagged]
    · next ids listed =>
      rw [Accumulate.all (P := fun s : Scanned => s.errors = [])
        (fun s j _ => scanId_errors path (line.2 + 1) s j)]
      simp [listed]
    · next value other_value there =>
      have not_ok : ¬∃ ids, value = .arr ids ∧ ∀ id ∈ ids, id.isString = true :=
        fun ⟨ids, same, _⟩ => other_value ids same
      simp [there, not_ok]

theorem scanLine_has (path : String) (s : Scanned) (line : String × Nat) (id : String) :
    (scanLine tagOf key path s line).tags.has id = true ↔
      s.tags.has id = true ∨ LineTags tagOf key id line.1 := by
  unfold scanLine LineTags
  split
  · next plain => simp [plain]
  · next malformed => simp [malformed]
  · next tag found =>
    simp only [found, Option.some.injEq]
    split
    · next untagged => simp [untagged]
    · next ids listed =>
      rw [Accumulate.any (P := fun s : Scanned => s.tags.has id = true)
        (fun s j => scanId_has path (line.2 + 1) s j id)]
      simp [listed]
    · next value other_value there =>
      simp only [iff_self_or]
      rintro ⟨j, ids, rfl, listed, -⟩
      rw [there] at listed
      exact absurd (Option.some.inj listed) (other_value ids)

theorem scanLine_filled (path : String) (s : Scanned) (line : String × Nat)
    (filled : Filled s.tags) : Filled (scanLine tagOf key path s line).tags := by
  unfold scanLine
  split
  · exact filled
  · exact filled
  · split
    · exact filled
    · exact Accumulate.keeps (P := fun s : Scanned => Filled s.tags)
        (fun s j _ => scanId_filled path (line.2 + 1) s j) filled
    · exact filled

theorem scanFile_errors (s : Scanned) (file : SourceFile) :
    (scanFile tagOf key s file).errors = [] ↔ s.errors = [] ∧ FileOk tagOf key file := by
  unfold scanFile FileOk
  split
  · next unreadable => simp [unreadable]
  · next lines read =>
    rw [Accumulate.all (P := fun s : Scanned => s.errors = [])
        (fun s line _ => scanLine_errors file.path s line),
      Accumulate.forall_mem_numbered, read]
    simp

theorem scanFile_has (s : Scanned) (file : SourceFile) (id : String) :
    (scanFile tagOf key s file).tags.has id = true ↔
      s.tags.has id = true ∨ Tagged tagOf key file id := by
  unfold scanFile Tagged
  split
  · next unreadable => simp [unreadable]
  · next lines read =>
    rw [Accumulate.any (P := fun s : Scanned => s.tags.has id = true)
        (fun s line => scanLine_has file.path s line id),
      Accumulate.exists_mem_numbered, read]
    simp

theorem scanFile_filled (s : Scanned) (file : SourceFile) (filled : Filled s.tags) :
    Filled (scanFile tagOf key s file).tags := by
  unfold scanFile
  split
  · exact filled
  · exact Accumulate.keeps (P := fun s : Scanned => Filled s.tags)
      (fun s line _ => scanLine_filled file.path s line) filled

variable (tagOf key) (files : List SourceFile) (s : Scanned)

/-- The scan of files: faults, tags and places. -/
theorem scanFiles_errors : (files.foldl (scanFile tagOf key) s).errors = [] ↔
    s.errors = [] ∧ ∀ file ∈ files, FileOk tagOf key file :=
  Accumulate.all (P := fun s : Scanned => s.errors = []) fun s file _ => scanFile_errors s file

theorem scanFiles_has (id : String) :
    (files.foldl (scanFile tagOf key) s).tags.has id = true ↔
      s.tags.has id = true ∨ ∃ file ∈ files, Tagged tagOf key file id :=
  Accumulate.any (P := fun s : Scanned => s.tags.has id = true) fun s file => scanFile_has s file id

theorem scanFiles_filled (filled : Filled s.tags) :
    Filled (files.foldl (scanFile tagOf key) s).tags :=
  Accumulate.keeps (P := fun s : Scanned => Filled s.tags) (fun s file _ => scanFile_filled s file)
    filled

end Scanned

section Covered

variable {filterPrefix : Option String} {reqs : Requirements} {reqTags verifyTags : Tags}

/-- A requirement that is to be tested has a tag in a test. -/
def TestedOk (reqs : Requirements) (verifyTags : Tags) (id : String) : Prop :=
  ∀ r, reqs.get id = some r → r.entry.get "verification_method" = some (.str "Test") →
    verifyTags.has id = true

theorem coverRequirement_errors (report : Report) (id : String) :
    (coverRequirement reqs reqTags verifyTags report id).errors = [] ↔
      report.errors = [] ∧ TestedOk reqs verifyTags id := by
  have start : (if reqTags.has id then report else report.warn (.unannotated id)).errors =
      report.errors := by
    split <;> rfl
  unfold coverRequirement TestedOk
  dsimp only
  split
  · next absent => simp [start, absent]
  · next r here =>
    simp only [here, Option.some.injEq, forall_eq']
    split
    · next tested =>
      split
      · next tagged => simp [start, tested, tagged]
      · next untagged => simp [tested, untagged]
    · next other =>
      have untested : r.entry.get "verification_method" ≠ some (.str "Test") := fun same => other same
      simp [start, untested]

theorem orphanedTag_errors {key : String} {tags : Tags} (filled : Filled tags) (report : Report)
    {id : String} (tagged : tags.has id = true) :
    (orphanedTag filterPrefix reqs key tags report id).errors = [] ↔
      report.errors = [] ∧ (inScope filterPrefix id = true → reqs.has id = true) := by
  unfold orphanedTag
  split
  · next known => simp [known]
  · next orphan =>
    split
    · next outside =>
      have outside : inScope filterPrefix id = false := by simpa using outside
      simp [outside]
    · next inside =>
      have inside : inScope filterPrefix id = true := by simpa using inside
      have some_place := filled id tagged
      rw [Accumulate.all (P := fun r : Report => r.errors = []) (Q := fun _ => False)
        (fun r place _ => by simp)]
      simp only [inside, orphan, forall_const]
      refine and_congr_right fun _ => ?_
      constructor
      · intro none_there
        obtain ⟨place, member⟩ := List.exists_mem_of_ne_nil _ some_place
        exact (none_there place member).elim
      · intro impossible
        exact absurd impossible (by simp)

theorem orphanedTags_errors {key : String} {tags : Tags} (filled : Filled tags) (report : Report) :
    ((sortedSet tags.keys).foldl (orphanedTag filterPrefix reqs key tags) report).errors = [] ↔
      report.errors = [] ∧
        ∀ id, tags.has id = true → inScope filterPrefix id = true → reqs.has id = true := by
  rw [Accumulate.all (P := fun r : Report => r.errors = [])
    (Q := fun id => inScope filterPrefix id = true → reqs.has id = true)]
  · simp only [mem_sortedSet, OrderedMap.mem_keys_iff]
  · intro r id member
    exact orphanedTag_errors filled r (OrderedMap.mem_keys_iff.1 (mem_sortedSet.1 member))

theorem verifyCoverage_errors (req_filled : Filled reqTags) (verify_filled : Filled verifyTags)
    (report : Report) :
    (verifyCoverage filterPrefix reqs reqTags verifyTags report).errors = [] ↔
      report.errors = [] ∧
        (∀ id, reqs.has id = true → inScope filterPrefix id = true → TestedOk reqs verifyTags id) ∧
        (∀ id, reqTags.has id = true → inScope filterPrefix id = true → reqs.has id = true) ∧
        ∀ id, verifyTags.has id = true → inScope filterPrefix id = true → reqs.has id = true := by
  unfold verifyCoverage
  dsimp only
  rw [orphanedTags_errors verify_filled, orphanedTags_errors req_filled,
    Accumulate.all (P := fun r : Report => r.errors = []) fun r id _ => coverRequirement_errors r id]
  simp only [List.mem_filter, mem_sortedSet, OrderedMap.mem_keys_iff, and_imp, and_assoc]

end Covered

section Scans

variable (tagOf : String → Option (Option Json)) (key : String) (files : List SourceFile)

theorem scanAnnotations_errors :
    (scanAnnotations tagOf key files).errors = [] ↔ ∀ file ∈ files, FileOk tagOf key file := by
  rw [scanAnnotations, scanFiles_errors]
  simp

theorem scanAnnotations_has (id : String) : (scanAnnotations tagOf key files).tags.has id = true ↔
    ∃ file ∈ files, Tagged tagOf key file id := by
  rw [scanAnnotations, scanFiles_has]
  simp [OrderedMap.has]

theorem scanAnnotations_filled : Filled (scanAnnotations tagOf key files).tags :=
  scanFiles_filled tagOf key files ⟨.empty, []⟩ filled_empty

end Scans

section Verdict

variable {tagOf : String → Option (Option Json)} {filterPrefix : Option String}

/-- What a project has to be for a run under a module filter to pass: well-formed files with
distinct identifiers, well-formed tags, links that resolve, and, in the scope of the filter,
a test for each requirement that asks for one and a requirement for each tag. -/
structure Passes (tagOf : String → Option (Option Json)) (filterPrefix : Option String)
    (project : Project) (reqs : Requirements) : Prop where
  files : ∃ store, project.store = some store ∧ (∀ file ∈ store, DocOk file.2) ∧
    (store.flatMap fun file => docIds file.2).Nodup
  source_tags : ∀ file ∈ project.sources ++ project.cmakeFiles, FileOk tagOf "req" file
  test_tags : ∀ file ∈ project.tests, FileOk tagOf "verify" file
  links : LinksOk reqs
  tested : ∀ id r, reqs.get id = some r → inScope filterPrefix id = true →
    r.entry.get "verification_method" = some (.str "Test") →
    ∃ file ∈ project.tests, Tagged tagOf "verify" file id
  implemented : ∀ file ∈ project.sources ++ project.cmakeFiles, ∀ id,
    Tagged tagOf "req" file id → inScope filterPrefix id = true → reqs.has id = true
  verified : ∀ file ∈ project.tests, ∀ id,
    Tagged tagOf "verify" file id → inScope filterPrefix id = true → reqs.has id = true

theorem verify_errors_iff {project : Project} {report : Report} {L : Loaded}
    (loaded : loadRequirements project.store = some L)
    (run : verify tagOf filterPrefix project = some report) :
    report.errors = [] ↔ Passes tagOf filterPrefix project L.reqs := by
  unfold verify at run
  rw [loaded, Option.bind_some] at run
  obtain ⟨checked, linked, rfl⟩ := Option.map_eq_some_iff.1 run
  have cmake_filled := scanFiles_filled tagOf "req" project.cmakeFiles
    ⟨(scanAnnotations tagOf "req" project.sources).tags, []⟩ (scanAnnotations_filled tagOf "req" project.sources)
  rw [verifyCoverage_errors cmake_filled (scanAnnotations_filled tagOf "verify" project.tests),
    checkLinkIntegrity_errors linked]
  simp only [List.append_eq_nil_iff, scanFiles_errors, scanFiles_has, scanAnnotations_errors,
    scanAnnotations_has, loadRequirements_errors_iff loaded]
  constructor
  · rintro ⟨⟨⟨⟨⟨files, sources⟩, -, cmake⟩, tests⟩, links⟩, tested, implemented, verified⟩
    refine ⟨files, ?_, tests, links, ?_, ?_, ?_⟩
    · intro file member
      rcases List.mem_append.1 member with source | other
      · exact sources file source
      · exact cmake file other
    · intro id r here inside test
      have known : L.reqs.has id = true := by
        rw [OrderedMap.has, here]
        rfl
      exact (scanAnnotations_has ..).1 (tested id known inside r here test)
    · intro file member id tagged inside
      apply implemented id _ inside
      rcases List.mem_append.1 member with source | other
      · exact .inl ⟨file, source, tagged⟩
      · exact .inr ⟨file, other, tagged⟩
    · intro file member id tagged inside
      exact verified id ⟨file, member, tagged⟩ inside
  · intro passes
    refine ⟨⟨⟨⟨⟨passes.files, ?_⟩, trivial, ?_⟩, passes.test_tags⟩, passes.links⟩, ?_, ?_, ?_⟩
    · exact fun file member => passes.source_tags file (List.mem_append_left _ member)
    · exact fun file member => passes.source_tags file (List.mem_append_right _ member)
    · intro id _ inside r here test
      exact (scanAnnotations_has ..).2 (passes.tested id r here inside test)
    · rintro id (⟨file, member, tagged⟩ | ⟨file, member, tagged⟩) inside
      · exact passes.implemented file (List.mem_append_left _ member) id tagged inside
      · exact passes.implemented file (List.mem_append_right _ member) id tagged inside
    · rintro id ⟨file, member, tagged⟩ inside
      exact passes.verified file member id tagged inside

/-- A run over files that load ends exactly when every link can be looked up. -/
theorem verify_ends {project : Project} {L : Loaded} (loaded : loadRequirements project.store = some L) :
    (verify tagOf filterPrefix project).isSome ↔
      ∀ id r, L.reqs.get id = some r → FieldHashable "uses" r ∧ FieldHashable "implements" r := by
  unfold verify
  rw [loaded, Option.bind_some]
  dsimp only
  rw [Option.isSome_map, checkLinkIntegrity_ends]

/-- Coverage does not warn about links. -/
theorem verifyCoverage_warnings {reqs : Requirements} {reqTags verifyTags : Tags} {report : Report}
    {field id : String} {target : Json}
    (warned : Finding.oneSided field id target ∈
      (verifyCoverage filterPrefix reqs reqTags verifyTags report).warnings) :
    Finding.oneSided field id target ∈ report.warnings := by
  have orphans : ∀ (key : String) (tags : Tags) (ids : List String) (r : Report),
      (ids.foldl (orphanedTag filterPrefix reqs key tags) r).warnings = r.warnings := by
    intro key tags ids r
    refine Accumulate.keeps (P := fun r' : Report => r'.warnings = r.warnings) ?_ rfl
    intro s id _ same
    unfold orphanedTag
    split
    · exact same
    · split
      · exact same
      · exact Accumulate.keeps (P := fun r' : Report => r'.warnings = r.warnings)
          (fun _ _ _ same => same) same
  unfold verifyCoverage at warned
  dsimp only at warned
  rw [orphans, orphans] at warned
  refine Accumulate.keeps (P := fun r : Report => Finding.oneSided field id target ∈ r.warnings →
    Finding.oneSided field id target ∈ report.warnings) ?_ (fun before => before) warned
  intro s id' _ before there
  apply before
  have kept : (coverRequirement reqs reqTags verifyTags s id').warnings =
      (if reqTags.has id' then s else s.warn (.unannotated id')).warnings := by
    unfold coverRequirement
    dsimp only
    repeat' split
    all_goals rfl
  rw [kept] at there
  split at there
  · exact there
  · simpa using there

/-- An entry is left as it is, or its list is one of identifiers. -/
theorem fixedEntry_eq_or (files : OrderedMap String (OrderedMap String (List String))) (id : String)
    (r : Requirement) :
    fixedEntry files id r = r.entry ∨
      ∃ ids : List String, fixedEntry files id r = r.entry.assign "implements" (.arr (ids.map Json.str)) := by
  unfold fixedEntry
  split
  · exact .inl rfl
  · next children changes =>
    cases united : (existing r.entry).bind fun items => sortedUnion items children with
    | none => exact .inl rfl
    | some union =>
      obtain ⟨olds, -, made⟩ := Option.bind_eq_some_iff.1 united
      unfold sortedUnion at made
      split at made
      · obtain rfl := Option.some.inj made
        exact .inr ⟨_, rfl⟩
      · cases made

/-- Missing children are loaded, so completed links still resolve. -/
theorem fieldOk_fixedEntry {reqs reqs' : Requirements}
    {files : OrderedMap String (OrderedMap String (List String))} {id : String} {r : Requirement}
    (loaded : ∀ id, reqs.has id = true → reqs'.has id = true)
    (added : ∀ child ∈ linksOf "implements" (fixedEntry files id r),
      child ∈ linksOf "implements" r.entry ∨ reqs.has child = true)
    (ok : FieldOk reqs "implements" r) (dict : r.entry.isDict = true) :
    FieldOk reqs' "implements" ⟨fixedEntry files id r, r.source⟩ := by
  obtain ⟨items, listed, resolve⟩ := ok
  rcases fixedEntry_eq_or files id r with same | ⟨ids, assigned⟩
  · rw [same]
    exact ⟨items, listed, fun link member =>
      (resolve link member).imp fun target here => ⟨here.1, loaded target here.2⟩⟩
  · rw [assigned]
    rw [assigned, linksOf_assign dict] at added
    refine ⟨_, getOrEmpty_assign dict _ _, fun link member => ?_⟩
    obtain ⟨child, there, rfl⟩ := List.mem_map.1 member
    refine ⟨child, rfl, loaded child ?_⟩
    rcases added child there with before | known
    · rw [linksOf, listed] at before
      obtain ⟨link, old, named⟩ := List.mem_filterMap.1 before
      obtain ⟨target, rfl, known⟩ := resolve link old
      cases named
      exact known
    · exact known

/-- The links that are put in can be looked up. -/
theorem fieldHashable_fixedEntry (files : OrderedMap String (OrderedMap String (List String))) {id : String}
    {r : Requirement} (hashed : FieldHashable "implements" r) (dict : r.entry.isDict = true) :
    FieldHashable "implements" ⟨fixedEntry files id r, r.source⟩ := by
  rcases fixedEntry_eq_or files id r with same | ⟨ids, assigned⟩
  · rw [same]
    exact hashed
  · rw [assigned]
    intro items listed link member
    have written : Json.arr _ = .arr items := (getOrEmpty_assign dict _ _).symm.trans listed
    rw [← Json.arr.inj written] at member
    obtain ⟨target, -, rfl⟩ := List.mem_map.1 member
    rfl

theorem inScope_none (start : String) {id : String} (_ : inScope (some start) id = true) :
    inScope none id = true := rfl

/-- Under a module filter less is asked. -/
theorem Passes.filtered {project : Project} {reqs : Requirements}
    (passes : Passes tagOf none project reqs) (start : String) :
    Passes tagOf (some start) project reqs where
  files := passes.files
  source_tags := passes.source_tags
  test_tags := passes.test_tags
  links := passes.links
  tested id r here inside := passes.tested id r here (inScope_none start inside)
  implemented file member id tagged inside :=
    passes.implemented file member id tagged (inScope_none start inside)
  verified file member id tagged inside :=
    passes.verified file member id tagged (inScope_none start inside)

/-- **The verdict.** A run that ends reports no error exactly when the project passes. A run
under a module filter then ends as well, with no error exactly when the part of the project
in scope passes, so in particular when the whole does. -/
theorem verify_passes_iff {project : Project} {report : Report}
    (run : verify tagOf none project = some report) :
    ∃ L, loadRequirements project.store = some L ∧
      (report.errors = [] ↔ Passes tagOf none project L.reqs) ∧
      ∀ start, ∃ filtered, verify tagOf (some start) project = some filtered ∧
        (filtered.errors = [] ↔ Passes tagOf (some start) project L.reqs) ∧
        (report.errors = [] → filtered.errors = []) := by
  obtain ⟨L, loaded, rest⟩ := Option.bind_eq_some_iff.1 run
  obtain ⟨checked, linked, -⟩ := Option.map_eq_some_iff.1 rest
  have whole := verify_errors_iff loaded run
  refine ⟨L, loaded, whole, fun start => ?_⟩
  have ends : ∃ filtered, verify tagOf (some start) project = some filtered := by
    unfold verify
    rw [loaded, Option.bind_some]
    dsimp only
    rw [linked]
    exact ⟨_, rfl⟩
  obtain ⟨filtered, filtered_run⟩ := ends
  have part := verify_errors_iff loaded filtered_run
  exact ⟨filtered, filtered_run, part, fun none_whole => part.2 ((whole.1 none_whole).filtered start)⟩

section Completed

variable {project : Project} {store : Store} {L L' : Loaded} {F : Fixed}
  {changes : OrderedMap String (OrderedMap String (List String))}

theorem getOrEmpty_fixedEntry (id : String) (r : Requirement) :
    (fixedEntry changes id r).getOrEmpty "uses" = r.entry.getOrEmpty "uses" := by
  unfold Json.getOrEmpty
  rw [get_fixedEntry changes id r (by decide)]

/-- A run over the completed files ends if every link could be looked up before. -/
theorem verify_ends_fixed (loaded : loadRequirements (some store) = some L)
    (reloaded : loadRequirements (some F.store) = some L')
    (entries : ∀ id, L'.reqs.get id =
      (L.reqs.get id).map fun r => ⟨fixedEntry changes id r, r.source⟩)
    (hashed : ∀ id r, L.reqs.get id = some r → FieldHashable "uses" r ∧ FieldHashable "implements" r) :
    (verify tagOf filterPrefix { project with store := some F.store }).isSome := by
  refine (verify_ends reloaded).2 fun id r' here' => ?_
  rw [entries] at here'
  obtain ⟨r, here, rfl⟩ := Option.map_eq_some_iff.1 here'
  obtain ⟨data, list, -, -, -, dict, -⟩ := loadRequirements_filed loaded here
  refine ⟨?_, fieldHashable_fixedEntry changes (hashed id r here).2 dict⟩
  intro items listed
  exact (hashed id r here).1 items ((getOrEmpty_fixedEntry id r).symm.trans listed)

/-- A project that passes still does when missing children are put in. -/
theorem Passes.completed (passes : Passes tagOf filterPrefix project L.reqs)
    (loaded : loadRequirements (some store) = some L)
    (reloaded : loadRequirements (some F.store) = some L') (clean : L'.errors = [])
    (entries : ∀ id, L'.reqs.get id =
      (L.reqs.get id).map fun r => ⟨fixedEntry changes id r, r.source⟩)
    (links : ∀ id r, L.reqs.get id = some r → ∀ child,
      child ∈ linksOf "implements" (fixedEntry changes id r) ↔
        child ∈ linksOf "implements" r.entry ∨ Missing L.reqs id child) :
    Passes tagOf filterPrefix { project with store := some F.store } L'.reqs := by
  have known : ∀ id, L'.reqs.has id = L.reqs.has id := by
    intro id
    rw [OrderedMap.has, entries, OrderedMap.has]
    cases L.reqs.get id <;> rfl
  refine ⟨(loadRequirements_errors_iff reloaded).1 clean, passes.source_tags, passes.test_tags,
    ?_, ?_, ?_, ?_⟩
  · intro id r' here'
    rw [entries] at here'
    obtain ⟨r, here, rfl⟩ := Option.map_eq_some_iff.1 here'
    obtain ⟨⟨items, listed, resolve⟩, implements⟩ := passes.links id r here
    obtain ⟨data, list, -, -, -, dict, -⟩ := loadRequirements_filed loaded here
    refine ⟨⟨items, (getOrEmpty_fixedEntry id r).trans listed, fun link member => ?_⟩, ?_⟩
    · exact (resolve link member).imp fun target here => ⟨here.1, by rw [known]; exact here.2⟩
    · apply fieldOk_fixedEntry (fun id here => (known id).trans here) _ implements dict
      intro child member
      rcases (links id r here child).1 member with listed | ⟨-, c, -, found, -, -⟩
      · exact .inl listed
      · exact .inr (by rw [OrderedMap.has, found]; rfl)
  · intro id r' here' inside tested
    rw [entries] at here'
    obtain ⟨r, here, rfl⟩ := Option.map_eq_some_iff.1 here'
    refine passes.tested id r here inside ?_
    rw [← tested]
    exact (get_fixedEntry changes id r (by decide)).symm
  · intro file member id tagged inside
    rw [known]
    exact passes.implemented file member id tagged inside
  · intro file member id tagged inside
    rw [known]
    exact passes.verified file member id tagged inside

end Completed

/-- The missing children are put in without breaking anything: a run ends if it did before, no
parent is reported for not listing a child, and a project that passed still passes. -/
theorem fixImplements_keeps_verdict {project : Project} {store : Store} {L : Loaded} {F : Fixed}
    (files : project.store = some store) (loaded : loadRequirements (some store) = some L)
    (fixed : fixImplements store L.reqs = some F) :
    let after := verify tagOf filterPrefix { project with store := some F.store }
    ((verify tagOf filterPrefix project).isSome → after.isSome) ∧
      (∀ report, after = some report → ∀ id target, Finding.oneSided "uses" id target ∉ report.warnings) ∧
      (Passes tagOf filterPrefix project L.reqs → ∃ report, after = some report ∧ report.errors = []) := by
  intro after
  obtain ⟨L', changes, reloaded, same_errors, entries, links, closed⟩ :=
    fixImplements_spec loaded fixed
  refine ⟨?_, ?_, ?_⟩
  · intro ended
    have loaded' : loadRequirements project.store = some L := by rw [files, loaded]
    exact verify_ends_fixed loaded reloaded entries ((verify_ends loaded').1 ended)
  · intro report run id target warned
    obtain ⟨L'', loaded'', rest⟩ := Option.bind_eq_some_iff.1 run
    obtain ⟨checked, linked, rfl⟩ := Option.map_eq_some_iff.1 rest
    obtain rfl : L' = L'' := Option.some.inj (reloaded.symm.trans loaded'')
    have before := checkLinkIntegrity_closed closed linked (verifyCoverage_warnings warned)
    cases before
  · intro passes
    have hashed : ∀ id r, L.reqs.get id = some r → FieldHashable "uses" r ∧ FieldHashable "implements" r :=
      fun id r here => ⟨(passes.links id r here).1.hashable, (passes.links id r here).2.hashable⟩
    obtain ⟨report, run⟩ := Option.isSome_iff_exists.1 (verify_ends_fixed loaded reloaded entries hashed)
    have clean : L'.errors = [] := by
      rw [same_errors, loadRequirements_errors_iff loaded, ← files]
      exact passes.files
    exact ⟨report, run,
      (verify_errors_iff reloaded run).2 (passes.completed loaded reloaded clean entries links)⟩

/-- The two files, a source that names the first requirement and a test of the second. -/
def sampleProject : Project where
  store := some sampleStore
  sources := [⟨"src/sm.c", some ["tag REQ-SM-001"]⟩]
  cmakeFiles := []
  tests := [⟨"tests/test_sm.c", some ["int x;", "tag REQ-SYS-001"]⟩]

/-- Annotations of the sample: the second word of a line is the only identifier. -/
def sampleTag (line : String) : Option (Option Json) :=
  if line = "tag REQ-SM-001" then some (some (.obj [("req", .arr [.str "REQ-SM-001"])]))
  else if line = "tag REQ-SYS-001" then some (some (.obj [("verify", .arr [.str "REQ-SYS-001"])]))
  else none

theorem verify_passes_sample : ∃ L, loadRequirements sampleProject.store = some L ∧
    Passes sampleTag none sampleProject L.reqs := by
  have runs : (verify sampleTag none sampleProject).map (fun report => report.errors.length) =
      some 0 := by decide +kernel
  obtain ⟨report, run, clean⟩ := Option.map_eq_some_iff.1 runs
  obtain ⟨L, loaded, passes, -⟩ := verify_passes_iff run
  exact ⟨L, loaded, passes.1 (List.length_eq_zero_iff.1 clean)⟩

theorem fixImplements_keeps_verdict_sample : ∃ L F,
    loadRequirements (some sampleStore) = some L ∧ fixImplements sampleStore L.reqs = some F ∧
    (Passes sampleTag none sampleProject L.reqs → ∃ report,
      verify sampleTag none { sampleProject with store := some F.store } = some report ∧
        report.errors = []) := by
  have runs : ((loadRequirements (some sampleStore)).bind fun L =>
      fixImplements sampleStore L.reqs).isSome = true := by
    decide +kernel
  obtain ⟨F, all⟩ := Option.isSome_iff_exists.1 runs
  obtain ⟨L, loaded, fixed⟩ := Option.bind_eq_some_iff.1 all
  exact ⟨L, F, loaded, fixed, (fixImplements_keeps_verdict rfl loaded fixed).2.2⟩

end Verdict

end LibJuno.Traceability
