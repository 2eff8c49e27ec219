import LibJuno.Traceability.Requirements

/-!
# Missing `implements` entries

`fix_implements` of `verify_traceability.py` inverts the `uses` links and adds what is missing
to the files. The result is closed: in the requirements loaded from the new files every
parent lists every child that uses it, nothing else about them has changed, and there is
nothing left to add (`fixImplements_closes`). Reading and writing the files is taken to work.
-/

namespace LibJuno.Traceability

abbrev Requirements := OrderedMap String Requirement

/-- `set(req.get("implements") or [])`. -/
def existing (req : Json) : Option (List Json) :=
  (req.getOrEmpty "implements").iterate.bind fun items =>
    if items.all Json.hashable then some items else none

/-- The identifiers that a field of an entry lists. -/
def linksOf (field : String) (req : Json) : List String :=
  ((req.getOrEmpty field).iterate.getD []).filterMap Json.text?

/-- `to_add.setdefault(parent_id, set()).add(req_id)`. -/
def addTo (toAdd : OrderedMap String (List String)) (parent child : String) :
    OrderedMap String (List String) :=
  if child ∈ toAdd.listAt parent then toAdd else toAdd.push parent child

/-- The inner loop body of the inversion. -/
def invertLink (reqs : Requirements) (child : String) (toAdd : OrderedMap String (List String)) :
    Json → Option (OrderedMap String (List String))
  | .str parent =>
    match reqs.get parent with
    | none => some toAdd
    | some r =>
      (existing r.entry).map fun items =>
        if child ∈ items.filterMap Json.text? then toAdd else addTo toAdd parent child
  | other => if other.hashable then some toAdd else none

/-- The inverted map: for each parent the children it does not list. -/
def invert (reqs : Requirements) : Option (OrderedMap String (List String)) :=
  reqs.entries.foldlM (fun toAdd e =>
    (e.2.entry.getOrEmpty "uses").iterate.bind fun parents =>
      parents.foldlM (invertLink reqs e.1) toAdd) .empty

/-- The affected parents by the file that contains them. -/
def filesToUpdate (reqs : Requirements) (toAdd : OrderedMap String (List String)) :
    OrderedMap String (OrderedMap String (List String)) :=
  toAdd.entries.foldl (fun files e =>
    match reqs.get e.1 with
    | some r => files.set r.source (((files.get r.source).getD .empty).set e.1 e.2)
    | none => files) .empty

/-- `sorted(existing | new)`; strings do not compare with other values. -/
def sortedUnion (items : List Json) (children : List String) : Option Json :=
  if items.all Json.isString then
    some (.arr ((sortedSet (items.filterMap Json.text? ++ children)).map .str))
  else none

/-- The loop body over the entries of a file: the entry and the number of entries added. -/
def fixEntry (changes : OrderedMap String (List String)) (req : Json) : Option (Json × Nat) :=
  if !req.isDict then none
  else
    match req.get "id" with
    | none => some (req, 0)
    | some (.str id) =>
      match changes.get id with
      | none => some (req, 0)
      | some children =>
        (existing req).bind fun items =>
          (sortedUnion items children).map fun union =>
            (req.assign "implements" union,
              (children.filter fun child => child ∉ items.filterMap Json.text?).length)
    | some other => if other.hashable then some (req, 0) else none

/-- A file with changes is rewritten; the numbers count files and entries. -/
def fixFile (files : OrderedMap String (OrderedMap String (List String))) (file : String × Doc) :
    Option ((String × Doc) × Nat × Nat) :=
  match files.get file.1 with
  | none => some (file, 0, 0)
  | some changes =>
    match file.2 with
    | .unreadable => some (file, 0, 0)
    | .json data =>
      match data.get "requirements" with
      | some (.arr items) =>
        (items.mapM (fixEntry changes)).map fun fixed =>
          ((file.1, .json (data.assign "requirements" (.arr (fixed.map Prod.fst)))), 1,
            (fixed.map Prod.snd).sum)
      -- not reached: requirements were loaded from the array of this file
      | _ => none

structure Fixed where
  store : Store
  filesUpdated : Nat
  entriesAdded : Nat

/-- `fix_implements`. -/
def fixImplements (store : Store) (reqs : Requirements) : Option Fixed :=
  (invert reqs).bind fun toAdd =>
    if toAdd.isEmpty then some ⟨store, 0, 0⟩
    else
      (store.mapM (fixFile (filesToUpdate reqs toAdd))).map fun fixed =>
        ⟨fixed.map Prod.fst, (fixed.map fun f => f.2.1).sum, (fixed.map fun f => f.2.2).sum⟩

section Links

/-- Assigned identifiers are what is read, also when there are none. -/
theorem getOrEmpty_assign {req : Json} (dict : req.isDict = true) (field : String)
    (ids : List String) :
    (req.assign field (.arr (ids.map .str))).getOrEmpty field = .arr (ids.map .str) := by
  unfold Json.getOrEmpty
  rw [Json.get_assign dict, if_pos rfl]
  dsimp only
  split
  · rfl
  · next falsy =>
    cases ids with
    | nil => rfl
    | cons => simp [Json.truthy] at falsy

theorem linksOf_assign {req : Json} (dict : req.isDict = true) (field : String) (ids : List String) :
    linksOf field (req.assign field (.arr (ids.map .str))) = ids := by
  have texts : (ids.map Json.str).filterMap Json.text? = ids := by
    rw [List.filterMap_map]
    exact List.filterMap_some
  rw [linksOf, getOrEmpty_assign dict]
  exact texts

theorem linksOf_congr {field : String} {req req' : Json} (same : req'.get field = req.get field) :
    linksOf field req' = linksOf field req := by
  unfold linksOf Json.getOrEmpty
  rw [same]

theorem existing_eq {req : Json} {items : List Json} (exists_items : existing req = some items) :
    items.filterMap Json.text? = linksOf "implements" req := by
  obtain ⟨items', iterated, kept⟩ := Option.bind_eq_some_iff.1 exists_items
  split at kept
  · obtain rfl := Option.some.inj kept
    rw [linksOf, iterated]
    rfl
  · cases kept

end Links

section Invert

variable {reqs : Requirements}

theorem mem_listAt_addTo {toAdd : OrderedMap String (List String)} {parent child p c : String} :
    c ∈ (addTo toAdd parent child).listAt p ↔ c ∈ toAdd.listAt p ∨ (p = parent ∧ c = child) := by
  unfold addTo
  split
  · next there =>
    constructor
    · exact .inl
    · rintro (listed | ⟨rfl, rfl⟩)
      · exact listed
      · exact there
  · rw [OrderedMap.listAt_push]
    split
    · next same => simp [same]
    · next other => simp [other]

/-- A child that its parent does not list, both loaded. -/
def Missing (reqs : Requirements) (p c : String) : Prop :=
  ∃ parent child, reqs.get p = some parent ∧ reqs.get c = some child ∧
    p ∈ linksOf "uses" child.entry ∧ c ∉ linksOf "implements" parent.entry

theorem mem_listAt_invertLink {child : String} {toAdd toAdd' : OrderedMap String (List String)}
    {link : Json} (inverted : invertLink reqs child toAdd link = some toAdd') (p c : String) :
    c ∈ toAdd'.listAt p ↔ c ∈ toAdd.listAt p ∨ (c = child ∧ link = .str p ∧
      ∃ parent, reqs.get p = some parent ∧ child ∉ linksOf "implements" parent.entry) := by
  cases link with
  | str parent =>
    unfold invertLink at inverted
    dsimp only at inverted
    cases found : reqs.get parent with
    | none =>
      rw [found] at inverted
      obtain rfl := Option.some.inj inverted
      constructor
      · exact .inl
      · rintro (listed | ⟨-, same, r, there, -⟩)
        · exact listed
        · cases same
          rw [found] at there
          cases there
    | some r =>
      rw [found] at inverted
      obtain ⟨items, exists_items, rfl⟩ := Option.map_eq_some_iff.1 inverted
      rw [existing_eq exists_items]
      split
      · next lists =>
        constructor
        · exact .inl
        · rintro (listed | ⟨rfl, same, r', there, absent⟩)
          · exact listed
          · cases same
            rw [found] at there
            cases there
            exact absurd lists absent
      · next lacks =>
        rw [mem_listAt_addTo]
        constructor
        · rintro (listed | ⟨rfl, rfl⟩)
          · exact .inl listed
          · exact .inr ⟨rfl, rfl, r, found, lacks⟩
        · rintro (listed | ⟨rfl, same, -⟩)
          · exact .inl listed
          · cases same
            exact .inr ⟨rfl, rfl⟩
  | _ =>
    unfold invertLink at inverted
    dsimp only at inverted
    split at inverted
    · obtain rfl := Option.some.inj inverted
      simp
    · cases inverted

theorem mem_listAt_links {child : String} {links : List Json}
    {toAdd toAdd' : OrderedMap String (List String)}
    (inverted : links.foldlM (invertLink reqs child) toAdd = some toAdd') (p c : String) :
    c ∈ toAdd'.listAt p ↔ c ∈ toAdd.listAt p ∨ (c = child ∧ p ∈ links.filterMap Json.text? ∧
      ∃ parent, reqs.get p = some parent ∧ child ∉ linksOf "implements" parent.entry) := by
  induction links generalizing toAdd with
  | nil =>
    obtain rfl := Option.some.inj inverted
    simp
  | cons link links ih =>
    rw [List.foldlM_cons] at inverted
    obtain ⟨between, first, rest⟩ := Option.bind_eq_some_iff.1 inverted
    rw [ih rest, mem_listAt_invertLink first, List.filterMap_cons]
    cases link <;> grind [Json.text?]

/-- The inverted map holds what is missing and nothing else. -/
theorem mem_invert {toAdd : OrderedMap String (List String)} (inverted : invert reqs = some toAdd)
    (p c : String) : c ∈ toAdd.listAt p ↔ Missing reqs p c := by
  have entries : ∀ (es : List (String × Requirement)) (start : OrderedMap String (List String)),
      es.foldlM (fun toAdd e => (e.2.entry.getOrEmpty "uses").iterate.bind fun parents =>
        parents.foldlM (invertLink reqs e.1) toAdd) start = some toAdd →
      (c ∈ toAdd.listAt p ↔ c ∈ start.listAt p ∨ ∃ e ∈ es, c = e.1 ∧ p ∈ linksOf "uses" e.2.entry ∧
        ∃ parent, reqs.get p = some parent ∧ c ∉ linksOf "implements" parent.entry) := by
    intro es
    induction es with
    | nil =>
      intro start folded
      obtain rfl := Option.some.inj folded
      simp
    | cons e es ih =>
      intro start folded
      rw [List.foldlM_cons] at folded
      obtain ⟨between, first, rest⟩ := Option.bind_eq_some_iff.1 folded
      obtain ⟨parents, iterated, links⟩ := Option.bind_eq_some_iff.1 first
      have listed : linksOf "uses" e.2.entry = parents.filterMap Json.text? := by
        rw [linksOf, iterated]
        rfl
      rw [ih between rest, mem_listAt_links links, ← listed]
      simp only [List.mem_cons, exists_eq_or_imp]
      grind
  rw [entries reqs.entries .empty inverted]
  constructor
  · rintro (none | ⟨e, member, rfl, uses, parent, found, absent⟩)
    · simp at none
    · exact ⟨parent, e.2, found, OrderedMap.get_of_mem member, uses, absent⟩
  · rintro ⟨parent, child, found, here, uses, absent⟩
    exact .inr ⟨(c, child), OrderedMap.mem_of_get here, rfl, uses, parent, found, absent⟩

end Invert

section Files

variable (reqs : Requirements) (toAdd : OrderedMap String (List String))

/-- The children to add to a parent in a file. -/
def changesIn (files : OrderedMap String (OrderedMap String (List String))) (file id : String) :
    Option (List String) :=
  (files.get file).bind fun changes => changes.get id

theorem changesIn_set (files : OrderedMap String (OrderedMap String (List String)))
    (source parent : String) (children : List String) (file id : String) :
    changesIn (files.set source (((files.get source).getD .empty).set parent children)) file id =
      if file = source ∧ id = parent then some children else changesIn files file id := by
  unfold changesIn
  rw [OrderedMap.get_set]
  by_cases here : file = source
  · subst here
    rw [if_pos rfl, Option.bind_some, OrderedMap.get_set]
    by_cases same : id = parent
    · simp [same]
    · cases files.get file <;> simp [same]
  · simp [here]

/-- A parent is filed under the file it was first seen in. -/
theorem changesIn_filesToUpdate (file id : String) :
    changesIn (filesToUpdate reqs toAdd) file id =
      if (reqs.get id).map Requirement.source = some file then toAdd.get id else none := by
  have folded : ∀ (es : List (String × List String)), (es.map Prod.fst).Nodup → ∀ start,
      changesIn (es.foldl (fun files e =>
        match reqs.get e.1 with
        | some r => files.set r.source (((files.get r.source).getD .empty).set e.1 e.2)
        | none => files) start) file id =
      if (reqs.get id).map Requirement.source = some file ∧ id ∈ es.map Prod.fst then
        (es.find? fun e => decide (e.1 = id)).map Prod.snd
      else changesIn start file id := by
    intro es
    induction es with
    | nil => simp
    | cons e es ih =>
      intro distinct start
      rw [List.map_cons, List.nodup_cons] at distinct
      rw [List.foldl_cons, ih distinct.2]
      by_cases here : e.1 = id
      · subst here
        simp only [distinct.1, and_false, if_false, List.map_cons, List.mem_cons, true_or, and_true,
          List.find?_cons, decide_true, Option.map_some]
        cases reqs.get e.1 with
        | none => simp
        | some r =>
          dsimp only
          rw [changesIn_set]
          simp [eq_comm]
      · have step : changesIn (match reqs.get e.1 with
            | some r => start.set r.source (((start.get r.source).getD .empty).set e.1 e.2)
            | none => start) file id = changesIn start file id := by
          cases reqs.get e.1 with
          | none => rfl
          | some r => rw [changesIn_set, if_neg fun same => here same.2.symm]
        rw [step]
        simp only [List.map_cons, List.mem_cons, Ne.symm here, false_or, List.find?_cons, here,
          decide_false]
  rw [filesToUpdate, folded _ toAdd.nodup]
  split
  · next here => rw [if_pos here.1]; rfl
  · next absent =>
    split
    · next sourced =>
      have none_there : toAdd.get id = none := by
        rw [OrderedMap.get, Option.map_eq_none_iff, List.find?_eq_none]
        intro e member same
        exact absent ⟨sourced, List.mem_map.2 ⟨e, member, of_decide_eq_true same⟩⟩
      rw [none_there]
      rfl
    · rfl

theorem changesIn_of_get {reqs : Requirements} {id : String} {r : Requirement}
    (here : reqs.get id = some r) (toAdd : OrderedMap String (List String)) :
    changesIn (filesToUpdate reqs toAdd) r.source id = toAdd.get id := by
  rw [changesIn_filesToUpdate, here]
  exact if_pos rfl

/-- What the loop over a file makes of an entry. -/
def fixedEntry (files : OrderedMap String (OrderedMap String (List String))) (id : String)
    (r : Requirement) : Json :=
  match changesIn files r.source id with
  | none => r.entry
  | some children =>
    (((existing r.entry).bind fun items => sortedUnion items children).map
      (r.entry.assign "implements")).getD r.entry

theorem get_fixedEntry (files : OrderedMap String (OrderedMap String (List String))) (id : String)
    (r : Requirement) {key : String} (other : key ≠ "implements") :
    (fixedEntry files id r).get key = r.entry.get key := by
  unfold fixedEntry
  split
  · rfl
  · cases (existing r.entry).bind fun items => sortedUnion items _ with
    | none => rfl
    | some union => exact Json.get_assign_of_ne _ _ other

/-- The changes of the files as a rewriting of entries. -/
def fixRewrite (files : OrderedMap String (OrderedMap String (List String))) : Rewrite where
  touched file := (files.get file).isSome
  entry := fixedEntry files
  untouched id r none_there := by
    have absent : files.get r.source = none := by simpa using none_there
    rw [fixedEntry, changesIn, absent]
    rfl
  keeps_dict id r := by
    unfold fixedEntry
    split
    · rfl
    · cases (existing r.entry).bind fun items => sortedUnion items _ with
      | none => rfl
      | some union => exact Json.isDict_assign _ _ _
  keeps_fields id r field read := by
    apply get_fixedEntry
    rintro rfl
    simp [requiredFields] at read

theorem fixEntry_eq {files : OrderedMap String (OrderedMap String (List String))} {file : String}
    {changes : OrderedMap String (List String)} (here : files.get file = some changes)
    {req : Json} {fixed : Json × Nat} (done : fixEntry changes req = some fixed) :
    fixed.1 = (fixRewrite files).item file req := by
  unfold fixEntry at done
  split at done
  · cases done
  · unfold Rewrite.item
    split at done
    · next unnamed => rw [unnamed, ← Option.some.inj done]
    · next id named =>
      have lookup : changesIn files file id = changes.get id := by rw [changesIn, here, Option.bind_some]
      rw [named]
      change fixed.1 = fixedEntry files id ⟨req, file⟩
      unfold fixedEntry
      rw [lookup]
      cases found : changes.get id with
      | none =>
        rw [found] at done
        rw [← Option.some.inj done]
      | some children =>
        rw [found] at done
        obtain ⟨items, exists_items, rest⟩ := Option.bind_eq_some_iff.1 done
        obtain ⟨union, united, rfl⟩ := Option.map_eq_some_iff.1 rest
        simp only [exists_items, Option.bind_some, united, Option.map_some, Option.getD_some]
    · next other not_string named =>
      split at done
      · rw [← Option.some.inj done, named]
        split
        · next id same => exact absurd (Option.some.inj same) (not_string id)
        · rfl
      · cases done

theorem mapM_eq_map {α β γ : Type} {f : α → Option β} {g : α → γ} {h : β → γ} {items : List α}
    {results : List β} (done : items.mapM f = some results)
    (same : ∀ a b, f a = some b → h b = g a) : results.map h = items.map g := by
  induction items generalizing results with
  | nil =>
    obtain rfl := Option.some.inj done
    rfl
  | cons a items ih =>
    rw [List.mapM_cons] at done
    obtain ⟨b, first, rest⟩ := Option.bind_eq_some_iff.1 done
    obtain ⟨bs, later, last⟩ := Option.bind_eq_some_iff.1 rest
    obtain rfl := Option.some.inj last
    rw [List.map_cons, List.map_cons, same a b first, ih later]

theorem fixFile_eq {files : OrderedMap String (OrderedMap String (List String))}
    {file : String × Doc} {fixed : (String × Doc) × Nat × Nat}
    (done : fixFile files file = some fixed) :
    fixed.1 = (file.1, (fixRewrite files).doc file.1 file.2) := by
  obtain ⟨name, doc⟩ := file
  unfold fixFile at done
  dsimp only at done
  cases here : files.get name with
  | none =>
    rw [here] at done
    rw [← Option.some.inj done]
    cases doc with
    | unreadable => rfl
    | json data =>
      have untouched : (fixRewrite files).touched name = false := by
        change (files.get name).isSome = false
        rw [here]
        rfl
      rw [Rewrite.doc, untouched]
      rfl
  | some changes =>
    rw [here] at done
    cases doc with
    | unreadable =>
      rw [← Option.some.inj done]
      rfl
    | json data =>
      have touched : (fixRewrite files).touched name = true := by
        change (files.get name).isSome = true
        rw [here]
        rfl
      dsimp only at done
      split at done
      · next items listed =>
        obtain ⟨results, mapped, rfl⟩ := Option.map_eq_some_iff.1 done
        have entries := mapM_eq_map mapped fun req result each => fixEntry_eq here each
        rw [Rewrite.doc, if_pos touched, Rewrite.data, listed, entries]
      · cases done

/-- The files that `fix_implements` leaves are the rewritten ones. -/
theorem fixImplements_store {store : Store} {toAdd : OrderedMap String (List String)} {F : Fixed}
    {reqs : Requirements} (inverted : invert reqs = some toAdd) (some_missing : toAdd.isEmpty = false)
    (fixed : fixImplements store reqs = some F) :
    F.store = (fixRewrite (filesToUpdate reqs toAdd)).store store := by
  unfold fixImplements at fixed
  rw [inverted, Option.bind_some, some_missing] at fixed
  obtain ⟨results, mapped, rfl⟩ := Option.map_eq_some_iff.1 fixed
  exact mapM_eq_map mapped fun file result each => fixFile_eq each

/-- An entry whose children are missing lists them afterwards as well. -/
theorem fixedEntry_links {files : OrderedMap String (OrderedMap String (List String))} {id : String}
    {r : Requirement} {children : List String} (changes : changesIn files r.source id = some children)
    (dict : r.entry.isDict = true) {items : List Json} (exists_items : existing r.entry = some items)
    (strings : items.all Json.isString = true) (child : String) :
    child ∈ linksOf "implements" (fixedEntry files id r) ↔
      child ∈ linksOf "implements" r.entry ∨ child ∈ children := by
  have united : sortedUnion items children =
      some (.arr ((sortedSet (items.filterMap Json.text? ++ children)).map .str)) := by
    rw [sortedUnion, if_pos strings]
  rw [fixedEntry, changes]
  dsimp only
  rw [exists_items, Option.bind_some, united, Option.map_some, Option.getD_some,
    linksOf_assign dict, mem_sortedSet, List.mem_append, existing_eq exists_items]

end Files

section Closed

variable {store : Store} {L : Loaded} {toAdd : OrderedMap String (List String)} {F : Fixed}

theorem mem_of_mapM {α β : Type} {f : α → Option β} {items : List α} {results : List β}
    (done : items.mapM f = some results) {a : α} (member : a ∈ items) : ∃ b, f a = some b := by
  induction items generalizing results with
  | nil => cases member
  | cons a' items ih =>
    rw [List.mapM_cons] at done
    obtain ⟨b, first, rest⟩ := Option.bind_eq_some_iff.1 done
    obtain ⟨bs, later, -⟩ := Option.bind_eq_some_iff.1 rest
    rcases List.mem_cons.1 member with rfl | member
    · exact ⟨b, first⟩
    · exact ih later member

/-- A parent with missing children was rewritten without a type error. -/
theorem existing_of_fixed (loaded : loadRequirements (some store) = some L)
    (inverted : invert L.reqs = some toAdd) (some_missing : toAdd.isEmpty = false)
    (fixed : fixImplements store L.reqs = some F) {id : String} {r : Requirement}
    (here : L.reqs.get id = some r) {children : List String} (missing : toAdd.get id = some children) :
    ∃ items, existing r.entry = some items ∧ items.all Json.isString = true := by
  obtain ⟨data, items, file, listed, member, dict, named⟩ := loadRequirements_filed loaded here
  have lookup := (changesIn_of_get here toAdd).trans missing
  obtain ⟨changes, filed, found⟩ := Option.bind_eq_some_iff.1 lookup
  unfold fixImplements at fixed
  rw [inverted, Option.bind_some, some_missing] at fixed
  obtain ⟨results, mapped, -⟩ := Option.map_eq_some_iff.1 fixed
  obtain ⟨result, written⟩ := mem_of_mapM mapped file
  unfold fixFile at written
  dsimp only at written
  rw [filed] at written
  dsimp only at written
  rw [listed] at written
  obtain ⟨entries, each, -⟩ := Option.map_eq_some_iff.1 written
  obtain ⟨entry, done⟩ := mem_of_mapM each member
  unfold fixEntry at done
  rw [dict, named] at done
  simp only [found, Bool.not_true, Bool.false_eq_true, if_false] at done
  obtain ⟨old, exists_old, rest⟩ := Option.bind_eq_some_iff.1 done
  obtain ⟨union, united, -⟩ := Option.map_eq_some_iff.1 rest
  refine ⟨old, exists_old, ?_⟩
  unfold sortedUnion at united
  split at united
  · assumption
  · cases united

/-- Every loaded requirement after the files were written. -/
def after (L : Loaded) (toAdd : OrderedMap String (List String)) : Loaded :=
  (fixRewrite (filesToUpdate L.reqs toAdd)).loaded L

theorem get_after (id : String) :
    (after L toAdd).reqs.get id = (L.reqs.get id).map fun r =>
      ⟨fixedEntry (filesToUpdate L.reqs toAdd) id r, r.source⟩ :=
  OrderedMap.get_mapWithKey _ _ _

theorem links_after (loaded : loadRequirements (some store) = some L)
    (inverted : invert L.reqs = some toAdd) (some_missing : toAdd.isEmpty = false)
    (fixed : fixImplements store L.reqs = some F) {id : String} {r : Requirement}
    (here : L.reqs.get id = some r) (child : String) :
    child ∈ linksOf "implements" (fixedEntry (filesToUpdate L.reqs toAdd) id r) ↔
      child ∈ linksOf "implements" r.entry ∨ Missing L.reqs id child := by
  have lookup := changesIn_of_get here toAdd
  rw [← mem_invert inverted, OrderedMap.listAt]
  cases missing : toAdd.get id with
  | none =>
    rw [fixedEntry, lookup, missing]
    simp
  | some children =>
    obtain ⟨items, exists_items, strings⟩ :=
      existing_of_fixed loaded inverted some_missing fixed here missing
    obtain ⟨data, list, -, -, -, dict, -⟩ := loadRequirements_filed loaded here
    exact fixedEntry_links (lookup.trans missing) dict exists_items strings child

theorem uses_fixedEntry (files : OrderedMap String (OrderedMap String (List String))) (id : String)
    (r : Requirement) : linksOf "uses" (fixedEntry files id r) = linksOf "uses" r.entry :=
  linksOf_congr (get_fixedEntry files id r (by decide))

/-- Nothing is missing any more. -/
theorem not_missing_after (loaded : loadRequirements (some store) = some L)
    (inverted : invert L.reqs = some toAdd) (some_missing : toAdd.isEmpty = false)
    (fixed : fixImplements store L.reqs = some F) (p c : String) :
    ¬Missing (after L toAdd).reqs p c := by
  rintro ⟨parent', child', parent_here, child_here, uses, lacks⟩
  rw [get_after] at parent_here child_here
  obtain ⟨parent, p_here, rfl⟩ := Option.map_eq_some_iff.1 parent_here
  obtain ⟨child, c_here, rfl⟩ := Option.map_eq_some_iff.1 child_here
  dsimp only at uses lacks
  rw [uses_fixedEntry] at uses
  rw [links_after loaded inverted some_missing fixed p_here, not_or] at lacks
  exact lacks.2 ⟨parent, child, p_here, c_here, uses, lacks.1⟩

end Closed

section Again

variable {reqs : Requirements}

/-- A link that the inversion reads without a type error. -/
def Readable (reqs : Requirements) (link : Json) : Prop :=
  link.hashable = true ∧
    ∀ p parent, link = .str p → reqs.get p = some parent → ∃ items, existing parent.entry = some items

theorem readable_of_invertLink {child : String} {toAdd toAdd' : OrderedMap String (List String)}
    {link : Json} (inverted : invertLink reqs child toAdd link = some toAdd') : Readable reqs link := by
  cases link with
  | str parent =>
    refine ⟨rfl, ?_⟩
    rintro p r same found
    cases same
    unfold invertLink at inverted
    simp only [found] at inverted
    obtain ⟨items, exists_items, -⟩ := Option.map_eq_some_iff.1 inverted
    exact ⟨items, exists_items⟩
  | _ =>
    unfold invertLink at inverted
    dsimp only at inverted
    split at inverted
    · next hashable => exact ⟨hashable, fun p r same => by cases same⟩
    · cases inverted

/-- Every link that the inversion went through was readable. -/
theorem readable_of_invert {toAdd : OrderedMap String (List String)}
    (inverted : invert reqs = some toAdd) {id : String} {r : Requirement}
    (here : reqs.get id = some r) :
    ∃ parents, (r.entry.getOrEmpty "uses").iterate = some parents ∧
      ∀ link ∈ parents, Readable reqs link := by
  obtain ⟨s, s', step⟩ := Accumulate.takenM inverted (OrderedMap.mem_of_get here)
  obtain ⟨parents, iterated, links⟩ := Option.bind_eq_some_iff.1 step
  refine ⟨parents, iterated, fun link member => ?_⟩
  obtain ⟨t, t', inner⟩ := Accumulate.takenM links member
  exact readable_of_invertLink inner

/-- With readable links and nothing missing, there is nothing to add. -/
theorem invert_of_closed
    (readable : ∀ id r, reqs.get id = some r → ∃ parents,
      (r.entry.getOrEmpty "uses").iterate = some parents ∧ ∀ link ∈ parents, Readable reqs link)
    (closed : ∀ p c, ¬Missing reqs p c) : invert reqs = some .empty := by
  apply Accumulate.stillM
  rintro ⟨id, r⟩ member
  have here := OrderedMap.get_of_mem member
  obtain ⟨parents, iterated, links⟩ := readable id r here
  dsimp only
  rw [iterated, Option.bind_some]
  apply Accumulate.stillM
  intro link among
  obtain ⟨hashable, parent_readable⟩ := links link among
  cases link with
  | str p =>
    unfold invertLink
    dsimp only
    cases found : reqs.get p with
    | none => rfl
    | some parent =>
      obtain ⟨items, exists_items⟩ := parent_readable p parent rfl found
      have uses : p ∈ linksOf "uses" r.entry := by
        rw [linksOf, iterated]
        exact List.mem_filterMap.2 ⟨.str p, among, rfl⟩
      have lists : id ∈ linksOf "implements" parent.entry := by
        by_contra lacks
        exact closed p id ⟨parent, r, found, here, uses, lacks⟩
      dsimp only
      rw [exists_items, Option.map_some, existing_eq exists_items, if_pos lists]
  | null => rfl
  | bool => rfl
  | num => rfl
  | arr => cases hashable
  | obj => cases hashable

/-- Assigned strings can be put into a set. -/
theorem existing_assign {req : Json} (dict : req.isDict = true) (ids : List String) :
    ∃ items, existing (req.assign "implements" (.arr (ids.map .str))) = some items := by
  have hashable : (ids.map Json.str).all Json.hashable = true := by simp [Json.hashable]
  refine ⟨ids.map .str, ?_⟩
  rw [existing, getOrEmpty_assign dict, Json.iterate, Option.bind_some, if_pos hashable]

theorem existing_fixedEntry (files : OrderedMap String (OrderedMap String (List String)))
    (id : String) {r : Requirement} (dict : r.entry.isDict = true) {items : List Json}
    (exists_items : existing r.entry = some items) :
    ∃ items', existing (fixedEntry files id r) = some items' := by
  unfold fixedEntry
  split
  · exact ⟨items, exists_items⟩
  · rw [exists_items, Option.bind_some]
    unfold sortedUnion
    split
    · exact existing_assign dict _
    · exact ⟨items, exists_items⟩

end Again

/-- What the completed files load to. -/
theorem fixImplements_spec {store : Store} {L : Loaded} {F : Fixed}
    (loaded : loadRequirements (some store) = some L)
    (fixed : fixImplements store L.reqs = some F) :
    ∃ L' files, loadRequirements (some F.store) = some L' ∧ L'.errors = L.errors ∧
      (∀ id, L'.reqs.get id = (L.reqs.get id).map fun r => ⟨fixedEntry files id r, r.source⟩) ∧
      (∀ id r, L.reqs.get id = some r → ∀ child,
        child ∈ linksOf "implements" (fixedEntry files id r) ↔
          child ∈ linksOf "implements" r.entry ∨ Missing L.reqs id child) ∧
      ∀ p c, ¬Missing L'.reqs p c := by
  obtain ⟨toAdd, inverted, rest⟩ := Option.bind_eq_some_iff.1 fixed
  cases some_missing : toAdd.isEmpty with
  | true =>
    -- nothing was missing, and nothing was written
    rw [some_missing] at rest
    obtain rfl := Option.some.inj rest
    have closed : ∀ p c, ¬Missing L.reqs p c := by
      intro p c missing
      have listed := (mem_invert inverted p c).2 missing
      rw [OrderedMap.listAt, OrderedMap.get_of_isEmpty some_missing] at listed
      cases listed
    refine ⟨L, .empty, loaded, rfl, ?_, ?_, closed⟩
    · intro id
      cases L.reqs.get id <;> rfl
    · exact fun id r _ child => (or_iff_left (closed id child)).symm
  | false =>
    have written := fixImplements_store inverted some_missing fixed
    refine ⟨after L toAdd, filesToUpdate L.reqs toAdd, ?_, rfl, get_after, ?_, ?_⟩
    · rw [written, loadRequirements_rewrite, loaded]
      rfl
    · exact fun id r here => links_after loaded inverted some_missing fixed here
    · exact not_missing_after loaded inverted some_missing fixed

/-- **Closure.** When the script adds the missing entries without a type error, the new files
load with the same errors to the same requirements, of which only `implements` can have
changed: each lists what it listed, and every loaded requirement that uses it. Running the
script again changes nothing. -/
theorem fixImplements_closes {store : Store} {L : Loaded} {F : Fixed}
    (loaded : loadRequirements (some store) = some L)
    (fixed : fixImplements store L.reqs = some F) :
    ∃ L', loadRequirements (some F.store) = some L' ∧ L'.errors = L.errors ∧
      (∀ id, (L'.reqs.get id).isSome = (L.reqs.get id).isSome) ∧
      (∀ id r r', L.reqs.get id = some r → L'.reqs.get id = some r' →
        r'.source = r.source ∧ (∀ key, key ≠ "implements" → r'.entry.get key = r.entry.get key) ∧
        ∀ child, child ∈ linksOf "implements" r'.entry ↔
          child ∈ linksOf "implements" r.entry ∨
            ∃ c, L.reqs.get child = some c ∧ id ∈ linksOf "uses" c.entry) ∧
      fixImplements F.store L'.reqs = some ⟨F.store, 0, 0⟩ := by
  obtain ⟨L', files, reloaded, errors, entries, links, closed⟩ := fixImplements_spec loaded fixed
  obtain ⟨toAdd, inverted, -⟩ := Option.bind_eq_some_iff.1 fixed
  refine ⟨L', reloaded, errors, ?_, ?_, ?_⟩
  · intro id
    rw [entries]
    cases L.reqs.get id <;> rfl
  · intro id r r' here here'
    rw [entries, here] at here'
    obtain rfl := Option.some.inj here'
    refine ⟨rfl, fun key other => get_fixedEntry files id r other, fun child => ?_⟩
    rw [links id r here child]
    constructor
    · rintro (listed | ⟨-, c, -, found, uses, -⟩)
      · exact .inl listed
      · exact .inr ⟨c, found, uses⟩
    · rintro (listed | ⟨c, found, uses⟩)
      · exact .inl listed
      · by_cases listed : child ∈ linksOf "implements" r.entry
        · exact .inl listed
        · exact .inr ⟨r, c, here, found, uses, listed⟩
  · have nothing : invert L'.reqs = some .empty := by
      apply invert_of_closed _ closed
      intro id r' here'
      rw [entries] at here'
      obtain ⟨r, here, rfl⟩ := Option.map_eq_some_iff.1 here'
      obtain ⟨parents, iterated, readable⟩ := readable_of_invert inverted here
      have uses : (fixedEntry files id r).getOrEmpty "uses" = r.entry.getOrEmpty "uses" := by
        unfold Json.getOrEmpty
        rw [get_fixedEntry files id r (by decide)]
      refine ⟨parents, by dsimp only; rw [uses, iterated], fun link member => ?_⟩
      obtain ⟨hashable, parent_readable⟩ := readable link member
      refine ⟨hashable, fun p parent' same found' => ?_⟩
      rw [entries] at found'
      obtain ⟨parent, found, rfl⟩ := Option.map_eq_some_iff.1 found'
      obtain ⟨items, exists_items⟩ := parent_readable p parent same found
      obtain ⟨data, list, -, -, -, dict, -⟩ := loadRequirements_filed loaded found
      exact existing_fixedEntry files p dict exists_items
    unfold fixImplements
    rw [nothing]
    rfl

/-- An entry with the required fields and its links to parents. -/
def sampleEntry (id method : String) (uses : List String) : Json :=
  .obj [("id", .str id), ("title", .str id), ("description", .str ""), ("rationale", .str ""),
    ("verification_method", .str method), ("uses", .arr (uses.map .str))]

/-- Two files, with a parent that does not list its child. -/
def sampleStore : Store :=
  [("requirements/sm/requirements.json", .json (.obj [("requirements",
      .arr [sampleEntry "REQ-SM-001" "Inspection" ["REQ-SYS-001"]])])),
    ("requirements/sys/requirements.json", .json (.obj [("requirements",
      .arr [sampleEntry "REQ-SYS-001" "Test" []])]))]

theorem fixImplements_closes_sample : ∃ L F L', loadRequirements (some sampleStore) = some L ∧
    fixImplements sampleStore L.reqs = some F ∧ F.filesUpdated = 1 ∧ F.entriesAdded = 1 ∧
    loadRequirements (some F.store) = some L' ∧
    fixImplements F.store L'.reqs = some ⟨F.store, 0, 0⟩ := by
  have runs : ((loadRequirements (some sampleStore)).bind fun L =>
      fixImplements sampleStore L.reqs).map (fun F => (F.filesUpdated, F.entriesAdded)) =
        some (1, 1) := by decide +kernel
  obtain ⟨F, both, added⟩ := Option.map_eq_some_iff.1 runs
  obtain ⟨L, loaded, fixed⟩ := Option.bind_eq_some_iff.1 both
  obtain ⟨L', reloaded, -, -, -, again⟩ := fixImplements_closes loaded fixed
  exact ⟨L, F, L', loaded, fixed, congrArg Prod.fst added, congrArg Prod.snd added, reloaded, again⟩

end LibJuno.Traceability
