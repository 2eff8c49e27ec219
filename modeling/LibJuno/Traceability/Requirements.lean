import LibJuno.Lib.JsonDict
import LibJuno.Lib.Accumulate

/-!
# The requirement files

`load_requirements`, `_load_module_file` and `_validate_req` of `verify_traceability.py`: the
requirements of all files under one identifier each, and what is wrong with the files. The
wording of the messages is left out; a message is its kind and what it names. An exception
the script does not catch is `none`.

Rewriting entries without touching what the loader reads changes what is loaded entry by
entry (`loadRequirements_rewrite`).
-/

namespace LibJuno.Traceability

/-- A message of the report. -/
inductive Finding where
  | noDirectory
  | unreadable (file : String)
  | rootNotObject (file : String)
  | noRequirements (file : String)
  | entryNotObject (file : String) (idx : Nat)
  | missingField (file : String) (idx : Nat) (field : String)
  | idNotString (file : String) (idx : Nat)
  | idFormat (file : String) (idx : Nat) (id : String)
  | duplicate (file : String) (idx : Nat) (id : String) (firstSeen : String)
  | invalidMethod (file : String) (idx : Nat) (method : Json)
  | notArray (field : String) (file : String) (id : String)
  | broken (field : String) (file : String) (id : String) (ref : Json)
  | oneSided (field : String) (id : String) (ref : Json)
  | annotationUnreadable (file : String)
  | malformedJson (file : String) (lineno : Nat)
  | tagNotArray (key : String) (file : String) (lineno : Nat)
  | tagNotString (key : String) (file : String) (lineno : Nat)
  | unannotated (id : String)
  | notVerified (id : String)
  | orphaned (key : String) (file : String) (lineno : Nat) (id : String)

/-- What reading a file gives. -/
inductive Doc where
  | unreadable
  | json (data : Json)

/-- The requirement files, in the order of their directories. -/
abbrev Store := List (String × Doc)

/-- A copy of an entry with the file it was first seen in. -/
structure Requirement where
  entry : Json
  source : String

structure Loaded where
  reqs : OrderedMap String Requirement
  errors : List Finding

/-- Whether a requirement is loaded under an identifier. -/
def Loaded.Has (L : Loaded) (id : String) : Prop := L.reqs.has id = true

def requiredFields : List String := ["id", "title", "description", "rationale", "verification_method"]

def validVerificationMethods : List String := ["Test", "Inspection", "Analysis", "Demonstration"]

/-- `REQ_ID_RE`; its `$` also matches before a final line feed. -/
def isReqId (id : String) : Bool :=
  match id.toList with
  | 'R' :: 'E' :: 'Q' :: '-' :: rest =>
    let name := rest.takeWhile fun c => 'A' ≤ c ∧ c ≤ 'Z'
    match rest.drop name.length with
    | '-' :: a :: b :: c :: tail =>
      !name.isEmpty && a.isDigit && b.isDigit && c.isDigit && (tail = [] || tail = ['\n'])
    | _ => false
  | _ => false

/-- The check of the method; a list or an object cannot be looked up. -/
def methodFindings (file : String) (idx : Nat) : Option Json → Option (List Finding)
  | none => some []
  | some .null => some []
  | some (.arr _) => none
  | some (.obj _) => none
  | some (.str method) =>
    some (if method ∈ validVerificationMethods then [] else [.invalidMethod file idx (.str method)])
  | some other => some [.invalidMethod file idx other]

def missingFields (file : String) (idx : Nat) (req : Json) : List Finding :=
  (requiredFields.filter fun field => (req.get field).isNone).map (.missingField file idx)

/-- `_validate_req`. -/
def validateReq (file : String) (idx : Nat) (req : Json) (loaded : Loaded) : Option Loaded :=
  let errors := loaded.errors ++ missingFields file idx req
  match req.get "id" with
  | none => some ⟨loaded.reqs, errors⟩
  | some .null => some ⟨loaded.reqs, errors⟩
  | some (.str id) =>
    if !isReqId id then some ⟨loaded.reqs, errors ++ [.idFormat file idx id]⟩
    else
      match loaded.reqs.get id with
      | some first => some ⟨loaded.reqs, errors ++ [.duplicate file idx id first.source]⟩
      | none =>
        (methodFindings file idx (req.get "verification_method")).map fun found =>
          ⟨loaded.reqs.set id ⟨req, file⟩, errors ++ found⟩
  | some _ => some ⟨loaded.reqs, errors ++ [.idNotString file idx]⟩

/-- The loop body of `_load_module_file`. -/
def loadEntry (file : String) (loaded : Loaded) (item : Json × Nat) : Option Loaded :=
  if !item.1.isDict then some ⟨loaded.reqs, loaded.errors ++ [.entryNotObject file item.2]⟩
  else validateReq file item.2 item.1 loaded

/-- `_load_module_file`. -/
def loadModuleFile (loaded : Loaded) (file : String × Doc) : Option Loaded :=
  match file.2 with
  | .unreadable => some ⟨loaded.reqs, loaded.errors ++ [.unreadable file.1]⟩
  | .json data =>
    if !data.isDict then some ⟨loaded.reqs, loaded.errors ++ [.rootNotObject file.1]⟩
    else
      match data.get "requirements" with
      | some (.arr items) => items.zipIdx.foldlM (loadEntry file.1) loaded
      | _ => some ⟨loaded.reqs, loaded.errors ++ [.noRequirements file.1]⟩

/-- `load_requirements`; without a store there is no directory of requirements. -/
def loadRequirements : Option Store → Option Loaded
  | none => some ⟨.empty, [.noDirectory]⟩
  | some store => store.foldlM loadModuleFile ⟨.empty, []⟩

section Filed

/-- The entry of a requirement is one of the items of its file. -/
def Filed (store : Store) (id : String) (r : Requirement) : Prop :=
  ∃ data items, (r.source, Doc.json data) ∈ store ∧ data.get "requirements" = some (.arr items) ∧
    r.entry ∈ items ∧ r.entry.isDict = true ∧ r.entry.get "id" = some (.str id)

/-- What a valid entry is filed as, or the requirements as they were. -/
theorem validateReq_reqs {file : String} {idx : Nat} {req : Json} {L L' : Loaded}
    (validated : validateReq file idx req L = some L') :
    L'.reqs = L.reqs ∨
      ∃ id, req.get "id" = some (.str id) ∧ L'.reqs = L.reqs.set id ⟨req, file⟩ := by
  unfold validateReq at validated
  dsimp only at validated
  split at validated
  · exact .inl (by rw [← Option.some.inj validated])
  · exact .inl (by rw [← Option.some.inj validated])
  · next id named =>
    split at validated
    · exact .inl (by rw [← Option.some.inj validated])
    · split at validated
      · exact .inl (by rw [← Option.some.inj validated])
      · obtain ⟨found, -, rfl⟩ := Option.map_eq_some_iff.1 validated
        exact .inr ⟨id, named, rfl⟩
  · exact .inl (by rw [← Option.some.inj validated])

theorem loadRequirements_filed {store : Store} {L : Loaded}
    (loaded : loadRequirements (some store) = some L) {id : String} {r : Requirement}
    (here : L.reqs.get id = some r) : Filed store id r := by
  have all : ∀ id r, L.reqs.get id = some r → Filed store id r := by
    refine Accumulate.keepsM
      (P := fun L : Loaded => ∀ id r, L.reqs.get id = some r → Filed store id r) ?_ ?_ loaded
    · rintro L ⟨file, doc⟩ L' member filed opened
      unfold loadModuleFile at opened
      cases doc with
      | unreadable => exact Option.some.inj opened ▸ filed
      | json data =>
        dsimp only at opened
        split at opened
        · exact Option.some.inj opened ▸ filed
        · split at opened
          · next items listed =>
            refine Accumulate.keepsM
              (P := fun L : Loaded => ∀ id r, L.reqs.get id = some r → Filed store id r)
              ?_ filed opened
            rintro L ⟨req, idx⟩ L' among filed entered
            unfold loadEntry at entered
            split at entered
            · exact Option.some.inj entered ▸ filed
            · next dict =>
              rcases validateReq_reqs entered with same | ⟨id, named, set⟩
              · rw [same]
                exact filed
              · rw [set]
                intro id' r
                rw [OrderedMap.get_set]
                split
                · next key =>
                  intro new
                  obtain rfl := Option.some.inj new
                  refine ⟨data, items, member, listed, ?_, by simpa using dict, key ▸ named⟩
                  exact List.mem_of_getElem? (List.mem_zipIdx_iff_getElem?.1 among)
                · exact filed id' r
          · exact Option.some.inj opened ▸ filed
    · intro id r none_there
      simp at none_there
  exact all id r here

end Filed

section WellFormed

/-- The identifier of an entry. -/
def idOf (req : Json) : Option String :=
  match req.get "id" with
  | some (.str id) => some id
  | _ => none

def MethodOk (method : Option Json) : Prop :=
  method = some .null ∨ ∃ m ∈ validVerificationMethods, method = some (.str m)

/-- An entry without fault. One whose identifier is null is let through, and not loaded. -/
def EntryOk (req : Json) : Prop :=
  req.isDict = true ∧ (∀ field ∈ requiredFields, (req.get field).isSome = true) ∧
    (req.get "id" = some .null ∨
      ∃ id, req.get "id" = some (.str id) ∧ isReqId id = true ∧
        MethodOk (req.get "verification_method"))

/-- A file without fault. -/
def DocOk : Doc → Prop
  | .unreadable => False
  | .json data => ∃ items, data.get "requirements" = some (.arr items) ∧ ∀ req ∈ items, EntryOk req

/-- The identifiers in a file. -/
def docIds : Doc → List String
  | .unreadable => []
  | .json data =>
    match data.get "requirements" with
    | some (.arr items) => items.filterMap idOf
    | _ => []

theorem missingFields_nil_iff {file : String} {idx : Nat} {req : Json} :
    missingFields file idx req = [] ↔ ∀ field ∈ requiredFields, (req.get field).isSome = true := by
  simp [missingFields, List.filter_eq_nil_iff, Option.isSome_iff_ne_none]

theorem methodFindings_nil_iff {file : String} {idx : Nat} {method : Option Json}
    {found : List Finding} (checked : methodFindings file idx method = some found)
    (there : method.isSome = true) : found = [] ↔ MethodOk method := by
  unfold methodFindings at checked
  unfold MethodOk
  split at checked
  · simp at there
  · obtain rfl := Option.some.inj checked
    simp
  · cases checked
  · cases checked
  · next m =>
    obtain rfl := Option.some.inj checked
    simp
  · next other not_null not_arr not_obj not_str =>
    obtain rfl := Option.some.inj checked
    cases other <;> simp_all

/-- A step of the loop leaves no error exactly when there was none, and the entry is without
fault and new. -/
theorem loadEntry_errors {file : String} {L L' : Loaded} {item : Json × Nat}
    (loaded : loadEntry file L item = some L') :
    L'.errors = [] ↔ L.errors = [] ∧ EntryOk item.1 ∧
      ∀ id, idOf item.1 = some id → L.reqs.get id = none := by
  obtain ⟨req, idx⟩ := item
  unfold loadEntry at loaded
  unfold EntryOk idOf
  dsimp only at loaded ⊢
  split at loaded
  · next not_dict =>
    obtain rfl := Option.some.inj loaded
    simp_all
  · next dict =>
    have dict : req.isDict = true := by simpa using dict
    unfold validateReq at loaded
    dsimp only at loaded
    split at loaded
    · next unnamed =>
      obtain rfl := Option.some.inj loaded
      simp [unnamed, missingFields_nil_iff, requiredFields]
    · next null =>
      obtain rfl := Option.some.inj loaded
      simp [null, missingFields_nil_iff, dict]
    · next id named =>
      split at loaded
      · next invalid =>
        obtain rfl := Option.some.inj loaded
        simp_all
      · next valid =>
        split at loaded
        · next first seen =>
          obtain rfl := Option.some.inj loaded
          simp [named, seen]
        · next fresh =>
          obtain ⟨found, checked, rfl⟩ := Option.map_eq_some_iff.1 loaded
          simp only [List.append_eq_nil_iff, missingFields_nil_iff, dict, named]
          constructor
          · rintro ⟨⟨none_before, fields⟩, none_found⟩
            refine ⟨none_before, ⟨trivial, fields, .inr ⟨id, rfl, by simpa using valid, ?_⟩⟩, ?_⟩
            · exact (methodFindings_nil_iff checked (fields _ (by simp [requiredFields]))).1 none_found
            · rintro id' same
              rw [← Option.some.inj same, fresh]
          · rintro ⟨none_before, ⟨-, fields, null | ⟨id', same, -, method⟩⟩, -⟩
            · cases null
            · exact ⟨⟨none_before, fields⟩,
                (methodFindings_nil_iff checked (fields _ (by simp [requiredFields]))).2 method⟩
    · next other not_null not_str named =>
      obtain rfl := Option.some.inj loaded
      cases other <;> simp_all

/-- An entry without fault is there afterwards. -/
theorem loadEntry_grows {file : String} {L L' : Loaded} {item : Json × Nat}
    (loaded : loadEntry file L item = some L') (ok : EntryOk item.1) (id : String) :
    L'.Has id ↔ L.Has id ∨ idOf item.1 = some id := by
  obtain ⟨req, idx⟩ := item
  obtain ⟨dict, fields, named⟩ := ok
  unfold loadEntry at loaded
  rw [if_neg (by simp [dict])] at loaded
  unfold validateReq at loaded
  unfold idOf Loaded.Has OrderedMap.has
  dsimp only at loaded ⊢
  rcases named with null | ⟨id', named, valid, method⟩
  · rw [null] at loaded ⊢
    obtain rfl := Option.some.inj loaded
    simp
  · rw [named] at loaded ⊢
    simp only [valid, Bool.not_true, Bool.false_eq_true, if_false] at loaded
    split at loaded
    · next first seen =>
      obtain rfl := Option.some.inj loaded
      constructor
      · exact .inl
      · rintro (there | same)
        · exact there
        · rw [← Option.some.inj same, seen]
          rfl
    · obtain ⟨found, -, rfl⟩ := Option.map_eq_some_iff.1 loaded
      dsimp only
      rw [OrderedMap.get_set]
      split
      · next same => simp [same]
      · next other => simp [Ne.symm other]

theorem flatMap_toList {α β : Type} (f : α → Option β) (xs : List (α × Nat)) :
    xs.flatMap (fun a => (f a.1).toList) = (xs.map Prod.fst).filterMap f := by
  induction xs with
  | nil => rfl
  | cons a xs ih =>
    rw [List.flatMap_cons, ih, List.map_cons, List.filterMap_cons]
    cases f a.1 <;> rfl

/-- The loop over the entries of a file. -/
theorem loadItems_spec {file : String} {L L' : Loaded} {items : List Json}
    (loaded : items.zipIdx.foldlM (loadEntry file) L = some L') :
    (L'.errors = [] ↔ L.errors = [] ∧ (∀ req ∈ items, EntryOk req) ∧
      (items.filterMap idOf).Nodup ∧ ∀ id ∈ items.filterMap idOf, ¬L.Has id) ∧
    ((∀ req ∈ items, EntryOk req) → ∀ id, L'.Has id ↔
      L.Has id ∨ id ∈ items.filterMap idOf) := by
  have firsts : items.zipIdx.map Prod.fst = items := by simp
  have step : ∀ (L : Loaded) (item : Json × Nat) (L' : Loaded), loadEntry file L item = some L' →
      (L'.errors = [] ↔ L.errors = [] ∧ EntryOk item.1 ∧ (idOf item.1).toList.Nodup ∧
        ∀ id ∈ (idOf item.1).toList, ¬L.Has id) := by
    intro L item L' taken
    rw [loadEntry_errors taken]
    cases idOf item.1 <;> simp [Loaded.Has, OrderedMap.has]
  have grows : ∀ (L : Loaded) (item : Json × Nat) (L' : Loaded), loadEntry file L item = some L' →
      EntryOk item.1 → ∀ id, L'.Has id ↔ L.Has id ∨ id ∈ (idOf item.1).toList := by
    intro L item L' taken ok id
    rw [loadEntry_grows taken ok id, Option.mem_toList]
  have spec := Accumulate.uniqueM (P := fun L : Loaded => L.errors = []) Loaded.Has
    (fun item : Json × Nat => (idOf item.1).toList) step grows loaded
  rwa [Accumulate.forall_mem_numbered, flatMap_toList, firsts] at spec

/-- The loop over the files. -/
theorem loadModuleFile_spec {L L' : Loaded} {file : String × Doc}
    (loaded : loadModuleFile L file = some L') :
    (L'.errors = [] ↔ L.errors = [] ∧ DocOk file.2 ∧ (docIds file.2).Nodup ∧
      ∀ id ∈ docIds file.2, ¬L.Has id) ∧
    (DocOk file.2 → ∀ id, L'.Has id ↔ L.Has id ∨ id ∈ docIds file.2) := by
  obtain ⟨name, doc⟩ := file
  unfold loadModuleFile at loaded
  unfold DocOk docIds
  dsimp only at loaded ⊢
  cases doc with
  | unreadable =>
    obtain rfl := Option.some.inj loaded
    simp
  | json data =>
    dsimp only at loaded ⊢
    split at loaded
    · next not_dict =>
      have unlisted : data.get "requirements" = none := by
        cases data <;> first | rfl | simp [Json.isDict] at not_dict
      obtain rfl := Option.some.inj loaded
      simp [unlisted]
    · split at loaded
      · next items listed =>
        have spec := loadItems_spec loaded
        have same : (∃ items', some (Json.arr items) = some (.arr items') ∧ ∀ req ∈ items', EntryOk req) ↔
            ∀ req ∈ items, EntryOk req := by
          constructor
          · rintro ⟨items', same, ok⟩
            cases same
            exact ok
          · exact fun ok => ⟨items, rfl, ok⟩
        rw [listed, same]
        exact spec
      · next unlisted =>
        obtain rfl := Option.some.inj loaded
        have none_listed : ¬∃ items, data.get "requirements" = some (.arr items) ∧
            ∀ req ∈ items, EntryOk req := by
          rintro ⟨items, listed, -⟩
          exact unlisted items listed
        simp [none_listed]

/-- **The loader.** It reports no error exactly when there is a directory, every file holds an
array of entries without fault, and no identifier comes twice in all the files. -/
theorem loadRequirements_errors_iff {store : Option Store} {L : Loaded}
    (loaded : loadRequirements store = some L) :
    L.errors = [] ↔ ∃ files, store = some files ∧ (∀ file ∈ files, DocOk file.2) ∧
      (files.flatMap fun file => docIds file.2).Nodup := by
  cases store with
  | none =>
    obtain rfl := Option.some.inj loaded
    simp
  | some files =>
    have spec := Accumulate.uniqueM (P := fun L : Loaded => L.errors = []) Loaded.Has
      (fun file : String × Doc => docIds file.2) (fun _ _ _ taken => (loadModuleFile_spec taken).1)
      (fun _ _ _ taken => (loadModuleFile_spec taken).2) loaded
    have none_before : ∀ id, ¬(⟨.empty, []⟩ : Loaded).Has id := by
      intro id there
      cases there
    rw [spec.1]
    simp [none_before]

end WellFormed

section Rewrite

/-- A change of entries in some of the files that keeps what the loader reads. -/
structure Rewrite where
  touched : String → Bool
  entry : String → Requirement → Json
  untouched : ∀ id r, touched r.source = false → entry id r = r.entry
  keeps_dict : ∀ id r, (entry id r).isDict = r.entry.isDict
  keeps_fields : ∀ id r field, field ∈ requiredFields → (entry id r).get field = r.entry.get field

namespace Rewrite

variable (W : Rewrite)

/-- The changed requirement. -/
def image (id : String) (r : Requirement) : Requirement := ⟨W.entry id r, r.source⟩

/-- An item of a file; only one with a string for an identifier is changed. -/
def item (file : String) (req : Json) : Json :=
  match req.get "id" with
  | some (.str id) => W.entry id ⟨req, file⟩
  | _ => req

/-- The items of a file are rewritten in place. -/
def data (file : String) (data : Json) : Json :=
  match data.get "requirements" with
  | some (.arr items) => data.assign "requirements" (.arr (items.map (W.item file)))
  | _ => data

def doc (file : String) : Doc → Doc
  | .json data => if W.touched file then .json (W.data file data) else .json data
  | .unreadable => .unreadable

def store (files : Store) : Store := files.map fun file => (file.1, W.doc file.1 file.2)

def loaded (L : Loaded) : Loaded := ⟨L.reqs.mapWithKey W.image, L.errors⟩

theorem get_item (file : String) (req : Json) (field : String) (read : field ∈ requiredFields) :
    (W.item file req).get field = req.get field := by
  unfold item
  split
  · exact W.keeps_fields _ ⟨req, file⟩ field read
  · rfl

theorem item_untouched {file : String} (untouched : W.touched file = false) (req : Json) :
    W.item file req = req := by
  unfold item
  split
  · exact W.untouched _ ⟨req, file⟩ untouched
  · rfl

@[simp] theorem isDict_item (file : String) (req : Json) : (W.item file req).isDict = req.isDict := by
  unfold item
  split
  · exact W.keeps_dict _ ⟨req, file⟩
  · rfl

theorem missingFields_item (file : String) (idx : Nat) (req : Json) :
    missingFields file idx (W.item file req) = missingFields file idx req := by
  unfold missingFields
  congr 1
  apply List.filter_congr
  intro field read
  rw [W.get_item file req field read]

theorem validateReq_item (file : String) (idx : Nat) (req : Json) (L : Loaded) :
    validateReq file idx (W.item file req) (W.loaded L) =
      (validateReq file idx req L).map W.loaded := by
  have id_read := W.get_item file req "id" (by simp [requiredFields])
  have method_read := W.get_item file req "verification_method" (by simp [requiredFields])
  unfold validateReq
  rw [W.missingFields_item, id_read, method_read]
  cases named : req.get "id" with
  | none => rfl
  | some j =>
    cases j with
    | str id =>
      have changed : W.item file req = W.entry id ⟨req, file⟩ := by
        unfold item
        rw [named]
      dsimp only
      split
      · rfl
      · have under : (W.loaded L).reqs.get id = (L.reqs.get id).map (W.image id) :=
          OrderedMap.get_mapWithKey _ _ _
        rw [under]
        cases seen : L.reqs.get id with
        | some first => rfl
        | none =>
          dsimp only [Option.map_none]
          rw [Option.map_map]
          congr 1
          funext found
          have set := OrderedMap.mapWithKey_set seen W.image ⟨req, file⟩
          simp only [loaded, Function.comp_apply, set, changed, image]
    | null => rfl
    | bool => rfl
    | num => rfl
    | arr => rfl
    | obj => rfl

theorem loadEntry_item (file : String) (L : Loaded) (req : Json) (idx : Nat) :
    loadEntry file (W.loaded L) (W.item file req, idx) =
      (loadEntry file L (req, idx)).map W.loaded := by
  unfold loadEntry
  simp only [isDict_item]
  split
  · rfl
  · exact W.validateReq_item file idx req L

theorem foldlM_map_loaded {α β : Type} {f : Loaded → α → Option Loaded}
    {g : Loaded → β → Option Loaded} {h : β → α} (items : List β)
    (step : ∀ L b, f (W.loaded L) (h b) = (g L b).map W.loaded) (L : Loaded) :
    (items.map h).foldlM f (W.loaded L) = (items.foldlM g L).map W.loaded := by
  induction items generalizing L with
  | nil => rfl
  | cons b items ih =>
    rw [List.map_cons, List.foldlM_cons, List.foldlM_cons, step]
    cases g L b with
    | none => rfl
    | some L' => exact ih L'

theorem loadItems_item (file : String) (items : List Json) (L : Loaded) :
    (items.map (W.item file)).zipIdx.foldlM (loadEntry file) (W.loaded L) =
      (items.zipIdx.foldlM (loadEntry file) L).map W.loaded := by
  have numbered : (items.map (W.item file)).zipIdx =
      items.zipIdx.map fun item => (W.item file item.1, item.2) := by
    rw [List.zipIdx_map]
    rfl
  rw [numbered]
  exact W.foldlM_map_loaded items.zipIdx (fun L item => W.loadEntry_item file L item.1 item.2) L

/-- A file whose items are changed and one with the items as they were load alike. -/
theorem loadModuleFile_items {file : String} {data data' : Json} (L : Loaded)
    (dict : data'.isDict = data.isDict)
    (items : ∀ listed, data.get "requirements" = some (.arr listed) →
      data'.get "requirements" = some (.arr (listed.map (W.item file))))
    (other : (∀ listed, data.get "requirements" ≠ some (.arr listed)) → data' = data) :
    loadModuleFile (W.loaded L) (file, .json data') =
      (loadModuleFile L (file, .json data)).map W.loaded := by
  unfold loadModuleFile
  dsimp only
  rw [dict]
  split
  · rfl
  · cases listed : data.get "requirements" with
    | none =>
      rw [other (by simp [listed]), listed]
      rfl
    | some j =>
      cases j with
      | arr list =>
        rw [items list listed]
        exact W.loadItems_item file list L
      | _ =>
        rw [other (by simp [listed]), listed]
        rfl

theorem loadModuleFile_doc (L : Loaded) (file : String × Doc) :
    loadModuleFile (W.loaded L) (file.1, W.doc file.1 file.2) =
      (loadModuleFile L file).map W.loaded := by
  obtain ⟨name, doc⟩ := file
  cases doc with
  | unreadable => rfl
  | json data =>
    unfold Rewrite.doc
    dsimp only
    split
    · unfold Rewrite.data
      split
      · next list listed =>
        have dict : data.isDict = true := by
          cases data <;> first | rfl | cases listed
        apply W.loadModuleFile_items L (Json.isDict_assign _ _ _)
        · intro list' listed'
          rw [listed] at listed'
          cases listed'
          rw [Json.get_assign dict, if_pos rfl]
        · intro none_listed
          exact absurd listed (none_listed list)
      · next unlisted =>
        apply W.loadModuleFile_items L rfl
        · intro list listed
          exact absurd listed (unlisted list)
        · exact fun _ => rfl
    · next untouched =>
      apply W.loadModuleFile_items L rfl
      · intro list listed
        have same : list.map (W.item name) = list :=
          (List.map_congr_left fun req _ => W.item_untouched (by simpa using untouched) req).trans
            (List.map_id _)
        rw [listed, same]
      · exact fun _ => rfl

end Rewrite

/-- Loading changed files gives the changed requirements, and the same errors. -/
theorem loadRequirements_rewrite (W : Rewrite) (store : Store) :
    loadRequirements (some (W.store store)) = (loadRequirements (some store)).map W.loaded := by
  have start : (⟨.empty, []⟩ : Loaded) = W.loaded ⟨.empty, []⟩ := rfl
  unfold loadRequirements Rewrite.store
  dsimp only
  rw [start]
  exact W.foldlM_map_loaded store (fun L file => W.loadModuleFile_doc L file) ⟨.empty, []⟩

end Rewrite

end LibJuno.Traceability
