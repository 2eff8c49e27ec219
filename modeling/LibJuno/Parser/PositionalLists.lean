import LibJuno.Parser.TranslationUnit
import Mathlib.Data.Multiset.AddSub

/-!
# Positional lists in a file

What a positional initialiser list adds to the records of its file, wherever the list and the
API struct stand. A list in a function is not read, and one in the file is read against the
fields of the struct exactly if the struct is visited first, which is not to say that it comes
first in the text. `positional_pairs_iff` says for each way when the pairs are those of C.
-/

namespace LibJuno.Parser

open LibJuno.Indexer

section Lists

variable (S : ApiStruct)

/-- A declaration of variables with a hole for the initialiser of one, which is of the API
type. A word that only lexes as a name may stand among the specifiers, but no other API type. -/
structure ApiVariable where
  specifiers : List Specifier
  before : List (Declarator × Option (List Cst))
  declarator : Declarator
  after : List (Declarator × Option (List Cst))
  plain : declarator.derivations = []
  single : ∀ n ∈ specifiers.filterMap Specifier.name, endsWith n "_API_T" = true → n = S.apiType

namespace ApiVariable

variable {S : ApiStruct} (v : ApiVariable S)

def fill (init : Option (List Cst)) : External :=
  .declaration ⟨v.specifiers, v.before ++ (v.declarator, init) :: v.after⟩

/-- The API type is named, and is the first name. -/
def isTyped : Bool := (v.specifiers.filterMap Specifier.name).head? = some S.apiType

end ApiVariable

variable (loc : Location)

/-- The children of the `initializer` around a list, with or without a comma at the end. -/
def bracesCst (vs : Positional) (comma : Bool) : List Cst :=
  .leaf loc "LBrace" "\x7b" :: positionalCst loc vs ::
    ((if comma then [.leaf loc "Comma" ","] else []) ++ [.leaf loc "RBrace" "\x7d"])

/-- The tag and the members of a struct or union that has a body. -/
def structBody (node : Cst) : Option (String × Option Cst) :=
  if node.hasToken "LBrace" then
    some ((node.image "Identifier").getD "", node.child "structDeclarationList")
  else none

/-- The bodies that the visit of an external meets. -/
def External.bodies : External → List (String × Option Cst)
  | .directive _ => []
  | .function _ => []
  | .declaration d => (d.specifiers.filterMap (Specifier.structNode loc)).filterMap structBody
  | .standalone _ => []

/-- The specifier with the body of the struct. -/
def ApiStruct.specifier : Specifier :=
  .builtin "structOrUnionSpecifier" [.leaf loc "Struct" "struct", .leaf loc "Identifier" S.tag,
    .leaf loc "LBrace" "\x7b", S.cst loc, .leaf loc "RBrace" "\x7d"]

namespace Place

variable (p : Place)

/-- A body with the tag of the struct is visited before the hole. -/
def sees : Bool := (p.earlier.flatMap (External.bodies loc)).any fun b => decide (b.1 = S.tag)

/-- All bodies with the tag that are visited before the hole are that of the struct. -/
def OneStruct : Prop :=
  ∀ b ∈ p.earlier.flatMap (External.bodies loc), b.1 = S.tag → ∃ loc', b.2 = some (S.cst loc')

end Place

variable (filePath : String) (full bare : List Item)

/-- The records of vtables in a file that are not there in the other. -/
def addedVtables : List VtableAssignmentRecord :=
  (walkTranslationUnit filePath (unitCst loc full)).parsed.vtableAssignments.diff
    (walkTranslationUnit filePath (unitCst loc bare)).parsed.vtableAssignments

/-- The lists that only the first file leaves to the indexer. -/
def addedPending : List PendingPositionalVtable :=
  (walkTranslationUnit filePath (unitCst loc full)).parsed.pendingPositionalVtables.diff
    (walkTranslationUnit filePath (unitCst loc bare)).parsed.pendingPositionalVtables

/-- What the first file has over the other gives exactly these pairs: its records, together
with what its lists come to in an index that has the fields of the struct. -/
def Records (pairs : String → String → Prop) : Prop :=
  ∀ index : NavigationIndex,
    index.apiStructFields.get S.apiType = (if S.fields.isEmpty then none else some S.fields) →
    ∀ apiType field fnName,
      ((∃ r ∈ addedVtables loc filePath full bare,
          r.apiType = apiType ∧ r.field = field ∧ r.functionName = fnName) ∨
        Listed (index.resolveDeferred
          ((addedPending loc filePath full bare).map PendingPositionalVtable.defer))
          apiType field fnName) ↔
      Listed index apiType field fnName ∨ (apiType = S.apiType ∧ pairs field fnName)

end Lists

section Differences

variable {V : List VtableAssignmentRecord} {W : List PendingPositionalVtable} {P P' : FileParse}

/-- The second file has these records and these lists over the first. -/
def Differ (V : List VtableAssignmentRecord) (W : List PendingPositionalVtable) (P P' : FileParse) :
    Prop :=
  ∃ A A' Q, P = prepend A A' Q ∧ P' = prepend (A ++ V) (A' ++ W) Q

theorem Differ.visit {f : FileParse → FileParse} (appends : Appends f) (differ : Differ V W P P') :
    Differ V W (f P) (f P') := by
  obtain ⟨A, A', Q, rfl, rfl⟩ := differ
  exact ⟨A, A', f Q, appends A A' Q, appends _ _ Q⟩

theorem Differ.refl (P : FileParse) : Differ [] [] P P := ⟨[], [], P, rfl, rfl⟩

/-- Appending records to a file. -/
theorem Differ.append (V : List VtableAssignmentRecord) (W : List PendingPositionalVtable)
    (P : FileParse) :
    Differ V W P { P with parsed := { P.parsed with
      vtableAssignments := P.parsed.vtableAssignments ++ V
      pendingPositionalVtables := P.parsed.pendingPositionalVtables ++ W } } := by
  refine ⟨P.parsed.vtableAssignments, P.parsed.pendingPositionalVtables,
    { P with parsed := { P.parsed with vtableAssignments := [], pendingPositionalVtables := [] } },
    ?_, ?_⟩
  · simp [prepend]
  · simp [prepend]

theorem diff_append_perm {α : Type*} [DecidableEq α] (xs ys zs : List α) :
    ((xs ++ ys ++ zs).diff (xs ++ zs)).Perm ys := by
  have moved : (xs ++ ys ++ zs).Perm (ys ++ (xs ++ zs)) := by
    rw [← List.append_assoc]
    exact List.perm_append_comm.append_right zs
  rw [← Multiset.coe_eq_coe, ← Multiset.coe_sub, Multiset.coe_eq_coe.2 moved, ← Multiset.coe_add]
  exact Multiset.add_sub_cancel_right

theorem Differ.vtables (differ : Differ V W P P') :
    (P'.parsed.vtableAssignments.diff P.parsed.vtableAssignments).Perm V := by
  obtain ⟨A, A', Q, rfl, rfl⟩ := differ
  exact diff_append_perm A V Q.parsed.vtableAssignments

theorem Differ.pending (differ : Differ V W P P') :
    (P'.parsed.pendingPositionalVtables.diff P.parsed.pendingPositionalVtables).Perm W := by
  obtain ⟨A, A', Q, rfl, rfl⟩ := differ
  exact diff_append_perm A' W Q.parsed.pendingPositionalVtables

end Differences

section Known

variable {S : ApiStruct} {P : FileParse}

/-- The API struct that a list of the type is read against. -/
def structOf (S : ApiStruct) (P : FileParse) : Option ApiStructRecord :=
  P.parsed.apiStructDefinitions.find? fun r => decide (r.apiType = S.apiType)

/-- The record of the struct, when it has a field. -/
def ApiStruct.record (S : ApiStruct) : Option ApiStructRecord :=
  if S.fields.isEmpty then none else some ⟨S.apiType, S.fields⟩

theorem structOf_of_keeps {f : FileParse → FileParse} (keeps : KeepsStructs f) (P : FileParse) :
    structOf S (f P) = structOf S P := by
  unfold structOf
  rw [keeps]

/-- Another tag is that of another type. -/
theorem apiTypeOfTag_ne {tag : String} (api : endsWith tag "_API_TAG" = true) (other : tag ≠ S.tag) :
    apiTypeOfTag tag ≠ S.apiType := by
  unfold endsWith at api
  obtain ⟨base, split⟩ := List.isSuffixOf_iff_suffix.1 api
  have whole : tag = String.ofList base ++ "_API_TAG" := by
    rw [← String.toList_inj, String.toList_append, String.toList_ofList, split]
  have typed : apiTypeOfTag (String.ofList base ++ "_API_TAG") = String.ofList base ++ "_API_T" :=
    apiTypeOfTag_tag ⟨String.ofList base, [], List.nodup_nil⟩
  rw [whole, typed]
  intro same
  apply other
  unfold ApiStruct.apiType at same
  rw [← String.toList_inj, String.toList_append, String.toList_append] at same
  rw [whole, ApiStruct.tag, String.toList_inj.1 (List.append_cancel_right same)]

theorem structOf_walkApiStructBody_other {tag : String} (other : tag ≠ S.tag) (sdl : Option Cst) :
    structOf S (walkApiStructBody tag sdl P) = structOf S P := by
  unfold structOf walkApiStructBody
  split
  · rfl
  · dsimp only
    split
    · next pushed =>
      rw [Bool.and_eq_true] at pushed
      rw [List.find?_append, List.find?_singleton,
        if_neg (by simpa using apiTypeOfTag_ne pushed.1 other), Option.or_none]
    · rfl

theorem structOf_walkApiStructBody (loc : Location) :
    structOf S (walkApiStructBody S.tag (some (S.cst loc)) P) = (structOf S P).or S.record := by
  unfold structOf ApiStruct.record
  rw [walkApiStructBody_definitions]
  dsimp only
  split
  · rw [List.append_nil, Option.or_none]
  · rw [List.find?_append, List.find?_singleton, if_pos (by simp)]

/-- A visited body is that of the struct, or one with another tag. -/
theorem structOf_walkStructOrUnionSpecifier {node : Cst}
    (one : ∀ b ∈ structBody node, b.1 = S.tag → ∃ loc, b.2 = some (S.cst loc)) :
    structOf S (walkStructOrUnionSpecifier P node) =
      (structOf S P).or (if (structBody node).any (fun b => decide (b.1 = S.tag)) then S.record
        else none) := by
  unfold walkStructOrUnionSpecifier structBody at *
  split
  · next body =>
    rw [if_pos body] at one
    have own := one _ rfl
    by_cases tagged : (node.image "Identifier").getD "" = S.tag
    · obtain ⟨loc, members⟩ := own tagged
      dsimp only at members
      rw [tagged, members, structOf_walkApiStructBody]
      simp
    · rw [structOf_walkApiStructBody_other tagged]
      simp [tagged]
  · rw [Option.any_none, if_neg Bool.false_ne_true, Option.or_none]
    split
    · exact structOf_of_keeps (keepsStructs_dispatchMacro _ _) P
    · rfl

theorem or_ite_or_ite {α : Type*} (x y : Option α) (a b : Bool) :
    (x.or (if a then y else none)).or (if b then y else none) = x.or (if a || b then y else none) := by
  cases a <;> cases b <;> cases x <;> cases y <;> rfl

theorem structOf_nodes {nodes : List Cst}
    (one : ∀ b ∈ nodes.filterMap structBody, b.1 = S.tag → ∃ loc, b.2 = some (S.cst loc)) :
    structOf S (nodes.foldl walkStructOrUnionSpecifier P) =
      (structOf S P).or (if (nodes.filterMap structBody).any (fun b => decide (b.1 = S.tag)) then S.record
        else none) := by
  induction nodes generalizing P with
  | nil => exact Option.or_none.symm
  | cons node nodes ih =>
    have here : ∀ b ∈ structBody node, b.1 = S.tag → ∃ loc, b.2 = some (S.cst loc) :=
      fun b found => one b (List.mem_filterMap.2 ⟨node, List.mem_cons_self, found⟩)
    have rest : ∀ b ∈ nodes.filterMap structBody, b.1 = S.tag → ∃ loc, b.2 = some (S.cst loc) := by
      intro b member
      obtain ⟨n, inside, found⟩ := List.mem_filterMap.1 member
      exact one b (List.mem_filterMap.2 ⟨n, List.mem_cons_of_mem node inside, found⟩)
    rw [List.foldl_cons, ih rest, structOf_walkStructOrUnionSpecifier here, or_ite_or_ite,
      List.filterMap_cons]
    cases structBody node <;> rfl

variable (loc : Location) (filePath : String)

theorem structOf_walkExternal {x : External}
    (one : ∀ b ∈ x.bodies loc, b.1 = S.tag → ∃ loc', b.2 = some (S.cst loc')) :
    structOf S (walkExternal loc filePath P x) =
      (structOf S P).or (if (x.bodies loc).any (fun b => decide (b.1 = S.tag)) then S.record
        else none) := by
  cases x with
  | directive image => exact Option.or_none.symm
  | function f =>
    exact (structOf_of_keeps (keepsStructs_walkFunctionDefinition filePath loc f) P).trans
      Option.or_none.symm
  | declaration d =>
    have read := walkFileDeclaration_cst (P := P) loc d
    refine (congrArg (structOf S) read).trans ((structOf_nodes one).trans ?_)
    refine congrArg (fun o => Option.or o _) ?_
    split
    · exact structOf_of_keeps (KeepsStructs.foldl (keepsStructs_walkInitDeclarator _) _) P
    · rfl
  | standalone children => exact Option.or_none.symm

/-- After some externals the struct is known exactly if they have its body. -/
theorem structOf_walkExternals {xs : List External}
    (one : ∀ b ∈ xs.flatMap (External.bodies loc), b.1 = S.tag → ∃ loc', b.2 = some (S.cst loc')) :
    structOf S (xs.foldl (walkExternal loc filePath) P) =
      (structOf S P).or (if (xs.flatMap (External.bodies loc)).any (fun b => decide (b.1 = S.tag)) then
        S.record else none) := by
  induction xs generalizing P with
  | nil => exact Option.or_none.symm
  | cons x xs ih =>
    rw [List.flatMap_cons] at one
    rw [List.foldl_cons, ih fun b member => one b (List.mem_append_right _ member),
      structOf_walkExternal loc filePath fun b member => one b (List.mem_append_left _ member),
      or_ite_or_ite, List.flatMap_cons, List.any_append]

end Known

section Turn

variable {S : ApiStruct} {vs : Positional} {P : FileParse} (loc : Location)

theorem walkInitDeclarator_none (apiType : String) (d : Declarator) :
    walkInitDeclarator apiType P (initDeclaratorCst loc (d, none)) = P := by
  unfold walkInitDeclarator initDeclaratorCst Cst.child
  rw [Cst.all_node, List.filter_cons_of_neg (by rw [key_declarator]; decide)]
  rfl

theorem walkInitDeclarator_list (apiType : String) (d : Declarator) (comma : Bool) :
    walkInitDeclarator apiType P (initDeclaratorCst loc (d, some (bracesCst loc vs comma))) =
      { P with parsed :=
          extractPositionalVtable apiType (vs.map fun v => v.1.cst v.2) (some d.info.name) P.parsed } := by
  have initializer : (initDeclaratorCst loc (d, some (bracesCst loc vs comma))).child "initializer" =
      some (.node "initializer" loc (bracesCst loc vs comma)) := by
    unfold initDeclaratorCst Cst.child
    rw [Cst.all_node, List.filter_cons_of_neg (by rw [key_declarator]; decide)]
    rfl
  have list : (Cst.node "initializer" loc (bracesCst loc vs comma)).child "initializerList" =
      some (positionalCst loc vs) := by
    cases comma <;> rfl
  unfold walkInitDeclarator
  rw [initializer, Option.bind_some, list, child_declarator_initDeclarator, Option.map_some]
  dsimp only
  rw [walkInitializerList_positional, extractDeclaratorInfo_cst]

/-- How a list is read: against the fields of the struct, by the indexer, or not at all. -/
inductive Reading where
  | inFile
  | deferred
  | unread
deriving DecidableEq

/-- What a list gives under a reading: its records and what it leaves to the indexer. -/
def Gives (S : ApiStruct) (vs : Positional) (V : List VtableAssignmentRecord)
    (W : List PendingPositionalVtable) : Reading → Prop
  | .inFile => W = [] ∧ ∀ apiType field fnName,
      (∃ r ∈ V, r.apiType = apiType ∧ r.field = field ∧ r.functionName = fnName) ↔
        apiType = S.apiType ∧ pairsOf S (boundInFile S vs) field fnName
  | .deferred => V = [] ∧ ∃ file varName, W = pendingOf S vs file varName
  | .unread => V = [] ∧ W = []

/-- The records of a list that is read against the fields of the struct. -/
def recordsOf (S : ApiStruct) (vs : Positional) (filePath : String) (varName : Option String) :
    List VtableAssignmentRecord :=
  ((vs.map fun v => v.1.cst v.2).zip S.fields).filterMap fun x =>
    (truthy (extractInitializerIdent x.1)).map fun fnName =>
      ⟨S.apiType, x.2, fnName, filePath, x.1.location.startLine, varName⟩

theorem mem_recordsOf_iff (filePath : String) (varName : Option String)
    (apiType field fnName : String) :
    (∃ r ∈ recordsOf S vs filePath varName,
        r.apiType = apiType ∧ r.field = field ∧ r.functionName = fnName) ↔
      apiType = S.apiType ∧ pairsOf S (boundInFile S vs) field fnName := by
  have ofType : ∀ r ∈ recordsOf S vs filePath varName, r.apiType = S.apiType := by
    intro r member
    obtain ⟨x, -, recorded⟩ := List.mem_filterMap.1 member
    obtain ⟨g, -, rfl⟩ := Option.map_eq_some_iff.1 recorded
    rfl
  rw [← mem_zip_fields_iff, ← zip_records_iff
    (fun f g l => ⟨S.apiType, f, g, filePath, l.startLine, varName⟩) (fun _ _ _ => ⟨rfl, rfl⟩)]
  constructor
  · rintro ⟨r, member, rfl, shown⟩
    exact ⟨ofType r member, r, member, shown⟩
  · rintro ⟨rfl, r, member, shown⟩
    exact ⟨r, member, ofType r member, shown⟩

/-- Where the struct with its fields is known the list is read against them. -/
theorem differ_list_found (d : Declarator) (comma : Bool)
    (found : structOf S P = some ⟨S.apiType, S.fields⟩) :
    ∃ V W, Gives S vs V W .inFile ∧
      Differ V W (walkInitDeclarator S.apiType P (initDeclaratorCst loc (d, none)))
        (walkInitDeclarator S.apiType P (initDeclaratorCst loc (d, some (bracesCst loc vs comma)))) := by
  have appended := Differ.append (recordsOf S vs P.parsed.filePath (some d.info.name)) [] P
  rw [List.append_nil] at appended
  rw [walkInitDeclarator_none, walkInitDeclarator_list, extractPositionalVtable_found _ _ _ found]
  exact ⟨_, [], ⟨rfl, mem_recordsOf_iff _ _⟩, appended⟩

/-- Where it is not, its names are left to the indexer. -/
theorem differ_list_missing (d : Declarator) (comma : Bool) (missing : structOf S P = none) :
    ∃ V W, Gives S vs V W .deferred ∧
      Differ V W (walkInitDeclarator S.apiType P (initDeclaratorCst loc (d, none)))
        (walkInitDeclarator S.apiType P (initDeclaratorCst loc (d, some (bracesCst loc vs comma)))) := by
  rw [walkInitDeclarator_none, walkInitDeclarator_list, extractPositionalVtable_missing _ missing]
  refine ⟨[], _, ⟨rfl, P.parsed.filePath, some d.info.name, rfl⟩, ?_⟩
  have appended := Differ.append [] (pendingOf S vs P.parsed.filePath (some d.info.name)) P
  rw [List.append_nil] at appended
  exact appended

variable (filePath : String) {v : ApiVariable S}

/-- The declaration of a variable of the type, around the list. -/
theorem walkExternal_fill (typed : v.isTyped = true) (init : Option (List Cst)) :
    walkExternal loc filePath P (v.fill init) =
      (v.specifiers.filterMap (Specifier.structNode loc)).foldl walkStructOrUnionSpecifier
        ((v.after.map (initDeclaratorCst loc)).foldl (walkInitDeclarator S.apiType)
          (walkInitDeclarator S.apiType
            ((v.before.map (initDeclaratorCst loc)).foldl (walkInitDeclarator S.apiType) P)
            (initDeclaratorCst loc (v.declarator, init)))) := by
  have named : specifiedType v.specifiers = S.apiType := by
    rw [specifiedType_eq, of_decide_eq_true typed]
    rfl
  have api : endsWith S.apiType "_API_T" = true := endsWith_append _ _
  unfold walkExternal ApiVariable.fill
  dsimp only
  rw [walkFileDeclaration_cst]
  dsimp only
  rw [named, if_pos api, List.map_append, List.foldl_append, List.map_cons,
    List.foldl_cons]

theorem differ_fill {V : List VtableAssignmentRecord} {W : List PendingPositionalVtable}
    (typed : v.isTyped = true) {init : Option (List Cst)}
    (turn : Differ V W
      (walkInitDeclarator S.apiType
        ((v.before.map (initDeclaratorCst loc)).foldl (walkInitDeclarator S.apiType) P)
        (initDeclaratorCst loc (v.declarator, none)))
      (walkInitDeclarator S.apiType
        ((v.before.map (initDeclaratorCst loc)).foldl (walkInitDeclarator S.apiType) P)
        (initDeclaratorCst loc (v.declarator, init)))) :
    Differ V W (walkExternal loc filePath P (v.fill none)) (walkExternal loc filePath P (v.fill init)) := by
  rw [walkExternal_fill loc filePath typed, walkExternal_fill loc filePath typed]
  exact (turn.visit (Appends.foldl (appends_walkInitDeclarator S.apiType) _)).visit
    (Appends.foldl appends_walkStructOrUnionSpecifier _)

/-- A declaration whose first name is not the type has its lists passed over. -/
theorem walkExternal_fill_untyped (untyped : v.isTyped = false) (init : Option (List Cst)) :
    walkExternal loc filePath P (v.fill init) = walkExternal loc filePath P (v.fill none) := by
  have passed : ¬endsWith (specifiedType v.specifiers) "_API_T" = true := by
    rw [specifiedType_eq]
    cases first : (v.specifiers.filterMap Specifier.name).head? with
    | none => decide
    | some n =>
      intro api
      have same := v.single n (List.mem_of_mem_head? first) api
      exact of_decide_eq_false untyped (same ▸ first)
  unfold walkExternal ApiVariable.fill
  dsimp only
  rw [walkFileDeclaration_cst, walkFileDeclaration_cst]
  dsimp only
  rw [if_neg passed, if_neg passed]

end Turn

section Pairs

variable {S : ApiStruct} {vs : Positional}

/-- The function recorded for a member under a reading. -/
def boundBy (S : ApiStruct) (vs : Positional) : Reading → Nat → Member → Option String
  | .inFile => boundInFile S vs
  | .deferred => boundDeferred S vs
  | .unread => fun _ _ => none

/-- What the names left to the indexer come to. -/
theorem listed_pendingOf (file : String) (varName : Option String) {index : NavigationIndex}
    (known : index.apiStructFields.get S.apiType = if S.fields.isEmpty then none else some S.fields)
    (a field fnName : String) :
    Listed (index.resolveDeferred ((pendingOf S vs file varName).map PendingPositionalVtable.defer))
        a field fnName ↔
      Listed index a field fnName ∨
        (a = S.apiType ∧ pairsOf S (boundDeferred S vs) field fnName) := by
  have met : (field, fnName) ∈ S.fields.zip (idents vs) ↔
      pairsOf S (boundDeferred S vs) field fnName := mem_zip_filter_iff
  rw [← met]
  unfold pendingOf NavigationIndex.resolveDeferred
  cases no_names : (idents vs).isEmpty with
  | true =>
    rw [if_pos rfl, List.isEmpty_iff.1 no_names]
    simp
  | false =>
    rw [if_neg Bool.false_ne_true, List.map_singleton, List.foldl_cons, List.foldl_nil]
    unfold NavigationIndex.resolvePositional PendingPositionalVtable.defer
    dsimp only
    rw [known]
    cases none_kept : S.fields.isEmpty with
    | true =>
      rw [if_pos rfl, List.isEmpty_iff.1 none_kept]
      simp
    | false =>
      rw [if_neg Bool.false_ne_true]
      dsimp only
      rw [listed_foldl_place, listed_prepared, mem_placements_iff]

variable {loc : Location} {filePath : String} {full bare : List Item}
  {V : List VtableAssignmentRecord} {W : List PendingPositionalVtable} {reading : Reading}

/-- What a file has over another gives the pairs of the reading. -/
theorem records_of_differ (gives : Gives S vs V W reading)
    (differ : Differ V W (walkTranslationUnit filePath (unitCst loc bare))
      (walkTranslationUnit filePath (unitCst loc full))) :
    Records S loc filePath full bare (pairsOf S (boundBy S vs reading)) := by
  intro index known apiType field fnName
  have vtables : (addedVtables loc filePath full bare).Perm V := differ.vtables
  have pending : (addedPending loc filePath full bare).Perm W := differ.pending
  cases reading with
  | inFile =>
    obtain ⟨rfl, shown⟩ := gives
    rw [pending.eq_nil]
    simp only [vtables.mem_iff]
    rw [shown, or_comm]
    rfl
  | deferred =>
    obtain ⟨rfl, file, varName, rfl⟩ := gives
    have same : addedPending loc filePath full bare = pendingOf S vs file varName := by
      unfold pendingOf at pending ⊢
      split
      · next no_names => rwa [if_pos no_names, List.perm_nil] at pending
      · next names => rwa [if_neg names, List.perm_singleton] at pending
    rw [vtables.eq_nil, same, listed_pendingOf file varName known]
    simp [boundBy]
  | unread =>
    obtain ⟨rfl, rfl⟩ := gives
    rw [vtables.eq_nil, pending.eq_nil]
    simp [boundBy, pairsOf, Binds, NavigationIndex.resolveDeferred]

/-- An index that has the fields of the struct and no records. -/
def headerIndex (S : ApiStruct) : NavigationIndex :=
  { createEmptyIndex with
    apiStructFields := if S.fields.isEmpty then .empty else OrderedMap.empty.set S.apiType S.fields }

/-- The pairs are determined by the two files. -/
theorem Records.unique {pairs pairs' : String → String → Prop}
    (h : Records S loc filePath full bare pairs) (h' : Records S loc filePath full bare pairs')
    (field fnName : String) : pairs field fnName ↔ pairs' field fnName := by
  have known : (headerIndex S).apiStructFields.get S.apiType =
      if S.fields.isEmpty then none else some S.fields := by
    unfold headerIndex
    dsimp only
    split
    · rfl
    · rw [OrderedMap.get_set_self]
  have nothing : ¬ Listed (headerIndex S) S.apiType field fnName := by
    rintro ⟨l, listed, -⟩
    exact List.not_mem_nil listed
  have both := (h _ known S.apiType field fnName).symm.trans (h' _ known S.apiType field fnName)
  simpa [nothing] using both

theorem records_iff (gives : Gives S vs V W reading)
    (differ : Differ V W (walkTranslationUnit filePath (unitCst loc bare))
      (walkTranslationUnit filePath (unitCst loc full))) {bound : Nat → Member → Option String} :
    Records S loc filePath full bare (pairsOf S bound) ↔
      ∀ i m, S.members[i]? = some m → bound i m = boundBy S vs reading i m := by
  have recorded := records_of_differ gives differ
  constructor
  · intro h
    exact (binds_iff S.distinct).1 (h.unique recorded)
  · intro same
    have pairs : pairsOf S bound = pairsOf S (boundBy S vs reading) := by
      funext field fnName
      exact propext ((binds_iff S.distinct).2 same field fnName)
    rw [pairs]
    exact recorded

/-- Filling a hole in a file with two externals. -/
theorem Differ.fill (p : Place) {x y : External}
    (turn : Differ V W
      (walkExternal loc filePath (p.earlier.foldl (walkExternal loc filePath)
        ⟨ParsedFile.blank filePath, [], .empty⟩) x)
      (walkExternal loc filePath (p.earlier.foldl (walkExternal loc filePath)
        ⟨ParsedFile.blank filePath, [], .empty⟩) y)) :
    Differ V W (walkTranslationUnit filePath (unitCst loc (p.fill x)))
      (walkTranslationUnit filePath (unitCst loc (p.fill y))) := by
  rw [walkTranslationUnit_cst, walkTranslationUnit_cst, Place.visited_fill, Place.visited_fill,
    List.foldl_append, List.foldl_append, List.foldl_cons, List.foldl_cons]
  exact turn.visit (Appends.foldl (appends_walkExternal loc filePath) _)

end Pairs

section Agreement

variable {typedefs : String → Option (List Derivation)} {S : ApiStruct} {vs : Positional}
  (loc : Location) (filePath : String)

/-- How a list in the file is read. A struct without a field is not recorded. -/
def Place.reading (p : Place) (v : ApiVariable S) : Reading :=
  if v.isTyped then if p.sees S loc && !S.fields.isEmpty then .inFile else .deferred else .unread

/-- A list that stands in the file gives what it gives under its reading. -/
theorem gives_list (vs : Positional) (p : Place) (v : ApiVariable S) (comma : Bool) (one : p.OneStruct S loc) :
    ∃ V W, Gives S vs V W (p.reading loc v) ∧
      Differ V W (walkTranslationUnit filePath (unitCst loc (p.fill (v.fill none))))
        (walkTranslationUnit filePath
          (unitCst loc (p.fill (v.fill (some (bracesCst loc vs comma)))))) := by
  have blank : structOf S ⟨ParsedFile.blank filePath, [], .empty⟩ = none := rfl
  have known : structOf S (p.earlier.foldl (walkExternal loc filePath)
      ⟨ParsedFile.blank filePath, [], .empty⟩) = if p.sees S loc then S.record else none := by
    rw [structOf_walkExternals loc filePath one, blank, Option.none_or]
    rfl
  have kept := structOf_of_keeps (S := S) (KeepsStructs.foldl (keepsStructs_walkInitDeclarator S.apiType)
    (v.before.map (initDeclaratorCst loc))) (p.earlier.foldl (walkExternal loc filePath)
      ⟨ParsedFile.blank filePath, [], .empty⟩)
  rw [known] at kept
  unfold Place.reading
  cases typed : v.isTyped with
  | false =>
    refine ⟨[], [], ⟨rfl, rfl⟩, Differ.fill p ?_⟩
    rw [walkExternal_fill_untyped loc filePath typed (some (bracesCst loc vs comma))]
    exact Differ.refl _
  | true =>
    rw [if_pos rfl]
    split
    · next met =>
      rw [Bool.and_eq_true, Bool.not_eq_true'] at met
      rw [if_pos met.1, ApiStruct.record, if_neg (by rw [met.2]; exact Bool.false_ne_true)] at kept
      obtain ⟨V, W, gives, turn⟩ := differ_list_found loc v.declarator comma kept
      exact ⟨V, W, gives, Differ.fill p (differ_fill loc filePath typed turn)⟩
    · next missed =>
      have missing : structOf S ((v.before.map (initDeclaratorCst loc)).foldl
          (walkInitDeclarator S.apiType) (p.earlier.foldl (walkExternal loc filePath)
            ⟨ParsedFile.blank filePath, [], .empty⟩)) = none := by
        rw [kept, ApiStruct.record]
        split
        · next seen =>
          refine if_pos ?_
          rw [Bool.and_eq_true, Bool.not_eq_true', not_and, Bool.not_eq_false] at missed
          exact missed seen
        · rfl
      obtain ⟨V, W, gives, turn⟩ := differ_list_missing loc v.declarator comma missing
      exact ⟨V, W, gives, Differ.fill p (differ_fill loc filePath typed turn)⟩

/-- A list in a function gives nothing. -/
theorem gives_function (vs : Positional) (p : Place) {f g : FunctionDefinition} (same : f.bare = g.bare) :
    ∃ V W, Gives S vs V W .unread ∧
      Differ V W (walkTranslationUnit filePath (unitCst loc (p.fill (.function g))))
        (walkTranslationUnit filePath (unitCst loc (p.fill (.function f)))) := by
  refine ⟨[], [], ⟨rfl, rfl⟩, Differ.fill p ?_⟩
  unfold walkExternal
  dsimp only
  rw [← walkFunctionDefinition_bare loc filePath f, same, walkFunctionDefinition_bare]
  exact Differ.refl _

/-- Every member gets from the `k`-th name, where `k` members before it are written as a
starred name in parentheses, what it gets from its index. -/
def KeepsPlaces (typedefs : String → Option (List Derivation)) (S : ApiStruct) (vs : Positional)
    (named : Nat → Option String) : Prop :=
  ∀ i m, S.members[i]? = some m →
    (m.isFunctionPointer typedefs = true → m.isKept = true →
      identAt vs i = named (rank Member.isKept S.members i)) ∧
    (m.isFunctionPointer typedefs = true → m.isKept = false → identAt vs i = none) ∧
    (m.isFunctionPointer typedefs = false → m.isKept = true →
      named (rank Member.isKept S.members i) = none)

/-- When the list is bound as in C. -/
def AsInC (typedefs : String → Option (List Derivation)) (S : ApiStruct) (vs : Positional) :
    Reading → Prop
  | .inFile => KeepsPlaces typedefs S vs (identAt vs)
  | .deferred => KeepsPlaces typedefs S vs fun k => (idents vs)[k]?
  | .unread => ∀ i m, S.members[i]? = some m → m.isFunctionPointer typedefs = true → identAt vs i = none

/-- Behind an entry that is no identifier, among as many as there are fields, there is none. -/
def NoGap (S : ApiStruct) (vs : Positional) : Prop :=
  ∀ p q, p < S.fields.length → p < q → identAt vs p = none → identAt vs q = none

theorem keepsPlaces_iff {named : Nat → Option String} :
    (∀ i m, S.members[i]? = some m → boundByC typedefs vs i m =
      if m.isKept then named (rank Member.isKept S.members i) else none) ↔
      KeepsPlaces typedefs S vs named := by
  refine forall_congr' fun i => forall_congr' fun m => imp_congr_right fun _ => ?_
  unfold boundByC
  cases m.isFunctionPointer typedefs <;> cases m.isKept <;> simp [eq_comm]

theorem asInC_iff (reading : Reading) :
    (∀ i m, S.members[i]? = some m → boundByC typedefs vs i m = boundBy S vs reading i m) ↔
      AsInC typedefs S vs reading := by
  cases reading with
  | inFile => exact keepsPlaces_iff
  | deferred => exact keepsPlaces_iff
  | unread =>
    refine forall_congr' fun i => forall_congr' fun m => imp_congr_right fun _ => ?_
    unfold boundByC boundBy
    cases m.isFunctionPointer typedefs <;> simp

/-- Reading the entries and reading the identifiers alone is the same without a gap. -/
theorem noGap_iff :
    (∀ i m, S.members[i]? = some m → boundInFile S vs i m = boundDeferred S vs i m) ↔ NoGap S vs := by
  have join : ∀ k, identAt vs k = (vs.map fun v => v.1.ident)[k]?.join := by
    intro k
    unfold identAt
    rw [List.getElem?_map]
    cases vs[k]? <;> rfl
  have names : idents vs = (vs.map fun v => v.1.ident).filterMap id := by
    rw [List.filterMap_map]
    rfl
  have inside : ∀ k, k < S.fields.length ↔
      ∃ i m, S.members[i]? = some m ∧ m.isKept = true ∧ rank Member.isKept S.members i = k := by
    intro k
    unfold ApiStruct.fields
    rw [List.length_map]
    constructor
    · intro bound
      obtain ⟨i, here⟩ := getElem?_filter_iff.1 (List.getElem?_eq_getElem bound)
      exact ⟨i, _, here⟩
    · rintro ⟨i, m, here⟩
      exact (List.getElem?_eq_some_iff.1 (getElem?_filter_iff.2 ⟨i, here⟩)).1
  unfold NoGap
  simp only [join]
  rw [← getElem?_filterMap_id_iff]
  unfold boundInFile boundDeferred
  simp only [join, names]
  constructor
  · intro same k bound
    obtain ⟨i, m, here, kept, rfl⟩ := (inside k).1 bound
    have at_rank := same i m here
    rwa [if_pos kept, if_pos kept] at at_rank
  · intro same i m here
    split
    · next kept => exact same _ ((inside _).2 ⟨i, m, here, kept, rfl⟩)
    · rfl

theorem records_list_iff (p : Place) (v : ApiVariable S) (comma : Bool) (one : p.OneStruct S loc) :
    Records S loc filePath (p.fill (v.fill (some (bracesCst loc vs comma)))) (p.fill (v.fill none))
        (pairsOf S (boundByC typedefs vs)) ↔
      AsInC typedefs S vs (p.reading loc v) := by
  obtain ⟨V, W, gives, differ⟩ := gives_list loc filePath vs p v comma one
  rw [records_iff gives differ, asInC_iff]

theorem records_function_iff (p : Place) (f g : FunctionDefinition) (same : f.bare = g.bare) :
    Records S loc filePath (p.fill (.function f)) (p.fill (.function g))
        (pairsOf S (boundByC typedefs vs)) ↔
      AsInC typedefs S vs .unread := by
  obtain ⟨V, W, gives, differ⟩ := gives_function (S := S) loc filePath vs p same
  rw [records_iff gives differ, asInC_iff]

theorem same_pairs_iff (filePath' : String) (p p' : Place) (v v' : ApiVariable S) (comma comma' : Bool)
    (one : p.OneStruct S loc) (one' : p'.OneStruct S loc) (inFile : p.reading loc v = .inFile)
    (deferred : p'.reading loc v' = .deferred) :
    (∃ pairs,
        Records S loc filePath (p.fill (v.fill (some (bracesCst loc vs comma)))) (p.fill (v.fill none))
          pairs ∧
        Records S loc filePath' (p'.fill (v'.fill (some (bracesCst loc vs comma'))))
          (p'.fill (v'.fill none)) pairs) ↔
      NoGap S vs := by
  obtain ⟨V, W, gives, differ⟩ := gives_list loc filePath vs p v comma one
  obtain ⟨V', W', gives', differ'⟩ := gives_list loc filePath' vs p' v' comma' one'
  rw [inFile] at gives
  rw [deferred] at gives'
  have first := records_of_differ gives differ
  have second := records_of_differ gives' differ'
  rw [← noGap_iff]
  constructor
  · rintro ⟨pairs, recorded, recorded'⟩
    apply (binds_iff S.distinct).1
    intro field fnName
    exact (first.unique recorded field fnName).trans (recorded'.unique second field fnName)
  · intro same
    exact ⟨_, first, (records_iff gives' differ').2 same⟩

/-- Positional lists are bound as in C exactly as their reading says: one in the file, where
its struct is visited first, when the entries keep their places, otherwise when the
identifiers alone do, and one in a function, or whose type is not the first name, when it has
nothing to bind. The first two record the same pairs exactly when no identifier stands behind
a gap. -/
theorem positional_pairs_iff (typedefs : String → Option (List Derivation)) (S : ApiStruct)
    (vs : Positional) :
    (∀ loc filePath (p : Place) (v : ApiVariable S) comma, p.OneStruct S loc →
      (Records S loc filePath (p.fill (v.fill (some (bracesCst loc vs comma)))) (p.fill (v.fill none))
          (pairsOf S (boundByC typedefs vs)) ↔
        AsInC typedefs S vs (p.reading loc v))) ∧
    (∀ loc filePath (p : Place) (f g : FunctionDefinition), f.bare = g.bare →
      (Records S loc filePath (p.fill (.function f)) (p.fill (.function g))
          (pairsOf S (boundByC typedefs vs)) ↔
        AsInC typedefs S vs .unread)) ∧
    (∀ loc filePath filePath' (p p' : Place) (v v' : ApiVariable S) comma comma',
      p.OneStruct S loc → p'.OneStruct S loc →
      p.reading loc v = .inFile → p'.reading loc v' = .deferred →
      ((∃ pairs,
          Records S loc filePath (p.fill (v.fill (some (bracesCst loc vs comma)))) (p.fill (v.fill none))
            pairs ∧
          Records S loc filePath' (p'.fill (v'.fill (some (bracesCst loc vs comma'))))
            (p'.fill (v'.fill none)) pairs) ↔
        NoGap S vs)) := by
  refine ⟨fun loc filePath => records_list_iff loc filePath,
    fun loc filePath => records_function_iff loc filePath, ?_⟩
  intro loc filePath filePath' p p' v v' comma comma' one one' inFile deferred
  exact same_pairs_iff loc filePath filePath' p p' v v' comma comma' one one' inFile deferred

end Agreement

section Shifts

/-- `void (*name)(void)`. -/
def callback (name : Identifier) : StructDeclaration :=
  ⟨[.builtin "primitiveType" []], [(.nested [] (.name [[]] name []) [.function []], none)]⟩

/-- `int iVersion; void (*Write)(void); void (*Read)(void);`. -/
def versionedApi : ApiStruct where
  base := "PIPE"
  declarations := [⟨[.builtin "primitiveType" []], [(.name [] ⟨"iVersion", by decide⟩ [], none)]⟩,
    callback ⟨"Write", by decide⟩, callback ⟨"Read", by decide⟩]
  distinct := by decide

/-- `void (*Write)(void); void (*Read)(void);`. -/
def plainApi : ApiStruct where
  base := "PIPE"
  declarations := [callback ⟨"Write", by decide⟩, callback ⟨"Read", by decide⟩]
  distinct := by decide

/-- `{ 1, PipeWrite, PipeRead }`. -/
def versionedList : Positional :=
  [(.literal .integer "1", ⟨0, 0, 1⟩), (.identifier ⟨"PipeWrite", by decide⟩, ⟨3, 11, 1⟩),
    (.identifier ⟨"PipeRead", by decide⟩, ⟨14, 21, 1⟩)]

/-- `{ 0, PipeRead }`. -/
def partialList : Positional :=
  [(.literal .integer "0", ⟨0, 0, 1⟩), (.identifier ⟨"PipeRead", by decide⟩, ⟨3, 10, 1⟩)]

/-- `{ PipeWrite, PipeRead }`. -/
def plainList : Positional :=
  [(.identifier ⟨"PipeWrite", by decide⟩, ⟨0, 8, 1⟩), (.identifier ⟨"PipeRead", by decide⟩, ⟨11, 18, 1⟩)]

variable (S : ApiStruct) (loc : Location)

theorem apiType_ne_empty : S.apiType ≠ "" := by
  intro empty
  have ends := endsWith_append S.base "_API_T"
  rw [show S.base ++ "_API_T" = "" from empty] at ends
  revert ends
  decide

/-- A variable of the API type, `gtPipeApi`. -/
def pipeVariable : ApiVariable S where
  specifiers := [.typeName ⟨S.apiType, apiType_ne_empty S⟩]
  before := []
  declarator := .name [] ⟨"gtPipeApi", by decide⟩ []
  after := []
  plain := rfl
  single := by simp [Specifier.name]

/-- The declaration of the struct. -/
def header : External := .declaration ⟨[S.specifier loc], []⟩

/-- A file with the struct in front, one with the struct in an `extern "C"` block in front, and
one without it. -/
def withHeader : Place := ⟨[.plain (header S loc)], none, []⟩

def withBlock : Place := ⟨[.externC [header S loc]], none, []⟩

def withoutHeader : Place := ⟨[], none, []⟩

theorem bodies_header : (header S loc).bodies loc = [(S.tag, some (S.cst loc))] := rfl

theorem oneStruct_withHeader : (withHeader S loc).OneStruct S loc := by
  intro b member _
  have same : b = (S.tag, some (S.cst loc)) := by
    simpa [withHeader, Place.earlier, Item.top, bodies_header] using member
  exact ⟨loc, congrArg Prod.snd same⟩

theorem isTyped_pipeVariable : (pipeVariable S).isTyped = true :=
  decide_eq_true rfl

theorem reading_withHeader (some_kept : S.fields.isEmpty = false) :
    (withHeader S loc).reading loc (pipeVariable S) = .inFile := by
  have seen : (withHeader S loc).sees S loc = true := by
    unfold Place.sees
    simp [withHeader, Place.earlier, Item.top, bodies_header]
  unfold Place.reading
  rw [isTyped_pipeVariable, seen, some_kept]
  rfl

theorem oneStruct_withBlock : (withBlock S loc).OneStruct S loc := nofun

theorem reading_withBlock : (withBlock S loc).reading loc (pipeVariable S) = .deferred := by
  unfold Place.reading
  rw [isTyped_pipeVariable]
  rfl

theorem oneStruct_withoutHeader : withoutHeader.OneStruct S loc := nofun

theorem reading_withoutHeader : withoutHeader.reading loc (pipeVariable S) = .deferred := by
  unfold Place.reading
  rw [isTyped_pipeVariable]
  rfl

/-- A list in a file gives these pairs. -/
def ListRecords (vs : Positional) (p : Place) (pairs : String → String → Prop) : Prop :=
  Records S ⟨0, 0, 1⟩ "/w/pipe.c"
    (p.fill ((pipeVariable S).fill (some (bracesCst ⟨0, 0, 1⟩ vs false))))
    (p.fill ((pipeVariable S).fill none)) pairs

theorem members_plainApi {Q : Nat → Member → Prop}
    (write : ∀ m, plainApi.members[0]? = some m → Q 0 m)
    (read : ∀ m, plainApi.members[1]? = some m → Q 1 m) :
    ∀ i m, plainApi.members[i]? = some m → Q i m := by
  intro i m here
  match i with
  | 0 => exact write m here
  | 1 => exact read m here
  | i + 2 => cases here

/-- Two identifiers for two function pointers keep their places in either reading. -/
theorem plain_keepsPlaces (named : Nat → Option String) (first : named 0 = some "PipeWrite")
    (second : named 1 = some "PipeRead") : KeepsPlaces (fun _ => none) plainApi plainList named := by
  refine members_plainApi (fun m here => ?_) fun m here => ?_
  · obtain rfl := Option.some.inj here
    exact ⟨fun _ _ => first.symm, fun _ kept => absurd kept (by decide),
      fun pointer _ => absurd pointer (by decide)⟩
  · obtain rfl := Option.some.inj here
    exact ⟨fun _ _ => second.symm, fun _ kept => absurd kept (by decide),
      fun pointer _ => absurd pointer (by decide)⟩

theorem positional_pairs_iff_pipe :
    ListRecords plainApi plainList (withHeader plainApi ⟨0, 0, 1⟩)
        (pairsOf plainApi (boundByC (fun _ => none) plainList)) ∧
      ListRecords plainApi plainList (withBlock plainApi ⟨0, 0, 1⟩)
        (pairsOf plainApi (boundByC (fun _ => none) plainList)) ∧
      ¬Records plainApi ⟨0, 0, 1⟩ "/w/pipe.c"
        (withoutHeader.fill (.function ⟨[], .name [] ⟨"Run", by decide⟩ [], .nil⟩))
        (withoutHeader.fill (.function ⟨[], .name [] ⟨"Run", by decide⟩ [], .nil⟩))
        (pairsOf plainApi (boundByC (fun _ => none) plainList)) ∧
      ∃ pairs, ListRecords plainApi plainList (withHeader plainApi ⟨0, 0, 1⟩) pairs ∧
        ListRecords plainApi plainList withoutHeader pairs := by
  obtain ⟨list, function, both⟩ := positional_pairs_iff (fun _ => none) plainApi plainList
  refine ⟨(list _ _ _ _ _ (oneStruct_withHeader _ _)).2 ?_, (list _ _ _ _ _ (oneStruct_withBlock _ _)).2 ?_,
    fun recorded => ?_, (both _ _ _ _ _ _ _ _ _ (oneStruct_withHeader _ _) (oneStruct_withoutHeader _ _)
      (reading_withHeader _ _ rfl) (reading_withoutHeader _ _)).2 fun p q bound _ gap => ?_⟩
  · rw [reading_withHeader _ _ rfl]
    exact plain_keepsPlaces _ rfl rfl
  · rw [reading_withBlock]
    exact plain_keepsPlaces _ rfl rfl
  · have unbound := (function _ _ _ _ _ rfl).1 recorded 0 _ rfl rfl
    cases unbound
  · match p with
    | 0 => cases gap
    | 1 => cases gap
    | p + 2 => exact absurd bound (by simp [show plainApi.fields.length = 2 from rfl])

/-- A member that is no function pointer shifts the fields in the file of the struct, and an
entry that is no identifier shifts the functions from another file, and also in the file of
the struct when the struct stands in an `extern "C"` block. The two ways then differ. -/
theorem positional_shifts :
    ¬ListRecords versionedApi versionedList (withHeader versionedApi ⟨0, 0, 1⟩)
        (pairsOf versionedApi (boundByC (fun _ => none) versionedList)) ∧
      ¬ListRecords plainApi partialList withoutHeader
        (pairsOf plainApi (boundByC (fun _ => none) partialList)) ∧
      ¬ListRecords plainApi partialList (withBlock plainApi ⟨0, 0, 1⟩)
        (pairsOf plainApi (boundByC (fun _ => none) partialList)) ∧
      ¬∃ pairs, ListRecords versionedApi versionedList (withHeader versionedApi ⟨0, 0, 1⟩) pairs ∧
        ListRecords versionedApi versionedList withoutHeader pairs := by
  refine ⟨fun recorded => ?_, fun recorded => ?_, fun recorded => ?_, fun both => ?_⟩
  · have kept := (records_list_iff _ _ _ _ _ (oneStruct_withHeader _ _)).1 recorded
    rw [reading_withHeader _ _ rfl] at kept
    exact absurd ((kept 1 _ rfl).1 rfl rfl) (by decide)
  · have kept := (records_list_iff _ _ _ _ _ (oneStruct_withoutHeader _ _)).1 recorded
    rw [reading_withoutHeader] at kept
    exact absurd ((kept 0 _ rfl).1 rfl rfl) (by decide)
  · have kept := (records_list_iff _ _ _ _ _ (oneStruct_withBlock _ _)).1 recorded
    rw [reading_withBlock] at kept
    exact absurd ((kept 0 _ rfl).1 rfl rfl) (by decide)
  · have noGap := (same_pairs_iff _ _ _ _ _ _ _ _ _ (oneStruct_withHeader _ _)
      (oneStruct_withoutHeader _ _) (reading_withHeader _ _ rfl) (reading_withoutHeader _ _)).1 both
    exact absurd (noGap 0 1 (by decide) (by decide) rfl) (by decide)

end Shifts

end LibJuno.Parser
