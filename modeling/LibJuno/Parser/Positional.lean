import LibJuno.Indexer.WorkspaceIndexer
import LibJuno.Lib.Rank
import LibJuno.Parser.Initializers

/-!
# API structs and positional initialisers

`walkApiStructBody` of `parser/visitor.ts` keeps the members of an API struct that look like
function pointers, and a positional initialiser list is read against these fields: in the
file of the struct by `extractPositionalVtable`, which skips what is no identifier but counts
it, and from another file by `resolveDeferred`, which gets the identifiers alone. C binds an
entry to the member at its index, of all members. Which lists of a file are read in which way
is in `Parser/PositionalLists.lean`.
-/

namespace LibJuno.Parser

open LibJuno.Indexer

section Visitor

def endsWith (s suffix : String) : Bool := suffix.toList.isSuffixOf s.toList

/-- `tag.replace(/_API_TAG$/, "_API_T")`. -/
def apiTypeOfTag (tag : String) : String :=
  if endsWith tag "_API_TAG" then
    String.ofList (tag.toList.take (tag.toList.length - 8)) ++ "_API_T"
  else tag

def extractTypeFromSpecifierQualifierList (sqlNode : Cst) : String :=
  ((sqlNode.all "typeSpecifier").findSome? (Cst.image "Identifier")).getD ""

/-- The name of a member that has a parenthesised pointer around it. -/
def functionPointerField (directDecl : Cst) : Option String :=
  (directDecl.child "declarator").bind fun innerDecl =>
    (innerDecl.child "directDeclarator").bind fun innerDirect =>
      if (innerDecl.child "pointer").isSome then truthy (innerDirect.image "Identifier") else none

/-- A member of an API type is registered under its name. -/
def registerMember (sdEntry : Cst) (name : Option String) (registry : OrderedMap String String) :
    OrderedMap String String :=
  match truthy name, sdEntry.child "specifierQualifierList" with
  | some name, some specList =>
    let memberTypeName := extractTypeFromSpecifierQualifierList specList
    if endsWith memberTypeName "_API_T" then registry.set name memberTypeName else registry
  | _, _ => registry

/-- One declarator of a struct declaration: the fields so far and the registry. -/
def walkStructDeclarator (isApiTag : Bool) (sdEntry : Cst)
    (acc : List String × OrderedMap String String) (sd : Cst) :
    List String × OrderedMap String String :=
  match (sd.child "declarator").bind (Cst.child "directDeclarator") with
  | none => acc
  | some directDecl =>
    let name := directDecl.image "Identifier"
    let fields := if isApiTag then acc.1 ++ (functionPointerField directDecl).toList else acc.1
    let registry :=
      if (directDecl.child "declarator").isSome then acc.2 else registerMember sdEntry name acc.2
    (fields, registerMember sdEntry name registry)

def walkStructDeclaration (isApiTag : Bool) (acc : List String × OrderedMap String String)
    (sdEntry : Cst) : List String × OrderedMap String String :=
  match sdEntry.child "structDeclaratorList" with
  | none => acc
  | some sdList =>
    (sdList.all "structDeclarator").foldl (walkStructDeclarator isApiTag sdEntry) acc

def walkApiStructBody (tag : String) (sdlNode : Option Cst) (P : FileParse) : FileParse :=
  if tag = "" then P
  else
    let isApiTag := endsWith tag "_API_TAG"
    let declarations := (sdlNode.map (Cst.all "structDeclaration")).getD []
    let walked := declarations.foldl (walkStructDeclaration isApiTag) ([], P.apiMemberRegistry)
    let apiStructDefinitions :=
      if isApiTag && decide (walked.1.length > 0) then
        P.parsed.apiStructDefinitions ++ [⟨apiTypeOfTag tag, walked.1⟩]
      else P.parsed.apiStructDefinitions
    { P with
      parsed := { P.parsed with apiStructDefinitions }
      apiMemberRegistry := walked.2 }

end Visitor

section Structs

/-- A member declaration: its specifiers, and each declarator with the width of a bit-field. -/
structure StructDeclaration where
  specifiers : List Specifier
  declarators : List (Declarator × Option (List Cst))

structure Member where
  specifiers : List Specifier
  declarator : Declarator

def StructDeclaration.members (d : StructDeclaration) : List Member :=
  d.declarators.map fun x => ⟨d.specifiers, x.1⟩

/-- The declared name. -/
def Declarator.id : Declarator → Identifier
  | .name _ id _ => id
  | .nested _ inner _ => inner.id

/-- A step of the type that a declarator derives from the specified one. -/
inductive Derivation where
  | pointer
  | array
  | function
deriving DecidableEq

def Suffix.derivation : Suffix → Derivation
  | .array _ => .array
  | .function _ => .function
  | .oldStyle _ => .function

/-- The derived type from the name outwards: the suffixes bind before the stars. -/
def Declarator.derivations : Declarator → List Derivation
  | .name stars _ suffixes =>
    suffixes.map Suffix.derivation ++ stars.map fun _ => .pointer
  | .nested stars inner suffixes =>
    inner.derivations ++ suffixes.map Suffix.derivation ++ stars.map fun _ => .pointer

namespace Member

def name (m : Member) : String := m.declarator.id.image

/-- The member is a pointer to a function, where `typedefs` has the derivations behind the
names that are types. -/
def isFunctionPointer (typedefs : String → Option (List Derivation)) (m : Member) : Bool :=
  let named := (m.specifiers.filterMap Specifier.name).findSome? typedefs
  (m.declarator.derivations ++ named.getD []).take 2 = [.pointer, .function]

/-- What the visitor takes for a function pointer: a star before the name, in parentheses. -/
def isKept (m : Member) : Bool :=
  match m.declarator with
  | .nested _ (.name stars _ _) _ => !stars.isEmpty
  | _ => false

end Member

/-- The struct with tag `base ++ "_API_TAG"`; its members have distinct names. -/
structure ApiStruct where
  base : String
  declarations : List StructDeclaration
  distinct : ((declarations.flatMap StructDeclaration.members).map Member.name).Nodup

namespace ApiStruct

def tag (S : ApiStruct) : String := S.base ++ "_API_TAG"

def apiType (S : ApiStruct) : String := S.base ++ "_API_T"

def members (S : ApiStruct) : List Member := S.declarations.flatMap StructDeclaration.members

/-- The fields that the visitor records. -/
def fields (S : ApiStruct) : List String := (S.members.filter Member.isKept).map Member.name

end ApiStruct

variable (loc : Location)

/-- The `structDeclarator` rule. -/
def structDeclaratorCst (x : Declarator × Option (List Cst)) : Cst :=
  .node "structDeclarator" loc (x.1.cst loc ::
    match x.2 with
    | none => []
    | some width => [.leaf loc "Colon" ":", .node "constantExpression" loc width])

/-- Nodes of a rule with commas between them. -/
def commaSeparated : List Cst → List Cst
  | [] => []
  | c :: cs => c :: cs.flatMap fun c => [.leaf loc "Comma" ",", c]

/-- The `structDeclaration` rule. -/
def StructDeclaration.cst (d : StructDeclaration) : Cst :=
  .node "structDeclaration" loc [
    .node "specifierQualifierList" loc (d.specifiers.map (Specifier.cst loc)),
    .node "structDeclaratorList" loc (commaSeparated loc (d.declarators.map (structDeclaratorCst loc))),
    .leaf loc "Semicolon" ";"]

/-- The `structDeclarationList` rule. -/
def ApiStruct.cst (S : ApiStruct) : Cst :=
  .node "structDeclarationList" loc (S.declarations.map (StructDeclaration.cst loc))

end Structs

section Reading

variable (loc : Location)

theorem functionPointerField_cst (m : Member) :
    functionPointerField (.node "directDeclarator" loc (m.declarator.direct loc)) =
      if m.isKept then some m.name else none := by
  obtain ⟨specifiers, d⟩ := m
  unfold functionPointerField
  cases d with
  | name stars id suffixes =>
    rw [child_direct_name]
    rfl
  | nested stars inner suffixes =>
    rw [child_direct_nested, Option.bind_some, child_directDeclarator, Option.bind_some, child_pointer]
    cases inner with
    | name stars' id suffixes' =>
      rw [image_direct_name, truthy_image]
      rfl
    | nested stars' inner' suffixes' =>
      rw [image_direct_nested]
      exact ite_self _

theorem child_declarator_structDeclarator (x : Declarator × Option (List Cst)) :
    (structDeclaratorCst loc x).child "declarator" = some (x.1.cst loc) := by
  obtain ⟨d, width⟩ := x
  cases width <;> cases d <;> rfl

theorem all_commaSeparated {key name : String} (notComma : key ≠ "Comma") {cs : List Cst}
    (own : ∀ c ∈ cs, c.key = key) : (Cst.node name loc (commaSeparated loc cs)).all key = cs := by
  rw [Cst.all_node]
  cases cs with
  | nil => rfl
  | cons c cs =>
    have rest : ∀ cs : List Cst, (∀ c ∈ cs, c.key = key) →
        (cs.flatMap fun c => [Cst.leaf loc "Comma" ",", c]).filter (fun e => decide (e.key = key)) =
          cs := by
      intro cs own
      induction cs with
      | nil => rfl
      | cons c cs ih =>
        have here := own c List.mem_cons_self
        have others := ih fun e member => own e (List.mem_cons_of_mem _ member)
        simp [here, others, Ne.symm notComma]
    have here := own c List.mem_cons_self
    have others := rest cs fun e member => own e (List.mem_cons_of_mem _ member)
    simp [commaSeparated, here, others]

/-- A declaration adds its fields, in the struct of an API. -/
theorem walkStructDeclaration_fields (d : StructDeclaration)
    (acc : List String × OrderedMap String String) :
    (walkStructDeclaration true acc (d.cst loc)).1 =
      acc.1 ++ (d.members.filter Member.isKept).map Member.name := by
  have list : (d.cst loc).child "structDeclaratorList" = some (.node "structDeclaratorList" loc
      (commaSeparated loc (d.declarators.map (structDeclaratorCst loc)))) := rfl
  unfold walkStructDeclaration StructDeclaration.members
  rw [list]
  dsimp only
  rw [all_commaSeparated loc (by decide)]
  · generalize d.cst loc = sdEntry
    induction d.declarators generalizing acc with
    | nil => exact (List.append_nil _).symm
    | cons x declarators ih =>
      have field := functionPointerField_cst loc ⟨d.specifiers, x.1⟩
      rw [List.map_cons, List.foldl_cons, ih, List.map_cons, List.filter_cons]
      unfold walkStructDeclarator
      rw [child_declarator_structDeclarator, Option.bind_some, child_directDeclarator]
      dsimp only
      rw [field, if_pos rfl]
      split
      · rw [List.map_cons, Option.toList_some, List.append_assoc, List.singleton_append]
      · rw [Option.toList_none, List.append_nil]
  · intro c member
    obtain ⟨x, -, rfl⟩ := List.mem_map.1 member
    rfl

theorem endsWith_append (base suffix : String) : endsWith (base ++ suffix) suffix = true := by
  unfold endsWith
  rw [String.toList_append, List.isSuffixOf_iff_suffix]
  exact List.suffix_append _ _

theorem apiTypeOfTag_tag (S : ApiStruct) : apiTypeOfTag S.tag = S.apiType := by
  unfold apiTypeOfTag ApiStruct.tag ApiStruct.apiType
  rw [if_pos (endsWith_append _ _), String.toList_append]
  have cut : (S.base.toList ++ "_API_TAG".toList).take
      ((S.base.toList ++ "_API_TAG".toList).length - 8) = S.base.toList := by
    rw [List.length_append]
    exact List.take_left' (by simp)
  rw [cut, String.ofList_toList]

/-- Walking the body of an API struct records the fields, if there are any. -/
theorem walkApiStructBody_definitions (S : ApiStruct) (P : FileParse) :
    (walkApiStructBody S.tag (some (S.cst loc)) P).parsed =
      { P.parsed with
        apiStructDefinitions := P.parsed.apiStructDefinitions ++
          if S.fields.isEmpty then [] else [⟨S.apiType, S.fields⟩] } := by
  have tagged : S.tag ≠ "" := by
    intro empty
    have ends := endsWith_append S.base "_API_TAG"
    rw [show S.base ++ "_API_TAG" = "" from empty] at ends
    revert ends
    decide
  have declarations : (S.cst loc).all "structDeclaration" =
      S.declarations.map (StructDeclaration.cst loc) := by
    unfold ApiStruct.cst
    rw [Cst.all_node, List.filter_eq_self]
    intro c member
    obtain ⟨d, -, rfl⟩ := List.mem_map.1 member
    rfl
  have fields : ∀ (ds : List StructDeclaration) (acc : List String × OrderedMap String String),
      ((ds.map (StructDeclaration.cst loc)).foldl (walkStructDeclaration true) acc).1 =
        acc.1 ++ ((ds.flatMap StructDeclaration.members).filter Member.isKept).map Member.name := by
    intro ds
    induction ds with
    | nil => exact fun acc => (List.append_nil _).symm
    | cons d ds ih =>
      intro acc
      rw [List.map_cons, List.foldl_cons, ih, walkStructDeclaration_fields, List.flatMap_cons,
        List.filter_append, List.map_append, List.append_assoc]
  have recorded := fields S.declarations ([], P.apiMemberRegistry)
  rw [List.nil_append] at recorded
  unfold walkApiStructBody
  rw [if_neg tagged, show endsWith S.tag "_API_TAG" = true from endsWith_append _ _, Option.map_some,
    Option.getD_some, declarations]
  dsimp only
  rw [Bool.true_and, recorded, apiTypeOfTag_tag]
  have same : ((S.declarations.flatMap StructDeclaration.members).filter Member.isKept).map Member.name =
      S.fields := rfl
  rw [same]
  cases S.fields with
  | nil => simp
  | cons f fields => simp

end Reading

section Binding

/-- The entries of a positional list, with their places. -/
abbrev Positional := List (Value × Location)

/-- The tree of the list. -/
def positionalCst (loc : Location) (vs : Positional) : Cst :=
  Entry.listCst loc (vs.map fun v => ⟨none, v.1, v.2⟩)

/-- The identifier that stands at an index. -/
def identAt (vs : Positional) (i : Nat) : Option String := vs[i]?.bind fun v => v.1.ident

/-- The identifiers of the list. -/
def idents (vs : Positional) : List String := vs.filterMap fun v => v.1.ident

variable (typedefs : String → Option (List Derivation)) (S : ApiStruct) (vs : Positional)

/-- The function that C binds to a member: the one named at its index. -/
def boundByC (i : Nat) (m : Member) : Option String :=
  if m.isFunctionPointer typedefs then identAt vs i else none

/-- The function recorded in the file of the struct: the one named at the rank of the member
among those kept. -/
def boundInFile (i : Nat) (m : Member) : Option String :=
  if m.isKept then identAt vs (rank Member.isKept S.members i) else none

/-- The function recorded from another file: at that rank among the identifiers. -/
def boundDeferred (i : Nat) (m : Member) : Option String :=
  if m.isKept then (idents vs)[rank Member.isKept S.members i]? else none

/-- The pairs of a field and a function that a binding gives. -/
def pairsOf (bound : Nat → Member → Option String) (field fnName : String) : Prop :=
  Binds Member.name S.members bound field fnName

/-- The index has an implementation of a field by a function. -/
def Listed (index : NavigationIndex) (apiType field fnName : String) : Prop :=
  ∃ l ∈ implementations index.vtableAssignments apiType field, l.functionName = fnName

end Binding

section Recording

variable {S : ApiStruct} {vs : Positional}

theorem walkInitializerList_positional (apiType : String) (loc : Location) (varName : Option String)
    (parsed : ParsedFile) :
    walkInitializerList apiType (positionalCst loc vs) varName parsed =
      extractPositionalVtable apiType (vs.map fun v => v.1.cst v.2) varName parsed := by
  unfold walkInitializerList positionalCst
  dsimp only
  have plain : (vs.map fun v => (⟨none, v.1, v.2⟩ : Entry)).filterMap Entry.designationCst = [] :=
    List.filterMap_eq_nil_iff.2 fun e member => by
      obtain ⟨v, -, rfl⟩ := List.mem_map.1 member
      rfl
  rw [all_designation, all_initializer, plain, if_neg (by decide), List.map_map]
  rfl

/-- The entries that meet a field, when a positional list is read against fields. -/
theorem zip_records_iff {fields : List String}
    (record : String → String → Location → VtableAssignmentRecord)
    (shows : ∀ f g l, (record f g l).field = f ∧ (record f g l).functionName = g)
    (field fnName : String) :
    (∃ r ∈ ((vs.map fun v => v.1.cst v.2).zip fields).filterMap (fun x =>
        (truthy (extractInitializerIdent x.1)).map fun g => record x.2 g x.1.location),
      r.field = field ∧ r.functionName = fnName) ↔
      (field, some fnName) ∈ fields.zip (vs.map fun v => v.1.ident) := by
  constructor
  · rintro ⟨r, member, rfl, rfl⟩
    obtain ⟨⟨c, f⟩, met, recorded⟩ := List.mem_filterMap.1 member
    obtain ⟨g, named, rfl⟩ := Option.map_eq_some_iff.1 recorded
    obtain ⟨k, here⟩ := List.mem_iff_getElem?.1 met
    obtain ⟨entry, bound⟩ := List.getElem?_zip_eq_some.1 here
    rw [List.getElem?_map, Option.map_eq_some_iff] at entry
    obtain ⟨v, found, rfl⟩ := entry
    rw [extractInitializerIdent_cst] at named
    rw [(shows _ _ _).1, (shows _ _ _).2, List.mem_iff_getElem?]
    refine ⟨k, List.getElem?_zip_eq_some.2 ⟨bound, ?_⟩⟩
    rw [List.getElem?_map, found, ← named]
    rfl
  · intro member
    obtain ⟨k, here⟩ := List.mem_iff_getElem?.1 member
    obtain ⟨bound, entry⟩ := List.getElem?_zip_eq_some.1 here
    rw [List.getElem?_map, Option.map_eq_some_iff] at entry
    obtain ⟨v, found, named⟩ := entry
    refine ⟨record field fnName (v.1.cst v.2).location, ?_, shows _ _ _⟩
    refine List.mem_filterMap.2 ⟨(v.1.cst v.2, field), ?_, ?_⟩
    · refine List.mem_iff_getElem?.2 ⟨k, List.getElem?_zip_eq_some.2 ⟨?_, bound⟩⟩
      rw [List.getElem?_map, found]
      rfl
    · rw [extractInitializerIdent_cst, named]
      rfl

/-- What is deferred of a list: the identifiers and their lines. -/
def pendingOf (S : ApiStruct) (vs : Positional) (filePath : String) (varName : Option String) :
    List PendingPositionalVtable :=
  if (idents vs).isEmpty then []
  else
    [⟨S.apiType, idents vs, filePath,
      vs.filterMap fun v => v.1.ident.map fun _ => v.2.startLine, varName⟩]

theorem location_cst (v : Value) (loc : Location) : (v.cst loc).location = loc := by
  cases v <;> rfl

/-- Without the struct the identifiers are deferred. -/
theorem extractPositionalVtable_missing {parsed : ParsedFile} (varName : Option String)
    (missing : parsed.apiStructDefinitions.find? (fun r => decide (r.apiType = S.apiType)) = none) :
    extractPositionalVtable S.apiType (vs.map fun v => v.1.cst v.2) varName parsed =
      { parsed with pendingPositionalVtables :=
          parsed.pendingPositionalVtables ++ pendingOf S vs parsed.filePath varName } := by
  have named : (vs.map fun v => v.1.cst v.2).filterMap (fun init =>
      (truthy (extractInitializerIdent init)).map fun fnName => (fnName, init.location.startLine)) =
      vs.filterMap fun v => v.1.ident.map fun fnName => (fnName, v.2.startLine) := by
    rw [List.filterMap_map]
    congr 1
    funext v
    rw [Function.comp_apply, extractInitializerIdent_cst, location_cst]
  have names : (vs.filterMap fun v => v.1.ident.map fun fnName => (fnName, v.2.startLine)).map Prod.fst =
      idents vs := by
    unfold idents
    rw [List.map_filterMap]
    congr 1
    funext v
    cases v.1.ident <;> rfl
  have lines : (vs.filterMap fun v => v.1.ident.map fun fnName => (fnName, v.2.startLine)).map Prod.snd =
      vs.filterMap fun v => v.1.ident.map fun _ => v.2.startLine := by
    rw [List.map_filterMap]
    congr 1
    funext v
    cases v.1.ident <;> rfl
  unfold extractPositionalVtable pendingOf
  rw [missing]
  dsimp only
  rw [named, names, lines, ← names, List.isEmpty_map]
  split
  · rw [List.append_nil]
  · rfl

/-- With the struct the entries are read against its fields. -/
theorem extractPositionalVtable_found {parsed : ParsedFile} {apiRec : ApiStructRecord}
    (apiType : String) (initializers : List Cst) (varName : Option String)
    (found : parsed.apiStructDefinitions.find? (fun r => decide (r.apiType = apiType)) = some apiRec) :
    extractPositionalVtable apiType initializers varName parsed =
      listVtables ((initializers.zip apiRec.fields).filterMap fun x =>
        (truthy (extractInitializerIdent x.1)).map fun fnName =>
          ⟨apiType, x.2, fnName, parsed.filePath, x.1.location.startLine, varName⟩) parsed := by
  unfold extractPositionalVtable
  rw [found]

/-- Reading the fields against the entries is reading them at their ranks. -/
theorem mem_zip_fields_iff (field fnName : String) :
    (field, some fnName) ∈ S.fields.zip (vs.map fun v => v.1.ident) ↔
      pairsOf S (boundInFile S vs) field fnName := by
  unfold ApiStruct.fields
  rw [mem_zip_filter_iff]
  have at_rank : ∀ i m, (if m.isKept then
      (vs.map fun v => v.1.ident)[rank Member.isKept S.members i]? else none) = some (some fnName) ↔
        boundInFile S vs i m = some fnName := by
    intro i m
    unfold boundInFile identAt
    split
    · rw [List.getElem?_map, Option.map_eq_some_iff, Option.bind_eq_some_iff]
    · simp
  unfold pairsOf Binds
  simp only [at_rank]

/-- Placing a location lists its function under the field; a site that is there already has
the same function. -/
theorem listed_place (index : NavigationIndex) (apiType : String) (x : String × ConcreteLocation)
    (a field fnName : String) :
    Listed (index.place apiType x) a field fnName ↔
      Listed index a field fnName ∨ (a = apiType ∧ field = x.1 ∧ fnName = x.2.functionName) := by
  unfold NavigationIndex.place
  split
  · next present =>
    obtain ⟨e, listed, same⟩ := List.any_eq_true.1 present
    have named : e.functionName = x.2.functionName := (of_decide_eq_true same).1
    constructor
    · exact .inl
    · rintro (before | ⟨rfl, rfl, rfl⟩)
      · exact before
      · exact ⟨e, listed, named⟩
  · unfold Listed
    dsimp only
    rw [implementations_pushImplementation]
    split
    · next here =>
      constructor
      · rintro ⟨l, listed, rfl⟩
        rcases List.mem_append.1 listed with before | new
        · exact .inl ⟨l, before, rfl⟩
        · rw [List.mem_singleton.1 new]
          exact .inr ⟨here.1, here.2, rfl⟩
      · rintro (⟨l, before, rfl⟩ | ⟨-, -, rfl⟩)
        · exact ⟨l, List.mem_append_left _ before, rfl⟩
        · exact ⟨x.2, List.mem_append_right _ List.mem_cons_self, rfl⟩
    · next elsewhere =>
      constructor
      · exact .inl
      · rintro (before | ⟨same, field_same, -⟩)
        · exact before
        · exact absurd ⟨same, field_same⟩ elsewhere

theorem listed_foldl_place (apiType : String) (xs : List (String × ConcreteLocation))
    (index : NavigationIndex) (a field fnName : String) :
    Listed (xs.foldl (NavigationIndex.place apiType) index) a field fnName ↔
      Listed index a field fnName ∨
        (a = apiType ∧ ∃ x ∈ xs, field = x.1 ∧ fnName = x.2.functionName) := by
  induction xs generalizing index with
  | nil => simp
  | cons x xs ih =>
    rw [List.foldl_cons, ih, listed_place]
    simp only [List.mem_cons, exists_eq_or_imp]
    tauto

/-- The fields of a placement and their functions, as far as both lists go. -/
theorem mem_placements_iff (indexDefs : String → List FunctionDefinitionRecord) (fields : List String)
    (d : DeferredPositional) (field fnName : String) :
    (∃ x ∈ placements indexDefs fields d, field = x.1 ∧ fnName = x.2.functionName) ↔
      (field, fnName) ∈ fields.zip d.initializers := by
  unfold placements
  rw [List.mem_iff_getElem?]
  constructor
  · rintro ⟨x, member, rfl, rfl⟩
    obtain ⟨⟨⟨f, g⟩, i⟩, inside, rfl⟩ := List.mem_map.1 member
    obtain ⟨named, bound⟩ := List.getElem?_zip_eq_some.1 (List.mk_mem_zipIdx_iff_getElem?.1 inside)
    exact ⟨i, List.getElem?_zip_eq_some.2 ⟨bound, named⟩⟩
  · rintro ⟨i, here⟩
    obtain ⟨bound, named⟩ := List.getElem?_zip_eq_some.1 here
    have inside : ((fnName, field), i) ∈ (d.initializers.zip fields).zipIdx :=
      List.mk_mem_zipIdx_iff_getElem?.2 (List.getElem?_zip_eq_some.2 ⟨named, bound⟩)
    exact ⟨_, List.mem_map.2 ⟨_, inside, rfl⟩, rfl, rfl⟩

/-- A missing field map that is created empty lists nothing. -/
theorem listed_prepared (index : NavigationIndex) (apiType a field fnName : String) :
    Listed { index with vtableAssignments :=
        index.vtableAssignments.set apiType ((index.vtableAssignments.get apiType).getD .empty) }
      a field fnName ↔ Listed index a field fnName := by
  unfold Listed implementations
  dsimp only
  rw [OrderedMap.get_set]
  by_cases here : a = apiType
  · subst here
    rw [if_pos rfl, Option.getD_some]
  · rw [if_neg here]

end Recording

end LibJuno.Parser
