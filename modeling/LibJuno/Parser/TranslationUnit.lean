import LibJuno.Parser.Statements

/-!
# Translation units

The walk of a whole file in `parser/visitor.ts`. The externals of the file itself are walked
before those of its `extern "C"` blocks, wherever the blocks stand, so that the order of the
visit is not that of the text. `Place` is a file with a hole for one external.
-/

namespace LibJuno.Parser

open LibJuno.Indexer

section Visitor

/-- The list of a declarator, if it has one. -/
def walkInitDeclarator (apiType : String) (P : FileParse) (entry : Cst) : FileParse :=
  match (entry.child "initializer").bind (Cst.child "initializerList") with
  | none => P
  | some ilitNode =>
    let varName := (entry.child "declarator").map fun d => (extractDeclaratorInfo d).name
    { P with parsed := walkInitializerList apiType ilitNode varName P.parsed }

def walkVtableDeclaration (apiType : String) (node : Cst) (P : FileParse) : FileParse :=
  match node.child "initDeclaratorList" with
  | none => P
  | some idl => (idl.all "initDeclarator").foldl (walkInitDeclarator apiType) P

/-- `tagToType`. -/
def tagToType (tag : String) : String :=
  if endsWith tag "_TAG" then String.ofList (tag.toList.take (tag.toList.length - 4)) ++ "_T" else tag

/-- `/^[a-zA-Z_][a-zA-Z0-9_]*$/`. -/
def isMemberName (image : String) : Bool :=
  match image.toList with
  | [] => false
  | c :: cs => (c.isAlpha || c = '_') && cs.all fun c => c.isAlphanum || c = '_'

/-- The loop of `walkMacroBodyForApiMembers` over the tokens; the last one is not tried. -/
def scanApiMembers : List Token → OrderedMap String String → OrderedMap String String
  | [], registry => registry
  | [_], registry => registry
  | t :: u :: rest, registry =>
    let ahead := if u.image = "*" then rest.head? else some u
    scanApiMembers (u :: rest)
      (if endsWith t.image "_API_T" then
        match ahead with
        | some member =>
          if isMemberName member.image then registry.set member.image t.image else registry
        | none => registry
      else registry)

def Cst.token? : Cst → Option Token
  | .token t => some t
  | .node _ _ _ => none

def walkMacroBodyForApiMembers (macroRuleNode : Cst) (P : FileParse) : FileParse :=
  match macroRuleNode.child "macroBodyTokens" with
  | none => P
  | some bodyNode =>
    let allToks := (bodyNode.children.filterMap Cst.token?).mergeSort fun a b =>
      decide (a.location.startOffset ≤ b.location.startOffset)
    { P with apiMemberRegistry := scanApiMembers allToks P.apiMemberRegistry }

/-- A macro that records a type under the tag, and then the API members of its body. -/
def recordMacro (m : Cst) (name : Option String) (record : String → ParsedFile → ParsedFile)
    (P : FileParse) : FileParse :=
  match truthy name with
  | none => P
  | some type => walkMacroBodyForApiMembers m { P with parsed := record type P.parsed }

def pushModuleRoot (tag apiType : String) (parsed : ParsedFile) : ParsedFile :=
  { parsed with moduleRoots := parsed.moduleRoots ++ [⟨tagToType tag, apiType⟩] }

def pushTraitRoot (tag apiType : String) (parsed : ParsedFile) : ParsedFile :=
  { parsed with traitRoots := parsed.traitRoots ++ [⟨tagToType tag, apiType⟩] }

def pushDerivation (tag rootType : String) (parsed : ParsedFile) : ParsedFile :=
  { parsed with derivations := parsed.derivations ++ [⟨tagToType tag, rootType⟩] }

/-- The four macros that record something are tried in this order. -/
def dispatchMacro (macroCst : Cst) (tag : String) (P : FileParse) : FileParse :=
  match macroCst.child "junoModuleRootMacro", macroCst.child "junoModuleDeriveMacro",
      macroCst.child "junoTraitRootMacro", macroCst.child "junoTraitDeriveMacro" with
  | some m, _, _, _ =>
    recordMacro m ((m.image "Identifier").or (m.image "Void")) (pushModuleRoot tag) P
  | none, some m, _, _ => recordMacro m (m.image "Identifier") (pushDerivation tag) P
  | none, none, some m, _ => recordMacro m (m.image "Identifier") (pushTraitRoot tag) P
  | none, none, none, some m => recordMacro m (m.image "Identifier") (pushDerivation tag) P
  | none, none, none, none => P

def walkStructOrUnionSpecifier (P : FileParse) (node : Cst) : FileParse :=
  if node.hasToken "LBrace" then
    walkApiStructBody ((node.image "Identifier").getD "") (node.child "structDeclarationList") P
  else
    match node.image "Identifier", node.child "junoMacroInvocation" with
    | some tag, some macroCst => dispatchMacro macroCst tag P
    | _, _ => P

/-- `walkDeclaration`, outside of a function. -/
def walkFileDeclaration (P : FileParse) (node : Cst) : FileParse :=
  match node.child "declarationSpecifiers" with
  | none => P
  | some declSpec =>
    let typeName := (extractTypeName declSpec).typeName
    let listed := if endsWith typeName "_API_T" then walkVtableDeclaration typeName node P else P
    ((declSpec.all "typeSpecifier").filterMap (Cst.child "structOrUnionSpecifier")).foldl
      walkStructOrUnionSpecifier listed

def walkExternalDeclaration (filePath : String) (P : FileParse) (node : Cst) : FileParse :=
  match node.child "functionDefinition", node.child "declaration" with
  | some function, _ => walkFunctionDefinition filePath P function
  | none, some declaration => walkFileDeclaration P declaration
  | none, none => P

def walkExternCBlock (filePath : String) (P : FileParse) (node : Cst) : FileParse :=
  (node.all "externalDeclaration").foldl (walkExternalDeclaration filePath) P

/-- Directives are walked between the two kinds of items, and give nothing. -/
def walkTranslationUnit (filePath : String) (node : Cst) : FileParse :=
  (node.all "externCBlock").foldl (walkExternCBlock filePath)
    ((node.all "externalDeclaration").foldl (walkExternalDeclaration filePath)
      ⟨ParsedFile.blank filePath, [], .empty⟩)

end Visitor

section Trees

/-- What may stand in a file or in an `extern "C"` block. A macro that stands alone is
arbitrary inside. -/
inductive External where
  | directive (image : String)
  | function (f : FunctionDefinition)
  | declaration (d : LocalDeclaration)
  | standalone (children : List Cst)

inductive Item where
  | plain (x : External)
  | externC (xs : List External)

variable (loc : Location)

/-- The `externalDeclaration` and `preprocessorDirective` rules. -/
def External.cst : External → Cst
  | .directive image => .node "preprocessorDirective" loc [.leaf loc "HashDirective" image]
  | .function f => .node "externalDeclaration" loc [f.cst loc]
  | .declaration d => .node "externalDeclaration" loc [d.cst loc]
  | .standalone children =>
    .node "externalDeclaration" loc [.node "junoStandaloneDeclaration" loc children]

/-- An item of a file, with the `externCBlock` rule. -/
def Item.cst : Item → Cst
  | .plain x => x.cst loc
  | .externC xs =>
    .node "externCBlock" loc ([.leaf loc "Extern" "extern", .leaf loc "StringLiteral" "\"C\"",
      .leaf loc "LBrace" "\x7b"] ++ xs.map (External.cst loc) ++ [.leaf loc "RBrace" "\x7d"])

/-- The `translationUnit` rule. -/
def unitCst (items : List Item) : Cst := .node "translationUnit" loc (items.map (Item.cst loc))

end Trees

section Order

def Item.top : Item → List External
  | .plain x => [x]
  | .externC _ => []

def Item.block : Item → List External
  | .plain _ => []
  | .externC xs => xs

/-- The externals of a file in the order of the visit. -/
def visited (items : List Item) : List External :=
  items.flatMap Item.top ++ items.flatMap Item.block

/-- A file with a hole for an external: the items around it, and the externals around it in
its block when it stands in one. -/
structure Place where
  before : List Item
  block : Option (List External × List External)
  after : List Item

namespace Place

variable (p : Place)

def fill (x : External) : List Item :=
  p.before ++ (match p.block with
    | none => .plain x
    | some b => .externC (b.1 ++ x :: b.2)) :: p.after

/-- The externals that are visited before the hole. -/
def earlier : List External :=
  match p.block with
  | none => p.before.flatMap Item.top
  | some b => p.before.flatMap Item.top ++ p.after.flatMap Item.top ++
      p.before.flatMap Item.block ++ b.1

def later : List External :=
  match p.block with
  | none => p.after.flatMap Item.top ++ p.before.flatMap Item.block ++ p.after.flatMap Item.block
  | some b => b.2 ++ p.after.flatMap Item.block

theorem visited_fill (x : External) : visited (p.fill x) = p.earlier ++ x :: p.later := by
  unfold visited fill earlier later
  cases p.block with
  | none => simp [Item.top, Item.block]
  | some b => simp [Item.top, Item.block]

end Place

end Order

section Reading

variable (loc : Location) {filePath : String} {P : FileParse}

/-- The visit of an external. -/
def walkExternal (filePath : String) (P : FileParse) : External → FileParse
  | .directive _ => P
  | .function f => walkFunctionDefinition filePath P (f.cst loc)
  | .declaration d => walkFileDeclaration P (d.cst loc)
  | .standalone _ => P

theorem walkExternalDeclaration_cst (x : External) :
    ((if (x.cst loc).key = "externalDeclaration" then [x.cst loc] else []).foldl
      (walkExternalDeclaration filePath) P) = walkExternal loc filePath P x := by
  cases x with
  | directive image => rfl
  | function f => rfl
  | declaration d => rfl
  | standalone children => rfl

theorem foldl_externalDeclaration (xs : List External) (P : FileParse) :
    ((xs.map (External.cst loc)).filter fun c => decide (c.key = "externalDeclaration")).foldl
        (walkExternalDeclaration filePath) P = xs.foldl (walkExternal loc filePath) P := by
  induction xs generalizing P with
  | nil => rfl
  | cons x xs ih =>
    rw [List.map_cons, List.filter_cons, List.foldl_cons, ← ih, ← walkExternalDeclaration_cst]
    by_cases own : (x.cst loc).key = "externalDeclaration" <;> simp [own]

theorem key_external (x : External) : (x.cst loc).key ≠ "externCBlock" := by
  cases x <;> simp [External.cst]

theorem walkExternCBlock_cst (xs : List External) (P : FileParse) :
    walkExternCBlock filePath P ((Item.externC xs).cst loc) = xs.foldl (walkExternal loc filePath) P := by
  rw [← foldl_externalDeclaration]
  unfold walkExternCBlock Item.cst
  rw [Cst.all_node, List.filter_append, List.filter_append, List.filter_cons_of_neg (by simp)]
  simp

/-- The walk of a file visits its externals in the order of the visit. -/
theorem walkTranslationUnit_cst (items : List Item) :
    walkTranslationUnit filePath (unitCst loc items) =
      (visited items).foldl (walkExternal loc filePath) ⟨ParsedFile.blank filePath, [], .empty⟩ := by
  have tops : ∀ items : List Item,
      (items.map (Item.cst loc)).filter (fun c => decide (c.key = "externalDeclaration")) =
        ((items.flatMap Item.top).map (External.cst loc)).filter fun c =>
          decide (c.key = "externalDeclaration") := by
    intro items
    induction items with
    | nil => rfl
    | cons i items ih =>
      rw [List.map_cons, List.flatMap_cons, List.map_append, List.filter_append, ← ih, List.filter_cons]
      cases i with
      | plain x => by_cases own : (x.cst loc).key = "externalDeclaration" <;>
          simp [Item.cst, Item.top, own]
      | externC xs => rfl
  have blocks : ∀ (items : List Item) (P : FileParse),
      ((items.map (Item.cst loc)).filter fun c => decide (c.key = "externCBlock")).foldl
          (walkExternCBlock filePath) P =
        (items.flatMap Item.block).foldl (walkExternal loc filePath) P := by
    intro items
    induction items with
    | nil => exact fun P => rfl
    | cons i items ih =>
      intro P
      rw [List.map_cons, List.flatMap_cons, List.foldl_append, ← ih, List.filter_cons]
      cases i with
      | plain x => simp [Item.cst, Item.block, key_external]
      | externC xs =>
        rw [if_pos (by simp [Item.cst]), List.foldl_cons, walkExternCBlock_cst]
        rfl
  unfold walkTranslationUnit visited unitCst
  rw [Cst.all_node, Cst.all_node, blocks, tops, foldl_externalDeclaration, List.foldl_append]

/-- The struct or union that a specifier is. -/
def Specifier.structNode : Specifier → Option Cst
  | .storageClass _ _ => none
  | .qualifier _ _ => none
  | .typeName _ => none
  | .builtin rule children =>
    if rule = "structOrUnionSpecifier" then some (.node rule loc children) else none

/-- A declaration with its lists, and then with its structs. -/
theorem walkFileDeclaration_cst (d : LocalDeclaration) :
    walkFileDeclaration P (d.cst loc) =
      (d.specifiers.filterMap (Specifier.structNode loc)).foldl walkStructOrUnionSpecifier
        (if endsWith (specifiedType d.specifiers) "_API_T" then
          (d.declarators.map (initDeclaratorCst loc)).foldl
            (walkInitDeclarator (specifiedType d.specifiers)) P
        else P) := by
  have lists : ∀ apiType, walkVtableDeclaration apiType (d.cst loc) P =
      (d.declarators.map (initDeclaratorCst loc)).foldl (walkInitDeclarator apiType) P := by
    intro apiType
    unfold walkVtableDeclaration
    rw [child_initDeclaratorList, initDeclaratorListCst]
    split
    · next empty =>
      cases none : d.declarators.isEmpty with
      | true => rw [List.isEmpty_iff.1 none]; rfl
      | false => rw [none] at empty; cases empty
    · next idl found =>
      cases none : d.declarators.isEmpty with
      | true => rw [none] at found; cases found
      | false =>
        rw [none] at found
        rw [← Option.some.inj found, all_commaSeparated loc (by decide)]
        intro c member
        obtain ⟨x, -, rfl⟩ := List.mem_map.1 member
        rfl
  have structs : ((declarationSpecifiersCst loc d.specifiers).all "typeSpecifier").filterMap
      (Cst.child "structOrUnionSpecifier") = d.specifiers.filterMap (Specifier.structNode loc) := by
    unfold declarationSpecifiersCst
    rw [Cst.all_node]
    induction d.specifiers with
    | nil => rfl
    | cons s specifiers ih =>
      rw [List.map_cons]
      cases s with
      | storageClass tokenType image => exact ih
      | qualifier tokenType image => exact ih
      | typeName id => exact ih
      | builtin rule children =>
        rw [Specifier.cst, List.filter_cons_of_pos rfl, List.filterMap_cons, List.filterMap_cons, ih,
          Specifier.structNode]
        by_cases struct : rule = "structOrUnionSpecifier"
        · simp [Cst.child, struct]
        · simp [Cst.child, struct]
  unfold walkFileDeclaration
  rw [child_declarationSpecifiers]
  dsimp only
  rw [typeName_cst, structs, lists]

end Reading

section Frames

/-- The file with earlier records of vtables and earlier lists left to the indexer. -/
def prepend (V : List VtableAssignmentRecord) (W : List PendingPositionalVtable) (P : FileParse) :
    FileParse :=
  { P with parsed := { P.parsed with
      vtableAssignments := V ++ P.parsed.vtableAssignments
      pendingPositionalVtables := W ++ P.parsed.pendingPositionalVtables } }

/-- A visit that only appends to these records, whatever they are. -/
def Appends (visit : FileParse → FileParse) : Prop :=
  ∀ V W P, visit (prepend V W P) = prepend V W (visit P)

/-- A visit that leaves the API structs as they are. -/
def KeepsStructs (visit : FileParse → FileParse) : Prop :=
  ∀ P, (visit P).parsed.apiStructDefinitions = P.parsed.apiStructDefinitions

variable {α : Type*} {step : FileParse → α → FileParse}

theorem Appends.foldl (each : ∀ x, Appends fun P => step P x) (xs : List α) :
    Appends (xs.foldl step) := by
  intro V W P
  induction xs generalizing P with
  | nil => rfl
  | cons x xs ih => exact (congrArg (xs.foldl step) (each x V W P)).trans (ih (step P x))

theorem KeepsStructs.foldl (each : ∀ x, KeepsStructs fun P => step P x) (xs : List α) :
    KeepsStructs (xs.foldl step) := by
  intro P
  induction xs generalizing P with
  | nil => rfl
  | cons x xs ih => exact (ih (step P x)).trans (each x P)

variable (fn filePath : String)

theorem appends_walkLocalDeclaration (d : Declaration) :
    Appends fun P => walkLocalDeclaration fn P d := by
  intro V W P
  unfold walkLocalDeclaration
  dsimp only
  split <;> rfl

theorem keepsStructs_walkLocalDeclaration (d : Declaration) :
    KeepsStructs fun P => walkLocalDeclaration fn P d := by
  intro P
  unfold walkLocalDeclaration
  dsimp only
  split <;> rfl

theorem appends_walkAssignment (a : Assignment) : Appends fun P => walkAssignment fn filePath P a := by
  intro V W P
  have types : (prepend V W P).parsed.localTypeInfo = P.parsed.localTypeInfo := rfl
  unfold walkAssignment
  cases a.functionName with
  | none => rfl
  | some functionName =>
    dsimp only
    split
    · rfl
    · rw [types]
      cases directVtable fn filePath functionName a P.parsed.localTypeInfo with
      | none => rfl
      | some r => simp [prepend]

theorem keepsStructs_walkAssignment (a : Assignment) :
    KeepsStructs fun P => walkAssignment fn filePath P a := by
  intro P
  unfold walkAssignment
  dsimp only
  split
  · rfl
  · split
    · rfl
    · split <;> rfl

mutual

theorem appends_walkStatement (s : Indexer.Statement) :
    Appends fun P => Indexer.walkStatement fn filePath P s := by
  intro V W P
  match s with
  | .compound declarations statements =>
    have declared := Appends.foldl (appends_walkLocalDeclaration fn) declarations V W P
    exact (congrArg (fun Q => Indexer.walkStatements fn filePath Q statements) declared).trans
      (appends_walkStatements statements V W _)
  | .assignment a => exact appends_walkAssignment fn filePath a V W P
  | .control statements => exact appends_walkStatements statements V W P
  | .labeled statement => rfl
  | .other => rfl

theorem appends_walkStatements (ss : List Indexer.Statement) :
    Appends fun P => Indexer.walkStatements fn filePath P ss := by
  intro V W P
  match ss with
  | [] => rfl
  | s :: rest =>
    have first := appends_walkStatement s V W P
    exact (congrArg (fun Q => Indexer.walkStatements fn filePath Q rest) first).trans
      (appends_walkStatements rest V W _)

end

mutual

theorem keepsStructs_walkStatement (s : Indexer.Statement) :
    KeepsStructs fun P => Indexer.walkStatement fn filePath P s := by
  intro P
  match s with
  | .compound declarations statements =>
    exact (keepsStructs_walkStatements statements _).trans
      (KeepsStructs.foldl (keepsStructs_walkLocalDeclaration fn) declarations P)
  | .assignment a => exact keepsStructs_walkAssignment fn filePath a P
  | .control statements => exact keepsStructs_walkStatements statements P
  | .labeled statement => rfl
  | .other => rfl

theorem keepsStructs_walkStatements (ss : List Indexer.Statement) :
    KeepsStructs fun P => Indexer.walkStatements fn filePath P ss := by
  intro P
  match ss with
  | [] => rfl
  | s :: rest => exact (keepsStructs_walkStatements rest _).trans (keepsStructs_walkStatement s P)

end

variable (loc : Location)

/-- What a function gives a file, on its tree. -/
theorem walkFunctionDefinition_cst (f : FunctionDefinition) (P : FileParse) :
    walkFunctionDefinition filePath P (f.cst loc) =
      if f.declarator.info.name = "" then P
      else
        Indexer.walkStatement f.declarator.info.name filePath
          (Indexer.walkFunctionDefinition filePath P ⟨f.declarator.info.name, loc.startLine,
            (extractTypeName (declarationSpecifiersCst loc f.specifiers)).isStatic,
            extractParameters (f.cst loc), .other⟩)
          ((Statement.compound f.body).skeleton loc) := by
  cases shape : f.declarator with
  | nested stars inner suffixes => rw [walkFunctionDefinition_nested loc shape]; rfl
  | name stars id suffixes =>
    rw [walkFunctionDefinition_name loc shape, walkStatement_cst]
    exact (if_neg id.nonempty).symm

theorem appends_walkFunctionDefinition (f : FunctionDefinition) :
    Appends fun P => walkFunctionDefinition filePath P (f.cst loc) := by
  intro V W P
  dsimp only
  rw [walkFunctionDefinition_cst, walkFunctionDefinition_cst]
  by_cases unnamed : f.declarator.info.name = ""
  · rw [if_pos unnamed, if_pos unnamed]
  · rw [if_neg unnamed, if_neg unnamed, ← appends_walkStatement]
    unfold Indexer.walkFunctionDefinition
    rw [if_neg unnamed, if_neg unnamed]
    rfl

theorem keepsStructs_walkFunctionDefinition (f : FunctionDefinition) :
    KeepsStructs fun P => walkFunctionDefinition filePath P (f.cst loc) := by
  intro P
  dsimp only
  rw [walkFunctionDefinition_cst]
  by_cases unnamed : f.declarator.info.name = ""
  · rw [if_pos unnamed]
  · rw [if_neg unnamed, keepsStructs_walkStatement]
    unfold Indexer.walkFunctionDefinition
    rw [if_neg unnamed]
    rfl

end Frames

section Declarations

theorem appends_walkInitDeclarator (apiType : String) (entry : Cst) :
    Appends fun P => walkInitDeclarator apiType P entry := by
  intro V W P
  have same : (prepend V W P).parsed.apiStructDefinitions = P.parsed.apiStructDefinitions := rfl
  unfold walkInitDeclarator
  cases (entry.child "initializer").bind (Cst.child "initializerList") with
  | none => rfl
  | some ilitNode =>
    dsimp only
    unfold walkInitializerList
    dsimp only
    split
    · simp [extractDesignatedVtable, listVtables, prepend]
    · unfold extractPositionalVtable
      rw [same]
      split
      · dsimp only
        split
        · rfl
        · simp [prepend]
      · simp [listVtables, prepend]

theorem keepsStructs_walkInitDeclarator (apiType : String) (entry : Cst) :
    KeepsStructs fun P => walkInitDeclarator apiType P entry := by
  intro P
  unfold walkInitDeclarator
  dsimp only
  split
  · rfl
  · unfold walkInitializerList
    dsimp only
    split
    · rfl
    · unfold extractPositionalVtable
      split
      · dsimp only
        split <;> rfl
      · rfl

theorem appends_walkMacroBodyForApiMembers (m : Cst) : Appends (walkMacroBodyForApiMembers m) := by
  intro V W P
  unfold walkMacroBodyForApiMembers
  split <;> rfl

theorem appends_recordMacro (m : Cst) (name : Option String)
    {record : String → ParsedFile → ParsedFile}
    (apart : ∀ type, Appends fun P => { P with parsed := record type P.parsed }) :
    Appends (recordMacro m name record) := by
  intro V W P
  unfold recordMacro
  split
  · rfl
  · next type named =>
    exact (congrArg (walkMacroBodyForApiMembers m) (apart type V W P)).trans
      (appends_walkMacroBodyForApiMembers m V W _)

theorem appends_dispatchMacro (macroCst : Cst) (tag : String) : Appends (dispatchMacro macroCst tag) := by
  intro V W P
  unfold dispatchMacro
  split
  · exact appends_recordMacro _ _ (fun _ _ _ _ => rfl) V W P
  · exact appends_recordMacro _ _ (fun _ _ _ _ => rfl) V W P
  · exact appends_recordMacro _ _ (fun _ _ _ _ => rfl) V W P
  · exact appends_recordMacro _ _ (fun _ _ _ _ => rfl) V W P
  · rfl

theorem keepsStructs_recordMacro (m : Cst) (name : Option String)
    (record : String → ParsedFile → ParsedFile)
    (apart : ∀ type parsed, (record type parsed).apiStructDefinitions = parsed.apiStructDefinitions) :
    KeepsStructs (recordMacro m name record) := by
  intro P
  unfold recordMacro
  split
  · rfl
  · next type named =>
    unfold walkMacroBodyForApiMembers
    split <;> exact apart type P.parsed

theorem keepsStructs_dispatchMacro (macroCst : Cst) (tag : String) :
    KeepsStructs (dispatchMacro macroCst tag) := by
  intro P
  unfold dispatchMacro
  split
  · exact keepsStructs_recordMacro _ _ (pushModuleRoot tag) (fun _ _ => rfl) P
  · exact keepsStructs_recordMacro _ _ (pushDerivation tag) (fun _ _ => rfl) P
  · exact keepsStructs_recordMacro _ _ (pushTraitRoot tag) (fun _ _ => rfl) P
  · exact keepsStructs_recordMacro _ _ (pushDerivation tag) (fun _ _ => rfl) P
  · rfl

theorem appends_walkStructOrUnionSpecifier (node : Cst) :
    Appends fun P => walkStructOrUnionSpecifier P node := by
  intro V W P
  unfold walkStructOrUnionSpecifier
  dsimp only
  split
  · unfold walkApiStructBody
    split <;> rfl
  · split
    · exact appends_dispatchMacro _ _ V W P
    · rfl

variable (loc : Location) (filePath : String)

theorem appends_walkFileDeclaration (d : LocalDeclaration) :
    Appends fun P => walkFileDeclaration P (d.cst loc) := by
  intro V W P
  dsimp only
  rw [walkFileDeclaration_cst, walkFileDeclaration_cst, ← Appends.foldl appends_walkStructOrUnionSpecifier]
  split
  · rw [← Appends.foldl (appends_walkInitDeclarator _)]
  · rfl

theorem appends_walkExternal (x : External) : Appends fun P => walkExternal loc filePath P x := by
  cases x with
  | directive image => exact fun V W P => rfl
  | function f => exact appends_walkFunctionDefinition filePath loc f
  | declaration d => exact appends_walkFileDeclaration loc d
  | standalone children => exact fun V W P => rfl

end Declarations

section Initialisers

variable (loc : Location)

theorem walkFunctionDefinition_bare (filePath : String) (f : FunctionDefinition) (P : FileParse) :
    walkFunctionDefinition filePath P (f.bare.cst loc) =
      walkFunctionDefinition filePath P (f.cst loc) := by
  have body := skeleton_bare loc (.compound f.body)
  rw [walkFunctionDefinition_cst, walkFunctionDefinition_cst, extractParameters_bare, ← body]
  rfl

end Initialisers

end LibJuno.Parser
