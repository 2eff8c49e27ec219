import LibJuno.Indexer.Visitor
import LibJuno.Parser.Positional

/-!
# Function bodies

The statement rules of `parser/parser.ts` and the walk of `parser/visitor.ts` over the trees
they build. A block keeps its declarations apart from its statements, so the walk of a block
takes all the declarations first. What a declaration or an assignment leaves in the result is
in `Indexer/Visitor.lean`; a statement has there only what the walk uses of its tree.
-/

namespace LibJuno.Parser

open LibJuno.Indexer

section Visitor

/-- What `extractTypeName` returns; the name is empty when there is none. -/
structure SpecifierInfo where
  typeName : String
  isConst : Bool
  isStatic : Bool
deriving DecidableEq

def extractTypeName (declSpecNode : Cst) : SpecifierInfo where
  typeName := ((declSpecNode.all "typeSpecifier").findSome? (Cst.image "Identifier")).getD ""
  isConst := (declSpecNode.all "typeQualifier").any (Cst.hasToken "Const")
  isStatic := (declSpecNode.all "storageClassSpecifier").any (Cst.hasToken "Static")

def DeclaratorInfo.declarator (info : DeclaratorInfo) : Indexer.Declarator :=
  ⟨info.name, info.isPointer, info.isArray⟩

/-- `walkDeclaration`, inside a function. -/
def walkDeclaration (fn : String) (P : FileParse) (node : Cst) : FileParse :=
  match node.child "declarationSpecifiers" with
  | none => P
  | some declSpec =>
    let initDeclarators := ((node.child "initDeclaratorList").map (Cst.all "initDeclarator")).getD []
    let declarators := initDeclarators.filterMap fun entry =>
      (entry.child "declarator").map fun d => (extractDeclaratorInfo d).declarator
    walkLocalDeclaration fn P
      ⟨(extractTypeName declSpec).typeName, (extractTypeName declSpec).isConst, declarators⟩

/-- One `memberIdentifier` of a postfix expression. -/
def memberOf (node : Cst) : Indexer.Member :=
  if node.hasToken "JunoFailureHandler" then .failureHandler
  else if node.hasToken "JunoFailureUserData" then .failureUserData
  else
    match truthy (node.image "Identifier") with
    | some name => .identifier name
    | none => .moduleSuper

/-- The assignment that an expression statement is, if it is one. -/
def assignmentOf (node : Cst) : Option Assignment :=
  (node.child "expression").bind fun exprNode =>
    (exprNode.child "assignmentExpression").bind fun ae =>
      (ae.child "assignmentOperator").bind fun operator =>
        (ae.child "conditionalExpression").bind fun _ =>
          (ae.child "assignmentExpression").bind fun rhsAE =>
            (drillToPostfix ae).map fun lhsPostfix =>
              { primary := truthy (getPostfixPrimary lhsPostfix)
                members := (lhsPostfix.all "memberIdentifier").map memberOf
                functionName := truthy ((drillToPostfix rhsAE).bind getPostfixPrimary)
                line := operator.location.startLine }

/-- Calls are not recorded here: the list of call sites is not part of the index. -/
def walkExpressionStatement (fn filePath : String) (P : FileParse) (node : Cst) : FileParse :=
  match assignmentOf node with
  | none => P
  | some a => walkAssignment fn filePath P a

/-- The alternatives of a statement that are walked, in the order in which they are tried. -/
def walkedAlternatives : List String :=
  ["compoundStatement", "expressionStatement", "selectionStatement", "iterationStatement"]

def alternative (children : List Cst) : Option String :=
  walkedAlternatives.find? fun rule => children.any fun c => decide (c.key = rule)

mutual

def walkStatement (fn filePath : String) (P : FileParse) : Cst → FileParse
  | .token _ => P
  | .node _ _ children =>
    match alternative children with
    | none => P
    | some rule => walkAlternative fn filePath rule P children

/-- The first child under the key of the alternative. -/
def walkAlternative (fn filePath rule : String) (P : FileParse) : List Cst → FileParse
  | [] => P
  | c :: cs =>
    if c.key = rule then
      if rule = "compoundStatement" then walkCompoundStatement fn filePath P c
      else if rule = "expressionStatement" then walkExpressionStatement fn filePath P c
      else walkSubstatements fn filePath P c
    else walkAlternative fn filePath rule P cs

def walkCompoundStatement (fn filePath : String) (P : FileParse) : Cst → FileParse
  | .token _ => P
  | .node _ _ children =>
    walkStatements fn filePath
      ((children.filter fun c => decide (c.key = "declaration")).foldl (walkDeclaration fn) P) children

/-- `walkSelectionStatement` and `walkIterationStatement`. -/
def walkSubstatements (fn filePath : String) (P : FileParse) : Cst → FileParse
  | .token _ => P
  | .node _ _ children => walkStatements fn filePath P children

/-- The children under `statement`. -/
def walkStatements (fn filePath : String) (P : FileParse) : List Cst → FileParse
  | [] => P
  | c :: cs =>
    walkStatements fn filePath (if c.key = "statement" then walkStatement fn filePath P c else P) cs

end

/-- `extractTypeInfoFromParamDecl`, up to the test for a type name. -/
def parameterDeclaration (pdNode : Cst) : Option ParameterDeclaration :=
  (pdNode.child "declarationSpecifiers").map fun declSpec =>
    { typeName := (extractTypeName declSpec).typeName
      isConst := (extractTypeName declSpec).isConst
      declarator := (pdNode.child "declarator").map fun d => (extractDeclaratorInfo d).declarator
      abstractPointer := ((pdNode.child "abstractDeclarator").map (Cst.hasToken "pointer")).getD false }

def extractParameters (fnDefNode : Cst) : List ParameterDeclaration :=
  let list := (((fnDefNode.child "declarator").bind (Cst.child "directDeclarator")).bind
    (Cst.child "parameterTypeList")).bind (Cst.child "parameterList")
  ((list.map (Cst.all "parameterDeclaration")).getD []).filterMap parameterDeclaration

/-- A function whose name is in parentheses is left out altogether. -/
def walkFunctionDefinition (filePath : String) (P : FileParse) (node : Cst) : FileParse :=
  match node.child "declarationSpecifiers", node.child "declarator" with
  | some declSpec, some declarator =>
    match ((declarator.child "directDeclarator").bind (Cst.tok "Identifier")) with
    | none => P
    | some name =>
      if name.image = "" then P
      else
        let entered := Indexer.walkFunctionDefinition filePath P
          ⟨name.image, name.location.startLine, (extractTypeName declSpec).isStatic,
            extractParameters node, .other⟩
        match node.child "compoundStatement" with
        | none => entered
        | some body => walkCompoundStatement name.image filePath entered body
  | _, _ => P

end Visitor

section Trees

/-- A declaration in a function, with the children of the initialisers inside. -/
structure LocalDeclaration where
  specifiers : List Specifier
  declarators : List (Declarator × Option (List Cst))

/-- The names under which a statement keeps an alternative of its own. -/
def Token.isTerminal (t : Token) : Prop := t.tokenType ∉ walkedAlternatives

mutual

/-- The statements; expressions, and what is inside a labeled statement, are arbitrary. A call
of a macro with a keyword argument is kept as its tokens. -/
inductive Statement where
  | compound (body : Block)
  | expression (e : Option (List Cst))
  | ifThen (condition : List Cst) (consequent : Statement)
  | ifElse (condition : List Cst) (consequent alternate : Statement)
  | switch (selector : List Cst) (body : Statement)
  | while (condition : List Cst) (body : Statement)
  | doWhile (body : Statement) (condition : List Cst)
  | forDeclaration (d : LocalDeclaration) (condition : Option (List Cst)) (step : Option (List Cst))
      (body : Statement)
  | forExpression (init condition : Option (List Cst)) (step : Option (List Cst)) (body : Statement)
  | jump (children : List Cst)
  | labeled (children : List Cst)
  | macroCall (tokens : List (Subtype Token.isTerminal))

/-- The declarations and statements between the braces of a block. -/
inductive Block where
  | nil
  | declaration (d : LocalDeclaration) (rest : Block)
  | statement (s : Statement) (rest : Block)

end

/-- A function definition. -/
structure FunctionDefinition where
  specifiers : List Specifier
  declarator : Declarator
  body : Block

variable (loc : Location)

/-- The `initDeclarator` rule. -/
def initDeclaratorCst (x : Declarator × Option (List Cst)) : Cst :=
  .node "initDeclarator" loc (x.1.cst loc ::
    (x.2.map fun init => [.leaf loc "Assign" "=", .node "initializer" loc init]).getD [])

def declarationSpecifiersCst (specifiers : List Specifier) : Cst :=
  .node "declarationSpecifiers" loc (specifiers.map (Specifier.cst loc))

/-- The `initDeclaratorList` rule, when there is a declarator. -/
def initDeclaratorListCst (xs : List (Declarator × Option (List Cst))) : Option Cst :=
  if xs.isEmpty then none
  else some (.node "initDeclaratorList" loc (commaSeparated loc (xs.map (initDeclaratorCst loc))))

/-- The `declaration` rule. -/
def LocalDeclaration.cst (d : LocalDeclaration) : Cst :=
  .node "declaration" loc (declarationSpecifiersCst loc d.specifiers ::
    (initDeclaratorListCst loc d.declarators).toList ++ [.leaf loc "Semicolon" ";"])

/-- The `expression` rule. -/
def exprCst (e : List Cst) : Cst := .node "expression" loc e

/-- The `expressionStatement` rule. -/
def expressionStatementCst (e : Option (List Cst)) : Cst :=
  .node "expressionStatement" loc ((e.map (exprCst loc)).toList ++ [.leaf loc "Semicolon" ";"])

/-- An expression in parentheses behind a keyword. -/
def headCst (tokenType image : String) (e : List Cst) : List Cst :=
  [.leaf loc tokenType image, .leaf loc "LParen" "(", exprCst loc e, .leaf loc "RParen" ")"]

/-- The `compoundStatement` rule around the items of a block. -/
def compoundStatementCst (items : List Cst) : Cst :=
  .node "compoundStatement" loc (.leaf loc "LBrace" "\x7b" :: items ++ [.leaf loc "RBrace" "\x7d"])

/-- A `for` statement around its initialiser and its body. -/
def forCst (init : Cst) (condition step : Option (List Cst)) (body : Cst) : Cst :=
  .node "iterationStatement" loc ([.leaf loc "For" "for", .leaf loc "LParen" "(", init,
    expressionStatementCst loc condition] ++ (step.map (exprCst loc)).toList ++
    [.leaf loc "RParen" ")", body])

mutual

/-- The `statement` rule. -/
def Statement.cst : Statement → Cst
  | .compound body => .node "statement" loc [compoundStatementCst loc body.items]
  | .expression e => .node "statement" loc [expressionStatementCst loc e]
  | .ifThen condition consequent =>
    .node "statement" loc [.node "selectionStatement" loc
      (headCst loc "If" "if" condition ++ [consequent.cst])]
  | .ifElse condition consequent alternate =>
    .node "statement" loc [.node "selectionStatement" loc
      (headCst loc "If" "if" condition ++
        [consequent.cst, .leaf loc "Else" "else", alternate.cst])]
  | .switch selector body =>
    .node "statement" loc [.node "selectionStatement" loc
      (headCst loc "Switch" "switch" selector ++ [body.cst])]
  | .while condition body =>
    .node "statement" loc [.node "iterationStatement" loc
      (headCst loc "While" "while" condition ++ [body.cst])]
  | .doWhile body condition =>
    .node "statement" loc [.node "iterationStatement" loc
      (.leaf loc "Do" "do" :: body.cst :: headCst loc "While" "while" condition ++
        [.leaf loc "Semicolon" ";"])]
  | .forDeclaration d condition step body =>
    .node "statement" loc [forCst loc (d.cst loc) condition step body.cst]
  | .forExpression init condition step body =>
    .node "statement" loc [forCst loc (expressionStatementCst loc init) condition step body.cst]
  | .jump children => .node "statement" loc [.node "jumpStatement" loc children]
  | .labeled children => .node "statement" loc [.node "labeledStatement" loc children]
  | .macroCall tokens => .node "statement" loc (tokens.map fun t => .token t.1)

def Block.items : Block → List Cst
  | .nil => []
  | .declaration d rest => d.cst loc :: rest.items
  | .statement s rest => s.cst :: rest.items

end

/-- The `functionDefinition` rule. -/
def FunctionDefinition.cst (f : FunctionDefinition) : Cst :=
  .node "functionDefinition" loc [declarationSpecifiersCst loc f.specifiers, f.declarator.cst loc,
    compoundStatementCst loc (f.body.items loc)]

end Trees

section Reading

variable (loc : Location)

/-- One of the qualifiers is `const`. -/
def Specifier.isConst : Specifier → Bool
  | .storageClass _ _ => false
  | .qualifier tokenType _ => decide (tokenType = "Const")
  | .typeName _ => false
  | .builtin _ _ => false

/-- What the visitor reads of a declaration. -/
def LocalDeclaration.declaration (d : LocalDeclaration) : Declaration where
  typeName := specifiedType d.specifiers
  isConst := d.specifiers.any Specifier.isConst
  declarators := d.declarators.map fun x => x.1.info.declarator

/-- The declarations directly in a block. -/
def Block.declarations : Block → List LocalDeclaration
  | .nil => []
  | .declaration d rest => d :: rest.declarations
  | .statement _ rest => rest.declarations

mutual

/-- The statement as `Indexer/Visitor.lean` has it. -/
def Statement.skeleton : Statement → Indexer.Statement
  | .compound body => .compound (body.declarations.map LocalDeclaration.declaration) body.skeletons
  | .expression e =>
    match assignmentOf (expressionStatementCst loc e) with
    | none => .other
    | some a => .assignment a
  | .ifThen _ consequent => .control [consequent.skeleton]
  | .ifElse _ consequent alternate => .control [consequent.skeleton, alternate.skeleton]
  | .switch _ body => .control [body.skeleton]
  | .while _ body => .control [body.skeleton]
  | .doWhile body _ => .control [body.skeleton]
  | .forDeclaration _ _ _ body => .control [body.skeleton]
  | .forExpression _ _ _ body => .control [body.skeleton]
  | .jump _ => .other
  | .labeled _ => .other
  | .macroCall _ => .other

def Block.skeletons : Block → List Indexer.Statement
  | .nil => []
  | .declaration _ rest => rest.skeletons
  | .statement s rest => s.skeleton :: rest.skeletons

end

theorem isConst_cst (specifiers : List Specifier) :
    (extractTypeName (declarationSpecifiersCst loc specifiers)).isConst =
      specifiers.any Specifier.isConst := by
  unfold extractTypeName declarationSpecifiersCst
  dsimp only
  rw [Cst.all_node]
  induction specifiers with
  | nil => rfl
  | cons s specifiers ih =>
    rw [List.map_cons, List.any_cons, ← ih]
    cases s with
    | storageClass tokenType image => rfl
    | qualifier tokenType image =>
      rw [Specifier.cst, List.filter_cons_of_pos rfl, List.any_cons]
      congr 1
      unfold Cst.hasToken Specifier.isConst
      by_cases const : tokenType = "Const" <;> simp [const]
    | typeName id => rfl
    | builtin rule children => rfl

theorem typeName_cst (specifiers : List Specifier) :
    (extractTypeName (declarationSpecifiersCst loc specifiers)).typeName = specifiedType specifiers :=
  specifiedType_cst loc specifiers

theorem child_declarationSpecifiers (d : LocalDeclaration) :
    (d.cst loc).child "declarationSpecifiers" = some (declarationSpecifiersCst loc d.specifiers) := rfl

theorem child_initDeclaratorList (d : LocalDeclaration) :
    (d.cst loc).child "initDeclaratorList" = initDeclaratorListCst loc d.declarators := by
  unfold LocalDeclaration.cst initDeclaratorListCst
  cases d.declarators with
  | nil => rfl
  | cons x xs => rfl

theorem child_declarator_initDeclarator (x : Declarator × Option (List Cst)) :
    (initDeclaratorCst loc x).child "declarator" = some (x.1.cst loc) := by
  unfold initDeclaratorCst Cst.child
  rw [Cst.all_node, List.filter_cons_of_pos (by rw [key_declarator]; rfl)]
  cases x.1 <;> rfl

/-- The declarators that the visitor reads off a declaration. -/
theorem declarators_cst (d : LocalDeclaration) :
    ((((d.cst loc).child "initDeclaratorList").map (Cst.all "initDeclarator")).getD []).filterMap
        (fun entry => (entry.child "declarator").map fun d => (extractDeclaratorInfo d).declarator) =
      d.declarators.map fun x => x.1.info.declarator := by
  rw [child_initDeclaratorList, initDeclaratorListCst]
  split
  · next empty => rw [List.isEmpty_iff.1 empty]; rfl
  · rw [Option.map_some, Option.getD_some, all_commaSeparated loc (by decide)]
    · induction d.declarators with
      | nil => rfl
      | cons x xs ih =>
        rw [List.map_cons, List.filterMap_cons, child_declarator_initDeclarator, Option.map_some,
          extractDeclaratorInfo_cst, ih]
        rfl
    · intro c member
      obtain ⟨x, -, rfl⟩ := List.mem_map.1 member
      rfl

variable {fn filePath : String} {P : FileParse}

theorem walkDeclaration_cst (d : LocalDeclaration) :
    walkDeclaration fn P (d.cst loc) = walkLocalDeclaration fn P d.declaration := by
  unfold walkDeclaration
  rw [child_declarationSpecifiers]
  dsimp only
  rw [declarators_cst, isConst_cst, typeName_cst]
  rfl

theorem key_statement (s : Statement) : (s.cst loc).key = "statement" := by
  cases s <;> rw [Statement.cst] <;> rfl

theorem declaration_ne_statement (d : LocalDeclaration) : (d.cst loc).key ≠ "statement" := by
  rw [LocalDeclaration.cst, Cst.key_node]
  decide

theorem expressionStatement_ne_statement (e : Option (List Cst)) :
    (expressionStatementCst loc e).key ≠ "statement" := by
  rw [expressionStatementCst, Cst.key_node]
  decide

theorem walkStatement_compound (children : List Cst) :
    walkStatement fn filePath P (.node "statement" loc [.node "compoundStatement" loc children]) =
      walkStatements fn filePath
        ((children.filter fun c => decide (c.key = "declaration")).foldl (walkDeclaration fn) P)
        children := rfl

theorem walkStatement_expression (children : List Cst) :
    walkStatement fn filePath P (.node "statement" loc [.node "expressionStatement" loc children]) =
      walkExpressionStatement fn filePath P (.node "expressionStatement" loc children) := rfl

theorem walkStatement_selection (children : List Cst) :
    walkStatement fn filePath P (.node "statement" loc [.node "selectionStatement" loc children]) =
      walkStatements fn filePath P children := rfl

theorem walkStatement_iteration (children : List Cst) :
    walkStatement fn filePath P (.node "statement" loc [.node "iterationStatement" loc children]) =
      walkStatements fn filePath P children := rfl

theorem walkStatements_append (cs ds : List Cst) : walkStatements fn filePath P (cs ++ ds) =
    walkStatements fn filePath (walkStatements fn filePath P cs) ds := by
  induction cs generalizing P with
  | nil => rw [walkStatements]; rfl
  | cons c cs ih => rw [List.cons_append, walkStatements, walkStatements, ih]

theorem walkStatements_statement (s : Statement) (cs : List Cst) :
    walkStatements fn filePath P (s.cst loc :: cs) =
      walkStatements fn filePath (walkStatement fn filePath P (s.cst loc)) cs := by
  rw [walkStatements, if_pos (key_statement loc s)]

theorem walkStatements_other {c : Cst} (other : c.key ≠ "statement") (cs : List Cst) :
    walkStatements fn filePath P (c :: cs) = walkStatements fn filePath P cs := by
  rw [walkStatements, if_neg other]

theorem walkStatements_leaf (tokenType image : String) (keyword : tokenType ≠ "statement")
    (cs : List Cst) : walkStatements fn filePath P (.leaf loc tokenType image :: cs) =
      walkStatements fn filePath P cs :=
  walkStatements_other (c := .leaf loc tokenType image) keyword cs

theorem walkStatements_head (tokenType image : String) (keyword : tokenType ≠ "statement")
    (e cs : List Cst) : walkStatements fn filePath P (headCst loc tokenType image e ++ cs) =
      walkStatements fn filePath P cs :=
  (walkStatements_leaf loc tokenType image keyword _).trans rfl

/-- Of a `for` statement only the body is walked. -/
theorem walkStatement_for {init : Cst} (other : init.key ≠ "statement")
    (condition step : Option (List Cst)) (body : Statement) :
    walkStatement fn filePath P
        (.node "statement" loc [forCst loc init condition step (body.cst loc)]) =
      walkStatement fn filePath P (body.cst loc) := by
  rw [forCst, walkStatement_iteration, walkStatements_append, walkStatements_append]
  have head : walkStatements fn filePath P [.leaf loc "For" "for", .leaf loc "LParen" "(", init,
      expressionStatementCst loc condition] = P := by
    rw [walkStatements_leaf loc "For" "for" (by decide),
      walkStatements_leaf loc "LParen" "(" (by decide), walkStatements_other other]
    rfl
  have second : walkStatements fn filePath P (step.map (exprCst loc)).toList = P := by
    cases step <;> rfl
  rw [head, second, walkStatements_leaf loc "RParen" ")" (by decide), walkStatements_statement]
  rfl

theorem declarations_items (b : Block) :
    (b.items loc).filter (fun c => decide (c.key = "declaration")) =
      b.declarations.map (LocalDeclaration.cst loc) := by
  match b with
  | .nil => rfl
  | .declaration d rest =>
    rw [Block.items, List.filter_cons_of_pos rfl, declarations_items rest]
    rfl
  | .statement s rest =>
    rw [Block.items, List.filter_cons_of_neg (by rw [key_statement]; decide), declarations_items rest]
    rfl

mutual

/-- On the tree of a statement the visitor does what it does on the skeleton. -/
theorem walkStatement_cst (P : FileParse) (s : Statement) :
    walkStatement fn filePath P (s.cst loc) =
      Indexer.walkStatement fn filePath P (s.skeleton loc) := by
  match s with
  | .compound body =>
    have declared : ∀ (ds : List LocalDeclaration) (P : FileParse),
        (ds.map (LocalDeclaration.cst loc)).foldl (walkDeclaration fn) P =
          (ds.map LocalDeclaration.declaration).foldl (walkLocalDeclaration fn) P := by
      intro ds P
      rw [List.foldl_map, List.foldl_map]
      simp only [walkDeclaration_cst]
    rw [Statement.cst, Statement.skeleton, compoundStatementCst, walkStatement_compound,
      Indexer.walkStatement, List.cons_append, walkStatements_leaf loc "LBrace" "\x7b" (by decide),
      walkStatements_append, List.filter_cons_of_neg (by exact Bool.false_ne_true),
      List.filter_append, declarations_items, List.filter_cons_of_neg (by exact Bool.false_ne_true),
      List.filter_nil, List.append_nil, declared, walkItems_cst]
    rfl
  | .expression e =>
    rw [Statement.cst, Statement.skeleton, expressionStatementCst, walkStatement_expression]
    unfold walkExpressionStatement
    cases assignmentOf _ <;> rfl
  | .ifThen condition consequent =>
    rw [Statement.cst, walkStatement_selection, walkStatements_head loc "If" "if" (by decide),
      walkStatements_statement, walkStatement_cst P consequent]
    rfl
  | .ifElse condition consequent alternate =>
    rw [Statement.cst, walkStatement_selection, walkStatements_head loc "If" "if" (by decide),
      walkStatements_statement, walkStatements_leaf loc "Else" "else" (by decide),
      walkStatements_statement, walkStatement_cst P consequent, walkStatement_cst _ alternate]
    rfl
  | .switch selector body =>
    rw [Statement.cst, walkStatement_selection, walkStatements_head loc "Switch" "switch" (by decide),
      walkStatements_statement, walkStatement_cst P body]
    rfl
  | .while condition body =>
    rw [Statement.cst, walkStatement_iteration, walkStatements_head loc "While" "while" (by decide),
      walkStatements_statement, walkStatement_cst P body]
    rfl
  | .doWhile body condition =>
    rw [Statement.cst, walkStatement_iteration, List.cons_append, List.cons_append,
      walkStatements_leaf loc "Do" "do" (by decide), walkStatements_statement,
      walkStatements_head loc "While" "while" (by decide), walkStatement_cst P body]
    rfl
  | .forDeclaration d condition step body =>
    rw [Statement.cst, walkStatement_for loc (declaration_ne_statement loc d), walkStatement_cst P body]
    rfl
  | .forExpression init condition step body =>
    rw [Statement.cst, walkStatement_for loc (expressionStatement_ne_statement loc init),
      walkStatement_cst P body]
    rfl
  | .jump children => rfl
  | .labeled children => rfl
  | .macroCall tokens =>
    have quiet : alternative (tokens.map fun t => .token t.1) = none := by
      rw [alternative, List.find?_eq_none]
      intro rule walked found
      obtain ⟨c, member, same⟩ := List.any_eq_true.1 found
      obtain ⟨t, -, rfl⟩ := List.mem_map.1 member
      rw [← of_decide_eq_true same] at walked
      exact t.2 walked
    rw [Statement.cst, walkStatement, quiet]
    rfl

theorem walkItems_cst (P : FileParse) (b : Block) :
    walkStatements fn filePath P (b.items loc) =
      Indexer.walkStatements fn filePath P (b.skeletons loc) := by
  match b with
  | .nil => rfl
  | .declaration d rest =>
    rw [Block.items, walkStatements_other (declaration_ne_statement loc d), walkItems_cst P rest]
    rfl
  | .statement s rest =>
    rw [Block.items, walkStatements_statement, walkStatement_cst P s, walkItems_cst _ rest]
    rfl

end

theorem child_declarator_function (f : FunctionDefinition) :
    (f.cst loc).child "declarator" = some (f.declarator.cst loc) := by
  unfold FunctionDefinition.cst Cst.child
  rw [Cst.all_node, List.filter_cons_of_neg (by exact Bool.false_ne_true),
    List.filter_cons_of_pos (by rw [key_declarator]; rfl)]
  cases f.declarator <;> rfl

theorem child_compoundStatement (f : FunctionDefinition) :
    (f.cst loc).child "compoundStatement" = some (compoundStatementCst loc (f.body.items loc)) := by
  unfold FunctionDefinition.cst Cst.child
  rw [Cst.all_node, List.filter_cons_of_neg (by exact Bool.false_ne_true),
    List.filter_cons_of_neg (by rw [key_declarator]; decide)]
  rfl

theorem walkFunctionDefinition_nested {f : FunctionDefinition} {stars : List (List Token)}
    {inner : Declarator} {suffixes : List Suffix} (nested : f.declarator = .nested stars inner suffixes) :
    walkFunctionDefinition filePath P (f.cst loc) = P := by
  have specifiers : (f.cst loc).child "declarationSpecifiers" =
      some (declarationSpecifiersCst loc f.specifiers) := rfl
  have hidden := image_direct_nested loc stars inner suffixes
  rw [Cst.image, Option.map_eq_none_iff] at hidden
  unfold walkFunctionDefinition
  rw [specifiers, child_declarator_function, nested]
  dsimp only
  rw [child_directDeclarator, Option.bind_some, hidden]

/-- A function with a plain declarator is entered, and its body is walked. -/
theorem walkFunctionDefinition_name {f : FunctionDefinition} {stars : List (List Token)}
    {id : Identifier} {suffixes : List Suffix} (plain : f.declarator = .name stars id suffixes) :
    walkFunctionDefinition filePath P (f.cst loc) =
      walkStatement id.image filePath
        (Indexer.walkFunctionDefinition filePath P
          ⟨id.image, loc.startLine,
            (extractTypeName (declarationSpecifiersCst loc f.specifiers)).isStatic,
            extractParameters (f.cst loc), .other⟩)
        ((Statement.compound f.body).cst loc) := by
  have specifiers : (f.cst loc).child "declarationSpecifiers" =
      some (declarationSpecifiersCst loc f.specifiers) := rfl
  have found : (Cst.node "directDeclarator" loc ((Declarator.name stars id suffixes).direct loc)).tok
      "Identifier" = some ⟨"Identifier", id.image, loc⟩ := rfl
  unfold walkFunctionDefinition
  rw [specifiers, child_declarator_function, child_compoundStatement, plain]
  dsimp only
  rw [child_directDeclarator, Option.bind_some, found]
  dsimp only
  rw [if_neg id.nonempty]
  rfl

end Reading

section Initialisers

/-- The declaration without its initialisers. -/
def LocalDeclaration.bare (d : LocalDeclaration) : LocalDeclaration :=
  ⟨d.specifiers, d.declarators.map fun x => (x.1, none)⟩

mutual

/-- The statement without the initialisers of its declarations. -/
def Statement.bare : Statement → Statement
  | .compound body => .compound body.bare
  | .expression e => .expression e
  | .ifThen condition consequent => .ifThen condition consequent.bare
  | .ifElse condition consequent alternate => .ifElse condition consequent.bare alternate.bare
  | .switch selector body => .switch selector body.bare
  | .while condition body => .while condition body.bare
  | .doWhile body condition => .doWhile body.bare condition
  | .forDeclaration d condition step body => .forDeclaration d.bare condition step body.bare
  | .forExpression init condition step body => .forExpression init condition step body.bare
  | .jump children => .jump children
  | .labeled children => .labeled children
  | .macroCall tokens => .macroCall tokens

def Block.bare : Block → Block
  | .nil => .nil
  | .declaration d rest => .declaration d.bare rest.bare
  | .statement s rest => .statement s.bare rest.bare

end

def FunctionDefinition.bare (f : FunctionDefinition) : FunctionDefinition :=
  { f with body := f.body.bare }

variable (loc : Location)

theorem declaration_bare (d : LocalDeclaration) : d.bare.declaration = d.declaration := by
  unfold LocalDeclaration.declaration LocalDeclaration.bare
  simp

theorem declarations_bare (b : Block) :
    b.bare.declarations.map LocalDeclaration.declaration =
      b.declarations.map LocalDeclaration.declaration := by
  match b with
  | .nil => rfl
  | .declaration d rest =>
    rw [Block.bare, Block.declarations, Block.declarations, List.map_cons, List.map_cons,
      declaration_bare, declarations_bare rest]
  | .statement s rest => exact declarations_bare rest

mutual

/-- The visitor reads no initialiser inside a function. -/
theorem skeleton_bare (s : Statement) : s.bare.skeleton loc = s.skeleton loc := by
  match s with
  | .compound body =>
    rw [Statement.bare, Statement.skeleton, Statement.skeleton, declarations_bare, skeletons_bare body]
  | .expression e => rfl
  | .ifThen condition consequent =>
    rw [Statement.bare, Statement.skeleton, Statement.skeleton, skeleton_bare consequent]
  | .ifElse condition consequent alternate =>
    rw [Statement.bare, Statement.skeleton, Statement.skeleton, skeleton_bare consequent,
      skeleton_bare alternate]
  | .switch selector body => rw [Statement.bare, Statement.skeleton, Statement.skeleton, skeleton_bare body]
  | .while condition body => rw [Statement.bare, Statement.skeleton, Statement.skeleton, skeleton_bare body]
  | .doWhile body condition =>
    rw [Statement.bare, Statement.skeleton, Statement.skeleton, skeleton_bare body]
  | .forDeclaration d condition step body =>
    rw [Statement.bare, Statement.skeleton, Statement.skeleton, skeleton_bare body]
  | .forExpression init condition step body =>
    rw [Statement.bare, Statement.skeleton, Statement.skeleton, skeleton_bare body]
  | .jump children => rfl
  | .labeled children => rfl
  | .macroCall tokens => rfl

theorem skeletons_bare (b : Block) : b.bare.skeletons loc = b.skeletons loc := by
  match b with
  | .nil => rfl
  | .declaration d rest => exact skeletons_bare rest
  | .statement s rest =>
    rw [Block.bare, Block.skeletons, Block.skeletons, skeleton_bare s, skeletons_bare rest]

end

theorem extractParameters_bare (f : FunctionDefinition) :
    extractParameters (f.bare.cst loc) = extractParameters (f.cst loc) := by
  unfold extractParameters
  rw [child_declarator_function, child_declarator_function]
  rfl

end Initialisers

end LibJuno.Parser
