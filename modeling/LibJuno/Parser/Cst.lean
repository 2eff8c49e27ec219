import Mathlib.Data.List.Basic

/-!
# The concrete syntax tree

`CstNode` and `IToken` of the parser library and the accessors of `parser/visitor.ts`. A
node keeps its children in the order in which the rule consumed them; `children[key]` is
the list of those under a key, which is the name of a rule or of a token type. Below the
accessors are the trees of `parser/parser.ts` for declarators and for the expressions that
the visitor looks into. Where it looks no further a subtree is arbitrary.
-/

namespace LibJuno.Parser

/-- `CstNodeLocation`, as `nodeLocationTracking: "full"` fills it in. -/
structure Location where
  startOffset : Nat
  endOffset : Nat
  startLine : Nat
deriving DecidableEq

structure Token where
  tokenType : String
  image : String
  location : Location
deriving DecidableEq

inductive Cst where
  | token (t : Token)
  | node (name : String) (location : Location) (children : List Cst)

/-- The image of an `Identifier` token, which is not empty. -/
structure Identifier where
  image : String
  nonempty : image ≠ ""
deriving DecidableEq

namespace Cst

/-- The key under which the parent keeps the element. -/
def key : Cst → String
  | token t => t.tokenType
  | node name _ _ => name

def location : Cst → Location
  | token t => t.location
  | node _ location _ => location

def children : Cst → List Cst
  | token _ => []
  | node _ _ children => children

/-- `children[key] ?? []`. -/
def all (key : String) (c : Cst) : List Cst := c.children.filter fun e => decide (e.key = key)

/-- `tok`, at index 0. -/
def tok (key : String) (c : Cst) : Option Token :=
  match (c.all key).head? with
  | some (token t) => some t
  | _ => none

/-- `child`, at index 0. -/
def child (key : String) (c : Cst) : Option Cst :=
  match (c.all key).head? with
  | some (node name location children) => some (node name location children)
  | _ => none

def hasToken (key : String) (c : Cst) : Bool := !(c.all key).isEmpty

/-- The image of the first token under the key. -/
def image (key : String) (c : Cst) : Option String := (c.tok key).map Token.image

end Cst

/-- An optional string in a condition: an empty one counts as none. -/
def truthy (s : Option String) : Option String := s.filter (· ≠ "")

@[simp] theorem truthy_image (id : Identifier) : truthy (some id.image) = some id.image := by
  simp [truthy, Option.filter, id.nonempty]

section Drilling

/-- The names that `drillToPostfix` goes down. -/
def postfixPath : List String :=
  ["conditionalExpression", "logicalOrExpression", "logicalAndExpression", "bitwiseOrExpression",
    "bitwiseXorExpression", "bitwiseAndExpression", "equalityExpression", "relationalExpression",
    "shiftExpression", "additiveExpression", "multiplicativeExpression", "castExpression",
    "unaryExpression", "postfixExpression"]

/-- The loop of `drillToPostfix`. -/
def drill : List String → Cst → Option Cst
  | [], cur => some cur
  | name :: names, cur =>
    match cur.child name with
    | none => if cur.key = "postfixExpression" then some cur else none
    | some next => drill names next

def drillToPostfix (node : Cst) : Option Cst := drill postfixPath node

def getPostfixPrimary (postNode : Cst) : Option String :=
  (postNode.child "primaryExpression").bind (Cst.image "Identifier")

/-- What `extractDeclaratorInfo` returns; the name is empty when there is none. -/
structure DeclaratorInfo where
  name : String
  isPointer : Bool
  isArray : Bool
deriving DecidableEq

def extractDeclaratorInfo (declaratorNode : Cst) : DeclaratorInfo :=
  match declaratorNode.child "directDeclarator" with
  | none => ⟨"", false, false⟩
  | some directDecl =>
    ⟨(directDecl.image "Identifier").getD "",
      (declaratorNode.child "pointer").isSome, directDecl.hasToken "LBracket"⟩

end Drilling

section Trees

/-- A token of the given type. -/
def Cst.leaf (loc : Location) (tokenType image : String) : Cst := .token ⟨tokenType, image, loc⟩

/-- What follows a name or a parenthesised declarator, with the children of the tree inside. -/
inductive Suffix where
  | array (size : Option (List Cst))
  | function (parameterTypeList : List Cst)
  | oldStyle (identifierList : Option (List Cst))

def Suffix.isArray : Suffix → Bool
  | .array _ => true
  | .function _ => false
  | .oldStyle _ => false

/-- A declarator: each star has its qualifiers behind it. -/
inductive Declarator where
  | name (stars : List (List Token)) (id : Identifier) (suffixes : List Suffix)
  | nested (stars : List (List Token)) (inner : Declarator) (suffixes : List Suffix)

/-- One of the specifiers in front of the declarators: of the types only a name is looked
into, the others are rules of their own. -/
inductive Specifier where
  | storageClass (tokenType image : String)
  | qualifier (tokenType image : String)
  | typeName (id : Identifier)
  | builtin (rule : String) (children : List Cst)

variable (loc : Location)

def Specifier.cst : Specifier → Cst
  | .storageClass tokenType image => .node "storageClassSpecifier" loc [.leaf loc tokenType image]
  | .qualifier tokenType image => .node "typeQualifier" loc [.leaf loc tokenType image]
  | .typeName id => .node "typeSpecifier" loc [.leaf loc "Identifier" id.image]
  | .builtin rule children => .node "typeSpecifier" loc [.node rule loc children]

/-- The `pointer` rule. -/
def pointerCst : List (List Token) → Option Cst
  | [] => none
  | qualifiers :: stars =>
    some (.node "pointer" loc (.leaf loc "Star" "*" ::
      qualifiers.map (fun t => .node "typeQualifier" loc [.token t]) ++ (pointerCst stars).toList))

/-- A suffix in the `directDeclarator` rule. -/
def Suffix.cst : Suffix → List Cst
  | .array size =>
    .leaf loc "LBracket" "[" :: (size.map (.node "expression" loc)).toList ++
      [.leaf loc "RBracket" "]"]
  | .function parameterTypeList =>
    [.leaf loc "LParen" "(", .node "parameterTypeList" loc parameterTypeList, .leaf loc "RParen" ")"]
  | .oldStyle identifierList =>
    .leaf loc "LParen" "(" :: (identifierList.map (.node "identifierList" loc)).toList ++
      [.leaf loc "RParen" ")"]

/-- The `declarator` rule around a `directDeclarator`. -/
def declaratorCst (stars : List (List Token)) (direct : List Cst) : Cst :=
  .node "declarator" loc ((pointerCst loc stars).toList ++ [.node "directDeclarator" loc direct])

def Declarator.cst : Declarator → Cst
  | .name stars id suffixes =>
    declaratorCst loc stars (.leaf loc "Identifier" id.image :: suffixes.flatMap (Suffix.cst loc))
  | .nested stars inner suffixes =>
    declaratorCst loc stars (.leaf loc "LParen" "(" :: inner.cst :: .leaf loc "RParen" ")" ::
      suffixes.flatMap (Suffix.cst loc))

/-- The children of its `directDeclarator`. -/
def Declarator.direct : Declarator → List Cst
  | .name _ id suffixes => .leaf loc "Identifier" id.image :: suffixes.flatMap (Suffix.cst loc)
  | .nested _ inner suffixes =>
    .leaf loc "LParen" "(" :: inner.cst loc :: .leaf loc "RParen" ")" ::
      suffixes.flatMap (Suffix.cst loc)

/-- Rules that each have one child down to the given one. -/
def spine : List String → Cst → Cst
  | [], c => c
  | name :: names, c => .node name loc [spine names c]

end Trees

section Reading

variable (loc : Location)

def Specifier.name : Specifier → Option String
  | .storageClass _ _ => none
  | .qualifier _ _ => none
  | .typeName id => some id.image
  | .builtin _ _ => none

/-- The first type name, empty when there is none. -/
def specifiedType (specifiers : List Specifier) : String :=
  (specifiers.findSome? Specifier.name).getD ""

theorem specifiedType_eq (specifiers : List Specifier) :
    specifiedType specifiers = (specifiers.filterMap Specifier.name).head?.getD "" := by
  rw [List.head?_filterMap, specifiedType]

@[simp] theorem Cst.key_node (name : String) (cs : List Cst) : (Cst.node name loc cs).key = name := rfl

@[simp] theorem Cst.key_leaf (tokenType image : String) :
    (Cst.leaf loc tokenType image).key = tokenType := rfl

@[simp] theorem Cst.all_node (key name : String) (cs : List Cst) :
    (Cst.node name loc cs).all key = cs.filter fun e => decide (e.key = key) := rfl

/-- A rule is no token. -/
theorem image_node_node (key name rule : String) (children : List Cst) :
    (Cst.node name loc [.node rule loc children]).image key = none := by
  unfold Cst.image Cst.tok
  by_cases here : rule = key
  · simp [here]
  · simp [here]

theorem specifiedType_cst (specifiers : List Specifier) :
    (((specifiers.map (Specifier.cst loc)).filter fun e => decide (e.key = "typeSpecifier")).findSome?
      (Cst.image "Identifier")).getD "" = specifiedType specifiers := by
  unfold specifiedType
  congr 1
  induction specifiers with
  | nil => rfl
  | cons s specifiers ih =>
    rw [List.map_cons, List.findSome?_cons]
    cases s with
    | storageClass tokenType image => exact ih
    | qualifier tokenType image => exact ih
    | typeName id => rfl
    | builtin rule children =>
      have none_here := image_node_node loc "Identifier" "typeSpecifier" rule children
      rw [Specifier.cst, List.filter_cons_of_pos rfl, List.findSome?_cons, none_here]
      exact ih

theorem key_of_pointerCst {stars : List (List Token)} {c : Cst} (h : pointerCst loc stars = some c) :
    c.key = "pointer" := by
  cases stars with
  | nil => cases h
  | cons qualifiers stars =>
    rw [← Option.some.inj h]
    rfl

/-- Suffixes put nothing under the keys of the declarator itself. -/
theorem suffixes_apart {key : String} (own : key = "Identifier" ∨ key = "declarator")
    (suffixes : List Suffix) :
    (suffixes.flatMap (Suffix.cst loc)).filter (fun e => decide (e.key = key)) = [] := by
  rw [List.filter_eq_nil_iff]
  intro c member
  obtain ⟨s, -, inside⟩ := List.mem_flatMap.1 member
  rcases own with rfl | rfl
  all_goals
    cases s <;> simp [Suffix.cst] at inside <;> grind [Cst.key_leaf, Cst.key_node]

/-- What the visitor reads of a declarator; one in parentheses hides the name. -/
def Declarator.info : Declarator → DeclaratorInfo
  | .name stars id suffixes => ⟨id.image, !stars.isEmpty, suffixes.any Suffix.isArray⟩
  | .nested stars _ suffixes => ⟨"", !stars.isEmpty, suffixes.any Suffix.isArray⟩

theorem key_declarator (d : Declarator) : (d.cst loc).key = "declarator" := by
  cases d <;> rfl

theorem child_directDeclarator (d : Declarator) :
    (d.cst loc).child "directDeclarator" = some (.node "directDeclarator" loc (d.direct loc)) := by
  have within : ∀ stars direct, (declaratorCst loc stars direct).child "directDeclarator" =
      some (.node "directDeclarator" loc direct) := by
    intro stars direct
    unfold Cst.child declaratorCst
    rw [Cst.all_node, List.filter_append, List.filter_eq_nil_iff.2]
    · rfl
    · intro c member
      rw [key_of_pointerCst loc (Option.mem_toList.1 member)]
      decide
  cases d with
  | name stars id suffixes => exact within stars _
  | nested stars inner suffixes => exact within stars _

theorem child_pointer (d : Declarator) :
    ((d.cst loc).child "pointer").isSome = d.info.isPointer := by
  have within : ∀ stars direct, ((declaratorCst loc stars direct).child "pointer").isSome =
      !stars.isEmpty := by
    intro stars direct
    cases stars with
    | nil => rfl
    | cons qualifiers stars => rfl
  cases d with
  | name stars id suffixes => exact within stars _
  | nested stars inner suffixes => exact within stars _

theorem image_direct_name (id : Identifier) (suffixes : List Suffix) (stars : List (List Token)) :
    (Cst.node "directDeclarator" loc ((Declarator.name stars id suffixes).direct loc)).image
      "Identifier" = some id.image := rfl

theorem image_direct_nested (stars : List (List Token)) (inner : Declarator) (suffixes : List Suffix) :
    (Cst.node "directDeclarator" loc ((Declarator.nested stars inner suffixes).direct loc)).image
      "Identifier" = none := by
  unfold Cst.image Cst.tok Declarator.direct
  simp [key_declarator, suffixes_apart]

theorem child_direct_name (id : Identifier) (suffixes : List Suffix) (stars : List (List Token)) :
    (Cst.node "directDeclarator" loc ((Declarator.name stars id suffixes).direct loc)).child
      "declarator" = none := by
  unfold Cst.child Declarator.direct
  simp [suffixes_apart]

theorem child_direct_nested (stars : List (List Token)) (inner : Declarator) (suffixes : List Suffix) :
    (Cst.node "directDeclarator" loc ((Declarator.nested stars inner suffixes).direct loc)).child
      "declarator" = some (inner.cst loc) := by
  unfold Cst.child Declarator.direct
  rw [Cst.all_node, List.filter_cons_of_neg (by exact Bool.false_ne_true),
    List.filter_cons_of_pos (by rw [key_declarator]; rfl)]
  cases inner <;> rfl

theorem hasToken_direct (d : Declarator) :
    (Cst.node "directDeclarator" loc (d.direct loc)).hasToken "LBracket" = d.info.isArray := by
  have within : ∀ (first : List Cst) (suffixes : List Suffix), (∀ c ∈ first, c.key ≠ "LBracket") →
      (!((first ++ suffixes.flatMap (Suffix.cst loc)).filter
        fun e => decide (e.key = "LBracket")).isEmpty) = suffixes.any Suffix.isArray := by
    intro first suffixes apart
    rw [List.filter_append, List.filter_eq_nil_iff.2 (by simpa using apart), List.nil_append]
    induction suffixes with
    | nil => rfl
    | cons s suffixes ih =>
      rw [List.any_cons, ← ih, List.flatMap_cons, List.filter_append]
      cases s with
      | array size => rfl
      | function parameterTypeList => rfl
      | oldStyle identifierList => cases identifierList <;> rfl
  cases d with
  | name stars id suffixes => exact within [.leaf loc "Identifier" id.image] suffixes (by simp)
  | nested stars inner suffixes =>
    exact within [.leaf loc "LParen" "(", inner.cst loc, .leaf loc "RParen" ")"] suffixes
      (by simp [key_declarator])

theorem extractDeclaratorInfo_cst (d : Declarator) : extractDeclaratorInfo (d.cst loc) = d.info := by
  unfold extractDeclaratorInfo
  rw [child_directDeclarator, child_pointer]
  dsimp only
  rw [hasToken_direct]
  cases d with
  | name stars id suffixes => rfl
  | nested stars inner suffixes =>
    rw [image_direct_nested]
    rfl

end Reading

end LibJuno.Parser
