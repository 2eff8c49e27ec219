import LibJuno.Indexer.Index
import LibJuno.Parser.Cst

/-!
# Vtable initialisers

`extractDesignatedVtable` and `extractPositionalVtable` of `parser/visitor.ts`, on the
trees that the `initializerList` rule of `parser/parser.ts` builds. The tree keeps the
designations of a list apart from its initialisers, and the visitor pairs them again by
their offsets.
-/

namespace LibJuno.Parser

open LibJuno.Indexer

section Visitor

/-- The name that an initialiser starts with, through no cast and no operator. -/
def extractInitializerIdent (initNode : Cst) : Option String :=
  ((initNode.child "assignmentExpression").bind drillToPostfix).bind getPostfixPrimary

def extractDesignationField (desigNode : Cst) : Option String :=
  (desigNode.all "designator").findSome? (Cst.image "Identifier")

/-- The loop of `extractDesignatedVtable` that pairs every initialiser with the next
designation, if that ends before it. -/
def pairEntries : List Cst → List Cst → List (Option Cst × Cst)
  | _, [] => []
  | [], initN :: initializers => (none, initN) :: pairEntries [] initializers
  | d :: designations, initN :: initializers =>
    if d.location.endOffset < initN.location.startOffset then
      (some d, initN) :: pairEntries designations initializers
    else (none, initN) :: pairEntries (d :: designations) initializers

/-- Records appended to `vtableAssignments`. -/
def listVtables (records : List VtableAssignmentRecord) (parsed : ParsedFile) : ParsedFile :=
  { parsed with vtableAssignments := parsed.vtableAssignments ++ records }

def extractDesignatedVtable (apiType : String) (designations initializers : List Cst)
    (varName : Option String) (parsed : ParsedFile) : ParsedFile :=
  let records := (pairEntries designations initializers).filterMap fun e =>
    e.1.bind fun desig =>
      (truthy (extractDesignationField desig)).bind fun field =>
        (truthy (extractInitializerIdent e.2)).map fun fnName =>
          ⟨apiType, field, fnName, parsed.filePath, e.2.location.startLine, varName⟩
  listVtables records parsed

/-- Without the API struct in the same file the names are left to the indexer, with the
lines that they are on. -/
def extractPositionalVtable (apiType : String) (initializers : List Cst) (varName : Option String)
    (parsed : ParsedFile) : ParsedFile :=
  match parsed.apiStructDefinitions.find? fun r => decide (r.apiType = apiType) with
  | none =>
    let named := initializers.filterMap fun init =>
      (truthy (extractInitializerIdent init)).map fun fnName => (fnName, init.location.startLine)
    if named.isEmpty then parsed
    else
      { parsed with pendingPositionalVtables := parsed.pendingPositionalVtables ++
          [⟨apiType, named.map Prod.fst, parsed.filePath, named.map Prod.snd, varName⟩] }
  | some apiRec =>
    let records := (initializers.zip apiRec.fields).filterMap fun x =>
      (truthy (extractInitializerIdent x.1)).map fun fnName =>
        ⟨apiType, x.2, fnName, parsed.filePath, x.1.location.startLine, varName⟩
    listVtables records parsed

/-- What `walkVtableDeclaration` does with the list of a declarator. -/
def walkInitializerList (apiType : String) (ilitNode : Cst) (varName : Option String)
    (parsed : ParsedFile) : ParsedFile :=
  let designations := ilitNode.all "designation"
  let initializers := ilitNode.all "initializer"
  if designations.length > 0 then
    extractDesignatedVtable apiType designations initializers varName parsed
  else extractPositionalVtable apiType initializers varName parsed

end Visitor

section Trees

inductive LiteralKind where
  | integer
  | floating
  | string
  | char
deriving DecidableEq

def LiteralKind.tokenType : LiteralKind → String
  | .integer => "IntegerLiteral"
  | .floating => "FloatingLiteral"
  | .string => "StringLiteral"
  | .char => "CharLiteral"

/-- The value of an entry, with the children of the trees inside. -/
inductive Value where
  | identifier (id : Identifier)
  | literal (kind : LiteralKind) (image : String)
  | cast (typeName castExpression : List Cst)
  | addressOf (castExpression : List Cst)
  | braces (initializerList : List Cst)

/-- The field or the subscripts, at least one, before the `=`. -/
inductive Designation where
  | field (id : Identifier)
  | array (subscript : List Cst) (subscripts : List (List Cst))

/-- An entry of an initialiser list, with the places of its nodes. -/
structure Entry where
  designation : Option (Designation × Location)
  value : Value
  location : Location

/-- An `initializer` that is an expression, down to its `castExpression`. -/
def expressionCst (loc : Location) (castExpression : List Cst) : Cst :=
  spine loc ("initializer" :: "assignmentExpression" :: postfixPath.take 11)
    (.node "castExpression" loc castExpression)

/-- An `initializer` that is a `primaryExpression`. -/
def primaryCst (loc : Location) (primary : Cst) : Cst :=
  expressionCst loc [spine loc ["unaryExpression", "postfixExpression", "primaryExpression"] primary]

/-- The `initializer` rule. -/
def Value.cst (loc : Location) : Value → Cst
  | .identifier id => primaryCst loc (.leaf loc "Identifier" id.image)
  | .literal kind image => primaryCst loc (.leaf loc kind.tokenType image)
  | .cast typeName castExpression =>
    expressionCst loc [.leaf loc "LParen" "(", .node "typeName" loc typeName,
      .leaf loc "RParen" ")", .node "castExpression" loc castExpression]
  | .addressOf castExpression =>
    expressionCst loc [.node "unaryExpression" loc
      [.leaf loc "Amp" "&", .node "castExpression" loc castExpression]]
  | .braces initializerList =>
    .node "initializer" loc [.leaf loc "LBrace" "\x7b",
      .node "initializerList" loc initializerList, .leaf loc "RBrace" "\x7d"]

/-- The `designator` rule, for a subscript. -/
def subscriptCst (loc : Location) (subscript : List Cst) : Cst :=
  .node "designator" loc [.leaf loc "LBracket" "[", .node "constantExpression" loc subscript,
    .leaf loc "RBracket" "]"]

/-- The `designation` rule. -/
def Designation.cst (loc : Location) : Designation → Cst
  | .field id =>
    .node "designation" loc [.node "designator" loc [.leaf loc "Dot" ".",
      .leaf loc "Identifier" id.image], .leaf loc "Assign" "="]
  | .array subscript subscripts =>
    .node "designation" loc ((subscript :: subscripts).map (subscriptCst loc) ++
      [.leaf loc "Assign" "="])

namespace Entry

def designationCst (e : Entry) : Option Cst := e.designation.map fun d => d.1.cst d.2

def valueCst (e : Entry) : Cst := e.value.cst e.location

def nodes (e : Entry) : List Cst := e.designationCst.toList ++ [e.valueCst]

/-- The places of the nodes, in their order. -/
def locations (e : Entry) : List Location := (e.designation.map Prod.snd).toList ++ [e.location]

/-- The entries of a list with commas between them. -/
def listNodes (loc : Location) : List Entry → List Cst
  | [] => []
  | e :: es => e.nodes ++ es.flatMap fun e => .leaf loc "Comma" "," :: e.nodes

/-- The `initializerList` rule. -/
def listCst (loc : Location) (es : List Entry) : Cst := .node "initializerList" loc (listNodes loc es)

end Entry

end Trees

section Reading

/-- The function that a value names: an identifier that stands alone. -/
def Value.ident : Value → Option String
  | .identifier id => some id.image
  | .literal _ _ => none
  | .cast _ _ => none
  | .addressOf _ => none
  | .braces _ => none

/-- The field that a designation names. -/
def Designation.fieldName : Designation → Option String
  | .field id => some id.image
  | .array _ _ => none

theorem extractInitializerIdent_cst (v : Value) (loc : Location) :
    truthy (extractInitializerIdent (v.cst loc)) = v.ident := by
  cases v with
  | identifier id => exact truthy_image id
  | literal kind image => cases kind <;> rfl
  | cast typeName castExpression => rfl
  | addressOf castExpression => rfl
  | braces initializerList => rfl

theorem extractDesignationField_cst (d : Designation) (loc : Location) :
    truthy (extractDesignationField (d.cst loc)) = d.fieldName := by
  cases d with
  | field id => exact truthy_image id
  | array subscript subscripts =>
    have unnamed : extractDesignationField ((Designation.array subscript subscripts).cst loc) = none := by
      unfold extractDesignationField
      rw [List.findSome?_eq_none_iff]
      intro c member
      unfold Designation.cst at member
      rw [Cst.all_node, List.filter_append, List.mem_append] at member
      rcases member with inside | assign
      · obtain ⟨s, -, rfl⟩ := List.mem_map.1 (List.mem_filter.1 inside).1
        rfl
      · cases assign
    rw [unnamed]
    rfl

theorem key_valueCst (e : Entry) : e.valueCst.key = "initializer" := by
  unfold Entry.valueCst
  cases e.value <;> rfl

theorem location_valueCst (e : Entry) : e.valueCst.location = e.location := by
  unfold Entry.valueCst
  cases e.value <;> rfl

theorem key_designationCst {e : Entry} {c : Cst} (h : e.designationCst = some c) :
    c.key = "designation" := by
  obtain ⟨⟨d, loc⟩, -, rfl⟩ := Option.map_eq_some_iff.1 h
  cases d <;> rfl

theorem location_designationCst {e : Entry} {c : Cst} (h : e.designationCst = some c) :
    c.location ∈ (e.designation.map Prod.snd).toList := by
  obtain ⟨⟨d, loc⟩, same, rfl⟩ := Option.map_eq_some_iff.1 h
  rw [same]
  cases d <;> exact List.mem_singleton.2 rfl

/-- The tree of a list keeps its designations and its initialisers apart. -/
theorem filter_listNodes (loc : Location) (key : String) (notComma : key ≠ "Comma") (es : List Entry) :
    (Entry.listNodes loc es).filter (fun c => decide (c.key = key)) =
      es.flatMap fun e => e.nodes.filter fun c => decide (c.key = key) := by
  have rest : ∀ es : List Entry, (es.flatMap fun e => Cst.leaf loc "Comma" "," :: e.nodes).filter
      (fun c => decide (c.key = key)) = es.flatMap fun e => e.nodes.filter fun c => decide (c.key = key) := by
    intro es
    rw [List.filter_flatMap]
    congr 1
    funext e
    exact List.filter_cons_of_neg fun comma => notComma (of_decide_eq_true comma).symm
  cases es with
  | nil => rfl
  | cons e es => rw [Entry.listNodes, List.filter_append, rest, List.flatMap_cons]

theorem all_designation (loc : Location) (es : List Entry) :
    (Entry.listCst loc es).all "designation" = es.filterMap Entry.designationCst := by
  unfold Entry.listCst
  rw [Cst.all_node, filter_listNodes loc _ (by decide), List.filterMap_eq_flatMap_toList]
  congr 1
  funext e
  unfold Entry.nodes
  rw [List.filter_append, List.filter_eq_self.2, List.filter_cons_of_neg, List.filter_nil, List.append_nil]
  · rw [key_valueCst]; decide
  · intro c member
    rw [key_designationCst (Option.mem_toList.1 member)]
    rfl

theorem all_initializer (loc : Location) (es : List Entry) :
    (Entry.listCst loc es).all "initializer" = es.map Entry.valueCst := by
  unfold Entry.listCst
  rw [Cst.all_node, filter_listNodes loc _ (by decide), List.map_eq_flatMap]
  congr 1
  funext e
  unfold Entry.nodes
  rw [List.filter_append, List.filter_eq_nil_iff.2, List.nil_append, List.filter_cons_of_pos, List.filter_nil]
  · rw [key_valueCst]; rfl
  · intro c member
    rw [key_designationCst (Option.mem_toList.1 member)]
    decide

end Reading

section Designated

/-- The nodes of the list lie one after another in the text. -/
structure Increasing (es : List Entry) : Prop where
  ordered : (es.flatMap Entry.locations).Pairwise fun a b => a.endOffset < b.startOffset
  proper : ∀ l ∈ es.flatMap Entry.locations, l.startOffset ≤ l.endOffset

/-- What the list of the entry is to record: a field and a function, or nothing. -/
def Entry.record (apiType filePath : String) (varName : Option String) (e : Entry) :
    Option VtableAssignmentRecord :=
  (e.designation.bind fun d => d.1.fieldName).bind fun field =>
    e.value.ident.map fun fnName => ⟨apiType, field, fnName, filePath, e.location.startLine, varName⟩

theorem Increasing.tail {e : Entry} {es : List Entry} (h : Increasing (e :: es)) : Increasing es := by
  constructor
  · exact (List.pairwise_append.1 h.ordered).2.1
  · exact fun l member => h.proper l (List.mem_append_right _ member)

/-- The greedy pairing finds the designation of every entry, and none for the others: the
designations left are those of the entries left, and these begin after the initialiser. -/
theorem pairEntries_entries {es : List Entry} (increasing : Increasing es) :
    pairEntries (es.filterMap Entry.designationCst) (es.map Entry.valueCst) =
      es.map fun e => (e.designationCst, e.valueCst) := by
  induction es with
  | nil => rfl
  | cons e es ih =>
    have rest := ih increasing.tail
    rw [List.map_cons, List.map_cons]
    have ordered := List.pairwise_append.1 increasing.ordered
    cases own : e.designationCst with
    | none =>
      rw [List.filterMap_cons_none own]
      cases left : es.filterMap Entry.designationCst with
      | nil =>
        rw [left] at rest
        rw [pairEntries, rest]
      | cons d ds =>
        have later : d ∈ es.filterMap Entry.designationCst := left ▸ List.mem_cons_self
        obtain ⟨e', member, theirs⟩ := List.mem_filterMap.1 later
        have place : d.location ∈ es.flatMap Entry.locations :=
          List.mem_flatMap.2 ⟨e', member, List.mem_append_left _ (location_designationCst theirs)⟩
        have own_place : e.location ∈ e.locations := List.mem_append_right _ List.mem_cons_self
        have after : e.location.endOffset < d.location.startOffset := ordered.2.2 _ own_place _ place
        have proper := increasing.proper _ (List.mem_append_left _ own_place)
        have proper' := increasing.proper _ (List.mem_append_right _ place)
        rw [left] at rest
        rw [pairEntries, if_neg (by rw [location_valueCst]; omega), rest]
    | some d =>
      rw [List.filterMap_cons_some own, pairEntries, if_pos, rest]
      rw [location_valueCst]
      exact (List.pairwise_append.1 ordered.1).2.2 _ (location_designationCst own) _ List.mem_cons_self

/-- In an initialiser list of any entries the visitor records each dot-designated entry whose
value is an identifier, its field with its function, and no other entry. -/
theorem designated_pairs {es : List Entry} (increasing : Increasing es) (loc : Location)
    (apiType : String) (varName : Option String) (parsed : ParsedFile) :
    extractDesignatedVtable apiType ((Entry.listCst loc es).all "designation")
        ((Entry.listCst loc es).all "initializer") varName parsed =
      listVtables (es.filterMap (Entry.record apiType parsed.filePath varName)) parsed := by
  unfold extractDesignatedVtable
  rw [all_designation, all_initializer, pairEntries_entries increasing, List.filterMap_map]
  dsimp only
  congr 2
  funext e
  have named : truthy (extractInitializerIdent e.valueCst) = e.value.ident :=
    extractInitializerIdent_cst e.value e.location
  unfold Entry.record
  dsimp only [Function.comp_apply]
  rw [named, location_valueCst]
  cases given : e.designation with
  | none =>
    have none_given : e.designationCst = none := by rw [Entry.designationCst, given]; rfl
    rw [none_given]
    rfl
  | some d =>
    have cst : e.designationCst = some (d.1.cst d.2) := by rw [Entry.designationCst, given]; rfl
    rw [cst, Option.bind_some, Option.bind_some, extractDesignationField_cst]

/-- `.Put = LogPut, [1] = LogGet, LogFlush, .Size = 4, .Flush = LogFlush` on five lines. -/
def mixedList : List Entry :=
  [⟨some (.field ⟨"Put", by decide⟩, ⟨0, 5, 1⟩), .identifier ⟨"LogPut", by decide⟩, ⟨7, 12, 1⟩⟩,
    ⟨some (.array [] [], ⟨15, 19, 2⟩), .identifier ⟨"LogGet", by decide⟩, ⟨21, 26, 2⟩⟩,
    ⟨none, .identifier ⟨"LogFlush", by decide⟩, ⟨29, 36, 3⟩⟩,
    ⟨some (.field ⟨"Size", by decide⟩, ⟨39, 45, 4⟩), .literal .integer "4", ⟨47, 47, 4⟩⟩,
    ⟨some (.field ⟨"Flush", by decide⟩, ⟨50, 57, 5⟩), .identifier ⟨"LogFlush", by decide⟩, ⟨59, 66, 5⟩⟩]

/-- Of these the first and the last entry are recorded. -/
theorem designated_pairs_mixed :
    extractDesignatedVtable "LOG_API_T" ((Entry.listCst ⟨0, 66, 1⟩ mixedList).all "designation")
        ((Entry.listCst ⟨0, 66, 1⟩ mixedList).all "initializer") (some "gtLogApi")
        (ParsedFile.blank "/w/log.c") =
      listVtables [⟨"LOG_API_T", "Put", "LogPut", "/w/log.c", 1, some "gtLogApi"⟩,
        ⟨"LOG_API_T", "Flush", "LogFlush", "/w/log.c", 5, some "gtLogApi"⟩]
        (ParsedFile.blank "/w/log.c") :=
  designated_pairs ⟨by decide, by decide⟩ _ _ _ _

end Designated

end LibJuno.Parser
