import LibJuno.Parser.Statements

/-!
# The locals of a function

What `localVariables` has after the walk of a file, against what its functions declare. The
grammar takes `f(x);` and `a * x;` for declarations, and `register` and `auto` for names, so
which statements declare something, and with which type, depends on the names that are types.
-/

namespace LibJuno.Parser

open LibJuno.Indexer

section Declared

/-- Something in a function that reads as the declaration of a name. It is visited unless it
is in the initialiser of a `for` or in a function that the visitor leaves out. -/
structure Local where
  specifiers : List Specifier
  declarator : Declarator
  isVisited : Bool

/-- One of the stars is qualified. -/
def Declarator.isConst : Declarator → Bool
  | .name stars _ _ => stars.any (List.any · fun t => decide (t.tokenType = "Const"))
  | .nested stars inner _ =>
    inner.isConst || stars.any (List.any · fun t => decide (t.tokenType = "Const"))

/-- The name does not stand in parentheses. -/
def Declarator.isPlain : Declarator → Bool
  | .name _ _ _ => true
  | .nested _ _ _ => false

namespace Local

variable (v : Local)

def name : String := v.declarator.id.image

/-- The names among the specifiers. -/
def names : List String := v.specifiers.filterMap Specifier.name

/-- The named type: the name among the specifiers that is that of a type. -/
def typeName (types : String → Bool) : String := (v.names.find? types).getD ""

/-- What the declaration says of the variable. -/
def info (types : String → Bool) : TypeInfo where
  name := v.name
  typeName := v.typeName types
  isPointer := decide (.pointer ∈ v.declarator.derivations)
  isConst := v.specifiers.any Specifier.isConst || v.declarator.isConst
  isArray := decide (.array ∈ v.declarator.derivations)

/-- It is a declaration: one of the specifiers is no name, or the name of a type. -/
def isDeclared (types : String → Bool) : Bool :=
  v.specifiers.any fun s => (s.name.map types).getD true

/-- No other word that lexes as a name stands before that of the type. -/
def isTypeFirst (types : String → Bool) : Bool := v.names.head?.any types

/-- The qualifier that its type info is about is one of the specifiers. -/
def isConstSpecified : Bool := v.specifiers.any Specifier.isConst || !v.declarator.isConst

/-- The visitor takes something down under the name. -/
def isRecorded : Bool :=
  v.isVisited && v.declarator.isPlain && decide (specifiedType v.specifiers ≠ "")

/-- What it takes down: the first name is the type. -/
def record : TypeInfo where
  name := v.name
  typeName := specifiedType v.specifiers
  isPointer := decide (.pointer ∈ v.declarator.derivations)
  isConst := v.specifiers.any Specifier.isConst
  isArray := decide (.array ∈ v.declarator.derivations)

def store (m : OrderedMap String TypeInfo) : OrderedMap String TypeInfo :=
  if v.isRecorded then m.set v.name v.record else m

end Local

def LocalDeclaration.locals (isVisited : Bool) (d : LocalDeclaration) : List Local :=
  d.declarators.map fun x => ⟨d.specifiers, x.1, isVisited⟩

mutual

/-- The locals in the order of the visit: the declarations of a block come before its
statements. -/
def Statement.locals : Statement → List Local
  | .compound body => body.declarations.flatMap (LocalDeclaration.locals true) ++ body.nested
  | .expression _ => []
  | .ifThen _ consequent => consequent.locals
  | .ifElse _ consequent alternate => consequent.locals ++ alternate.locals
  | .switch _ body => body.locals
  | .while _ body => body.locals
  | .doWhile body _ => body.locals
  | .forDeclaration d _ _ body => d.locals false ++ body.locals
  | .forExpression _ _ _ body => body.locals
  | .jump _ => []
  | .labeled _ => []
  | .macroCall _ => []

/-- The locals of the statements in a block. -/
def Block.nested : Block → List Local
  | .nil => []
  | .declaration _ rest => rest.nested
  | .statement s rest => s.locals ++ rest.nested

end

/-- The locals of a function; none is visited when the function is left out. -/
def FunctionDefinition.locals (f : FunctionDefinition) : List Local :=
  if f.declarator.isPlain then (Statement.compound f.body).locals
  else (Statement.compound f.body).locals.map fun v => { v with isVisited := false }

/-- The declared name. -/
def FunctionDefinition.name (f : FunctionDefinition) : String := f.declarator.id.image

/-- The locals of the functions with the given name. -/
def localsOf (functions : List FunctionDefinition) (fn : String) : List Local :=
  functions.flatMap fun f => if f.name = fn then f.locals else []

end Declared

section Walk

/-- `localVariables` of a function. -/
def localVariables (P : FileParse) (fn : String) : OrderedMap String TypeInfo :=
  (P.parsed.localTypeInfo.localVariables.get fn).getD .empty

/-- From `P` to `P'` exactly these locals of the function are stored, in their order. -/
def Stores (fn : String) (vs : List Local) (P P' : FileParse) : Prop :=
  ∀ n, localVariables P' n = (if n = fn then vs else []).foldl (fun m v => v.store m) (localVariables P n)

variable {fn filePath : String} {vs vs' : List Local} {P P' P'' : FileParse}

theorem Stores.none
    (same : P'.parsed.localTypeInfo.localVariables = P.parsed.localTypeInfo.localVariables) :
    Stores fn [] P P' := by
  intro n
  unfold localVariables
  rw [same, ite_self]
  rfl

theorem Stores.append (first : Stores fn vs P P') (second : Stores fn vs' P' P'') :
    Stores fn (vs ++ vs') P P'' := by
  intro n
  rw [second n, first n]
  split
  · rw [List.foldl_append]
  · rfl

/-- What the visitor does not take down makes no difference. -/
theorem Stores.of_not_recorded (stored : Stores fn vs P P') (out : ∀ v ∈ vs', v.isRecorded = false) :
    Stores fn (vs' ++ vs) P P' := by
  intro n
  rw [stored n]
  split
  · have idle : ∀ m, vs'.foldl (fun m v => Local.store v m) m = m := by
      intro m
      induction vs' generalizing m with
      | nil => rfl
      | cons v vs' ih =>
        rw [List.foldl_cons, Local.store, out v List.mem_cons_self]
        exact ih (fun w member => out w (List.mem_cons_of_mem v member)) m
    rw [List.foldl_append, idle]
  · rfl

theorem stores_walkAssignment (a : Assignment) : Stores fn [] P (walkAssignment fn filePath P a) := by
  apply Stores.none
  unfold walkAssignment
  split
  · rfl
  · split
    · rfl
    · split <;> rfl

theorem pointer_mem_derivations (stars : List (List Token)) (suffixes : List Suffix) :
    decide (Derivation.pointer ∈ suffixes.map Suffix.derivation ++ stars.map fun _ => .pointer) =
      !stars.isEmpty := by
  have apart : Derivation.pointer ∉ suffixes.map Suffix.derivation := by
    rw [List.mem_map]
    rintro ⟨s, -, same⟩
    cases s <;> cases same
  cases stars <;> simp [apart]

theorem array_mem_derivations (stars : List (List Token)) (suffixes : List Suffix) :
    decide (Derivation.array ∈ suffixes.map Suffix.derivation ++ stars.map fun _ => .pointer) =
      suffixes.any Suffix.isArray := by
  have apart : Derivation.array ∉ stars.map fun _ => Derivation.pointer := by
    rw [List.mem_map]
    rintro ⟨s, -, same⟩
    cases same
  rw [decide_eq_decide.2 (List.mem_append.trans (or_iff_left apart))]
  induction suffixes with
  | nil => rfl
  | cons s suffixes ih =>
    rw [List.map_cons, List.any_cons, ← ih]
    cases s <;> simp [Suffix.derivation, Suffix.isArray]

/-- What is taken down, from what the visitor reads of a declarator. -/
theorem record_of_plain (v : Local) (plain : v.declarator.isPlain = true) :
    v.record = ⟨v.declarator.info.name, specifiedType v.specifiers, v.declarator.info.isPointer,
      v.specifiers.any Specifier.isConst, v.declarator.info.isArray⟩ := by
  obtain ⟨specifiers, declarator, isVisited⟩ := v
  cases declarator with
  | nested stars inner suffixes => cases plain
  | name stars id suffixes =>
    have pointer := pointer_mem_derivations stars suffixes
    have array := array_mem_derivations stars suffixes
    unfold Local.record Declarator.derivations Declarator.info
    dsimp only
    rw [pointer, array]
    rfl

/-- One round of the loop of `walkLocalDeclaration`. -/
theorem store_of_visited (v : Local) (visited : v.isVisited = true)
    (named : specifiedType v.specifiers ≠ "") (m : OrderedMap String TypeInfo) :
    (if v.declarator.info.name = "" then m
      else m.set v.declarator.info.name ⟨v.declarator.info.name, specifiedType v.specifiers,
        v.declarator.info.isPointer, v.specifiers.any Specifier.isConst,
        v.declarator.info.isArray⟩) = v.store m := by
  obtain ⟨specifiers, declarator, isVisited⟩ := v
  unfold Local.store
  cases declarator with
  | nested stars inner suffixes =>
    refine (if_pos rfl).trans (if_neg ?_).symm
    simp [Local.isRecorded, Declarator.isPlain]
  | name stars id suffixes =>
    rw [record_of_plain _ rfl]
    refine (if_neg id.nonempty).trans (if_pos ?_).symm
    unfold Local.isRecorded
    rw [visited, decide_eq_true named]
    rfl

theorem stores_walkLocalDeclaration (d : LocalDeclaration) :
    Stores fn (d.locals true) P (walkLocalDeclaration fn P d.declaration) := by
  unfold walkLocalDeclaration LocalDeclaration.declaration
  dsimp only
  split
  · next skipped =>
    rw [← List.append_nil (d.locals true)]
    refine (Stores.none rfl).of_not_recorded fun v member => ?_
    obtain ⟨x, inside, rfl⟩ := List.mem_map.1 member
    rcases skipped with unnamed | empty
    · simp [Local.isRecorded, unnamed]
    · rw [List.map_eq_nil_iff.1 empty] at inside
      cases inside
  · next kept =>
    intro n
    unfold localVariables
    dsimp only
    rw [OrderedMap.get_set]
    split
    · next same =>
      subst same
      rw [Option.getD_some, List.foldl_map, LocalDeclaration.locals, List.foldl_map]
      congr 1
      funext m x
      exact store_of_visited ⟨d.specifiers, x.1, true⟩ rfl (fun unnamed => kept (.inl unnamed)) m
    · rfl

theorem stores_walkLocalDeclarations (ds : List LocalDeclaration) :
    Stores fn (ds.flatMap (LocalDeclaration.locals true)) P
      ((ds.map LocalDeclaration.declaration).foldl (walkLocalDeclaration fn) P) := by
  induction ds generalizing P with
  | nil => exact Stores.none rfl
  | cons d ds ih => exact (stores_walkLocalDeclaration d).append ih

section Statements

variable (loc : Location)

mutual

/-- The walk of a statement stores its locals. -/
theorem stores_walkStatement (P : FileParse) (s : Statement) :
    Stores fn s.locals P (Indexer.walkStatement fn filePath P (s.skeleton loc)) := by
  match s with
  | .compound body =>
    rw [Statement.locals, Statement.skeleton, Indexer.walkStatement]
    exact (stores_walkLocalDeclarations body.declarations).append (stores_walkBlock _ body)
  | .expression e =>
    rw [Statement.locals, Statement.skeleton]
    cases assignmentOf (expressionStatementCst loc e) with
    | none => exact Stores.none rfl
    | some a => exact stores_walkAssignment a
  | .ifThen condition consequent => exact stores_walkStatement P consequent
  | .ifElse condition consequent alternate =>
    exact (stores_walkStatement P consequent).append (stores_walkStatement _ alternate)
  | .switch selector body => exact stores_walkStatement P body
  | .while condition body => exact stores_walkStatement P body
  | .doWhile body condition => exact stores_walkStatement P body
  | .forDeclaration d condition step body =>
    refine (stores_walkStatement P body).of_not_recorded fun v member => ?_
    obtain ⟨x, -, rfl⟩ := List.mem_map.1 member
    rfl
  | .forExpression init condition step body => exact stores_walkStatement P body
  | .jump children => exact Stores.none rfl
  | .labeled children => exact Stores.none rfl
  | .macroCall tokens => exact Stores.none rfl

theorem stores_walkBlock (P : FileParse) (b : Block) :
    Stores fn b.nested P (Indexer.walkStatements fn filePath P (b.skeletons loc)) := by
  match b with
  | .nil => exact Stores.none rfl
  | .declaration d rest => exact stores_walkBlock P rest
  | .statement s rest => exact (stores_walkStatement P s).append (stores_walkBlock _ rest)

end

theorem stores_walkFunctionDefinition (f : FunctionDefinition) :
    Stores f.name f.locals P (walkFunctionDefinition filePath P (f.cst loc)) := by
  unfold FunctionDefinition.locals FunctionDefinition.name
  cases shape : f.declarator with
  | nested stars inner suffixes =>
    rw [walkFunctionDefinition_nested loc shape, if_neg (by exact Bool.false_ne_true),
      ← List.append_nil (List.map _ _)]
    refine (Stores.none rfl).of_not_recorded fun v member => ?_
    obtain ⟨w, -, rfl⟩ := List.mem_map.1 member
    rfl
  | name stars id suffixes =>
    rw [walkFunctionDefinition_name loc shape, if_pos (by rfl), walkStatement_cst]
    have entered : ∀ isStatic parameters, Stores id.image [] P
        (Indexer.walkFunctionDefinition filePath P
          ⟨id.image, loc.startLine, isStatic, parameters, .other⟩) := by
      intro isStatic parameters
      apply Stores.none
      unfold Indexer.walkFunctionDefinition
      rw [if_neg id.nonempty]
      rfl
    exact (entered _ _).append (stores_walkStatement loc _ (.compound f.body))

/-- The functions of a file store their locals. -/
theorem localVariables_walk (functions : List FunctionDefinition) (fn : String) :
    localVariables ((functions.map (FunctionDefinition.cst loc)).foldl
        (walkFunctionDefinition filePath) P) fn =
      (localsOf functions fn).foldl (fun m v => v.store m) (localVariables P fn) := by
  induction functions generalizing P with
  | nil => rfl
  | cons f functions ih =>
    have stored : Stores f.name f.locals P (walkFunctionDefinition filePath P (f.cst loc)) :=
      stores_walkFunctionDefinition loc f
    have parts : localsOf (f :: functions) fn =
        (if f.name = fn then f.locals else []) ++ localsOf functions fn := List.flatMap_cons
    rw [List.map_cons, List.foldl_cons, ih, stored fn, parts, List.foldl_append]
    by_cases same : f.name = fn
    · rw [if_pos same, if_pos same.symm]
    · rw [if_neg same, if_neg (Ne.symm same)]

end Statements

end Walk

section Recorded

variable {vs : List Local} {k : String}

theorem foldl_store (vs : List Local) (m : OrderedMap String TypeInfo) :
    vs.foldl (fun m v => v.store m) m =
      (vs.filter Local.isRecorded).foldl (fun m v => m.set v.name v.record) m := by
  rw [List.foldl_filter]
  rfl

theorem get_stores_of_apart (apart : ∀ v ∈ vs, v.isRecorded = true → v.name ≠ k)
    (m : OrderedMap String TypeInfo) :
    (vs.foldl (fun m v => v.store m) m).get k = m.get k := by
  rw [foldl_store]
  apply OrderedMap.get_foldl_set_of_not_mem
  intro present
  obtain ⟨v, kept, same⟩ := List.mem_map.1 present
  exact apart v (List.mem_filter.1 kept).1 (List.mem_filter.1 kept).2 same

theorem get_stores_of_mem (stored : ∃ v ∈ vs, v.isRecorded = true ∧ v.name = k)
    (m : OrderedMap String TypeInfo) :
    ∃ v ∈ vs, v.isRecorded = true ∧ v.name = k ∧
      (vs.foldl (fun m v => v.store m) m).get k = some v.record := by
  obtain ⟨v, member, recorded, same⟩ := stored
  have present : k ∈ (vs.filter Local.isRecorded).map Local.name :=
    List.mem_map.2 ⟨v, List.mem_filter.2 ⟨member, recorded⟩, same⟩
  rw [foldl_store]
  obtain ⟨w, kept, same, got⟩ := OrderedMap.get_foldl_set_of_key_mem present Local.record m
  exact ⟨w, (List.mem_filter.1 kept).1, (List.mem_filter.1 kept).2, same, got⟩

/-- What is stored under a name comes from a local with that name. -/
theorem mem_of_get_stores {ti : TypeInfo}
    (got : (vs.foldl (fun m v => Local.store v m) OrderedMap.empty).get k = some ti) :
    ∃ v ∈ vs, v.isRecorded = true ∧ v.name = k ∧ v.record = ti := by
  by_cases stored : ∃ v ∈ vs, v.isRecorded = true ∧ v.name = k
  · obtain ⟨v, member, recorded, same, last⟩ := get_stores_of_mem stored .empty
    exact ⟨v, member, recorded, same, Option.some.inj (last.symm.trans got)⟩
  · rw [get_stores_of_apart fun v member recorded same => stored ⟨v, member, recorded, same⟩] at got
    cases got

end Recorded

section Types

variable {types : String → Bool} {v : Local}

/-- The visitor's type is the named one exactly if the name of that type comes first. -/
theorem specifiedType_eq_typeName_iff (named : v.typeName types ≠ "") :
    specifiedType v.specifiers = v.typeName types ↔ v.isTypeFirst types = true := by
  rw [specifiedType_eq]
  unfold Local.isTypeFirst Local.typeName at *
  change v.names.head?.getD "" = _ ↔ _
  cases split : v.names with
  | nil =>
    rw [split] at named
    exact absurd rfl named
  | cons n ns =>
    rw [split] at named
    by_cases first : types n = true
    · simp [first]
    · rw [List.find?_cons_of_neg first] at named ⊢
      cases found : ns.find? types with
      | none =>
        rw [found] at named
        exact absurd rfl named
      | some t =>
        have isType : types t = true := List.find?_some found
        have other : n ≠ t := fun same => first (same ▸ isType)
        simp [first, other]

/-- A local whose recorded type is the name of a type declares something. -/
theorem isDeclared_of_specifiedType (isType : types (specifiedType v.specifiers) = true)
    (named : specifiedType v.specifiers ≠ "") : v.isDeclared types = true := by
  unfold specifiedType at isType named
  cases found : v.specifiers.findSome? Specifier.name with
  | none =>
    rw [found] at named
    exact absurd rfl named
  | some n =>
    obtain ⟨s, member, itsName⟩ := List.exists_of_findSome?_eq_some found
    rw [found] at isType
    exact List.any_eq_true.2 ⟨s, member, by rw [itsName]; exact isType⟩

theorem types_typeName (named : v.typeName types ≠ "") : types (v.typeName types) = true := by
  unfold Local.typeName at *
  cases found : v.names.find? types with
  | none =>
    rw [found] at named
    exact absurd rfl named
  | some t => exact List.find?_some found

theorem record_eq_info_iff (named : v.typeName types ≠ "") :
    v.record = v.info types ↔ v.isConstSpecified = true ∧ v.isTypeFirst types = true := by
  rw [← specifiedType_eq_typeName_iff named]
  unfold Local.record Local.isConstSpecified Local.info
  cases v.specifiers.any Specifier.isConst <;> cases v.declarator.isConst <;> simp

end Types

section Known

/-- The walk of the functions of a file, after that of its other declarations. -/
def walkFunctions (filePath : String) (others : SourceFile) (functions : List Cst) : FileParse :=
  functions.foldl (walkFunctionDefinition filePath)
    (Indexer.walkTranslationUnit filePath { others with functions := [] })

variable (types : String → Bool) (filePath : String) (others : SourceFile) (loc : Location)
  (functions : List FunctionDefinition) (fn : String)

theorem localVariables_walkFunctions :
    localVariables (walkFunctions filePath others (functions.map (FunctionDefinition.cst loc))) fn =
      (localsOf functions fn).foldl (fun m v => v.store m) .empty :=
  localVariables_walk loc functions fn

/-- A variable with a named type and a name declared once in the function is known with its
type, pointer, const and array flags exactly if its declaration is neither in the initialiser
of a `for` nor in a function whose name is in parentheses, its own name is not in parentheses
either, `const` does not stand behind a star only, no `register` or `auto` stands before the
name of its type, and nothing that only reads as another declaration of it, as a product of
two names does, comes later on. Nothing else is in the map. -/
theorem locals_known_iff :
    (∀ before v after, localsOf functions fn = before ++ v :: after →
      v.typeName types ≠ "" →
      (∀ w ∈ before ++ after, w.isDeclared types = true → w.name ≠ v.name) →
      ((localVariables (walkFunctions filePath others (functions.map (FunctionDefinition.cst loc)))
          fn).get v.name = some (v.info types) ↔
        v.isVisited = true ∧ v.declarator.isPlain = true ∧ v.isConstSpecified = true ∧
          v.isTypeFirst types = true ∧ ∀ w ∈ after, w.isRecorded = true → w.name ≠ v.name)) ∧
    ∀ x ti, (localVariables (walkFunctions filePath others
        (functions.map (FunctionDefinition.cst loc))) fn).get x = some ti →
      ∃ v ∈ localsOf functions fn, v.name = x ∧ v.record = ti := by
  rw [localVariables_walkFunctions]
  refine ⟨fun before v after parts named once => ?_, fun x ti got => ?_⟩
  · have other : ∀ w ∈ before ++ after, w.record = v.info types → w.name ≠ v.name := by
      intro w member same
      have sameType : specifiedType w.specifiers = v.typeName types :=
        congrArg TypeInfo.typeName same
      refine once w member (isDeclared_of_specifiedType ?_ ?_)
      · rw [sameType, types_typeName named]
      · rwa [sameType]
    constructor
    · intro got
      have last : ∀ w ∈ after, w.isRecorded = true → w.name ≠ v.name := by
        intro w member recorded same
        rw [parts, List.foldl_append, List.foldl_cons] at got
        obtain ⟨u, found, -, sameName, stored⟩ := get_stores_of_mem ⟨w, member, recorded, same⟩
          (v.store (before.foldl (fun m v => v.store m) OrderedMap.empty))
        have sameInfo : u.record = v.info types := Option.some.inj (stored.symm.trans got)
        exact other u (List.mem_append_right before found) sameInfo sameName
      obtain ⟨w, member, recorded, sameName, sameInfo⟩ := mem_of_get_stores got
      rw [parts, List.mem_append, List.mem_cons] at member
      rcases member with early | rfl | late
      · exact absurd sameName (other w (List.mem_append_left after early) sameInfo)
      · unfold Local.isRecorded at recorded
        rw [Bool.and_eq_true, Bool.and_eq_true] at recorded
        obtain ⟨specified, first⟩ := (record_eq_info_iff named).1 sameInfo
        exact ⟨recorded.1.1, recorded.1.2, specified, first, last⟩
      · exact absurd sameName (last w late recorded)
    · rintro ⟨visited, plain, specified, first, last⟩
      have typed : specifiedType v.specifiers ≠ "" := by
        rwa [(specifiedType_eq_typeName_iff named).2 first]
      have recorded : v.isRecorded = true := by
        unfold Local.isRecorded
        rw [visited, plain, decide_eq_true typed]
        rfl
      rw [parts, List.foldl_append, List.foldl_cons, get_stores_of_apart last, Local.store,
        if_pos recorded, OrderedMap.get_set_self, (record_eq_info_iff named).2 ⟨specified, first⟩]
  · obtain ⟨v, member, -, sameName, sameInfo⟩ := mem_of_get_stores got
    exact ⟨v, member, sameName, sameInfo⟩

/-- `for (JUNO_TIME_T *ptTime = ptHead; ptTime; ) ;` -/
def loopBody : Block :=
  .statement (.forDeclaration
    ⟨[.typeName ⟨"JUNO_TIME_T", by decide⟩], [(.name [[]] ⟨"ptTime", by decide⟩ [], some [])]⟩
    (some []) none (.expression none)) .nil

def loopFunction : FunctionDefinition where
  specifiers := [.builtin "primitiveType" []]
  declarator := .name [] ⟨"Run", by decide⟩ [.function []]
  body := loopBody

def noDeclarations : SourceFile where
  moduleRoots := []
  traitRoots := []
  derivations := []
  apiStructDefinitions := []
  vtableAssignments := []
  pendingPositionalVtables := []
  apiMemberRegistry := .empty
  functions := []

theorem for_local_lost :
    ∃ v, localsOf [loopFunction] "Run" = [v] ∧
      v.info (fun n => decide (n = "JUNO_TIME_T")) = ⟨"ptTime", "JUNO_TIME_T", true, false, false⟩ ∧
      (localVariables (walkFunctions "/test/file.c" noDeclarations
        [loopFunction.cst ⟨0, 0, 1⟩]) "Run").get "ptTime" = none :=
  ⟨_, rfl, by decide, by decide⟩

end Known

end LibJuno.Parser
