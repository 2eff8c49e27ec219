import Mathlib.Logic.Relation
import LibJuno.Indexer.WorkspaceIndexer

/-!
# Queries that both resolvers make

`resolver/resolverUtils.ts` and the result type. `findEnclosingFunction` is with the
indexer, which calls it too. The walk up the derivation chain marks the types it has
visited, so one round more than there are derivations is enough.
-/

namespace LibJuno.Resolver

open Indexer

structure VtableResolutionResult where
  found : Bool
  locations : List ConcreteLocation
  errorMsg : Option String
deriving DecidableEq

/-- `{ found: false, locations: [], errorMsg }` -/
def VtableResolutionResult.notFound (errorMsg : String) : VtableResolutionResult :=
  ⟨false, [], some errorMsg⟩

/-- `{ found: true, locations }` -/
def VtableResolutionResult.located (locations : List ConcreteLocation) : VtableResolutionResult :=
  ⟨true, locations, none⟩

/-- The type of a variable in a function of a file: locals first, then parameters. -/
def lookupIn (fileInfo : LocalTypeInfo) (funcName varName : String) : Option TypeInfo :=
  match (fileInfo.localVariables.get funcName).bind fun locals => locals.get varName with
  | some ti => some ti
  | none =>
    (fileInfo.functionParameters.get funcName).bind fun params =>
      params.find? fun p => decide (p.name = varName)

def lookupVariableType (index : NavigationIndex) (file funcName varName : String) :
    Option TypeInfo :=
  (index.localTypeInfo.get file).bind fun fileInfo => lookupIn fileInfo funcName varName

/-- The loop of `walkToRootType`, for a number of rounds. -/
def walkUp (chain : OrderedMap String String) : Nat → List String → String → String
  | 0, _, current => current
  | fuel + 1, visited, current =>
    match chain.get current with
    | some parent => if current ∈ visited then current else walkUp chain fuel (current :: visited) parent
    | none => current

def walkToRootType (index : NavigationIndex) (typeName : String) : String :=
  walkUp index.derivationChain (index.derivationChain.entries.length + 1) [] typeName

/-- `(?:->|\.)` -/
def accessOp : Regex UInt16 := .alt (Pattern.text "->") (Pattern.text ".")

/-- The pattern of a member access. -/
def memberRe : Regex UInt16 := .chain [accessOp, Pattern.spaces, .group 1 Pattern.word]

def parseIntermediates (chainStr : CodeUnits) : List String :=
  if chainStr.all isSpace then []
  else (Regex.execAll chainStr memberRe).map fun m => ofUnits ((m.group chainStr 1).getD [])

section Walk

/-- `parent` is recorded as the type that the other one derives from. -/
def DerivesDirectly (chain : OrderedMap String String) (typeName parent : String) : Prop :=
  chain.get typeName = some parent

instance (chain : OrderedMap String String) (typeName parent : String) :
    Decidable (DerivesDirectly chain typeName parent) :=
  inferInstanceAs (Decidable (chain.get typeName = some parent))

/-- The type or a type that it derives from, over any number of steps. -/
def Ancestor (chain : OrderedMap String String) : String → String → Prop :=
  Relation.ReflTransGen (DerivesDirectly chain)

variable {chain : OrderedMap String String}

theorem mem_keys_of_get {current parent : String} (h : chain.get current = some parent) :
    current ∈ chain.keys := by
  unfold OrderedMap.get at h
  obtain ⟨e, found, -⟩ := Option.map_eq_some_iff.1 h
  have key : e.1 = current := by simpa using List.find?_some found
  exact key ▸ List.mem_map_of_mem (List.mem_of_find?_eq_some found)

end Walk

end LibJuno.Resolver
