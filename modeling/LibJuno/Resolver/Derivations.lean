import LibJuno.Lib.Ancestry
import LibJuno.Lib.Loop
import LibJuno.Resolver.FailureHandlerResolver

/-!
# Walks up the derivation chain

The loops of `walkToRootType` and `lookupHandlersByType` turn by turn. Both mark the types that
they pass, so each ends on every chain, a cyclic one too. The rounds that the two functions
are given are enough for it. Nothing on an acyclic chain is passed twice, so the first loop
stops at the end of the chain; the second one stops at the first type with handlers.
-/

namespace LibJuno.Resolver

open Indexer Ancestry

section Turns

/-- The variables of `walkToRootType`. -/
structure RootWalk where
  current : String
  visited : List String

/-- `while (derivationChain.has(current) && !visited.has(current))` -/
def rootTurn (chain : OrderedMap String String) (w : RootWalk) : Turn RootWalk :=
  match chain.get w.current with
  | some parent =>
    if w.current ∈ w.visited then .stop w else .next ⟨parent, w.current :: w.visited⟩
  | none => .stop w

/-- The variables of `lookupHandlersByType` and what it returns. -/
structure HandlerWalk where
  current : Option String
  visited : List String
  found : Option (List ConcreteLocation)

/-- `while (current !== undefined && !visited.has(current))` -/
def handlersTurn (index : NavigationIndex) (w : HandlerWalk) : Turn HandlerWalk :=
  match w.current with
  | none => .stop w
  | some current =>
    if current ∈ w.visited then .stop w
    else
      let visited := current :: w.visited
      match (index.failureHandlerAssignments.get current).filter (· ≠ []) with
      | some locations => .stop { w with visited, found := some locations }
      | none => .next { w with visited, current := index.derivationChain.get current }

/-- A list of handlers that is not empty is filed under the type. -/
def HasHandlers (index : NavigationIndex) (t : String) : Prop :=
  index.failureHandlerAssignments.listAt t ≠ []

theorem filter_get_of_hasHandlers {index : NavigationIndex} {t : String} (filed : HasHandlers index t) :
    (index.failureHandlerAssignments.get t).filter (· ≠ []) =
      some (index.failureHandlerAssignments.listAt t) := by
  unfold HasHandlers OrderedMap.listAt at filed
  unfold OrderedMap.listAt
  cases here : index.failureHandlerAssignments.get t with
  | none => exact absurd (by rw [here]; rfl) filed
  | some locations =>
    rw [here] at filed
    exact Option.filter_some_pos (by simpa using filed)

theorem filter_get_of_not_hasHandlers {index : NavigationIndex} {t : String}
    (none_filed : ¬HasHandlers index t) :
    (index.failureHandlerAssignments.get t).filter (· ≠ []) = none := by
  rw [Option.filter_eq_none_iff]
  intro locations here
  unfold HasHandlers OrderedMap.listAt at none_filed
  rw [here] at none_filed
  simpa using none_filed

/-- What a turn of the first loop does. -/
theorem rootTurn_cases (chain : OrderedMap String String) (w : RootWalk) :
    (∃ parent, chain.get w.current = some parent ∧ w.current ∉ w.visited ∧
      rootTurn chain w = .next ⟨parent, w.current :: w.visited⟩) ∨
    (chain.get w.current = none ∨ w.current ∈ w.visited) ∧ rootTurn chain w = .stop w := by
  unfold rootTurn
  cases up : chain.get w.current with
  | none => exact .inr ⟨.inl rfl, rfl⟩
  | some parent =>
    by_cases again : w.current ∈ w.visited
    · exact .inr ⟨.inr again, if_pos again⟩
    · exact .inl ⟨parent, rfl, again, if_neg again⟩

/-- What a turn of the second loop does: it goes on, it finds handlers, or it is over. -/
theorem handlersTurn_cases (index : NavigationIndex) (w : HandlerWalk) :
    (∃ current, w.current = some current ∧ current ∉ w.visited ∧ ¬HasHandlers index current ∧
      handlersTurn index w =
        .next ⟨index.derivationChain.get current, current :: w.visited, w.found⟩) ∨
    (∃ current, w.current = some current ∧ current ∉ w.visited ∧ HasHandlers index current ∧
      handlersTurn index w = .stop ⟨some current, current :: w.visited,
        some (index.failureHandlerAssignments.listAt current)⟩) ∨
    (∀ current, w.current = some current → current ∈ w.visited) ∧ handlersTurn index w = .stop w := by
  obtain ⟨current, visited, found⟩ := w
  unfold handlersTurn
  cases current with
  | none => exact .inr (.inr ⟨nofun, rfl⟩)
  | some current =>
    dsimp only
    by_cases again : current ∈ visited
    · exact .inr (.inr ⟨fun _ same => Option.some.inj same ▸ again, if_pos again⟩)
    · rw [if_neg again]
      by_cases filed : HasHandlers index current
      · rw [filter_get_of_hasHandlers filed]
        exact .inr (.inl ⟨current, rfl, again, filed, rfl⟩)
      · rw [filter_get_of_not_hasHandlers filed]
        exact .inl ⟨current, rfl, again, filed, rfl⟩

end Turns

section Ending

variable {chain : OrderedMap String String} {index : NavigationIndex}

/-- A type with a parent that is marked was one of the keys left. -/
theorem unmarked_lt {current parent : String} {visited : List String}
    (up : chain.get current = some parent) (fresh : current ∉ visited) :
    unmarked chain.keys (current :: visited) < unmarked chain.keys visited :=
  unmarked_cons_lt (mem_keys_of_get up) fresh

theorem unmarked_keys : unmarked chain.keys [] < chain.entries.length + 1 := by
  rw [unmarked_nil, OrderedMap.keys, List.length_map]
  exact Nat.lt_succ_self _

theorem rootTurn_ends (w : RootWalk) : ∃ r, Ends (rootTurn chain) w r := by
  refine Ends.of_measure (fun w => unmarked chain.keys w.visited) ?_ w
  intro w w' step
  obtain ⟨parent, up, fresh, next⟩ | ⟨-, stop⟩ := rootTurn_cases chain w
  · obtain rfl := Turn.next.inj (next.symm.trans step)
    exact unmarked_lt up fresh
  · cases stop.symm.trans step

/-- A type without a parent may be marked last, and is followed by none. -/
theorem handlersTurn_ends (w : HandlerWalk) : ∃ r, Ends (handlersTurn index) w r := by
  refine Ends.of_measure
    (fun w => unmarked index.derivationChain.keys w.visited + w.current.toList.length) ?_ w
  intro w w' step
  obtain ⟨current, here, fresh, -, next⟩ | ⟨current, here, fresh, filed, stop⟩ | ⟨-, stop⟩ :=
    handlersTurn_cases index w
  · obtain rfl := Turn.next.inj (next.symm.trans step)
    dsimp only
    rw [here]
    cases up : index.derivationChain.get current with
    | none =>
      have le := unmarked_cons_le index.derivationChain.keys w.visited current
      exact Nat.lt_succ_of_le le
    | some parent => exact Nat.succ_lt_succ (unmarked_lt up fresh)
  · cases stop.symm.trans step
  · cases stop.symm.trans step

/-- The rounds of `walkToRootType` are the turns of its loop. -/
theorem walkUp_of_ends {fuel : Nat} {visited : List String} {current : String} {w : RootWalk}
    (enough : unmarked chain.keys visited < fuel) (ends : Ends (rootTurn chain) ⟨current, visited⟩ w) :
    walkUp chain fuel visited current = w.current := by
  induction fuel generalizing visited current with
  | zero => exact absurd enough (Nat.not_lt_zero _)
  | succ fuel ih =>
    rw [walkUp]
    obtain ⟨parent, up, fresh, next⟩ | ⟨ended, stop⟩ := rootTurn_cases chain ⟨current, visited⟩
    · rw [up]
      dsimp only
      rw [if_neg fresh]
      exact ih (Nat.lt_of_lt_of_le (unmarked_lt up fresh) (Nat.le_of_lt_succ enough))
        ((Ends.next_iff next).1 ends)
    · rw [(Ends.stop_iff stop).1 ends]
      cases up : chain.get current with
      | none => rfl
      | some parent =>
        rcases ended with last | again
        · cases last.symm.trans up
        · exact if_pos again

/-- The rounds of `lookupHandlersByType` are the turns of its loop. -/
theorem handlersUp_of_ends {fuel : Nat} {visited : List String} {current : String}
    {w : HandlerWalk} (enough : unmarked index.derivationChain.keys visited < fuel)
    (ends : Ends (handlersTurn index) ⟨some current, visited, none⟩ w) :
    handlersUp index fuel visited current = w.found.getD [] := by
  induction fuel generalizing visited current with
  | zero => exact absurd enough (Nat.not_lt_zero _)
  | succ fuel ih =>
    rw [handlersUp]
    obtain ⟨_, ⟨⟩, fresh, none_filed, next⟩ | ⟨_, ⟨⟩, fresh, filed, stop⟩ | ⟨again, stop⟩ :=
      handlersTurn_cases index ⟨some current, visited, none⟩
    · rw [if_neg fresh, not_not.1 none_filed]
      dsimp only
      rw [Ends.next_iff next] at ends
      cases up : index.derivationChain.get current with
      | none =>
        -- the loop is over in the turn after
        have last : handlersTurn index ⟨none, current :: visited, none⟩ =
            .stop ⟨none, current :: visited, none⟩ := rfl
        rw [up] at ends
        rw [(Ends.stop_iff last).1 ends]
        rfl
      | some parent =>
        rw [up] at ends
        exact ih (Nat.lt_of_lt_of_le (unmarked_lt up fresh) (Nat.le_of_lt_succ enough)) ends
    · rw [if_neg fresh, (Ends.stop_iff stop).1 ends, Option.getD_some]
      split
      · next empty => exact absurd empty filed
      · rfl
    · rw [if_pos (again current rfl), (Ends.stop_iff stop).1 ends]
      rfl

theorem walkToRootType_ends (index : NavigationIndex) (typeName : String) :
    ∃ w, Ends (rootTurn index.derivationChain) ⟨typeName, []⟩ w ∧
      walkToRootType index typeName = w.current := by
  obtain ⟨w, ends⟩ := rootTurn_ends ⟨typeName, []⟩
  exact ⟨w, ends, walkUp_of_ends unmarked_keys ends⟩

theorem lookupHandlersByType_ends (index : NavigationIndex) (typeName : String) :
    ∃ w, Ends (handlersTurn index) ⟨some typeName, [], none⟩ w ∧
      lookupHandlersByType index typeName = w.found.getD [] := by
  obtain ⟨w, ends⟩ := handlersTurn_ends ⟨some typeName, [], none⟩
  exact ⟨w, ends, handlersUp_of_ends unmarked_keys ends⟩

end Ending

section Reaching

variable {chain : OrderedMap String String} {index : NavigationIndex} {typeName : String}

/-- The walk is on the chain from the type and has marked what is below. -/
def RootWalk.Along (chain : OrderedMap String String) (typeName : String) (w : RootWalk) : Prop :=
  ∃ n, up chain.get n typeName = some w.current ∧ Marks chain.get typeName n w.visited

/-- The same of the other loop, which may be past the end; nothing has been found below. -/
structure HandlerWalk.Along (index : NavigationIndex) (typeName : String) (w : HandlerWalk) : Prop where
  marks : ∃ n, up index.derivationChain.get n typeName = w.current ∧
    Marks index.derivationChain.get typeName n w.visited
  unfiled : ∀ t ∈ w.visited, ¬HasHandlers index t
  nothing : w.found = none

theorem RootWalk.Along.next {w w' : RootWalk} (along : w.Along chain typeName)
    (step : rootTurn chain w = .next w') : w'.Along chain typeName := by
  obtain ⟨n, here, marks⟩ := along
  obtain ⟨parent, derives, -, next⟩ | ⟨-, stop⟩ := rootTurn_cases chain w
  · obtain rfl := Turn.next.inj (next.symm.trans step)
    refine ⟨n + 1, ?_, marks.cons here⟩
    rw [up, here, Option.bind_some, derives]
  · cases stop.symm.trans step

theorem HandlerWalk.Along.next {w w' : HandlerWalk} (along : w.Along index typeName)
    (step : handlersTurn index w = .next w') : w'.Along index typeName := by
  obtain ⟨n, here, marks⟩ := along.marks
  obtain ⟨current, at_, -, none_filed, next⟩ | ⟨_, _, _, _, stop⟩ | ⟨-, stop⟩ :=
    handlersTurn_cases index w
  · obtain rfl := Turn.next.inj (next.symm.trans step)
    rw [at_] at here
    refine ⟨⟨n + 1, ?_, marks.cons here⟩, ?_, along.nothing⟩
    · rw [up, here, Option.bind_some]
    · intro t member
      rcases List.mem_cons.1 member with rfl | member
      · exact none_filed
      · exact along.unfiled t member
  · cases stop.symm.trans step
  · cases stop.symm.trans step

/-- The first loop stops on the chain, at its end or at a type that is above itself. -/
theorem current_of_ends {w : RootWalk} (ends : Ends (rootTurn chain) ⟨typeName, []⟩ w) :
    Ancestor chain typeName w.current ∧
      (chain.get w.current = none ∨ Relation.TransGen (DerivesDirectly chain) w.current w.current) := by
  have start : RootWalk.Along chain typeName ⟨typeName, []⟩ := ⟨0, rfl, marks_nil⟩
  obtain ⟨w', ⟨n, here, marks⟩, stopped⟩ := ends.last (fun _ _ along => along.next) start
  obtain ⟨parent, _, _, next⟩ | ⟨last | again, stop⟩ := rootTurn_cases chain w'
  · cases next.symm.trans stopped
  · obtain rfl := Turn.stop.inj (stop.symm.trans stopped)
    exact ⟨above_iff.2 ⟨n, here⟩, .inl last⟩
  · obtain rfl := Turn.stop.inj (stop.symm.trans stopped)
    exact ⟨above_iff.2 ⟨n, here⟩, .inr (marks.cycle here again)⟩

/-- The second loop stops at the nearest type with handlers, or none on the chain has any. -/
theorem found_of_ends {w : HandlerWalk} (ends : Ends (handlersTurn index) ⟨some typeName, [], none⟩ w) :
    (∃ t, Nearest index.derivationChain.get (HasHandlers index) typeName t ∧
      w.found = some (index.failureHandlerAssignments.listAt t)) ∨
    w.found = none ∧ ∀ t, Ancestor index.derivationChain typeName t → ¬HasHandlers index t := by
  have start : HandlerWalk.Along index typeName ⟨some typeName, [], none⟩ :=
    ⟨⟨0, rfl, marks_nil⟩, nofun, rfl⟩
  obtain ⟨w', along, stopped⟩ := ends.last (fun _ _ along => along.next) start
  obtain ⟨n, here, marks⟩ := along.marks
  obtain ⟨_, _, _, _, next⟩ | ⟨current, at_, -, filed, stop⟩ | ⟨again, stop⟩ :=
    handlersTurn_cases index w'
  · cases next.symm.trans stopped
  · obtain rfl := Turn.stop.inj (stop.symm.trans stopped)
    refine .inl ⟨current, ⟨n, here.trans at_, filed, ?_⟩, rfl⟩
    intro k before u passed
    exact along.unfiled u ((marks u).2 ⟨k, before, passed⟩)
  · obtain rfl := Turn.stop.inj (stop.symm.trans stopped)
    refine .inr ⟨along.nothing, fun t above => along.unfiled t ?_⟩
    cases at_ : w'.current with
    | none => exact marks.of_last (here.trans at_) above
    | some current => exact marks.of_again (here.trans at_) (again current at_) above

/-- What is found is the list of the nearest type. -/
theorem found_iff {w : HandlerWalk} (ends : Ends (handlersTurn index) ⟨some typeName, [], none⟩ w)
    (locations : List ConcreteLocation) : w.found = some locations ↔
      ∃ t, Nearest index.derivationChain.get (HasHandlers index) typeName t ∧
        index.failureHandlerAssignments.listAt t = locations := by
  obtain ⟨t, nearest, found⟩ | ⟨found, unfiled⟩ := found_of_ends ends
  · rw [found, Option.some_inj]
    constructor
    · intro same
      exact ⟨t, nearest, same⟩
    · rintro ⟨t', nearest', same⟩
      rw [nearest.unique nearest']
      exact same
  · rw [found]
    constructor
    · nofun
    · rintro ⟨t, nearest, -⟩
      exact absurd nearest.holds (unfiled t nearest.above)

theorem found_none_iff {w : HandlerWalk} (ends : Ends (handlersTurn index) ⟨some typeName, [], none⟩ w) :
    w.found = none ↔ ∀ t, Ancestor index.derivationChain typeName t → ¬HasHandlers index t := by
  obtain ⟨t, nearest, found⟩ | ⟨found, unfiled⟩ := found_of_ends ends
  · rw [found]
    constructor
    · nofun
    · intro unfiled
      exact absurd nearest.holds (unfiled t nearest.above)
  · exact ⟨fun _ => unfiled, fun _ => found⟩

/-- The topmost type is the type or an ancestor of it, without a parent or above itself. -/
theorem ancestor_walkToRootType (index : NavigationIndex) (typeName : String) :
    Ancestor index.derivationChain typeName (walkToRootType index typeName) ∧
      (index.derivationChain.get (walkToRootType index typeName) = none ∨
        Relation.TransGen (DerivesDirectly index.derivationChain) (walkToRootType index typeName)
          (walkToRootType index typeName)) := by
  obtain ⟨w, ends, same⟩ := walkToRootType_ends index typeName
  rw [same]
  exact current_of_ends ends

/-- On an acyclic chain it is the end of the chain. -/
theorem isTop_walkToRootType (acyclic : AcyclicFrom index.derivationChain.get typeName) :
    IsTop index.derivationChain.get typeName (walkToRootType index typeName) := by
  obtain ⟨above, last | cycle⟩ := ancestor_walkToRootType index typeName
  · exact ⟨above, last⟩
  · exact absurd cycle (acyclic _ above)

/-- Each walk ends. On an acyclic chain the first one gives the only end of the chain, so it
gives the same for itself and for a parent. The second one gives the handlers of the nearest
type that has any, and none exactly when no type has. -/
theorem derivation_walks (index : NavigationIndex) (typeName : String) :
    (∃ w, Ends (rootTurn index.derivationChain) ⟨typeName, []⟩ w ∧
      walkToRootType index typeName = w.current) ∧
    (∃ w, Ends (handlersTurn index) ⟨some typeName, [], none⟩ w ∧
      lookupHandlersByType index typeName = w.found.getD [] ∧
      (∀ locations, w.found = some locations ↔
        ∃ t, Nearest index.derivationChain.get (HasHandlers index) typeName t ∧
          index.failureHandlerAssignments.listAt t = locations) ∧
      (w.found = none ↔
        ∀ t, Ancestor index.derivationChain typeName t → ¬HasHandlers index t)) ∧
    (AcyclicFrom index.derivationChain.get typeName →
      (∀ t, Ancestor index.derivationChain typeName t ∧ index.derivationChain.get t = none ↔
        t = walkToRootType index typeName) ∧
      walkToRootType index (walkToRootType index typeName) = walkToRootType index typeName ∧
      ∀ parent, DerivesDirectly index.derivationChain typeName parent →
        walkToRootType index parent = walkToRootType index typeName) := by
  refine ⟨walkToRootType_ends index typeName, ?_, ?_⟩
  · obtain ⟨w, ends, same⟩ := lookupHandlersByType_ends index typeName
    exact ⟨w, ends, same, found_iff ends, found_none_iff ends⟩
  · intro acyclic
    have top := isTop_walkToRootType acyclic
    refine ⟨?_, ?_, ?_⟩
    · intro t
      constructor
      · intro top'
        exact IsTop.unique top' top
      · rintro rfl
        exact top
    · have own : IsTop index.derivationChain.get (walkToRootType index typeName)
          (walkToRootType index typeName) := ⟨.refl, top.2⟩
      exact (isTop_walkToRootType (acyclic.above top.1)).unique own
    · intro parent derives
      have above : Above index.derivationChain.get typeName parent := .single derives
      exact ((isTop_walkToRootType (acyclic.above above)).of_above above).unique top

/-- A heap that derives from a root in two steps; a handler is filed under the root. -/
def heapIndex : NavigationIndex :=
  { createEmptyIndex with
    derivationChain := (OrderedMap.empty.set "JUNO_DS_HEAP_IMPL_T" "JUNO_DS_HEAP_DERIVE_T").set
      "JUNO_DS_HEAP_DERIVE_T" "JUNO_DS_HEAP_ROOT_T"
    failureHandlerAssignments := OrderedMap.empty.set "JUNO_DS_HEAP_ROOT_T"
      [⟨"OnFail", "/w/heap.c", 7, none, none, none, none, none, none, none, none⟩] }

theorem acyclicFrom_heapIndex (t : String) : AcyclicFrom heapIndex.derivationChain.get t := by
  refine acyclicFrom_of_rank (fun t =>
    if t = "JUNO_DS_HEAP_IMPL_T" then 2 else if t = "JUNO_DS_HEAP_DERIVE_T" then 1 else 0) ?_ t
  intro a b derives
  rw [heapIndex, OrderedMap.get_set, OrderedMap.get_set, OrderedMap.get_empty] at derives
  split at derives
  · next derive =>
    subst derive
    obtain rfl := Option.some.inj derives
    decide
  · split at derives
    · next impl =>
      subst impl
      obtain rfl := Option.some.inj derives
      decide
    · cases derives

/-- Nothing of the heap's chain is above itself, and the walks from it end at the root. -/
theorem derivation_walks_heap :
    AcyclicFrom heapIndex.derivationChain.get "JUNO_DS_HEAP_IMPL_T" ∧
      walkToRootType heapIndex "JUNO_DS_HEAP_IMPL_T" = "JUNO_DS_HEAP_ROOT_T" ∧
      walkToRootType heapIndex "JUNO_DS_HEAP_DERIVE_T" = "JUNO_DS_HEAP_ROOT_T" := by
  have acyclic := acyclicFrom_heapIndex "JUNO_DS_HEAP_IMPL_T"
  have above : Ancestor heapIndex.derivationChain "JUNO_DS_HEAP_IMPL_T" "JUNO_DS_HEAP_ROOT_T" :=
    .head (b := "JUNO_DS_HEAP_DERIVE_T") (by decide) (.single (by decide))
  obtain ⟨ends, -, parents⟩ := (derivation_walks heapIndex "JUNO_DS_HEAP_IMPL_T").2.2 acyclic
  have root := (ends "JUNO_DS_HEAP_ROOT_T").1 ⟨above, by decide⟩
  exact ⟨acyclic, root.symm, (parents "JUNO_DS_HEAP_DERIVE_T" (by decide)).trans root.symm⟩

end Reaching

end LibJuno.Resolver
