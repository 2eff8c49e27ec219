import LibJuno.Ds.Heap

/-!
# A heap whose callbacks fail

What `JunoDs_Heap_Insert` and `JunoDs_Heap_Pop` leave behind when a callback fails before the
item is stored, or before the element is removed. Each callback that fails does nothing, as
`HeapArray` has it, and any of them may fail.
-/

namespace LibJuno.Ds

open Memory

section Points

variable {ω : Type} (apis : PointerApis ω)

/-- Insert calls `SetAt`, and that fails: the one callback before the item is stored. -/
def HeapInsertFault (ptHeap : HeapRoot ω) (tValue : Pointer) (w : ω) : Prop :=
  heapVerify ptHeap = .success ∧ ptHeap.zLength < ptHeap.ptHeapArray.deref.zCapacity ∧
    pointerVerify apis tValue = .success ∧
    (ptHeap.ptHeapArray.deref.ptApi.deref.setAt.deref tValue ptHeap.zLength w).1 ≠ .success

/-- The callbacks of a Pop up to the removal. -/
inductive PopPoint where
  | getAt
  | swap
  | copy
  | removeAt
  deriving DecidableEq

/-- Whether the root and the last item have been exchanged by then. -/
def PopPoint.exchanged : PopPoint → Bool
  | .copy | .removeAt => true
  | _ => false

/-- The callback that fails in a Pop before the element is removed, if one does. -/
def heapPopFault (ptHeap : HeapRoot ω) (tReturn : Pointer) (w : ω) : Option PopPoint :=
  let ptArray := ptHeap.ptHeapArray.deref
  if heapVerify ptHeap ≠ .success || ptHeap.zLength = 0 || pointerVerify apis tReturn ≠ .success then none
  else
    let (tPair, w) := heapGetTwo ptArray (ptHeap.zLength - 1) 0 w
    if tPair.tStatus ≠ .success then some .getAt
    else
      let (tEnd, tStart) := tPair.tOk
      let (tStatus, w) := ptHeap.ptHeapPointerApi.deref.swap.deref tEnd tStart w
      if tStatus ≠ .success then some .swap
      else
        let (tStatus, w) := (apis tReturn.ptApi).copy.deref tReturn tEnd w
        if tStatus ≠ .success then some .copy
        else if (ptArray.ptApi.deref.removeAt.deref (ptHeap.zLength - 1) w).1 ≠ .success then some .removeAt
        else none

end Points

variable {ω α : Type} {M : ItemMemory ω α}

section Claims

variable (H : HeapArray M)

/-- The heap is as it was: of the same length, with the same items, in order. -/
structure HeapIntact (h : HeapRoot ω) (w : ω) (h' : HeapRoot ω) (w' : ω) : Prop where
  length : h'.zLength = h.zLength
  items : (HeapOrder.cells (H.at_ w') h.zLength).Perm (HeapOrder.cells (H.at_ w) h.zLength)
  ordered : HeapOrder.Ordered H.Above (H.at_ w') h.zLength 0

/-- An Insert in which `SetAt` fails says so and leaves the heap as it was, and one that
reports success has put the item into the heap. -/
def InsertAtomic (h : HeapRoot ω) (c : Cell M) (w : ω) : Prop :=
  let r := heapInsert M.apis h c.toPointer w
  (HeapInsertFault M.apis h c.toPointer w → r.1 ≠ .success ∧ HeapIntact H h w r.2.1 r.2.2) ∧
    (r.1 = .success → (HeapOrder.cells (H.at_ r.2.2) r.2.1.zLength).Perm
      (M.item w c.pvAddr :: HeapOrder.cells (H.at_ w) h.zLength))

/-- A Pop in which a callback fails before the removal says so and leaves the heap as it was. -/
def PopAtomic (h : HeapRoot ω) (c : H.Client) (w : ω) : Prop :=
  let r := heapPop M.apis h c.toPointer w
  ∀ point, heapPopFault M.apis h c.toPointer w = some point →
    r.1 ≠ .success ∧ HeapIntact H h w r.2.1 r.2.2

end Claims

variable {H : HeapArray M}

/-! ## The callbacks, when they may fail -/

/-- The loop of `heapUpdate` only rearranges the heap, wherever it ends. -/
theorem heapUpdateLoop_rearranges {h : HeapRoot ω} (inv : HeapInv H h) {n i : Nat} (tStatus : Status) (w : ω)
    (pos : 0 < i) (inside : i < h.zLength) :
    Rearranges H h.zLength w (heapUpdateLoop h n i tStatus w).2 := by
  have length := inv.length
  induction n generalizing i tStatus w with
  | zero => exact .of_item rfl
  | succ n ih =>
    have less := HeapOrder.parent_lt pos
    have hi : i < H.zCapacity := by omega
    have hp : HeapOrder.parent i < H.zCapacity := by omega
    obtain ⟨same, slots⟩ := getTwo_effect hi hp w
    rcases got : heapGetTwo H.root i (HeapOrder.parent i) w with ⟨⟨tPair, tOk⟩, w₁⟩
    rw [got] at same slots
    have stays : ¬HeapOrder.parent i ≥ h.zLength := by omega
    simp only [heapUpdateLoop, inv.parent pos (Nat.le_of_lt inside), inv.slots, inv.callbacks, got, ne_eq, not_true_eq_false,
      if_false, if_neg stays]
    by_cases paired : tPair = .success
    swap
    · rw [if_pos paired]
      exact .of_item same
    obtain rfl : tOk = _ := slots paired
    have same' := (H.compare_above (HeapOrder.parent i) i w₁ hp hi).1
    rcases compared : H.pointerApi.compare.deref (H.slot (HeapOrder.parent i)).toPointer
      (H.slot i).toPointer w₁ with ⟨⟨tCompare, above⟩, w₂⟩
    rw [compared] at same'
    replace same' : M.item w₂ = M.item w := same'.trans same
    rw [if_neg (not_not.2 paired)]
    simp only [compared]
    by_cases ok : tCompare = .success
    swap
    · rw [if_pos ok]
      exact .of_item same'
    rw [if_neg (not_not.2 ok)]
    have turned : Rearranges H h.zLength w (if above then (tStatus, w₂)
        else H.pointerApi.swap.deref (H.slot i).toPointer (H.slot (HeapOrder.parent i)).toPointer w₂).2 := by
      cases above with
      | true => exact .of_item same'
      | false =>
        have exchanged := (swap_effect length inside (show HeapOrder.parent i < h.zLength by omega) w₂).1
        exact (Rearranges.of_item same').trans exchanged
    generalize (if above then (tStatus, w₂)
        else H.pointerApi.swap.deref (H.slot i).toPointer (H.slot (HeapOrder.parent i)).toPointer w₂) = r at turned ⊢
    split_ifs with stop top
    · exact turned
    · exact turned
    · exact turned.trans (ih _ _ (Nat.pos_of_ne_zero top) (by omega))

theorem heapUpdate_rearranges {h : HeapRoot ω} (inv : HeapInv H h) (w : ω) :
    Rearranges H h.zLength w (heapUpdate h w).2 := by
  unfold heapUpdate
  dsimp only
  split_ifs with invalid none_ single
  · exact .of_item rfl
  · exact .of_item rfl
  · exact .of_item rfl
  · exact heapUpdateLoop_rearranges inv _ w (Nat.pos_of_ne_zero single) (by omega)

/-! ## Insert -/

theorem heapInsertFault_iff {h : HeapRoot ω} (inv : HeapInv H h) (c : Cell M) (w : ω) :
    HeapInsertFault M.apis h c.toPointer w ↔ h.zLength < H.zCapacity ∧
      (H.root.ptApi.deref.setAt.deref c.toPointer h.zLength w).1 ≠ .success := by
  unfold HeapInsertFault
  rw [inv.slots]
  constructor
  · rintro ⟨_, room, _, failed⟩
    exact ⟨room, failed⟩
  · rintro ⟨room, failed⟩
    exact ⟨inv.verify (show 0 < H.zCapacity by omega), room, c.verify, failed⟩

/-- Insert keeps its word exactly if `SetAt` does not fail. -/
theorem insertAtomic_iff {h : HeapRoot ω} (inv : HeapInv H h) (c : Cell M) (w : ω) :
    InsertAtomic H h c w ↔ ¬HeapInsertFault M.apis h c.toPointer w := by
  have length := inv.length
  constructor
  · rintro ⟨failing, _⟩ fault
    obtain ⟨room, _⟩ := (heapInsertFault_iff inv c w).1 fault
    have kept := (failing fault).2.length
    rw [heapInsert_room inv c room] at kept
    exact absurd kept (Nat.succ_ne_self _)
  intro faultless
  refine ⟨fun fault => absurd fault faultless, fun ok => ?_⟩
  rcases Nat.lt_or_ge h.zLength H.zCapacity with room | full
  · have stored : (H.root.ptApi.deref.setAt.deref c.toPointer h.zLength w).1 = .success := by
      by_contra failed
      exact faultless ((heapInsertFault_iff inv c w).2 ⟨room, failed⟩)
    rw [heapInsert_room inv c room]
    exact (heapUpdate_rearranges (inv.resize room) _).items.trans (setAt_behind c room stored).2
  · obtain ⟨tStatus, failed, call⟩ := heapInsert_full inv c (by omega) w
    rw [call] at ok
    exact absurd ok failed

/-! ## Pop -/

/-- Where a callback fails, the heap is wired up and holds something. -/
theorem heapPopFault_some {h : HeapRoot ω} (c : H.Client) {w : ω} {point : PopPoint}
    (fault : heapPopFault M.apis h c.toPointer w = some point) :
    heapVerify h = .success ∧ h.zLength ≠ 0 := by
  constructor
  · by_contra invalid
    simp [heapPopFault, invalid] at fault
  · intro none_
    simp [heapPopFault, none_] at fault

/-- A Pop that a callback stops before the removal returns an error and the length it found,
and has exchanged the root and the last item if it came so far. -/
theorem heapPop_fault {h : HeapRoot ω} (inv : HeapInv H h) (c : H.Client) (w : ω) {point : PopPoint}
    (fault : heapPopFault M.apis h c.toPointer w = some point) :
    ∃ tStatus w', heapPop M.apis h c.toPointer w = (tStatus, h, w') ∧ tStatus ≠ .success ∧
      ∀ k, k < H.zCapacity → H.at_ w' k =
        if point.exchanged then (H.at_ w ∘ Equiv.swap (h.zLength - 1) 0) k else H.at_ w k := by
  have length := inv.length
  obtain ⟨verified, some_⟩ := heapPopFault_some c fault
  have last : h.zLength - 1 < H.zCapacity := by omega
  simp only [heapPopFault, verified, some_, c.verify, Cell.api, inv.slots, inv.callbacks, ne_eq, not_true_eq_false,
    decide_false, Bool.or_self, Bool.false_eq_true, if_false] at fault
  simp only [heapPop, verified, some_, c.verify, Cell.api, inv.slots, inv.callbacks, ne_eq, not_true_eq_false,
    if_false]
  -- up to the exchange
  obtain ⟨same, slots⟩ := getTwo_effect last (show 0 < H.zCapacity by omega) w
  rcases got : heapGetTwo H.root (h.zLength - 1) 0 w with ⟨⟨tPair, tOk⟩, w₁⟩
  rw [got] at same slots
  simp only [got] at fault ⊢
  by_cases paired : tPair = .success
  swap
  · rw [if_pos paired] at fault ⊢
    obtain rfl := Option.some.inj fault
    exact ⟨tPair, w₁, rfl, paired, fun k _ => congrFun (at_of_item same) k⟩
  rw [if_neg (not_not.2 paired)] at fault ⊢
  obtain rfl : tOk = _ := slots paired
  have effect := H.swap_slots (h.zLength - 1) 0 w₁ last (show 0 < H.zCapacity by omega)
  obtain ⟨-, exchanged⟩ := swap_effect length (show h.zLength - 1 < h.zLength by omega)
    (Nat.pos_of_ne_zero some_) w₁
  rcases swap : H.pointerApi.swap.deref (H.slot (h.zLength - 1)).toPointer (H.slot 0).toPointer w₁
    with ⟨tSwap, w₂⟩
  rw [swap] at effect exchanged
  rw [at_of_item same] at exchanged
  simp only [swap] at effect fault ⊢
  by_cases swapped : tSwap = .success
  swap
  · rw [if_pos swapped] at fault ⊢
    obtain rfl := Option.some.inj fault
    rw [if_neg swapped] at effect
    exact ⟨tSwap, w₂, rfl, swapped, fun k _ => congrFun (at_of_item (effect.trans same)) k⟩
  rw [if_neg (not_not.2 swapped)] at fault ⊢
  replace exchanged := exchanged swapped
  -- the root lies in the last slot now
  have copy := M.item_copy c.toPointer (H.slot (h.zLength - 1)).toPointer w₂ c.typed (H.slot _).typed
  rcases copying : (M.apis M.ptApi).copy.deref c.toPointer (H.slot (h.zLength - 1)).toPointer w₂ with ⟨tCopy, w₃⟩
  simp only [copying] at copy fault ⊢
  by_cases copied : tCopy = .success
  swap
  · rw [if_pos copied] at fault ⊢
    obtain rfl := Option.some.inj fault
    rw [if_neg copied] at copy
    exact ⟨tCopy, w₃, rfl, copied, fun k hk => (congrFun (at_of_item copy) k).trans (exchanged k hk)⟩
  rw [if_neg (not_not.2 copied)] at fault ⊢
  rw [if_pos copied] at copy
  obtain ⟨x, remove⟩ := H.item_removeAt (h.zLength - 1) w₃ last
  rcases removing : H.root.ptApi.deref.removeAt.deref (h.zLength - 1) w₃ with ⟨tRemove, w₄⟩
  simp only [removing] at remove fault ⊢
  by_cases removed : tRemove = .success
  · simp [removed] at fault
  · rw [if_pos removed] at fault ⊢
    obtain rfl := Option.some.inj fault
    rw [if_neg removed] at remove
    refine ⟨tRemove, w₄, rfl, removed, fun k hk => ?_⟩
    rw [congrFun (at_of_item remove) k, H.at_client c hk copy]
    exact exchanged k hk

/-- Pop keeps its word exactly if neither `Copy` nor `RemoveAt` fails, or the last item may
stay above the root. -/
theorem popAtomic_iff {h : HeapRoot ω} (inv : HeapInv H h) (c : H.Client) {w : ω}
    (ordered : HeapOrder.Ordered H.Above (H.at_ w) h.zLength 0) :
    PopAtomic H h c w ↔ ∀ point, heapPopFault M.apis h c.toPointer w = some point →
      point.exchanged = true → H.above (H.at_ w (h.zLength - 1)) (H.at_ w 0) = true := by
  have length := inv.length
  refine forall_congr' fun point => forall_congr' fun fault => ?_
  obtain ⟨tStatus, w', call, failed, slots⟩ := heapPop_fault inv c w fault
  have some_ : 0 < h.zLength := Nat.pos_of_ne_zero (heapPopFault_some c fault).2
  have inside : ∀ k, k < h.zLength → H.at_ w' k =
      if point.exchanged then (H.at_ w ∘ Equiv.swap (h.zLength - 1) 0) k else H.at_ w k :=
    fun k hk => slots k (by omega)
  rw [call]
  cases late : point.exchanged with
  | false =>
    simp only [late, Bool.false_eq_true, if_false] at inside
    refine iff_of_true ⟨failed, rfl, ?_, ordered.congr inside⟩ (fun late => absurd late Bool.false_ne_true)
    rw [HeapOrder.cells_congr inside]
  | true =>
    simp only [late, if_true] at inside
    have order : HeapOrder.Ordered H.Above (H.at_ w') h.zLength 0 ↔
        H.Above (H.at_ w (h.zLength - 1)) (H.at_ w 0) := by
      rw [← ordered.exchange_iff some_]
      exact ⟨fun here => here.congr fun k hk => (inside k hk).symm, fun here => here.congr inside⟩
    have items : (HeapOrder.cells (H.at_ w') h.zLength).Perm (HeapOrder.cells (H.at_ w) h.zLength) := by
      rw [HeapOrder.cells_congr inside]
      exact HeapOrder.cells_swap _ (by omega) some_
    exact ⟨fun intact _ => order.1 intact.2.ordered, fun leads => ⟨failed, rfl, items, order.2 (leads rfl)⟩⟩

/-- Insert and Pop are atomic exactly if `SetAt` does not fail and a failing `Copy` or
`RemoveAt` finds two items that may be exchanged. -/
theorem heap_atomic_iff (H : HeapArray M) {h : HeapRoot ω} (inv : HeapInv H h) {w : ω}
    (ordered : HeapOrder.Ordered H.Above (H.at_ w) h.zLength 0) :
    (∀ c : Cell M, InsertAtomic H h c w ↔ ¬HeapInsertFault M.apis h c.toPointer w) ∧
      ∀ c : H.Client, PopAtomic H h c w ↔ ∀ point, heapPopFault M.apis h c.toPointer w = some point →
        point.exchanged = true → H.above (H.at_ w (h.zLength - 1)) (H.at_ w 0) = true :=
  ⟨fun c => insertAtomic_iff inv c w, fun c => popAtomic_iff inv c ordered⟩

/-- A callback that exchanges the items at two addresses. -/
def FlatWorld.exchange (w : FlatWorld Nat) (a b : Nat) : Status × FlatWorld Nat :=
  let cells := Function.update (Function.update w.cells a (w.cells b)) b (w.cells a)
  (w.outcome, if w.outcome = .success then { w.skip with cells := cells } else w.skip)

/-- Three slots for numbers, the largest first, with the outcomes of the callbacks scripted. -/
def flatHeap : HeapArray (flatMemory Nat) where
  toItemArray := flatArray Nat 1 3
  pointerApi :=
    { compare := Ref.to fun tParent tChild w =>
        (⟨w.outcome, decide (w.cells tChild.pvAddr ≤ w.cells tParent.pvAddr)⟩, w.skip)
      swap := Ref.to fun tLeft tRight w => w.exchange tLeft.pvAddr tRight.pvAddr }
  above x y := decide (y ≤ x)
  present := rfl
  total := plainHeap.total
  transitive := plainHeap.transitive
  addressable := by decide
  compare_above _ _ _ _ _ := ⟨rfl, fun _ => rfl⟩
  swap_slots _ _ w _ _ := by
    dsimp only [Ref.to, flatMemory, FlatWorld.exchange]
    split_ifs <;> rfl

abbrev flatHeapVariable : flatHeap.Client := flatClient Nat 1 3 0 Nat.one_pos

/-- Two of the three slots hold 9 and 4, and the variable of the client holds 5. -/
def flatHeapRoot : HeapRoot (FlatWorld Nat) := ⟨Ref.to tHeapApi, Ref.to flatHeap.pointerApi, Ref.to flatHeap.root, 2⟩

def flatHeapWorld (outcomes : List Status) : FlatWorld Nat :=
  ⟨fun a => if a = 1 then 5 else if a = 2 then 9 else if a = 3 then 4 else 0, outcomes⟩

theorem flatHeapRoot_inv : HeapInv flatHeap flatHeapRoot := ⟨rfl, rfl, rfl, by decide⟩

theorem flatHeapWorld_ordered (outcomes : List Status) :
    HeapOrder.Ordered flatHeap.Above (flatHeap.at_ (flatHeapWorld outcomes)) flatHeapRoot.zLength 0 := by
  intro j pos inside _
  obtain rfl : j = 1 := by
    have two : flatHeapRoot.zLength = 2 := rfl
    omega
  exact show decide (4 ≤ 9) = true by decide

/-- A Pop whose `Swap` fails leaves the heap as it was. -/
theorem heap_atomic_iff_flat :
    PopAtomic flatHeap flatHeapRoot flatHeapVariable (flatHeapWorld [.success, .success, .err]) := by
  refine ((heap_atomic_iff flatHeap flatHeapRoot_inv (flatHeapWorld_ordered _)).2 flatHeapVariable).2 ?_
  intro point fault
  obtain rfl : PopPoint.swap = point := Option.some.inj (Eq.trans (by decide) fault)
  exact fun late => absurd late Bool.false_ne_true

/-- An Insert whose `SetAt` fails reports success, and a Pop whose `Copy` fails leaves 4 over 9. -/
theorem heap_not_atomic :
    HeapInv flatHeap flatHeapRoot ∧
      (∀ outcomes, HeapOrder.Ordered flatHeap.Above (flatHeap.at_ (flatHeapWorld outcomes)) 2 0) ∧
      ¬InsertAtomic flatHeap flatHeapRoot flatHeapVariable.toCell (flatHeapWorld [.writeError]) ∧
      ¬PopAtomic flatHeap flatHeapRoot flatHeapVariable
        (flatHeapWorld [.success, .success, .success, .writeError]) := by
  refine ⟨flatHeapRoot_inv, flatHeapWorld_ordered, ?_, ?_⟩
  · rintro ⟨failing, -⟩
    have kept := (failing (by unfold HeapInsertFault; decide)).2.length
    exact absurd kept (by decide)
  · intro atomic
    have order := (atomic .copy (by decide)).2.ordered 1 (by decide) (by decide) (by decide)
    exact absurd order (by unfold HeapArray.Above; decide)

end LibJuno.Ds
