import LibJuno.Ds.FlatArray
import LibJuno.Lib.HeapOrder
import LibJuno.Lib.PriorityQueue

/-!
# The array-backed heap

`heap_api.h` and `juno_heap.c`: `JunoDs_Heap_Insert`, which appends an item and lets it
rise, `JunoDs_Heap_Pop`, which exchanges the root with the last item, hands that out and
lets the new root sink, `JunoDs_Heap_Heapify`, and the loops behind them. The failure handler is stored and
never called, so it is left out.
-/

namespace LibJuno.Ds

open Memory

/-- `JUNO_DS_HEAP_API_T`: which of the three functions are set. -/
structure HeapApi where
  insert : Bool
  heapify : Bool
  pop : Bool

/-- `tHeapApi`, the library's heap vtable. -/
def tHeapApi : HeapApi := ⟨true, true, true⟩

/-- `JUNO_DS_HEAP_POINTER_API_T`, each callback applied to its own heap. -/
structure HeapPointerApi (ω : Type) where
  compare : Ref (Pointer → Pointer → ω → Result Bool × ω)
  swap : Ref (Pointer → Pointer → ω → Status × ω)

/-- `JUNO_DS_HEAP_ROOT_T`. -/
structure HeapRoot (ω : Type) where
  ptApi : Ref HeapApi
  ptHeapPointerApi : Ref (HeapPointerApi ω)
  ptHeapArray : Ref (ArrayRoot ω)
  zLength : Nat

section Operations

variable {ω : Type}

/-- `JunoDs_Heap_Verify`. -/
def heapVerify (ptHeap : HeapRoot ω) : Status :=
  if !(ptHeap.ptHeapArray.nonNull && ptHeap.ptHeapPointerApi.nonNull &&
      ptHeap.ptHeapPointerApi.deref.compare.nonNull && ptHeap.ptHeapPointerApi.deref.swap.nonNull &&
      ptHeap.ptApi.nonNull && ptHeap.ptApi.deref.insert && ptHeap.ptApi.deref.heapify &&
      ptHeap.ptApi.deref.pop) then .nullptrError
  else arrayVerify ptHeap.ptHeapArray

/-- `JunoDs_Heap_Init`. -/
def heapInit (ptHeapPointerApi : Ref (HeapPointerApi ω)) (ptHeapArray : Ref (ArrayRoot ω)) :
    Status × HeapRoot ω :=
  let ptHeap : HeapRoot ω := ⟨Ref.to tHeapApi, ptHeapPointerApi, ptHeapArray, 0⟩
  (heapVerify ptHeap, ptHeap)

/-- What the three index functions have in common: `iIndex` is the index each computes. -/
def heapIndexResult (ptHeap : HeapRoot ω) (iIndex : Nat) : Result Nat :=
  let tStatus := heapVerify ptHeap
  if tStatus ≠ .success then ⟨tStatus, 0⟩
  else if iIndex > ptHeap.ptHeapArray.deref.zCapacity ||
      ptHeap.zLength > ptHeap.ptHeapArray.deref.zCapacity then ⟨.oobError, 0⟩
  else ⟨.success, iIndex⟩

/-- `JunoDs_Heap_ChildGetLeft`. -/
def heapChildGetLeft (ptHeap : HeapRoot ω) (iIndex : Nat) : Result Nat :=
  heapIndexResult ptHeap (sizeT (2 * iIndex + 1))

/-- `JunoDs_Heap_ChildGetRight`. -/
def heapChildGetRight (ptHeap : HeapRoot ω) (iIndex : Nat) : Result Nat :=
  heapIndexResult ptHeap (sizeT (2 * iIndex + 2))

/-- `JunoDs_Heap_ChildGetParent`; `iIndex - 1` wraps at 0. -/
def heapChildGetParent (ptHeap : HeapRoot ω) (iIndex : Nat) : Result Nat :=
  heapIndexResult ptHeap (sizeT (iIndex + sizeMax) / 2)

/-- `GetAt` of two slots in this order, as before each `Compare` and `Swap`. -/
def heapGetTwo (ptArray : ArrayRoot ω) (iFirst iSecond : Nat) (w : ω) : Result (Pointer × Pointer) × ω :=
  let (tFirst, w) := ptArray.ptApi.deref.getAt.deref iFirst w
  if tFirst.tStatus ≠ .success then (⟨tFirst.tStatus, default⟩, w)
  else
    let (tSecond, w) := ptArray.ptApi.deref.getAt.deref iSecond w
    if tSecond.tStatus ≠ .success then (⟨tSecond.tStatus, default⟩, w)
    else (⟨.success, (tFirst.tOk, tSecond.tOk)⟩, w)

/-- The loop of `JunoDs_Heap_Update`, at most `n` more times. -/
def heapUpdateLoop (ptHeap : HeapRoot ω) : (n iCurrentIndex : Nat) → Status → ω → Status × ω
  | 0, _, tStatus, w => (tStatus, w)
  | n + 1, iCurrentIndex, tStatus, w =>
    let tIndexResult := heapChildGetParent ptHeap iCurrentIndex
    if tIndexResult.tStatus ≠ .success then (tIndexResult.tStatus, w)
    else if tIndexResult.tOk ≥ ptHeap.zLength then (tStatus, w)
    else
      let iParentIndex := tIndexResult.tOk
      let (tPair, w) := heapGetTwo ptHeap.ptHeapArray.deref iCurrentIndex iParentIndex w
      if tPair.tStatus ≠ .success then (tPair.tStatus, w)
      else
        let (tResultCurrent, tResultParent) := tPair.tOk
        let (tCompareResult, w) :=
          ptHeap.ptHeapPointerApi.deref.compare.deref tResultParent tResultCurrent w
        if tCompareResult.tStatus ≠ .success then (tCompareResult.tStatus, w)
        else
          let (tStatus, w) := if tCompareResult.tOk then (tStatus, w)
            else ptHeap.ptHeapPointerApi.deref.swap.deref tResultCurrent tResultParent w
          if !tCompareResult.tOk && tStatus ≠ .success then (tStatus, w)
          else if iParentIndex = 0 then (tStatus, w)
          else heapUpdateLoop ptHeap n iParentIndex tStatus w

/-- `JunoDs_Heap_Update`. -/
def heapUpdate (ptHeap : HeapRoot ω) (w : ω) : Status × ω :=
  let tStatus := heapVerify ptHeap
  if tStatus ≠ .success then (tStatus, w)
  else if ptHeap.zLength = 0 then (.err, w)
  else
    let iCurrentIndex := ptHeap.zLength - 1
    if iCurrentIndex = 0 then (tStatus, w)
    else heapUpdateLoop ptHeap ptHeap.zLength iCurrentIndex tStatus w

/-- The child's turn in the loop of `JunoDs_Heap_SiftDown`: if there is such a child and the
item at `iCurrentIndex` may not stay above it, the child becomes the current index. -/
def heapPrefer (ptHeap : HeapRoot ω) (bSome : Bool) (iCurrentIndex iChild : Nat) (w : ω) : Result Nat × ω :=
  if bSome then
    let (tPair, w) := heapGetTwo ptHeap.ptHeapArray.deref iCurrentIndex iChild w
    if tPair.tStatus ≠ .success then (⟨tPair.tStatus, 0⟩, w)
    else
      let (tCompareResult, w) := ptHeap.ptHeapPointerApi.deref.compare.deref tPair.tOk.1 tPair.tOk.2 w
      if tCompareResult.tStatus ≠ .success then (⟨tCompareResult.tStatus, 0⟩, w)
      else (⟨.success, if tCompareResult.tOk then iCurrentIndex else iChild⟩, w)
  else (⟨.success, iCurrentIndex⟩, w)

/-- The loop of `JunoDs_Heap_SiftDown`, at most `n` more times. -/
def heapSiftDownLoop (ptHeap : HeapRoot ω) : (n iRoot : Nat) → Status → ω → Status × ω
  | 0, _, tStatus, w => (tStatus, w)
  | n + 1, iRoot, tStatus, w =>
    let tLeft := heapChildGetLeft ptHeap iRoot
    if tLeft.tStatus ≠ .success then (tLeft.tStatus, w)
    else
      let tRight := heapChildGetRight ptHeap iRoot
      if tRight.tStatus ≠ .success then (tRight.tStatus, w)
      else
        let (tResultCurrent, w) := ptHeap.ptHeapArray.deref.ptApi.deref.getAt.deref iRoot w
        if tResultCurrent.tStatus ≠ .success then (tResultCurrent.tStatus, w)
        else
          let (tIndex, w) := heapPrefer ptHeap (tLeft.tOk < ptHeap.zLength) iRoot tLeft.tOk w
          if tIndex.tStatus ≠ .success then (tIndex.tStatus, w)
          else
            let (tIndex, w) := heapPrefer ptHeap (tRight.tOk < ptHeap.zLength) tIndex.tOk tRight.tOk w
            if tIndex.tStatus ≠ .success then (tIndex.tStatus, w)
            else
              let iCurrentIndex := tIndex.tOk
              if iCurrentIndex ≠ iRoot then
                let (tPair, w) := heapGetTwo ptHeap.ptHeapArray.deref iCurrentIndex iRoot w
                if tPair.tStatus ≠ .success then (tPair.tStatus, w)
                else
                  let (tStatus, w) :=
                    ptHeap.ptHeapPointerApi.deref.swap.deref tPair.tOk.1 tPair.tOk.2 w
                  if tStatus ≠ .success then (tStatus, w)
                  else heapSiftDownLoop ptHeap n iCurrentIndex tStatus w
              else (tStatus, w)

/-- `JunoDs_Heap_SiftDown`. -/
def heapSiftDown (ptHeap : HeapRoot ω) (iStart : Nat) (w : ω) : Status × ω :=
  let tStatus := heapVerify ptHeap
  if tStatus ≠ .success then (tStatus, w)
  else if ptHeap.zLength = 0 then (.err, w)
  else heapSiftDownLoop ptHeap ptHeap.zLength iStart tStatus w

variable (apis : PointerApis ω)

/-- `JunoDs_Heap_Insert`; what `SetAt` returns is overwritten. -/
def heapInsert (ptHeap : HeapRoot ω) (tValue : Pointer) (w : ω) : Status × HeapRoot ω × ω :=
  let tStatus := heapVerify ptHeap
  if tStatus ≠ .success then (tStatus, ptHeap, w)
  else if ptHeap.zLength ≥ ptHeap.ptHeapArray.deref.zCapacity then (.err, ptHeap, w)
  else
    let tStatus := pointerVerify apis tValue
    if tStatus ≠ .success then (tStatus, ptHeap, w)
    else
      let (_, w) := ptHeap.ptHeapArray.deref.ptApi.deref.setAt.deref tValue ptHeap.zLength w
      let ptHeap := { ptHeap with zLength := ptHeap.zLength + 1 }
      let (tStatus, w) := heapUpdate ptHeap w
      (tStatus, ptHeap, w)

/-- The loop of `JunoDs_Heap_Heapify`, from `iCurrentIndex` down to 0; only the last status
counts. -/
def heapHeapifyLoop (ptHeap : HeapRoot ω) : (iCurrentIndex : Nat) → ω → Status × ω
  | 0, w => heapSiftDown ptHeap 0 w
  | iNext + 1, w =>
    let (_, w) := heapSiftDown ptHeap (iNext + 1) w
    heapHeapifyLoop ptHeap iNext w

/-- `JunoDs_Heap_Heapify`. -/
def heapHeapify (ptHeap : HeapRoot ω) (w : ω) : Status × HeapRoot ω × ω :=
  let tStatus := heapVerify ptHeap
  if tStatus ≠ .success then (tStatus, ptHeap, w)
  else if ptHeap.zLength = 0 then (.err, ptHeap, w)
  else
    let iIndexResult := heapChildGetParent ptHeap ptHeap.zLength
    if iIndexResult.tStatus ≠ .success then (iIndexResult.tStatus, ptHeap, w)
    else if iIndexResult.tOk ≥ ptHeap.zLength then (tStatus, ptHeap, w)
    else
      let (tStatus, w) := heapHeapifyLoop ptHeap iIndexResult.tOk w
      (tStatus, ptHeap, w)

/-- `JunoDs_Heap_Pop`. -/
def heapPop (ptHeap : HeapRoot ω) (tReturn : Pointer) (w : ω) : Status × HeapRoot ω × ω :=
  let tStatus := heapVerify ptHeap
  if tStatus ≠ .success then (tStatus, ptHeap, w)
  else if ptHeap.zLength = 0 then (.err, ptHeap, w)
  else
    let tStatus := pointerVerify apis tReturn
    if tStatus ≠ .success then (tStatus, ptHeap, w)
    else
      let ptArray := ptHeap.ptHeapArray.deref
      let (tPair, w) := heapGetTwo ptArray (ptHeap.zLength - 1) 0 w
      if tPair.tStatus ≠ .success then (tPair.tStatus, ptHeap, w)
      else
        let (tEnd, tStart) := tPair.tOk
        let (tStatus, w) := ptHeap.ptHeapPointerApi.deref.swap.deref tEnd tStart w
        if tStatus ≠ .success then (tStatus, ptHeap, w)
        else
          let tStatus := pointerVerify apis tReturn
          if tStatus ≠ .success then (tStatus, ptHeap, w)
          else
            let (tStatus, w) := (apis tReturn.ptApi).copy.deref tReturn tEnd w
            if tStatus ≠ .success then (tStatus, ptHeap, w)
            else
              let (tStatus, w) := ptArray.ptApi.deref.removeAt.deref (ptHeap.zLength - 1) w
              if tStatus ≠ .success then (tStatus, ptHeap, w)
              else
                let ptHeap := { ptHeap with zLength := ptHeap.zLength - 1 }
                if ptHeap.zLength > 0 then
                  let (tStatus, w) := heapSiftDown ptHeap 0 w
                  (tStatus, ptHeap, w)
                else (tStatus, ptHeap, w)

end Operations

/-! ## An array of items in order -/

/-- An injected array whose items are ordered by `above`: `Compare` decides whether the first
item may stay above the second, and `Swap` exchanges two slots. No object of the target is
larger than `SIZE_MAX / 2` bytes, so neither is a capacity. -/
structure HeapArray {ω α : Type} (M : ItemMemory ω α) extends ItemArray M where
  pointerApi : HeapPointerApi ω
  above : α → α → Bool
  present : (pointerApi.compare.nonNull && pointerApi.swap.nonNull) = true
  total : ∀ x y, above x y = true ∨ above y x = true
  transitive : ∀ x y z, above x y = true → above y z = true → above x z = true
  addressable : root.zCapacity ≤ sizeMax / 2
  compare_above : ∀ (i j : Nat) (w : ω), i < root.zCapacity → j < root.zCapacity →
    let r := pointerApi.compare.deref (slot i).toPointer (slot j).toPointer w
    M.item r.2 = M.item w ∧
      (r.1.tStatus = .success → r.1.tOk = above (M.item w (slot i).pvAddr) (M.item w (slot j).pvAddr))
  swap_slots : ∀ (i j : Nat) (w : ω), i < root.zCapacity → j < root.zCapacity →
    let r := pointerApi.swap.deref (slot i).toPointer (slot j).toPointer w
    M.item r.2 = if r.1 = .success then
      Function.update (Function.update (M.item w) (slot i).pvAddr (M.item w (slot j).pvAddr))
        (slot j).pvAddr (M.item w (slot i).pvAddr)
      else M.item w

namespace HeapArray

variable {ω α : Type} {M : ItemMemory ω α} (H : HeapArray M)

/-- The order of the items. -/
def Above (x y : α) : Prop := H.above x y = true

instance : IsTrans α H.Above := ⟨fun x y z => H.transitive x y z⟩

instance : Std.Total H.Above := ⟨H.total⟩

instance : DecidableRel H.Above := fun x y => inferInstanceAs (Decidable (H.above x y = true))

/-- No callback fails. -/
structure Reliable : Prop where
  setAt : ∀ (c : Cell M) i w, i < H.zCapacity → (H.root.ptApi.deref.setAt.deref c.toPointer i w).1 = .success
  getAt : ∀ i w, i < H.zCapacity → (H.root.ptApi.deref.getAt.deref i w).1.tStatus = .success
  removeAt : ∀ i w, i < H.zCapacity → (H.root.ptApi.deref.removeAt.deref i w).1 = .success
  compare : ∀ i j w, i < H.zCapacity → j < H.zCapacity →
    (H.pointerApi.compare.deref (H.slot i).toPointer (H.slot j).toPointer w).1.tStatus = .success
  swap : ∀ i j w, i < H.zCapacity → j < H.zCapacity →
    (H.pointerApi.swap.deref (H.slot i).toPointer (H.slot j).toPointer w).1 = .success
  copy : ∀ (c : H.Client) i w, i < H.zCapacity →
    ((M.apis M.ptApi).copy.deref c.toPointer (H.slot i).toPointer w).1 = .success

variable {H}

/-- An exchange of two slots, seen in the slots. -/
theorem at_swap {w w' : ω} {i j : Nat} (hi : i < H.zCapacity) (hj : j < H.zCapacity)
    (swapped : M.item w' = Function.update
      (Function.update (M.item w) (H.slot i).pvAddr (M.item w (H.slot j).pvAddr))
      (H.slot j).pvAddr (M.item w (H.slot i).pvAddr)) :
    ∀ k, k < H.zCapacity → H.at_ w' k = (H.at_ w ∘ Equiv.swap i j) k := by
  intro k hk
  have address : ∀ l, l < H.zCapacity → ((H.slot k).pvAddr = (H.slot l).pvAddr ↔ k = l) :=
    fun l hl => ⟨H.distinct k l hk hl, fun same => by rw [same]⟩
  simp only [ItemArray.at_, swapped, Function.update_apply, Function.comp, Equiv.swap_apply_def,
    address i hi, address j hj]
  split_ifs with first second
  · rw [← first, ← second]
  · rfl
  · rfl
  · rfl

end HeapArray

/-! ## What one call does -/

variable {ω α : Type} {M : ItemMemory ω α} {H : HeapArray M}

/-- The heap over the array `H`: wired to it, its callbacks and the library's vtable, the
length within the array. -/
structure HeapInv (H : HeapArray M) (h : HeapRoot ω) : Prop where
  api : h.ptApi = Ref.to tHeapApi
  pointerApi : h.ptHeapPointerApi = Ref.to H.pointerApi
  array : h.ptHeapArray = Ref.to H.root
  length : h.zLength ≤ H.zCapacity

theorem HeapInv.resize {h : HeapRoot ω} (inv : HeapInv H h) {zLength : Nat} (fits : zLength ≤ H.zCapacity) :
    HeapInv H { h with zLength := zLength } := ⟨inv.api, inv.pointerApi, inv.array, fits⟩

theorem HeapInv.verify {h : HeapRoot ω} (inv : HeapInv H h) (pos : 0 < H.zCapacity) :
    heapVerify h = .success := by
  have present := H.present
  simp only [Bool.and_eq_true] at present
  have array := H.verify pos
  rw [heapVerify, inv.api, inv.pointerApi, inv.array, array]
  simp [Ref.to, tHeapApi, present]

theorem HeapInv.verify_empty {h : HeapRoot ω} (inv : HeapInv H h) (none_ : H.zCapacity = 0) :
    heapVerify h = .nullptrError := by
  have array := H.verify_empty none_
  rw [heapVerify, inv.api, inv.pointerApi, inv.array, array]
  simp

theorem HeapInv.slots {h : HeapRoot ω} (inv : HeapInv H h) : h.ptHeapArray.deref = H.root := by
  rw [inv.array]
  rfl

theorem HeapInv.callbacks {h : HeapRoot ω} (inv : HeapInv H h) :
    h.ptHeapPointerApi.deref = H.pointerApi := by
  rw [inv.pointerApi]
  rfl

/-- The index functions return the index, up to the capacity. -/
theorem HeapInv.index {h : HeapRoot ω} (inv : HeapInv H h) (pos : 0 < H.zCapacity) (iIndex : Nat) :
    heapIndexResult h iIndex = if iIndex ≤ H.zCapacity then ⟨.success, iIndex⟩ else ⟨.oobError, 0⟩ := by
  have length := inv.length
  have capacity : H.root.zCapacity = H.zCapacity := rfl
  simp only [heapIndexResult, inv.verify pos, inv.slots, capacity, ne_eq, not_true_eq_false, if_false]
  rcases Nat.lt_or_ge H.zCapacity iIndex with beyond | inside
  · rw [if_pos (by simp; omega), if_neg (by omega)]
  · rw [if_neg (by simp; omega), if_pos inside]

theorem HeapInv.left {h : HeapRoot ω} (inv : HeapInv H h) {i : Nat} (inside : i < h.zLength) :
    heapChildGetLeft h i =
      if 2 * i + 1 ≤ H.zCapacity then ⟨.success, 2 * i + 1⟩ else ⟨.oobError, 0⟩ := by
  have length := inv.length
  have addressable : H.zCapacity ≤ sizeMax / 2 := H.addressable
  have fits : sizeT (2 * i + 1) = 2 * i + 1 := sizeT_of_le (by omega)
  rw [heapChildGetLeft, fits, inv.index (by omega)]

theorem HeapInv.right {h : HeapRoot ω} (inv : HeapInv H h) {i : Nat} (inside : i < h.zLength) :
    heapChildGetRight h i =
      if 2 * i + 2 ≤ H.zCapacity then ⟨.success, 2 * i + 2⟩ else ⟨.oobError, 0⟩ := by
  have length := inv.length
  have addressable : H.zCapacity ≤ sizeMax / 2 := H.addressable
  have fits : sizeT (2 * i + 2) = 2 * i + 2 := sizeT_of_le (by omega)
  rw [heapChildGetRight, fits, inv.index (by omega)]

theorem HeapInv.parent {h : HeapRoot ω} (inv : HeapInv H h) {i : Nat} (pos : 0 < i) (inside : i ≤ h.zLength) :
    heapChildGetParent h i = ⟨.success, HeapOrder.parent i⟩ := by
  have length := inv.length
  have addressable : H.zCapacity ≤ sizeMax / 2 := H.addressable
  have less := HeapOrder.parent_lt pos
  have fits : sizeT (i + sizeMax) / 2 = HeapOrder.parent i := by
    rw [sizeT, show i + sizeMax = i - 1 + (sizeMax + 1) by omega, Nat.add_mod_right,
      Nat.mod_eq_of_lt (by omega), HeapOrder.parent]
  rw [heapChildGetParent, fits, inv.index (by omega), if_pos (by omega)]

theorem at_of_item {w w' : ω} (same : M.item w' = M.item w) : H.at_ w' = H.at_ w := by
  funext i
  rw [ItemArray.at_, same, ItemArray.at_]

/-- The first `len` slots are rearranged, and nothing beside the array changes. -/
structure Rearranges (H : HeapArray M) (len : Nat) (w w' : ω) : Prop where
  items : (HeapOrder.cells (H.at_ w') len).Perm (HeapOrder.cells (H.at_ w) len)
  frame : ∀ a, (∀ i, i < H.zCapacity → a ≠ (H.slot i).pvAddr) → M.item w' a = M.item w a

theorem Rearranges.of_item {len : Nat} {w w' : ω} (same : M.item w' = M.item w) : Rearranges H len w w' where
  items := by rw [at_of_item same]
  frame _ _ := by rw [same]

theorem Rearranges.trans {len : Nat} {w w' w'' : ω} (first : Rearranges H len w w')
    (second : Rearranges H len w' w'') : Rearranges H len w w'' where
  items := second.items.trans first.items
  frame a outside := (second.frame a outside).trans (first.frame a outside)

/-- `Swap` of two of the slots exchanges them, or does nothing. -/
theorem swap_effect {len i j : Nat} (bound : len ≤ H.zCapacity) (hi : i < len) (hj : j < len) (w : ω) :
    let r := H.pointerApi.swap.deref (H.slot i).toPointer (H.slot j).toPointer w
    Rearranges H len w r.2 ∧
      (r.1 = .success → ∀ k, k < H.zCapacity → H.at_ r.2 k = (H.at_ w ∘ Equiv.swap i j) k) := by
  intro r
  have hi' : i < H.zCapacity := by omega
  have hj' : j < H.zCapacity := by omega
  by_cases ok : r.1 = .success
  · have effect : M.item r.2 = _ := (H.swap_slots i j w hi' hj').trans (if_pos ok)
    have slots := HeapArray.at_swap hi' hj' effect
    refine ⟨⟨?_, ?_⟩, fun _ => slots⟩
    · rw [HeapOrder.cells_congr fun k hk => slots k (by omega)]
      exact HeapOrder.cells_swap _ hi hj
    · intro a outside
      rw [effect, Function.update_of_ne (outside j hj'), Function.update_of_ne (outside i hi')]
  · have effect : M.item r.2 = _ := (H.swap_slots i j w hi' hj').trans (if_neg ok)
    exact ⟨.of_item effect, fun done => absurd done ok⟩

/-- `Swap` of two of the slots exchanges them. -/
theorem swap_spec (reliable : H.Reliable) {len i j : Nat} (bound : len ≤ H.zCapacity) (hi : i < len)
    (hj : j < len) (w : ω) :
    ∃ w', H.pointerApi.swap.deref (H.slot i).toPointer (H.slot j).toPointer w = (.success, w') ∧
      Rearranges H len w w' ∧ ∀ k, k < H.zCapacity → H.at_ w' k = (H.at_ w ∘ Equiv.swap i j) k := by
  have ok := reliable.swap i j w (by omega) (by omega)
  obtain ⟨rearranged, slots⟩ := swap_effect bound hi hj w
  exact ⟨_, Prod.ext ok rfl, rearranged, slots ok⟩

theorem getAt_spec (reliable : H.Reliable) {i : Nat} (hi : i < H.zCapacity) (w : ω) :
    ∃ w', H.root.ptApi.deref.getAt.deref i w = (⟨.success, (H.slot i).toPointer⟩, w') ∧
      M.item w' = M.item w := by
  obtain ⟨same, answer⟩ := H.getAt_slot i w hi
  have ok := reliable.getAt i w hi
  rcases got : H.root.ptApi.deref.getAt.deref i w with ⟨⟨tStatus, tOk⟩, w'⟩
  rw [got] at same answer ok
  have ok : tStatus = .success := ok
  subst ok
  have answer : tOk = _ := answer rfl
  exact ⟨w', by rw [answer], same⟩

/-- `GetAt` of two slots changes nothing, and finds the two slots or fails. -/
theorem getTwo_effect {i j : Nat} (hi : i < H.zCapacity) (hj : j < H.zCapacity) (w : ω) :
    let r := heapGetTwo H.root i j w
    M.item r.2 = M.item w ∧
      (r.1.tStatus = .success → r.1.tOk = ((H.slot i).toPointer, (H.slot j).toPointer)) := by
  intro r
  obtain ⟨same, first⟩ := H.getAt_slot i w hi
  obtain ⟨same', second⟩ := H.getAt_slot j (H.root.ptApi.deref.getAt.deref i w).2 hj
  by_cases ok : (H.root.ptApi.deref.getAt.deref i w).1.tStatus = .success
  · by_cases ok' : (H.root.ptApi.deref.getAt.deref j (H.root.ptApi.deref.getAt.deref i w).2).1.tStatus = .success
    · simp only [r, heapGetTwo, ok, ok', ne_eq, not_true_eq_false, if_false]
      exact ⟨same'.trans same, fun _ => by rw [first ok, second ok']⟩
    · simp only [r, heapGetTwo, ok, ne_eq, not_true_eq_false, if_false]
      rw [if_pos ok']
      exact ⟨same'.trans same, fun done => absurd done ok'⟩
  · simp only [r, heapGetTwo, ne_eq]
    rw [if_pos ok]
    exact ⟨same, fun done => absurd done ok⟩

theorem getTwo_spec (reliable : H.Reliable) {i j : Nat} (hi : i < H.zCapacity) (hj : j < H.zCapacity) (w : ω) :
    ∃ w', heapGetTwo H.root i j w = (⟨.success, ((H.slot i).toPointer, (H.slot j).toPointer)⟩, w') ∧
      M.item w' = M.item w := by
  obtain ⟨w', first, same⟩ := getAt_spec reliable hi w
  obtain ⟨w'', second, same'⟩ := getAt_spec reliable hj w'
  refine ⟨w'', ?_, same'.trans same⟩
  simp [heapGetTwo, first, second]

theorem compare_spec (reliable : H.Reliable) {i j : Nat} (hi : i < H.zCapacity) (hj : j < H.zCapacity) (w : ω) :
    ∃ w', H.pointerApi.compare.deref (H.slot i).toPointer (H.slot j).toPointer w =
        (⟨.success, H.above (H.at_ w i) (H.at_ w j)⟩, w') ∧ M.item w' = M.item w := by
  obtain ⟨same, answer⟩ := H.compare_above i j w hi hj
  have ok := reliable.compare i j w hi hj
  rcases compared : H.pointerApi.compare.deref (H.slot i).toPointer (H.slot j).toPointer w with ⟨⟨tStatus, tOk⟩, w'⟩
  rw [compared] at same answer ok
  have ok : tStatus = .success := ok
  subst ok
  refine ⟨w', ?_, same⟩
  have answer : tOk = _ := answer rfl
  rw [answer]
  rfl

/-- One turn of the loop of `heapUpdate`: the item at `i` is in order under its parent, or
it is exchanged with it. -/
theorem heapUpdate_turn (reliable : H.Reliable) {len i : Nat} (bound : len ≤ H.zCapacity) (pos : 0 < i)
    (inside : i < len) (w : ω) (rising : HeapOrder.Rising H.Above (H.at_ w) len i) :
    ∃ w', (if H.above (H.at_ w (HeapOrder.parent i)) (H.at_ w i) then (.success, w)
        else H.pointerApi.swap.deref (H.slot i).toPointer (H.slot (HeapOrder.parent i)).toPointer w) =
          (.success, w') ∧
      Rearranges H len w w' ∧ HeapOrder.Rising H.Above (H.at_ w') len (HeapOrder.parent i) := by
  have less := HeapOrder.parent_lt pos
  rcases fits : H.above (H.at_ w (HeapOrder.parent i)) (H.at_ w i) with _ | _
  · obtain ⟨w', swapped, rearranged, slots⟩ :=
      swap_spec reliable bound inside (show HeapOrder.parent i < len by omega) w
    refine ⟨w', by rw [if_neg (by simp), swapped], rearranged, ?_⟩
    have leads : H.Above (H.at_ w i) (H.at_ w (HeapOrder.parent i)) := by
      apply (H.total _ _).resolve_left
      simp [fits]
    refine (rising.swap pos inside leads).congr fun k hk => ?_
    exact slots k (by omega)
  · refine ⟨w, by rw [if_pos rfl], .of_item rfl, ?_⟩
    exact (rising.settled fun _ => fits).rising (by omega)

/-- The loop of `heapUpdate` puts the risen item in order. -/
theorem heapUpdateLoop_spec (reliable : H.Reliable) {h : HeapRoot ω} (inv : HeapInv H h) {n i : Nat} {w : ω}
    (pos : 0 < i) (inside : i < h.zLength) (fuel : i ≤ n)
    (rising : HeapOrder.Rising H.Above (H.at_ w) h.zLength i) :
    ∃ w', heapUpdateLoop h n i .success w = (.success, w') ∧ Rearranges H h.zLength w w' ∧
      HeapOrder.Ordered H.Above (H.at_ w') h.zLength 0 := by
  have length := inv.length
  induction n generalizing i w with
  | zero => omega
  | succ n ih =>
    have less := HeapOrder.parent_lt pos
    obtain ⟨w₁, got, same₁⟩ := getTwo_spec reliable (show i < H.zCapacity by omega)
      (show HeapOrder.parent i < H.zCapacity by omega) w
    obtain ⟨w₂, compared, same₂⟩ := compare_spec reliable (show HeapOrder.parent i < H.zCapacity by omega)
      (show i < H.zCapacity by omega) w₁
    rw [← at_of_item same₁, ← at_of_item same₂] at rising
    rw [← at_of_item same₂] at compared
    obtain ⟨w₃, turned, rearranged, rising'⟩ := heapUpdate_turn reliable length pos inside w₂ rising
    have whole : Rearranges H h.zLength w w₃ := (Rearranges.of_item (same₂.trans same₁)).trans rearranged
    simp only [heapUpdateLoop, inv.parent pos (Nat.le_of_lt inside), inv.slots, inv.callbacks, got, compared, turned,
      ne_eq, not_true_eq_false, decide_false, Bool.and_false, Bool.false_eq_true, if_false]
    rw [if_neg (by omega)]
    rcases Nat.eq_zero_or_pos (HeapOrder.parent i) with root | below
    · rw [if_pos root]
      rw [root] at rising'
      exact ⟨w₃, rfl, whole, rising'.settled fun none_ => absurd none_ (Nat.lt_irrefl 0)⟩
    · rw [if_neg (by omega)]
      obtain ⟨w₄, looped, rearranged', ordered⟩ := ih below (by omega) (by omega) rising'
      exact ⟨w₄, looped, whole.trans rearranged', ordered⟩

/-- `heapUpdate` puts the last item in order. -/
theorem heapUpdate_spec (reliable : H.Reliable) {h : HeapRoot ω} (inv : HeapInv H h) (some_ : 0 < h.zLength)
    {w : ω} (rising : HeapOrder.Rising H.Above (H.at_ w) h.zLength (h.zLength - 1)) :
    ∃ w', heapUpdate h w = (.success, w') ∧ Rearranges H h.zLength w w' ∧
      HeapOrder.Ordered H.Above (H.at_ w') h.zLength 0 := by
  have length := inv.length
  have verified := inv.verify (show 0 < H.zCapacity by omega)
  simp only [heapUpdate, verified, ne_eq, not_true_eq_false, if_false]
  rw [if_neg (by omega)]
  rcases Nat.eq_zero_or_pos (h.zLength - 1) with single | more
  · rw [if_pos single]
    refine ⟨w, rfl, .of_item rfl, rising.settled fun pos => ?_⟩
    omega
  · rw [if_neg (by omega)]
    exact heapUpdateLoop_spec reliable inv more (by omega) (by omega) rising

/-- The slots are as `f` has them, and nothing beside the array changes. -/
structure Lays (H : HeapArray M) (f : Nat → α) (w w' : ω) : Prop where
  slots : ∀ k, k < H.zCapacity → H.at_ w' k = f k
  frame : ∀ a, (∀ i, i < H.zCapacity → a ≠ (H.slot i).pvAddr) → M.item w' a = M.item w a

theorem Lays.of_item {w w' : ω} (same : M.item w' = M.item w) : Lays H (H.at_ w) w w' where
  slots k _ := congrFun (at_of_item same) k
  frame _ _ := by rw [same]

/-- What a sift returns whose item comes to rest at `rest`. -/
def restStatus (H : HeapArray M) (rest : Nat) : Status :=
  if 2 * rest + 2 ≤ H.zCapacity then .success else .oobError

theorem restStatus_eq_success {rest : Nat} : restStatus H rest = .success ↔ 2 * rest + 2 ≤ H.zCapacity := by
  unfold restStatus
  split_ifs with fits
  · exact iff_of_true rfl fits
  · exact iff_of_false (by decide) fits

/-- A child's turn prefers as the order does. -/
theorem heapPrefer_spec (reliable : H.Reliable) {h : HeapRoot ω} (inv : HeapInv H h) {i c : Nat}
    (inside : i < h.zLength) (w : ω) :
    ∃ w', heapPrefer h (c < h.zLength) i c w =
        (⟨.success, HeapOrder.prefer H.Above h.zLength (H.at_ w) i c⟩, w') ∧ M.item w' = M.item w := by
  have length := inv.length
  rcases Nat.lt_or_ge c h.zLength with child | none_
  · obtain ⟨w₁, got, same₁⟩ := getTwo_spec reliable (show i < H.zCapacity by omega)
      (show c < H.zCapacity by omega) w
    obtain ⟨w₂, compared, same₂⟩ := compare_spec reliable (show i < H.zCapacity by omega)
      (show c < H.zCapacity by omega) w₁
    rw [at_of_item same₁] at compared
    refine ⟨w₂, ?_, same₂.trans same₁⟩
    cases fits : H.above (H.at_ w i) (H.at_ w c) <;>
      simp [heapPrefer, HeapOrder.prefer, HeapArray.Above, inv.slots, inv.callbacks, got, compared, child, fits]
  · exact ⟨w, by simp [heapPrefer, HeapOrder.prefer, Nat.not_lt.2 none_], rfl⟩

/-- The two children's turns find the leader. -/
theorem heapLeader_spec (reliable : H.Reliable) {h : HeapRoot ω} (inv : HeapInv H h) {i : Nat}
    (inside : i < h.zLength) (w : ω) :
    ∃ w₂ k₁ w₁, heapPrefer h (2 * i + 1 < h.zLength) i (2 * i + 1) w = (⟨.success, k₁⟩, w₁) ∧
      heapPrefer h (2 * i + 2 < h.zLength) k₁ (2 * i + 2) w₁ =
        (⟨.success, HeapOrder.leader H.Above h.zLength (H.at_ w) i⟩, w₂) ∧
      M.item w₂ = M.item w := by
  obtain ⟨w₁, first, same₁⟩ := heapPrefer_spec reliable inv inside w (c := 2 * i + 1)
  have inside₁ : HeapOrder.prefer H.Above h.zLength (H.at_ w) i (2 * i + 1) < h.zLength := by
    rcases HeapOrder.prefer_cases H.Above h.zLength (H.at_ w) i (2 * i + 1) with same | ⟨same, child⟩
    · exact same.symm ▸ inside
    · exact same.symm ▸ child
  obtain ⟨w₂, second, same₂⟩ := heapPrefer_spec reliable inv inside₁ w₁ (c := 2 * i + 2)
  rw [at_of_item same₁] at second
  exact ⟨w₂, _, w₁, first, second, same₂.trans same₁⟩

/-- The loop of `heapSiftDown` sinks the item, also where it returns early: an index beyond
the capacity is beyond the heap. -/
theorem heapSiftDownLoop_spec (reliable : H.Reliable) {h : HeapRoot ω} (inv : HeapInv H h) {n i : Nat} {w : ω}
    (inside : i < h.zLength) (fuel : h.zLength - i ≤ n) :
    ∃ w', heapSiftDownLoop h n i .success w =
        (restStatus H (HeapOrder.sift H.Above h.zLength n (H.at_ w) i).1, w') ∧
      Lays H (HeapOrder.sift H.Above h.zLength n (H.at_ w) i).2 w w' := by
  have length := inv.length
  induction n generalizing i w with
  | zero => omega
  | succ n ih =>
    have leader := HeapOrder.leader_cases H.Above h.zLength (H.at_ w) i
    rw [HeapOrder.sift]
    have leaf : H.zCapacity < 2 * i + 2 → HeapOrder.leader H.Above h.zLength (H.at_ w) i = i := by
      intro beyond
      rcases leader with rests | ⟨pos, child, isChild⟩
      · exact rests
      · rcases HeapOrder.child_cases pos with left | right <;> omega
    rcases Nat.lt_or_ge H.zCapacity (2 * i + 2) with beyond | fits
    · refine ⟨w, ?_, by simpa only [if_pos (leaf beyond)] using Lays.of_item rfl⟩
      rw [if_pos (leaf beyond), restStatus, if_neg (Nat.not_le.2 beyond)]
      rcases Nat.lt_or_ge H.zCapacity (2 * i + 1) with beyond' | inLeft
      · simp [heapSiftDownLoop, inv.left inside, Nat.not_le.2 beyond']
      · simp [heapSiftDownLoop, inv.left inside, inv.right inside, inLeft, Nat.not_le.2 beyond]
    obtain ⟨w₀, got, same₀⟩ := getAt_spec reliable (show i < H.zCapacity by omega) w
    obtain ⟨w₂, k₁, w₁, first, second, same₂⟩ := heapLeader_spec reliable inv inside w₀
    have same : M.item w₂ = M.item w := same₂.trans same₀
    rw [at_of_item same₀] at second
    simp only [heapSiftDownLoop, inv.left inside, inv.right inside, inv.slots, inv.callbacks,
      if_pos (show 2 * i + 1 ≤ H.zCapacity by omega), if_pos fits, got, first, second, ne_eq, not_true_eq_false,
      if_false]
    by_cases rests : HeapOrder.leader H.Above h.zLength (H.at_ w) i = i
    · rw [if_neg (not_not.2 rests), if_pos rests]
      exact ⟨w₂, by rw [restStatus, if_pos fits], .of_item same⟩
    obtain ⟨pos, inside', isChild⟩ := leader.resolve_left rests
    have less := HeapOrder.parent_lt pos
    obtain ⟨w₃, pair, same₃⟩ := getTwo_spec reliable
      (show HeapOrder.leader H.Above h.zLength (H.at_ w) i < H.zCapacity by omega)
      (show i < H.zCapacity by omega) w₂
    obtain ⟨w₄, swapped, rearranged, slots⟩ := swap_spec reliable length inside' inside w₃
    rw [if_pos rests, if_neg rests, pair]
    simp only [swapped, not_true_eq_false, if_false]
    rw [at_of_item (same₃.trans same)] at slots
    obtain ⟨w₅, looped, lays⟩ := ih inside' (by omega) (w := w₄)
    obtain ⟨rest, cells⟩ := HeapOrder.sift_congr H.Above length slots inside'
    rw [rest] at looped
    refine ⟨w₅, looped, fun k hk => (lays.slots k hk).trans (cells k hk), fun a outside => ?_⟩
    rw [lays.frame a outside, rearranged.frame a outside, same₃, same]

/-- `heapSiftDown` sinks the item at `iStart`. -/
theorem heapSiftDown_spec (reliable : H.Reliable) {h : HeapRoot ω} (inv : HeapInv H h) {iStart : Nat}
    (inside : iStart < h.zLength) (w : ω) :
    ∃ w', heapSiftDown h iStart w =
        (restStatus H (HeapOrder.sift H.Above h.zLength h.zLength (H.at_ w) iStart).1, w') ∧
      Lays H (HeapOrder.sift H.Above h.zLength h.zLength (H.at_ w) iStart).2 w w' := by
  have length := inv.length
  have verified := inv.verify (show 0 < H.zCapacity by omega)
  simp only [heapSiftDown, verified, ne_eq, not_true_eq_false, if_false]
  rw [if_neg (by omega)]
  exact heapSiftDownLoop_spec reliable inv inside (Nat.sub_le _ _)

/-- An Insert on a full heap does nothing. -/
theorem heapInsert_full {h : HeapRoot ω} (inv : HeapInv H h) (c : Cell M) (full : h.zLength = H.zCapacity)
    (w : ω) : ∃ tStatus, tStatus ≠ .success ∧ heapInsert M.apis h c.toPointer w = (tStatus, h, w) := by
  rcases Nat.eq_zero_or_pos H.zCapacity with none_ | pos
  · exact ⟨.nullptrError, by decide, by simp [heapInsert, inv.verify_empty none_]⟩
  · have stop : h.zLength ≥ h.ptHeapArray.deref.zCapacity := by
      rw [inv.slots]
      exact Nat.le_of_eq full.symm
    refine ⟨.err, by decide, ?_⟩
    simp only [heapInsert, inv.verify pos, ne_eq, not_true_eq_false, if_false]
    rw [if_pos stop]

/-- With room an Insert calls `SetAt`, counts the slot as used whatever that returns, and
lets the item rise. -/
theorem heapInsert_room {h : HeapRoot ω} (inv : HeapInv H h) (c : Cell M) (room : h.zLength < H.zCapacity)
    (w : ω) :
    let stored := H.root.ptApi.deref.setAt.deref c.toPointer h.zLength w
    let grown : HeapRoot ω := { h with zLength := h.zLength + 1 }
    heapInsert M.apis h c.toPointer w = ((heapUpdate grown stored.2).1, grown, (heapUpdate grown stored.2).2) := by
  intro stored grown
  rw [heapInsert, inv.slots]
  simp only [inv.verify (show 0 < H.zCapacity by omega), c.verify, ne_eq, not_true_eq_false, if_false]
  rw [if_neg (Nat.not_le.2 room)]

/-- `SetAt` behind the heap adds the item to it, and leaves the slots of the heap alone. -/
theorem setAt_behind {len : Nat} (c : Cell M) (room : len < H.zCapacity) {w : ω}
    (ok : (H.root.ptApi.deref.setAt.deref c.toPointer len w).1 = .success) :
    let w' := (H.root.ptApi.deref.setAt.deref c.toPointer len w).2
    (∀ k, k < len → H.at_ w' k = H.at_ w k) ∧
      (HeapOrder.cells (H.at_ w') (len + 1)).Perm (M.item w c.pvAddr :: HeapOrder.cells (H.at_ w) len) := by
  intro w'
  have effect : M.item w' = _ := (H.item_setAt c len w room).trans (if_pos ok)
  have slots : ∀ k, k < H.zCapacity → H.at_ w' k = Function.update (H.at_ w) len (M.item w c.pvAddr) k :=
    fun k hk => H.at_update room hk effect
  have before : ∀ k, k < len → H.at_ w' k = H.at_ w k := by
    intro k hk
    rw [slots k (by omega), Function.update_of_ne (by omega)]
  refine ⟨before, ?_⟩
  rw [HeapOrder.cells_succ, HeapOrder.cells_congr before, slots _ room, Function.update_self]
  exact List.perm_append_singleton _ _

/-- An Insert with room puts the item among the others, in order. -/
theorem heapInsert_spec (reliable : H.Reliable) {h : HeapRoot ω} (inv : HeapInv H h) (c : Cell M) {w : ω}
    (room : h.zLength < H.zCapacity) (ordered : HeapOrder.Ordered H.Above (H.at_ w) h.zLength 0) :
    ∃ w', heapInsert M.apis h c.toPointer w = (.success, { h with zLength := h.zLength + 1 }, w') ∧
      HeapOrder.Ordered H.Above (H.at_ w') (h.zLength + 1) 0 ∧
      (HeapOrder.cells (H.at_ w') (h.zLength + 1)).Perm
        (M.item w c.pvAddr :: HeapOrder.cells (H.at_ w) h.zLength) := by
  obtain ⟨before, items⟩ := setAt_behind c room (reliable.setAt c h.zLength w room)
  have inv' : HeapInv H { h with zLength := h.zLength + 1 } := inv.resize room
  have rising := (ordered.congr before).rising_last
  obtain ⟨w', updated, rearranged, ordered'⟩ := heapUpdate_spec reliable inv' (Nat.succ_pos _) rising
  refine ⟨w', ?_, ordered', rearranged.items.trans items⟩
  rw [heapInsert_room inv c room, updated]

/-- A Pop on an empty heap does nothing. -/
theorem heapPop_empty {h : HeapRoot ω} (inv : HeapInv H h) (c : H.Client) (none_ : h.zLength = 0) (w : ω) :
    ∃ tStatus, tStatus ≠ .success ∧ heapPop M.apis h c.toPointer w = (tStatus, h, w) := by
  rcases Nat.eq_zero_or_pos H.zCapacity with zero | pos
  · exact ⟨.nullptrError, by decide, by simp [heapPop, inv.verify_empty zero]⟩
  · exact ⟨.err, by decide, by simp [heapPop, inv.verify pos, none_]⟩

/-- A Pop of a heap that holds something hands out the root, puts the last item in its place
and lets it sink. -/
theorem heapPop_removed (reliable : H.Reliable) {h : HeapRoot ω} (inv : HeapInv H h) (c : H.Client) (w : ω)
    (some_ : 0 < h.zLength) :
    ∃ w', M.item w' c.pvAddr = H.at_ w 0 ∧
      (∀ k, k < h.zLength - 1 → H.at_ w' k = (H.at_ w ∘ Equiv.swap (h.zLength - 1) 0) k) ∧
      heapPop M.apis h c.toPointer w =
        if h.zLength - 1 > 0 then
          let r := heapSiftDown { h with zLength := h.zLength - 1 } 0 w'
          (r.1, { h with zLength := h.zLength - 1 }, r.2)
        else (.success, { h with zLength := h.zLength - 1 }, w') := by
  have length := inv.length
  have last : h.zLength - 1 < H.zCapacity := by omega
  obtain ⟨w₁, pair, same₁⟩ := getTwo_spec reliable last (show 0 < H.zCapacity by omega) w
  obtain ⟨w₂, swapped, _, exchanged⟩ :=
    swap_spec reliable length (show h.zLength - 1 < h.zLength by omega) some_ w₁
  rw [at_of_item same₁] at exchanged
  -- The root is in the last slot now, from where it is copied out.
  have okCopy := reliable.copy c (h.zLength - 1) w₂ last
  have copied : M.item _ = _ :=
    (M.item_copy c.toPointer (H.slot (h.zLength - 1)).toPointer w₂ c.typed (H.slot _).typed).trans (if_pos okCopy)
  rcases copy : (M.apis M.ptApi).copy.deref c.toPointer (H.slot (h.zLength - 1)).toPointer w₂ with ⟨tStatus, w₃⟩
  rw [copy] at copied okCopy
  obtain rfl : tStatus = .success := okCopy
  obtain ⟨x, removed⟩ := H.item_removeAt (h.zLength - 1) w₃ last
  have okRemove := reliable.removeAt (h.zLength - 1) w₃ last
  rcases remove : H.root.ptApi.deref.removeAt.deref (h.zLength - 1) w₃ with ⟨tStatus, w₄⟩
  rw [remove] at removed okRemove
  obtain rfl : tStatus = .success := okRemove
  simp only [if_true] at removed
  refine ⟨w₄, ?_, fun k hk => ?_, ?_⟩
  · rw [removed, Function.update_of_ne (c.outside _ last), copied, Function.update_self]
    have root := exchanged _ last
    rwa [Function.comp, Equiv.swap_apply_left] at root
  · rw [H.at_update last (show k < H.zCapacity by omega) removed, Function.update_of_ne (by omega),
      H.at_client c (show k < H.zCapacity by omega) copied]
    exact exchanged k (by omega)
  · simp only [heapPop, inv.verify (show 0 < H.zCapacity by omega), c.verify, ne_eq, not_true_eq_false,
      if_false]
    rw [if_neg (by omega), inv.slots, inv.callbacks, pair]
    simp only [swapped, Cell.api, copy, remove, not_true_eq_false, if_false]

/-- A Pop of a heap that holds something hands out the root and keeps the rest, in order. -/
theorem heapPop_spec (reliable : H.Reliable) {h : HeapRoot ω} (inv : HeapInv H h) (c : H.Client) {w : ω}
    (some_ : 0 < h.zLength) (ordered : HeapOrder.Ordered H.Above (H.at_ w) h.zLength 0) :
    ∃ tStatus w', heapPop M.apis h c.toPointer w = (tStatus, { h with zLength := h.zLength - 1 }, w') ∧
      M.item w' c.pvAddr = H.at_ w 0 ∧ HeapOrder.Ordered H.Above (H.at_ w') (h.zLength - 1) 0 ∧
      (HeapOrder.cells (H.at_ w) h.zLength).Perm
        (H.at_ w 0 :: HeapOrder.cells (H.at_ w') (h.zLength - 1)) := by
  have length := inv.length
  obtain ⟨w₁, handed, rest, call⟩ := heapPop_removed reliable inv c w some_
  have items : (HeapOrder.cells (H.at_ w) h.zLength).Perm
      (H.at_ w 0 :: HeapOrder.cells (H.at_ w₁) (h.zLength - 1)) := by
    have split := HeapOrder.cells_succ (H.at_ w ∘ Equiv.swap (h.zLength - 1) 0) (h.zLength - 1)
    rw [Nat.sub_add_cancel some_, ← HeapOrder.cells_congr rest, Function.comp, Equiv.swap_apply_left] at split
    have moved := HeapOrder.cells_swap (H.at_ w) (show h.zLength - 1 < h.zLength by omega) some_
    exact moved.symm.trans (split ▸ List.perm_append_singleton _ _)
  rcases Nat.eq_zero_or_pos (h.zLength - 1) with single | more
  · refine ⟨_, _, call.trans (if_neg (by omega)), handed, ?_, items⟩
    intro j pos inside
    omega
  · rw [if_pos more] at call
    have inv' : HeapInv H { h with zLength := h.zLength - 1 } := inv.resize (by omega)
    have sinking : HeapOrder.Sinking H.Above (H.at_ w₁) (h.zLength - 1) 0 0 := by
      refine (ordered.shorten (show h.zLength - 1 ≤ h.zLength by omega)).sinking_root fun k pos hk => ?_
      rw [rest k hk, Function.comp, Equiv.swap_apply_of_ne_of_ne (by omega) (by omega)]
    obtain ⟨w₂, sunk, lays⟩ := heapSiftDown_spec reliable inv' more w₁
    have slots : ∀ k, k < h.zLength - 1 → H.at_ w₂ k = _ := fun k hk => lays.slots k (by omega)
    have sorted := HeapOrder.sift_ordered (Nat.le_refl 0) more (Nat.sub_le _ _) sinking
    have moved := (HeapOrder.sift_moves H.Above _ (H.at_ w₁) (h.zLength - 1) more).2.1
    rw [sunk] at call
    refine ⟨_, w₂, call, (lays.frame _ c.outside).trans handed, sorted.congr slots, items.trans ?_⟩
    rw [HeapOrder.cells_congr slots]
    exact moved.symm.cons _

/-! ## Runs of Insert and Pop -/

section Runs

/-- A call of the client: it writes `x` to a variable of its own and inserts that, or it
passes a variable to pop into. -/
inductive HeapCall (H : HeapArray M) where
  | insert (c : H.Client) (x : α)
  | pop (c : H.Client)

/-- What the caller sees of one call: the status, whether `zLength` has changed, and what is
in its variable. -/
structure HeapReply (α : Type) where
  tStatus : Status
  moved : Bool
  tReturn : α

variable (H)

/-- One call on the heap. -/
def heapMachine : Machine (HeapRoot ω × ω) (HeapCall H) (HeapReply α) where
  step s call :=
    match call with
    | .insert c x =>
      let r := heapInsert M.apis s.1 c.toPointer (M.store s.2 c.pvAddr x)
      (⟨r.1, r.2.1.zLength ≠ s.1.zLength, M.item r.2.2 c.pvAddr⟩, r.2)
    | .pop c =>
      let r := heapPop M.apis s.1 c.toPointer s.2
      (⟨r.1, r.2.1.zLength ≠ s.1.zLength, M.item r.2.2 c.pvAddr⟩, r.2)

/-- The items in the slots below `zLength`. -/
def heapItems (s : HeapRoot ω × ω) : Multiset α := ↑(HeapOrder.cells (H.at_ s.2) s.1.zLength)

/-- A call and its reply as an event of a priority queue, whatever the status is. -/
def heapEvent (e : HeapCall H × HeapReply α) : PriorityQueue.Event α :=
  match e.1 with
  | .insert _ x => if e.2.moved then .inserts x else .full
  | .pop _ => if e.2.moved then .pops e.2.tReturn else .empty

/-- An Insert on a full heap and a Pop on an empty one return an error and change nothing. -/
def HeapRefuses (s : HeapRoot ω × ω) (call : HeapCall H) : Prop :=
  match call with
  | .insert c x => s.1.zLength = H.zCapacity →
      ((heapMachine H).step s call).1.tStatus ≠ .success ∧
        ((heapMachine H).step s call).2 = (s.1, M.store s.2 c.pvAddr x)
  | .pop _ => s.1.zLength = 0 →
      ((heapMachine H).step s call).1.tStatus ≠ .success ∧ ((heapMachine H).step s call).2 = s

/-- A heap whose slots are in order. -/
structure HeapOk (s : HeapRoot ω × ω) : Prop where
  inv : HeapInv H s.1
  ordered : HeapOrder.Ordered H.Above (H.at_ s.2) s.1.zLength 0

variable {H}

/-- One call keeps the order, and is a step of the priority queue. -/
theorem heap_step (reliable : H.Reliable) {s : HeapRoot ω × ω} (ok : HeapOk H s) (call : HeapCall H) :
    HeapOk H ((heapMachine H).step s call).2 ∧
      PriorityQueue.Step H.Above H.zCapacity (heapItems H s)
        (heapEvent H (call, ((heapMachine H).step s call).1))
        (heapItems H ((heapMachine H).step s call).2) := by
  have length := ok.inv.length
  have card : (heapItems H s).card = s.1.zLength := by simp [heapItems]
  cases call with
  | insert c x =>
    -- The client's own write is not seen in the slots.
    have slots : ∀ k, k < H.zCapacity → H.at_ (M.store s.2 c.pvAddr x) k = H.at_ s.2 k :=
      fun k hk => H.at_client c hk (M.item_store _ _ _)
    have same : HeapOrder.cells (H.at_ (M.store s.2 c.pvAddr x)) s.1.zLength =
        HeapOrder.cells (H.at_ s.2) s.1.zLength :=
      HeapOrder.cells_congr fun k hk => slots k (by omega)
    have ordered := ok.ordered.congr fun k hk => slots k (show k < H.zCapacity by omega)
    rcases Nat.lt_or_ge s.1.zLength H.zCapacity with room | full
    · obtain ⟨w', call, ordered', items⟩ := heapInsert_spec reliable ok.inv c.toCell room ordered
      have value : M.item (M.store s.2 c.pvAddr x) c.pvAddr = x := by rw [M.item_store, Function.update_self]
      rw [value, same] at items
      simp only [heapMachine, call]
      refine ⟨⟨ok.inv.resize room, ordered'⟩, ?_⟩
      have after : heapItems H ({ s.1 with zLength := s.1.zLength + 1 }, w') = x ::ₘ heapItems H s :=
        Multiset.coe_eq_coe.2 items
      rw [after]
      simpa [heapEvent] using PriorityQueue.Step.inserts x (card ▸ room)
    · obtain ⟨tStatus, _, call⟩ := heapInsert_full ok.inv c.toCell (by omega) (M.store s.2 c.pvAddr x)
      simp only [heapMachine, call]
      refine ⟨⟨ok.inv, ordered⟩, ?_⟩
      have after : heapItems H (s.1, M.store s.2 c.pvAddr x) = heapItems H s := by
        simp only [heapItems, same]
      rw [after]
      simpa [heapEvent] using PriorityQueue.Step.full (card ▸ full)
  | pop c =>
    rcases Nat.eq_zero_or_pos s.1.zLength with none_ | some_
    · obtain ⟨tStatus, _, call⟩ := heapPop_empty ok.inv c none_ s.2
      simp only [heapMachine, call]
      refine ⟨ok, ?_⟩
      rw [Multiset.card_eq_zero.1 (card.trans none_)]
      simpa [heapEvent] using PriorityQueue.Step.empty
    · obtain ⟨tStatus, w', call, handed, ordered', items⟩ := heapPop_spec reliable ok.inv c some_ ok.ordered
      simp only [heapMachine, call]
      refine ⟨⟨ok.inv.resize (by omega), ordered'⟩, ?_⟩
      have before : heapItems H s =
          H.at_ s.2 0 ::ₘ heapItems H ({ s.1 with zLength := s.1.zLength - 1 }, w') :=
        Multiset.coe_eq_coe.2 items
      have extreme : ∀ y ∈ heapItems H s, H.Above (H.at_ s.2 0) y := by
        intro y member
        obtain ⟨i, inside, rfl⟩ := HeapOrder.mem_cells.1 (Multiset.mem_coe.1 member)
        exact ok.ordered.root i inside
      have fewer : s.1.zLength - 1 ≠ s.1.zLength := by omega
      rw [before] at extreme ⊢
      simpa [heapEvent, handed, fewer] using PriorityQueue.Step.pops _ extreme

theorem heap_refuses {s : HeapRoot ω × ω} (inv : HeapInv H s.1) (call : HeapCall H) :
    HeapRefuses H s call := by
  cases call with
  | insert c x =>
    intro full
    obtain ⟨tStatus, failed, call⟩ := heapInsert_full inv c.toCell full (M.store s.2 c.pvAddr x)
    simp only [heapMachine, call]
    exact ⟨failed, trivial⟩
  | pop c =>
    intro none_
    obtain ⟨tStatus, failed, call⟩ := heapPop_empty inv c none_ s.2
    simp only [heapMachine, call]
    exact ⟨failed, trivial⟩

/-- From initialisation on, a run of the heap is one of a bounded priority queue. -/
theorem heap_priority (H : HeapArray M) (reliable : H.Reliable) (w : ω) (calls : List (HeapCall H)) :
    let s₀ := ((heapInit (Ref.to H.pointerApi) (Ref.to H.root)).2, w)
    let s := (heapMachine H).run s₀ calls
    let events := ((heapMachine H).trace s₀ calls).map (heapEvent H)
    s.1.zLength ≤ H.zCapacity ∧
      (∀ i, 1 ≤ i → i < s.1.zLength → H.above (H.at_ s.2 ((i - 1) / 2)) (H.at_ s.2 i) = true) ∧
      heapItems H s + PriorityQueue.popped events = PriorityQueue.inserted events ∧
      StepChain (PriorityQueue.Step H.Above H.zCapacity) 0 events (heapItems H s) ∧
      (heapMachine H).Along (HeapRefuses H) s₀ calls := by
  intro s₀ s events
  have start : HeapOk H s₀ := by
    refine ⟨⟨rfl, rfl, rfl, Nat.zero_le _⟩, fun j pos inside => ?_⟩
    exact absurd inside (Nat.not_lt_zero j)
  have always := Machine.along_of (M := heapMachine H) (P := fun _ _ => True) (fun _ _ => trivial) s₀ calls
  have ok : HeapOk H s := Machine.invariant (I := HeapOk H) (fun s call ok _ => (heap_step reliable ok call).1) start always
  have chain : StepChain (PriorityQueue.Step H.Above H.zCapacity) (heapItems H s₀) events (heapItems H s) :=
    Machine.refines (I := HeapOk H) (heapItems H) (heapEvent H) (fun s call ok _ => heap_step reliable ok call) start always
  have nothing : heapItems H s₀ = 0 := rfl
  rw [nothing] at chain
  have books := PriorityQueue.conserves chain
  rw [Multiset.zero_add] at books
  refine ⟨ok.inv.length, fun i pos inside => ok.ordered i pos inside (Nat.zero_le _), books, chain, ?_⟩
  have along := Machine.invariant_along (I := HeapOk H) (fun s call ok _ => (heap_step reliable ok call).1) start always
  exact along.mono fun s call here => heap_refuses here.1.inv call

/-- Three slots for numbers, the largest first. -/
def plainHeap : HeapArray (plainMemory Nat) where
  toItemArray := plainArray Nat 1 3
  pointerApi :=
    { compare := Ref.to fun tParent tChild w => (⟨.success, decide (w tChild.pvAddr ≤ w tParent.pvAddr)⟩, w)
      swap := Ref.to fun tLeft tRight w => (.success,
        Function.update (Function.update w tLeft.pvAddr (w tRight.pvAddr)) tRight.pvAddr (w tLeft.pvAddr)) }
  above x y := decide (y ≤ x)
  present := rfl
  total x y := by
    simp only [decide_eq_true_eq]
    omega
  transitive x y z := by
    simp only [decide_eq_true_eq]
    omega
  addressable := by decide
  compare_above _ _ _ _ _ := ⟨rfl, fun _ => rfl⟩
  swap_slots _ _ _ _ _ := rfl

theorem plainHeap_reliable : plainHeap.Reliable :=
  ⟨fun _ _ _ _ => rfl, fun _ _ _ => rfl, fun _ _ _ => rfl, fun _ _ _ _ _ => rfl, fun _ _ _ _ _ => rfl,
    fun _ _ _ _ => rfl⟩

abbrev plainHeapVariable : plainHeap.Client := plainClient Nat 1 3 0 Nat.one_pos

/-- Three items go in, a fourth is refused, and the largest comes out. -/
theorem heap_priority_plain :
    let s₀ := ((heapInit (Ref.to plainHeap.pointerApi) (Ref.to plainHeap.root)).2, fun _ => 0)
    let calls : List (HeapCall plainHeap) := [.insert plainHeapVariable 4, .insert plainHeapVariable 9,
      .insert plainHeapVariable 7, .insert plainHeapVariable 8, .pop plainHeapVariable]
    let s := (heapMachine plainHeap).run s₀ calls
    let events := ((heapMachine plainHeap).trace s₀ calls).map (heapEvent plainHeap)
    s.1.zLength ≤ plainHeap.zCapacity ∧
      (∀ i, 1 ≤ i → i < s.1.zLength →
        plainHeap.above (plainHeap.at_ s.2 ((i - 1) / 2)) (plainHeap.at_ s.2 i) = true) ∧
      heapItems plainHeap s + PriorityQueue.popped events = PriorityQueue.inserted events ∧
      StepChain (PriorityQueue.Step plainHeap.Above plainHeap.zCapacity) 0 events (heapItems plainHeap s) ∧
      (heapMachine plainHeap).Along (HeapRefuses plainHeap) s₀ calls :=
  heap_priority plainHeap plainHeap_reliable (fun _ => 0) _

end Runs

end LibJuno.Ds
