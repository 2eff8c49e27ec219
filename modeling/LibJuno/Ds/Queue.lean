import LibJuno.Ds.Array
import LibJuno.Lib.Machine
import LibJuno.Lib.Bounded
import LibJuno.Lib.Ring

/-!
# The array-backed queue

`queue_api.h` and `juno_buff_queue.c`. The queue is a window of `zLength` slots of its
array from `iStartIndex` on, wrapping at the capacity. `queuePush`, `queuePop` and
`queuePeek` follow the C functions status by status; the index sum is a `size_t` and
wraps.
-/

namespace LibJuno.Ds

open Memory

/-- `JUNO_DS_QUEUE_API_T`: which of the three functions are set. -/
structure QueueApi where
  enqueue : Bool
  dequeue : Bool
  peek : Bool

/-- `gtQueueApi`, the library's queue vtable: `queuePush`, `queuePop`, `queuePeek`. -/
def gtQueueApi : QueueApi := ⟨true, true, true⟩

/-- `JUNO_DS_QUEUE_ROOT_T`. -/
structure QueueRoot (ω : Type) where
  ptApi : Ref QueueApi
  failureHandler : FailureHandler ω
  ptQueueArray : Ref (ArrayRoot ω)
  iStartIndex : Nat
  zLength : Nat

section Operations

variable {ω : Type}

/-- `JunoDs_QueueApiVerify`. -/
def queueApiVerify (ptQueueApi : Ref QueueApi) : Status :=
  assertExists (ptQueueApi.nonNull && ptQueueApi.deref.enqueue && ptQueueApi.deref.dequeue &&
    ptQueueApi.deref.peek)

/-- `JunoDs_QueueVerify`. -/
def queueVerify (ptQueue : QueueRoot ω) : Status :=
  let tStatus := arrayVerify ptQueue.ptQueueArray
  if tStatus ≠ .success then tStatus
  else queueApiVerify ptQueue.ptApi

/-- `JunoDs_QueueInit`: the fields are written unless the array pointer is NULL. -/
def queueInit (ptQueue : QueueRoot ω) (ptQueueArray : Ref (ArrayRoot ω))
    (pfcnFailureHdlr : FailureHandler ω) : Status × QueueRoot ω :=
  if !ptQueueArray.nonNull then (.nullptrError, ptQueue)
  else
    let ptQueue : QueueRoot ω := ⟨Ref.to gtQueueApi, pfcnFailureHdlr, ptQueueArray, 0, 0⟩
    (queueVerify ptQueue, ptQueue)

variable (apis : PointerApis ω)

/-- `JunoDs_QueuePush`. -/
def queuePush (ptQueue : QueueRoot ω) (tItem : Pointer) (w : ω) : Status × QueueRoot ω × ω :=
  let tStatus := queueVerify ptQueue
  if tStatus ≠ .success then (tStatus, ptQueue, w)
  else
    let tStatus := pointerVerify apis tItem
    if tStatus ≠ .success then (tStatus, ptQueue, w)
    else
      let ptBuffer := ptQueue.ptQueueArray.deref
      if ptQueue.zLength < ptBuffer.zCapacity then
        let iIndex := sizeT (ptQueue.iStartIndex + ptQueue.zLength) % ptBuffer.zCapacity
        let (tStatus, w) := ptBuffer.ptApi.deref.setAt.deref tItem iIndex w
        if tStatus ≠ .success then (tStatus, ptQueue, w)
        else (tStatus, { ptQueue with zLength := ptQueue.zLength + 1 }, w)
      else
        (.oobError, ptQueue, fail ptQueue.failureHandler .oobError "Failed to enqueue data" w)

/-- `JunoDs_QueuePop`. The copy goes out before the slot is removed, and the indices
move last. -/
def queuePop (ptQueue : QueueRoot ω) (tReturn : Pointer) (w : ω) : Status × QueueRoot ω × ω :=
  let tStatus := queueVerify ptQueue
  if tStatus ≠ .success then (tStatus, ptQueue, w)
  else
    let tStatus := pointerVerify apis tReturn
    if tStatus ≠ .success then (tStatus, ptQueue, w)
    else
      let ptBuffer := ptQueue.ptQueueArray.deref
      if ptQueue.zLength > 0 then
        let iDequeueIndex := ptQueue.iStartIndex
        let (tPtrResult, w) := ptBuffer.ptApi.deref.getAt.deref iDequeueIndex w
        if tPtrResult.tStatus ≠ .success then (tPtrResult.tStatus, ptQueue, w)
        else
          let (tStatus, w) := (apis tPtrResult.tOk.ptApi).copy.deref tReturn tPtrResult.tOk w
          if tStatus ≠ .success then (tStatus, ptQueue, w)
          else
            let (tStatus, w) := ptBuffer.ptApi.deref.removeAt.deref iDequeueIndex w
            if tStatus ≠ .success then (tStatus, ptQueue, w)
            else
              (tStatus, { ptQueue with
                iStartIndex := sizeT (ptQueue.iStartIndex + 1) % ptBuffer.zCapacity
                zLength := ptQueue.zLength - 1 }, w)
      else (.oobError, ptQueue, fail ptQueue.failureHandler .oobError "Queue is empty" w)

/-- `JunoDs_QueuePeek`. -/
def queuePeek (ptQueue : QueueRoot ω) (w : ω) : Result Pointer × ω :=
  let tStatus := queueVerify ptQueue
  if tStatus ≠ .success then (⟨tStatus, default⟩, w)
  else
    let ptBuffer := ptQueue.ptQueueArray.deref
    if ptQueue.zLength = 0 then
      (⟨.oobError, default⟩, fail ptQueue.failureHandler .oobError "Queue is empty" w)
    else ptBuffer.ptApi.deref.getAt.deref ptQueue.iStartIndex w

end Operations

/-! ## What one call does -/

variable {ω α : Type} {M : ItemMemory ω α}

/-- The queue over the array `A`: wired to it and to the library's vtable, the failure
handler keeping its hands off the items, the window inside the ring. -/
structure QueueInv (A : ItemArray M) (q : QueueRoot ω) : Prop where
  api : q.ptApi = Ref.to gtQueueApi
  array : q.ptQueueArray = Ref.to A.root
  handler : ∀ tStatus message w, M.item (fail q.failureHandler tStatus message w) = M.item w
  start : q.iStartIndex < A.zCapacity ∨ A.zCapacity = 0 ∧ q.iStartIndex = 0
  length : q.zLength ≤ A.zCapacity

/-- The items of the queue, front first. -/
def queueItems (A : ItemArray M) (q : QueueRoot ω) (w : ω) : List α :=
  Ring.window (A.at_ w) A.zCapacity q.iStartIndex q.zLength

namespace QueueInv

variable {A : ItemArray M} {q : QueueRoot ω}

theorem verify (h : QueueInv A q) (pos : 0 < A.zCapacity) : queueVerify q = .success := by
  rw [queueVerify, h.array, A.verify pos, h.api]
  rfl

theorem verify_empty (h : QueueInv A q) (none : A.zCapacity = 0) : queueVerify q = .nullptrError := by
  simp [queueVerify, h.array, A.verify_empty none]

theorem start_lt (h : QueueInv A q) (pos : 0 < A.zCapacity) : q.iStartIndex < A.zCapacity := by
  rcases h.start with lt | ⟨none, _⟩
  · exact lt
  · omega

/-- The index sum of `queuePush` does not wrap for an array of at most `SIZE_MAX / 2` slots. -/
theorem sum_fits (h : QueueInv A q) (pos : 0 < A.zCapacity) (bound : A.zCapacity ≤ sizeMax / 2) :
    sizeT (q.iStartIndex + q.zLength) = q.iStartIndex + q.zLength := by
  have lt := h.start_lt pos
  have le := h.length
  exact sizeT_of_le (by omega)

end QueueInv

/-- The callbacks that the call makes on the queue all succeed. -/
def QueueSmooth (A : ItemArray M) (s : QueueRoot ω × ω) : A.BufferCall → Prop
  | .put c x => s.1.zLength < A.zCapacity →
    (A.root.ptApi.deref.setAt.deref c.toPointer ((s.1.iStartIndex + s.1.zLength) % A.zCapacity)
      (M.store s.2 c.pvAddr x)).1 = .success
  | .take c => 0 < s.1.zLength →
    let get := A.root.ptApi.deref.getAt.deref s.1.iStartIndex s.2
    let copy := (M.apis M.ptApi).copy.deref c.toPointer get.1.tOk get.2
    get.1.tStatus = .success ∧ copy.1 = .success ∧
      (A.root.ptApi.deref.removeAt.deref s.1.iStartIndex copy.2).1 = .success
  | .look => 0 < s.1.zLength →
    (A.root.ptApi.deref.getAt.deref s.1.iStartIndex s.2).1.tStatus = .success

/-- What `queuePush` does: it stores through `SetAt` behind the window and grows it, or
it changes nothing. -/
theorem queuePush_spec {A : ItemArray M} {q : QueueRoot ω} (h : QueueInv A q)
    (bound : A.zCapacity ≤ sizeMax / 2) (c : Cell M) (w : ω) :
    let put := A.root.ptApi.deref.setAt.deref c.toPointer
      ((q.iStartIndex + q.zLength) % A.zCapacity) w
    let r := queuePush M.apis q c.toPointer w
    (r.1 = .success ∧ q.zLength < A.zCapacity ∧ put.1 = .success ∧
      r.2 = ({ q with zLength := q.zLength + 1 }, put.2)) ∨
    (r.1 ≠ .success ∧ ¬(q.zLength < A.zCapacity ∧ put.1 = .success) ∧
      r.2.1 = q ∧ M.item r.2.2 = M.item w) := by
  intro put r
  rcases Nat.eq_zero_or_pos A.zCapacity with none | pos
  · right
    have stop : r = (.nullptrError, q, w) := by
      simp [r, queuePush, h.verify_empty none]
    rw [stop]
    exact ⟨by simp, by omega, rfl, rfl⟩
  · have ring : q.ptQueueArray.deref = A.root := by rw [h.array]; rfl
    by_cases room : q.zLength < A.zCapacity
    · have call : r = if put.1 ≠ .success then (put.1, q, put.2)
          else (put.1, { q with zLength := q.zLength + 1 }, put.2) := by
        simp only [r, queuePush, h.verify pos, c.verify, ring, h.sum_fits pos bound, ne_eq,
          not_true_eq_false, if_false]
        rw [if_pos room]
      rcases A.store_cases c (Nat.mod_lt _ pos) w call with ⟨done, ok, grown⟩ | ⟨failed, bad, held, items⟩
      · exact .inl ⟨done, room, ok, grown⟩
      · exact .inr ⟨failed, fun both => bad both.2, held, items⟩
    · right
      have call : r = (.oobError, q, fail q.failureHandler .oobError "Failed to enqueue data" w) := by
        simp only [r, queuePush, h.verify pos, c.verify, ring, ne_eq, not_true_eq_false, if_false]
        rw [if_neg room]
      rw [call]
      exact ⟨by simp, fun both => room both.1, rfl, h.handler _ _ _⟩

/-- `queuePush` succeeds exactly when there is room and `SetAt` succeeds. -/
theorem queuePush_success_iff {A : ItemArray M} {q : QueueRoot ω} (h : QueueInv A q)
    (bound : A.zCapacity ≤ sizeMax / 2) (c : Cell M) (w : ω) :
    (queuePush M.apis q c.toPointer w).1 = .success ↔ q.zLength < A.zCapacity ∧
      (A.root.ptApi.deref.setAt.deref c.toPointer
        ((q.iStartIndex + q.zLength) % A.zCapacity) w).1 = .success := by
  rcases queuePush_spec h bound c w with ⟨done, room, put, _⟩ | ⟨failed, no, _, _⟩
  · exact ⟨fun _ => ⟨room, put⟩, fun _ => done⟩
  · exact ⟨fun done => absurd done failed, fun both => absurd both no⟩

/-- The callbacks of a pop from a queue that holds something, in their order. -/
theorem queuePop_calls {A : ItemArray M} {q : QueueRoot ω} (h : QueueInv A q)
    (bound : A.zCapacity ≤ sizeMax / 2) (c : A.Client) (w : ω) (some_ : 0 < q.zLength) :
    let get := A.root.ptApi.deref.getAt.deref q.iStartIndex w
    let copy := (M.apis M.ptApi).copy.deref c.toPointer (A.slot q.iStartIndex).toPointer get.2
    let remove := A.root.ptApi.deref.removeAt.deref q.iStartIndex copy.2
    queuePop M.apis q c.toPointer w =
      if get.1.tStatus ≠ .success then (get.1.tStatus, q, get.2)
      else if copy.1 ≠ .success then (copy.1, q, copy.2)
      else if remove.1 ≠ .success then (remove.1, q, remove.2)
      else (remove.1, { q with
        iStartIndex := (q.iStartIndex + 1) % A.zCapacity
        zLength := q.zLength - 1 }, remove.2) := by
  intro get copy remove
  have fill := h.length
  have pos : 0 < A.zCapacity := by omega
  have ring : q.ptQueueArray.deref = A.root := by rw [h.array]; rfl
  have fits : sizeT (q.iStartIndex + 1) = q.iStartIndex + 1 := by
    have lt := h.start_lt pos
    exact sizeT_of_le (by omega)
  simp only [queuePop, h.verify pos, c.verify, ring, fits, ne_eq, not_true_eq_false, if_false]
  rw [if_pos some_]
  by_cases okGet : get.1.tStatus = .success
  · have source : get.1.tOk = (A.slot q.iStartIndex).toPointer :=
      (A.getAt_slot q.iStartIndex w (h.start_lt pos)).2 okGet
    simp only [get] at okGet source
    simp only [get, copy, remove, okGet, source, Cell.api, not_true_eq_false, if_false]
  · simp only [get] at okGet
    simp only [get, okGet, not_false_eq_true, if_true]

/-- What `queuePop` does: it copies the front out, gives up its slot and moves the
window on, or it writes at most the variable it was given. -/
theorem queuePop_spec {A : ItemArray M} {q : QueueRoot ω} (h : QueueInv A q)
    (bound : A.zCapacity ≤ sizeMax / 2) (c : A.Client) (w : ω) :
    let r := queuePop M.apis q c.toPointer w
    (r.1 = .success ∧ 0 < q.zLength ∧
      r.2.1 = { q with
        iStartIndex := (q.iStartIndex + 1) % A.zCapacity
        zLength := q.zLength - 1 } ∧
      ∃ x, M.item r.2.2 = Function.update
        (Function.update (M.item w) c.pvAddr (A.at_ w q.iStartIndex)) (A.slot q.iStartIndex).pvAddr x) ∨
    (r.1 ≠ .success ∧ r.2.1 = q ∧ (∃ y, M.item r.2.2 = Function.update (M.item w) c.pvAddr y) ∧
      (QueueSmooth A (q, w) (.take c) → q.zLength = 0)) := by
  intro r
  have fill := h.length
  have untouched : ∀ w', M.item w' = M.item w → ∃ y, M.item w' = Function.update (M.item w) c.pvAddr y :=
    fun w' same => ⟨M.item w c.pvAddr, by rw [Function.update_eq_self, same]⟩
  rcases Nat.eq_zero_or_pos A.zCapacity with none | pos
  · right
    have stop : r = (.nullptrError, q, w) := by
      simp [r, queuePop, h.verify_empty none]
    rw [stop]
    exact ⟨by simp, rfl, untouched _ rfl, fun _ => by omega⟩
  by_cases some_ : q.zLength > 0
  swap
  · right
    have call : r = (.oobError, q, fail q.failureHandler .oobError "Queue is empty" w) := by
      simp only [r, queuePop, h.verify pos, c.verify, ne_eq, not_true_eq_false, if_false]
      rw [if_neg some_]
    rw [call]
    exact ⟨by simp, rfl, untouched _ (h.handler _ _ _), fun _ => by omega⟩
  have call : r = _ := queuePop_calls h bound c w some_
  have lt := h.start_lt pos
  obtain ⟨keepsGet, slotGet⟩ := A.getAt_slot q.iStartIndex w lt
  have smooth : QueueSmooth A (q, w) (.take c) → _ := fun ok => ok some_
  dsimp only at smooth
  generalize A.root.ptApi.deref.getAt.deref q.iStartIndex w = get at call keepsGet slotGet smooth
  by_cases okGet : get.1.tStatus = .success
  swap
  · right
    rw [call, if_pos okGet]
    exact ⟨okGet, rfl, untouched _ keepsGet, fun ok => absurd (smooth ok).1 okGet⟩
  have copied := M.item_copy c.toPointer (A.slot q.iStartIndex).toPointer get.2 c.typed
    (A.slot q.iStartIndex).typed
  rw [slotGet okGet] at smooth
  generalize (M.apis M.ptApi).copy.deref c.toPointer (A.slot q.iStartIndex).toPointer get.2 = copy
    at call copied smooth
  by_cases okCopy : copy.1 = .success
  swap
  · right
    rw [call, if_neg (not_not.2 okGet), if_pos okCopy]
    simp only [okCopy, if_false, keepsGet] at copied
    exact ⟨okCopy, rfl, untouched _ copied, fun ok => absurd (smooth ok).2.1 okCopy⟩
  simp only [okCopy, if_true, keepsGet] at copied
  obtain ⟨x, removed⟩ := A.item_removeAt q.iStartIndex copy.2 lt
  generalize A.root.ptApi.deref.removeAt.deref q.iStartIndex copy.2 = remove at call removed smooth
  rw [call, if_neg (not_not.2 okGet), if_neg (not_not.2 okCopy)]
  by_cases okRemove : remove.1 = .success
  · left
    rw [if_neg (not_not.2 okRemove)]
    simp only [okRemove, if_true, copied] at removed
    exact ⟨okRemove, some_, rfl, x, removed⟩
  · right
    rw [if_pos okRemove]
    simp only [okRemove, if_false, copied] at removed
    exact ⟨okRemove, rfl, ⟨_, removed⟩, fun ok => absurd (smooth ok).2.2 okRemove⟩

/-- What `queuePeek` does: it names the slot of the front, and changes nothing. -/
theorem queuePeek_spec {A : ItemArray M} {q : QueueRoot ω} (h : QueueInv A q) (w : ω) :
    let r := queuePeek q w
    M.item r.2 = M.item w ∧
    (r.1.tStatus = .success → 0 < q.zLength ∧ r.1.tOk = (A.slot q.iStartIndex).toPointer) ∧
    (QueueSmooth A (q, w) .look → 0 < q.zLength → r.1.tStatus = .success) := by
  intro r
  have fill := h.length
  rcases Nat.eq_zero_or_pos A.zCapacity with none | pos
  · have stop : r = (⟨.nullptrError, default⟩, w) := by
      simp [r, queuePeek, h.verify_empty none]
    rw [stop]
    exact ⟨rfl, by simp, fun _ some_ => by omega⟩
  have ring : q.ptQueueArray.deref = A.root := by rw [h.array]; rfl
  obtain ⟨keeps, slot⟩ := A.getAt_slot q.iStartIndex w (h.start_lt pos)
  by_cases empty : q.zLength = 0
  · have call : r = (⟨.oobError, default⟩, fail q.failureHandler .oobError "Queue is empty" w) := by
      simp [r, queuePeek, h.verify pos, empty]
    rw [call]
    exact ⟨h.handler _ _ _, by simp, fun _ some_ => by omega⟩
  · have call : r = A.root.ptApi.deref.getAt.deref q.iStartIndex w := by
      simp [r, queuePeek, h.verify pos, empty, ring]
    rw [call]
    exact ⟨keeps, fun ok => ⟨by omega, slot ok⟩, fun ok => ok⟩

/-! ## Runs -/

/-- The queue and the world, call by call. -/
def queueMachine (A : ItemArray M) : Machine (QueueRoot ω × ω) A.BufferCall (Reply α) where
  step s call :=
    match call with
    | .put c x =>
      let r := queuePush M.apis s.1 c.toPointer (M.store s.2 c.pvAddr x)
      (⟨r.1, none⟩, r.2)
    | .take c =>
      let r := queuePop M.apis s.1 c.toPointer s.2
      (⟨r.1, if r.1 = .success then some (M.item r.2.2 c.pvAddr) else none⟩, r.2)
    | .look =>
      let r := queuePeek s.1 s.2
      (⟨r.1.tStatus, if r.1.tStatus = .success then some (M.item r.2 r.1.tOk.pvAddr) else none⟩,
        s.1, r.2)

theorem queueItems_congr {A : ItemArray M} (q : QueueRoot ω) {w w' : ω}
    (length : q.zLength ≤ A.zCapacity)
    (agree : ∀ i, i < A.zCapacity → A.at_ w' i = A.at_ w i) :
    queueItems A q w' = queueItems A q w := by
  unfold queueItems
  rcases Nat.eq_zero_or_pos A.zCapacity with none | pos
  · have zero : q.zLength = 0 := by omega
    simp [zero]
  · exact Ring.window_congr pos agree _ _

/-- A write that misses the slots is not seen. -/
theorem queueItems_outside {A : ItemArray M} {q : QueueRoot ω} {w w' : ω} {a : Nat} {x : α}
    (length : q.zLength ≤ A.zCapacity) (outside : ∀ i, i < A.zCapacity → a ≠ (A.slot i).pvAddr)
    (written : M.item w' = Function.update (M.item w) a x) : queueItems A q w' = queueItems A q w := by
  refine queueItems_congr q length fun i hi => ?_
  unfold ItemArray.at_
  rw [written, Function.update_of_ne (outside i hi).symm]

@[simp] theorem queueItems_length (A : ItemArray M) (q : QueueRoot ω) (w : ω) :
    (queueItems A q w).length = q.zLength := Ring.window_length _ _ _ _

/-- `queuePush` appends the item at the address it is given and writes one slot, or it
changes nothing. -/
theorem queuePush_items {A : ItemArray M} {q : QueueRoot ω} (h : QueueInv A q)
    (bound : A.zCapacity ≤ sizeMax / 2) (c : Cell M) (w : ω) :
    let r := queuePush M.apis q c.toPointer w
    QueueInv A r.2.1 ∧
    ((r.1 = .success ∧ q.zLength < A.zCapacity ∧
        queueItems A r.2.1 r.2.2 = queueItems A q w ++ [M.item w c.pvAddr] ∧
        ∃ i, i < A.zCapacity ∧
          M.item r.2.2 = Function.update (M.item w) (A.slot i).pvAddr (M.item w c.pvAddr)) ∨
      (r.1 ≠ .success ∧ r.2.1 = q ∧ M.item r.2.2 = M.item w)) := by
  intro r
  have spec := queuePush_spec h bound c w
  rcases spec with ⟨ok, room, put, next⟩ | ⟨error, -, same, items⟩
  · have pos : 0 < A.zCapacity := by omega
    have lt : (q.iStartIndex + q.zLength) % A.zCapacity < A.zCapacity := Nat.mod_lt _ pos
    have stored := A.item_setAt c _ w lt
    simp only [put, if_true] at stored
    have last : r = (.success, { q with zLength := q.zLength + 1 },
        (A.root.ptApi.deref.setAt.deref c.toPointer ((q.iStartIndex + q.zLength) % A.zCapacity) w).2) :=
      Prod.ext ok next
    rw [last]
    refine ⟨⟨h.api, h.array, h.handler, h.start, room⟩, Or.inl ⟨rfl, room, ?_, _, lt, stored⟩⟩
    unfold queueItems
    rw [Ring.window_congr pos fun i hi => A.at_update lt hi stored]
    exact Ring.window_snoc _ _ room
  · exact ⟨same ▸ h, Or.inr ⟨error, same, items⟩⟩

/-- `queuePop` hands out the front through the variable it is given and writes one slot,
or it keeps the items. -/
theorem queuePop_items {A : ItemArray M} {q : QueueRoot ω} (h : QueueInv A q)
    (bound : A.zCapacity ≤ sizeMax / 2) (c : A.Client) (w : ω) :
    let r := queuePop M.apis q c.toPointer w
    QueueInv A r.2.1 ∧
    (∃ y i x, M.item r.2.2 = Function.update (M.item w) c.pvAddr y ∨ i < A.zCapacity ∧
      M.item r.2.2 = Function.update (Function.update (M.item w) c.pvAddr y) (A.slot i).pvAddr x) ∧
    ((r.1 = .success ∧ queueItems A q w = M.item r.2.2 c.pvAddr :: queueItems A r.2.1 r.2.2) ∨
      (r.1 ≠ .success ∧ queueItems A r.2.1 r.2.2 = queueItems A q w)) := by
  intro r
  have fill := h.length
  have spec := queuePop_spec h bound c w
  rcases spec with ⟨ok, some_, next, x, written⟩ | ⟨error, same, ⟨y, written⟩, -⟩
  · have pos : 0 < A.zCapacity := by omega
    have lt := h.start_lt pos
    obtain ⟨len, hlen⟩ : ∃ len, q.zLength = len + 1 := ⟨q.zLength - 1, by omega⟩
    have agree : ∀ i, i < A.zCapacity →
        A.at_ r.2.2 i = Function.update (A.at_ w) (q.iStartIndex % A.zCapacity) x i := by
      intro i hi
      rw [Nat.mod_eq_of_lt lt]
      unfold ItemArray.at_
      rw [written]
      by_cases here : i = q.iStartIndex
      · rw [here, Function.update_self, Function.update_self]
      · have other : (A.slot i).pvAddr ≠ (A.slot q.iStartIndex).pvAddr :=
          fun e => here (A.distinct _ _ hi lt e)
        rw [Function.update_of_ne here, Function.update_of_ne other,
          Function.update_of_ne (c.outside i hi).symm]
    have value : M.item r.2.2 c.pvAddr = A.at_ w q.iStartIndex := by
      rw [written, Function.update_of_ne (c.outside _ lt), Function.update_self]
    refine ⟨?_, ⟨_, _, x, Or.inr ⟨lt, written⟩⟩, Or.inl ⟨ok, ?_⟩⟩
    · rw [next]
      refine ⟨h.api, h.array, h.handler, Or.inl (Nat.mod_lt _ pos), ?_⟩
      show q.zLength - 1 ≤ A.zCapacity
      omega
    · unfold queueItems
      rw [next, hlen, Ring.window_cons, Nat.mod_eq_of_lt lt, value]
      simp only [Nat.add_sub_cancel, Ring.window_mod]
      rw [Ring.window_congr pos agree, Ring.window_update_dropped _ _ (by omega)]
  · refine ⟨same ▸ h, ⟨y, 0, y, Or.inl written⟩, Or.inr ⟨error, ?_⟩⟩
    rw [same]
    exact queueItems_outside h.length c.outside written

/-- The call keeps the queue well formed, is a step of a bounded first-in first-out
buffer, and is served whenever it can be if its callbacks succeed. -/
structure QueueStep (A : ItemArray M) (s : QueueRoot ω × ω) (call : A.BufferCall) : Prop where
  inv : QueueInv A ((queueMachine A).step s call).2.1
  fifo : Buffered.Fifo A.zCapacity (queueItems A s.1 s.2)
    (A.bufferEvent (call, ((queueMachine A).step s call).1))
    (queueItems A ((queueMachine A).step s call).2.1 ((queueMachine A).step s call).2.2)
  complete : Buffered.Complete call.call ((queueMachine A).step s call).1.view
  serves : QueueSmooth A s call → Buffered.Servable A.zCapacity (queueItems A s.1 s.2) call.call →
    ((queueMachine A).step s call).1.view.1 = true

theorem queue_put {A : ItemArray M} (bound : A.zCapacity ≤ sizeMax / 2) {q : QueueRoot ω} (w : ω)
    (h : QueueInv A q) (c : A.Client) (x : α) : QueueStep A (q, w) (.put c x) := by
  have before : queueItems A q (M.store w c.pvAddr x) = queueItems A q w :=
    queueItems_outside h.length c.outside (M.item_store _ _ _)
  have value : M.item (M.store w c.pvAddr x) c.pvAddr = x := by simp [M.item_store]
  obtain ⟨inv, spec⟩ := queuePush_items h bound c.toCell (M.store w c.pvAddr x)
  constructor
  case inv => exact inv
  case fifo =>
    simp only [queueMachine]
    rw [before, value] at spec
    generalize queuePush M.apis q c.toPointer (M.store w c.pvAddr x) = r at spec
    rcases spec with ⟨ok, room, grown, -⟩ | ⟨error, same, items⟩
    · rw [ok, grown]
      exact .takes x (by simpa using room)
    · rw [ItemArray.bufferEvent, Buffered.event_refused (Reply.view_error error), same]
      have kept : queueItems A q r.2.2 = queueItems A q (M.store w c.pvAddr x) :=
        queueItems_congr q h.length fun i _ => by simp only [ItemArray.at_, items]
      rw [kept, before]
      exact .refuses _
  case complete => exact rfl
  case serves =>
    intro smooth room
    have room : q.zLength < A.zCapacity := by
      simpa [Buffered.Servable, ItemArray.BufferCall.call] using room
    exact decide_eq_true ((queuePush_success_iff h bound c.toCell _).2 ⟨room, smooth room⟩)

theorem queue_take {A : ItemArray M} (bound : A.zCapacity ≤ sizeMax / 2) {q : QueueRoot ω} (w : ω)
    (h : QueueInv A q) (c : A.Client) : QueueStep A (q, w) (.take c) := by
  obtain ⟨inv, -, spec⟩ := queuePop_items h bound c w
  constructor
  case inv => exact inv
  case fifo =>
    simp only [queueMachine]
    generalize queuePop M.apis q c.toPointer w = r at spec
    rcases spec with ⟨ok, front⟩ | ⟨error, same⟩
    · rw [ok, front]
      exact .gives _ _
    · rw [ItemArray.bufferEvent, Buffered.event_refused (Reply.view_error error), same]
      exact .refuses _
  case complete =>
    simp only [queueMachine]
    by_cases ok : (queuePop M.apis q c.toPointer w).1 = .success <;>
      simp [ok, Buffered.Complete, ItemArray.BufferCall.call, Reply.view]
  case serves =>
    intro smooth some_
    have some_ : 0 < q.zLength := by simpa using List.length_pos_of_ne_nil some_
    apply decide_eq_true
    rcases queuePop_spec h bound c w with ⟨done, -⟩ | ⟨-, -, -, empty⟩
    · exact done
    · exact absurd (empty smooth) (by omega)

theorem queue_look {A : ItemArray M} {q : QueueRoot ω} (w : ω) (h : QueueInv A q) :
    QueueStep A (q, w) .look := by
  obtain ⟨items, named, serves⟩ := queuePeek_spec h w
  have after : queueItems A q (queuePeek q w).2 = queueItems A q w :=
    queueItems_congr q h.length fun i _ => by simp only [ItemArray.at_, items]
  constructor <;> simp only [queueMachine] <;> generalize queuePeek q w = r at items named serves after
  case inv => exact h
  case fifo =>
    rw [after]
    by_cases ok : r.1.tStatus = .success
    · obtain ⟨some_, slot⟩ := named ok
      have pos : 0 < A.zCapacity := by have := h.length; omega
      obtain ⟨len, hlen⟩ : ∃ len, q.zLength = len + 1 := ⟨q.zLength - 1, by omega⟩
      have front : queueItems A q w = M.item r.2 r.1.tOk.pvAddr ::
          Ring.window (A.at_ w) A.zCapacity (q.iStartIndex + 1) len := by
        unfold queueItems
        rw [hlen, Ring.window_cons, Nat.mod_eq_of_lt (h.start_lt pos), items, slot]
        rfl
      rw [ok, front]
      exact .shows _ _
    · rw [ItemArray.bufferEvent, Buffered.event_refused (Reply.view_error ok)]
      exact .refuses _
  case complete =>
    by_cases ok : r.1.tStatus = .success <;>
      simp [ok, Buffered.Complete, ItemArray.BufferCall.call, Reply.view]
  case serves =>
    intro ok some_
    apply decide_eq_true
    apply serves ok
    rw [← queueItems_length A q w]
    exact List.length_pos_of_ne_nil some_

/-- Every call of the queue is a step of a bounded first-in first-out buffer. -/
theorem queue_step {A : ItemArray M} (bound : A.zCapacity ≤ sizeMax / 2) (s : QueueRoot ω × ω)
    (call : A.BufferCall) (h : QueueInv A s.1) : QueueStep A s call := by
  obtain ⟨q, w⟩ := s
  cases call with
  | put c x => exact queue_put bound w h c x
  | take c => exact queue_take bound w h c
  | look => exact queue_look w h

/-- A fresh queue is well formed and empty. -/
theorem queueInit_inv (A : ItemArray M) (handler : Handler M) (ptQueue : QueueRoot ω) :
    QueueInv A (queueInit ptQueue (Ref.to A.root) handler.ref).2 := by
  refine ⟨rfl, rfl, handler.quiet, ?_, Nat.zero_le _⟩
  rcases Nat.eq_zero_or_pos A.zCapacity with none | pos
  · exact Or.inr ⟨none, rfl⟩
  · exact Or.inl pos

section Runs

variable {A : ItemArray M} (bound : A.zCapacity ≤ sizeMax / 2) {s : QueueRoot ω × ω}
  (h : QueueInv A s.1) (calls : List A.BufferCall)

include bound h

/-- Every run keeps the queue well formed. -/
theorem queue_run_inv : QueueInv A ((queueMachine A).run s calls).1 :=
  Machine.invariant (I := fun s => QueueInv A s.1)
    (fun s call h _ => (queue_step bound s call h).inv) h (Machine.along_of (fun _ _ => trivial) _ _)

/-- Every run of the queue is a run of a bounded first-in first-out buffer. -/
theorem queue_run_fifo :
    StepChain (Buffered.Fifo A.zCapacity) (queueItems A s.1 s.2)
      (((queueMachine A).trace s calls).map A.bufferEvent)
      (queueItems A ((queueMachine A).run s calls).1 ((queueMachine A).run s calls).2) := by
  refine Machine.refines (M := queueMachine A) (I := fun s => QueueInv A s.1)
    (fun s => queueItems A s.1 s.2) A.bufferEvent (fun s call h _ => ?_) h
    (Machine.along_of (fun _ _ => trivial) _ _)
  have step := queue_step bound s call h
  exact ⟨step.inv, step.fifo⟩

/-- Where no callback fails the queue answers as `Buffered.fifo` does. -/
theorem queue_run_views (smooth : (queueMachine A).Along (QueueSmooth A) s calls) :
    ((queueMachine A).trace s calls).map (fun e => e.2.view) =
      ((Buffered.fifo A.zCapacity).trace (queueItems A s.1 s.2)
        (calls.map ItemArray.BufferCall.call)).map (fun e => e.2) := by
  refine Machine.views_eq (R := fun s l => QueueInv A s.1 ∧ queueItems A s.1 s.2 = l)
    ItemArray.BufferCall.call (fun e => e.2.view) (fun e => e.2) ?_ ⟨h, rfl⟩ smooth
  rintro s l call ⟨h, rfl⟩ ok
  have step := queue_step bound s call h
  rw [Buffered.fifo_step step.fifo step.complete (step.serves ok)]
  exact ⟨rfl, step.inv, rfl⟩

end Runs

end LibJuno.Ds
