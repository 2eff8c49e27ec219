import LibJuno.Ds.Map
import LibJuno.Ds.Queue
import LibJuno.Ds.Stack
import LibJuno.Ds.Heap
import LibJuno.Lib.Logged

/-!
# What a container does with a bad descriptor

The nine operations of the four containers that take an item descriptor from their caller,
each of which puts it to `JunoMemory_PointerVerify`. To see where a descriptor goes, the
operations run in a world that logs the descriptors handed to callbacks
(`Containers.call_logged`). `rejected_iff` says which operations stop at a bad one.
-/

namespace LibJuno

namespace Ref

/-- The pointer to the image of what is pointed to. -/
def map {σ τ : Type} (f : σ → τ) (p : Ref σ) : Ref τ := ⟨p.nonNull, f p.deref⟩

variable {σ τ : Type} (f : σ → τ) (p : Ref σ)

@[simp] theorem map_nonNull : (p.map f).nonNull = p.nonNull := rfl

@[simp] theorem map_deref : (p.map f).deref = f p.deref := rfl

end Ref

namespace Ds

open Memory Logged

/-! ## Callbacks that log the descriptors they are handed -/

section Logged

variable {ω : Type}

def loggedApis (apis : PointerApis ω) : PointerApis (Logged Pointer ω) := fun ptApi =>
  { copy := (apis ptApi).copy.map fun f tDest tSrc => Logged.record [tDest, tSrc] (f tDest tSrc)
    reset := (apis ptApi).reset.map fun f tPointer => Logged.record [tPointer] (f tPointer) }

def loggedHandler (handler : FailureHandler ω) : FailureHandler (Logged Pointer ω) :=
  handler.map fun f tStatus message w => ⟨f tStatus message w.world, w.log⟩

def ArrayApi.logged (api : ArrayApi ω) : ArrayApi (Logged Pointer ω) where
  setAt := api.setAt.map fun f tItem iIndex => Logged.record [tItem] (f tItem iIndex)
  getAt := api.getAt.map fun f iIndex => Logged.record [] (f iIndex)
  removeAt := api.removeAt.map fun f iIndex => Logged.record [] (f iIndex)

def ArrayRoot.logged (root : ArrayRoot ω) : ArrayRoot (Logged Pointer ω) where
  ptApi := root.ptApi.map ArrayApi.logged
  zCapacity := root.zCapacity

def HashablePointerApi.logged (api : HashablePointerApi ω) : HashablePointerApi (Logged Pointer ω) where
  hash := api.hash.map fun f tItem => Logged.record [tItem] (f tItem)
  isValueNull := api.isValueNull.map fun f tItem => Logged.record [tItem] (f tItem)

def ValuePointerApi.logged (api : ValuePointerApi ω) : ValuePointerApi (Logged Pointer ω) where
  equals := api.equals.map fun f tLeft tRight => Logged.record [tLeft, tRight] (f tLeft tRight)

def HeapPointerApi.logged (api : HeapPointerApi ω) : HeapPointerApi (Logged Pointer ω) where
  compare := api.compare.map fun f tParent tCurrent => Logged.record [tParent, tCurrent] (f tParent tCurrent)
  swap := api.swap.map fun f tLeft tRight => Logged.record [tLeft, tRight] (f tLeft tRight)

def MapRoot.logged (ptMap : MapRoot ω) : MapRoot (Logged Pointer ω) where
  ptApi := ptMap.ptApi
  ptHashablePointerApi := ptMap.ptHashablePointerApi.map HashablePointerApi.logged
  ptValuePointerApi := ptMap.ptValuePointerApi.map ValuePointerApi.logged
  ptHashMap := ptMap.ptHashMap.map ArrayRoot.logged
  failureHandler := loggedHandler ptMap.failureHandler

def QueueRoot.logged (ptQueue : QueueRoot ω) : QueueRoot (Logged Pointer ω) where
  ptApi := ptQueue.ptApi
  failureHandler := loggedHandler ptQueue.failureHandler
  ptQueueArray := ptQueue.ptQueueArray.map ArrayRoot.logged
  iStartIndex := ptQueue.iStartIndex
  zLength := ptQueue.zLength

def StackRoot.logged (ptStack : StackRoot ω) : StackRoot (Logged Pointer ω) where
  ptApi := ptStack.ptApi
  failureHandler := loggedHandler ptStack.failureHandler
  ptStackArray := ptStack.ptStackArray.map ArrayRoot.logged
  zLength := ptStack.zLength

def HeapRoot.logged (ptHeap : HeapRoot ω) : HeapRoot (Logged Pointer ω) where
  ptApi := ptHeap.ptApi
  ptHeapPointerApi := ptHeap.ptHeapPointerApi.map HeapPointerApi.logged
  ptHeapArray := ptHeap.ptHeapArray.map ArrayRoot.logged
  zLength := ptHeap.zLength

end Logged

section MapRemove

variable {ω : Type} (ptJunoMap : MapRoot ω)

theorem mapVerify_logged : mapVerify ptJunoMap.logged = mapVerify ptJunoMap := rfl

theorem fail_logged (handler : FailureHandler ω) (tStatus : Status) (message : String)
    (w : Logged Pointer ω) : fail (loggedHandler handler) tStatus message w =
      ⟨fail handler tStatus message w.world, w.log⟩ := by
  by_cases set : handler.nonNull <;> simp [fail, loggedHandler, set]

variable {ptJunoMap}

/-- A logged probe is the probe, provided that what happens at the slot it stops at is. -/
theorem mapProbe_follows (tItem : Pointer) (iHash : Nat)
    {onEmpty onEqual : Pointer → Nat → ω → Result Pointer × ω}
    {onEmpty' onEqual' : Pointer → Nat → Logged Pointer ω → Result Pointer × Logged Pointer ω}
    (empty : ∀ tOk i w, Follows w.log (onEmpty' tOk i w) (onEmpty tOk i w.world))
    (equal : ∀ tOk i w, Follows w.log (onEqual' tOk i w) (onEqual tOk i w.world))
    (n i : Nat) (w : Logged Pointer ω) :
    Follows w.log (mapProbe ptJunoMap.logged tItem iHash onEmpty' onEqual' n i w)
      (mapProbe ptJunoMap tItem iHash onEmpty onEqual n i w.world) := by
  induction n generalizing i w with
  | zero => exact .done _ _
  | succ n ih =>
    simp only [mapProbe, MapRoot.logged, ArrayRoot.logged, ArrayApi.logged, HashablePointerApi.logged,
      ValuePointerApi.logged, Ref.map_deref, Logged.record, fail_logged, List.append_assoc]
    split_ifs
    · exact .logged _ _
    · exact .logged _ _
    · exact .logged _ _
    · exact (empty _ _ ⟨_, _⟩).after
    · exact .logged _ _
    · exact (equal _ _ ⟨_, _⟩).after
    · exact (ih _ ⟨_, _⟩).after

/-- On a map that verifies, `JunoDs_MapRemove` hands its argument to `Hash` whatever
`JunoMemory_PointerVerify` says of it, and then goes on as without the log. -/
theorem mapRemove_follows (verified : mapVerify ptJunoMap = .success) (tItem : Pointer)
    (w : Logged Pointer ω) :
    Follows (w.log ++ [tItem]) (mapRemove ptJunoMap.logged tItem w) (mapRemove ptJunoMap tItem w.world) := by
  have hashed : ptJunoMap.logged.ptHashablePointerApi.deref.hash.deref tItem w =
      Logged.record [tItem] (ptJunoMap.ptHashablePointerApi.deref.hash.deref tItem) w := rfl
  simp only [mapRemove, mapVerify_logged, verified, hashed, Logged.record, ne_eq, not_true_eq_false,
    if_false]
  generalize ptJunoMap.ptHashablePointerApi.deref.hash.deref tItem w.world = tHashResult
  split_ifs
  · refine .map Result.tStatus (mapProbe_follows tItem _ ?_ ?_ _ _ ⟨_, _⟩)
    · exact fun _ _ w => .done _ w
    · exact fun _ _ _ => .logged _ _
  · exact .done _ ⟨_, _⟩

end MapRemove

/-! ## The operations -/

/-- The containers of a program. -/
structure Containers (ω : Type) where
  map : MapRoot ω
  queue : QueueRoot ω
  stack : StackRoot ω
  heap : HeapRoot ω

/-- The public operations that take an item descriptor. -/
inductive ItemOp where
  | mapGet
  | mapSet
  | mapRemove
  | queuePush
  | queuePop
  | stackPush
  | stackPop
  | heapInsert
  | heapPop
  deriving DecidableEq

section Calls

variable {ω : Type}

/-- The operation on the container it belongs to, with its status. -/
def Containers.call (apis : PointerApis ω) (cs : Containers ω) (tItem : Pointer) (w : ω) :
    ItemOp → Status × Containers ω × ω
  | .mapGet => let r := mapGet apis cs.map tItem w; (r.1.tStatus, cs, r.2)
  | .mapSet => let r := mapSet apis cs.map tItem w; (r.1, cs, r.2)
  | .mapRemove => let r := mapRemove cs.map tItem w; (r.1, cs, r.2)
  | .queuePush => let r := queuePush apis cs.queue tItem w; (r.1, { cs with queue := r.2.1 }, r.2.2)
  | .queuePop => let r := queuePop apis cs.queue tItem w; (r.1, { cs with queue := r.2.1 }, r.2.2)
  | .stackPush => let r := stackPush apis cs.stack tItem w; (r.1, { cs with stack := r.2.1 }, r.2.2)
  | .stackPop => let r := stackPop apis cs.stack tItem w; (r.1, { cs with stack := r.2.1 }, r.2.2)
  | .heapInsert => let r := heapInsert apis cs.heap tItem w; (r.1, { cs with heap := r.2.1 }, r.2.2)
  | .heapPop => let r := heapPop apis cs.heap tItem w; (r.1, { cs with heap := r.2.1 }, r.2.2)

def Containers.logged (cs : Containers ω) : Containers (Logged Pointer ω) :=
  ⟨cs.map.logged, cs.queue.logged, cs.stack.logged, cs.heap.logged⟩

/-- The verdict of the checks an operation begins with, in its order. -/
def Containers.check (apis : PointerApis ω) (cs : Containers ω) (tItem : Pointer) : ItemOp → Status
  | .mapGet | .mapSet =>
    if mapVerify cs.map ≠ .success then mapVerify cs.map else pointerVerify apis tItem
  | .mapRemove => mapVerify cs.map
  | .queuePush | .queuePop =>
    if queueVerify cs.queue ≠ .success then queueVerify cs.queue else pointerVerify apis tItem
  | .stackPush | .stackPop =>
    if stackVerify cs.stack ≠ .success then stackVerify cs.stack else pointerVerify apis tItem
  | .heapInsert =>
    if heapVerify cs.heap ≠ .success then heapVerify cs.heap
    else if cs.heap.zLength ≥ cs.heap.ptHeapArray.deref.zCapacity then .err
    else pointerVerify apis tItem
  | .heapPop =>
    if heapVerify cs.heap ≠ .success then heapVerify cs.heap
    else if cs.heap.zLength = 0 then .err
    else pointerVerify apis tItem

theorem Containers.check_logged (apis : PointerApis ω) (cs : Containers ω) (tItem : Pointer) (op : ItemOp) :
    cs.logged.check (loggedApis apis) tItem op = cs.check apis tItem op := by
  cases op <;> rfl

/-- A failed check is all that happens. -/
theorem Containers.call_failed {apis : PointerApis ω} {cs : Containers ω} {tItem : Pointer} {op : ItemOp}
    (failed : cs.check apis tItem op ≠ .success) (w : ω) :
    cs.call apis tItem w op = (cs.check apis tItem op, cs, w) := by
  cases op with
  | mapRemove => simp_all [check, call, mapRemove]
  | mapGet | mapSet | queuePush | queuePop | stackPush | stackPop | heapInsert | heapPop =>
    simp only [check, call, mapGet, mapSet, queuePush, queuePop, stackPush, stackPop, heapInsert,
      heapPop] at failed ⊢
    split_ifs at failed
    all_goals simp only [*, ne_eq, not_false_eq_true, if_true, if_false]

/-- Every operation but `JunoDs_MapRemove` has the descriptor among its checks. -/
theorem Containers.check_invalid {apis : PointerApis ω} {tItem : Pointer}
    (invalid : pointerVerify apis tItem ≠ .success) (cs : Containers ω) (op : ItemOp) :
    cs.check apis tItem op ≠ .success ↔ (op = .mapRemove → mapVerify cs.map ≠ .success) := by
  cases op with
  | mapRemove => exact ⟨fun failed _ => failed, fun checked => checked rfl⟩
  | mapGet | mapSet | queuePush | queuePop | stackPush | stackPop | heapInsert | heapPop =>
    refine iff_of_true ?_ fun remove => by cases remove
    simp only [check]
    split_ifs
    all_goals first | assumption | decide

/-- On a bad descriptor the logged run of an operation is the run. -/
theorem Containers.call_logged {apis : PointerApis ω} {tItem : Pointer}
    (invalid : pointerVerify apis tItem ≠ .success) (cs : Containers ω) (w : ω) (op : ItemOp) :
    ∃ log, cs.logged.call (loggedApis apis) tItem ⟨w, []⟩ op =
      let r := cs.call apis tItem w op
      (r.1, r.2.1.logged, ⟨r.2.2, log⟩) := by
  by_cases passed : cs.check apis tItem op = .success
  · have exempt : ¬(op = .mapRemove → mapVerify cs.map ≠ .success) :=
      fun checked => (check_invalid invalid cs op).2 checked passed
    obtain ⟨rfl, verified⟩ : op = .mapRemove ∧ mapVerify cs.map = .success := by
      simpa using exempt
    obtain ⟨more, remove⟩ := mapRemove_follows verified tItem ⟨w, []⟩
    refine ⟨[tItem] ++ more, ?_⟩
    show ((mapRemove cs.map.logged tItem ⟨w, []⟩).1, _, (mapRemove cs.map.logged tItem ⟨w, []⟩).2) = _
    rw [remove]
    rfl
  · have failed : cs.logged.check (loggedApis apis) tItem op ≠ .success := by
      rwa [check_logged]
    refine ⟨[], ?_⟩
    rw [call_failed passed, call_failed failed, check_logged]

/-- The operation rejects the descriptor: it returns an error, leaves the containers and
all memory as they were, and hands the descriptor to no callback. -/
structure Rejected (apis : PointerApis ω) (cs : Containers ω) (tItem : Pointer) (w : ω) (op : ItemOp) :
    Prop where
  error : (cs.call apis tItem w op).1 ≠ .success
  unchanged : (cs.call apis tItem w op).2 = (cs, w)
  unused : tItem ∉ (cs.logged.call (loggedApis apis) tItem ⟨w, []⟩ op).2.2.log

/-- A descriptor that `JunoMemory_PointerVerify` does not accept is rejected by every
operation except `JunoDs_MapRemove`, and by that one exactly if the map does not verify. What is
logged is logged of the run. -/
theorem rejected_iff {apis : PointerApis ω} {tItem : Pointer}
    (invalid : pointerVerify apis tItem ≠ .success) (cs : Containers ω) (w : ω) (op : ItemOp) :
    (Rejected apis cs tItem w op ↔ (op = .mapRemove → mapVerify cs.map ≠ .success)) ∧
      ∃ log, cs.logged.call (loggedApis apis) tItem ⟨w, []⟩ op =
        let r := cs.call apis tItem w op
        (r.1, r.2.1.logged, ⟨r.2.2, log⟩) := by
  refine ⟨⟨?_, ?_⟩, cs.call_logged invalid w op⟩
  · rintro ⟨-, -, unused⟩ rfl verified
    exact unused ((mapRemove_follows verified tItem ⟨w, []⟩).mem (List.mem_singleton_self tItem))
  · intro checked
    have failed := (cs.check_invalid invalid op).2 checked
    have failed' : cs.logged.check (loggedApis apis) tItem op ≠ .success := by
      rwa [Containers.check_logged]
    refine ⟨?_, ?_, ?_⟩
    · rw [Containers.call_failed failed]
      exact failed
    · rw [Containers.call_failed failed]
    · rw [Containers.call_failed failed']
      exact List.not_mem_nil

end Calls

/-- The map, a queue, a stack and a heap in plain memory, each of the last three with one
entry and room for more. -/
def plainContainers : Containers (Nat → Option (Nat × Nat)) where
  map := plainTable.map (noPlainHandler _)
  queue := ⟨Ref.to gtQueueApi, (noPlainHandler _).ref, Ref.to (plainArray _ 20 4).root, 0, 1⟩
  stack := ⟨Ref.to gtStackApi, (noPlainHandler _).ref, Ref.to (plainArray _ 30 4).root, 1⟩
  heap :=
    { ptApi := Ref.to tHeapApi
      ptHeapPointerApi := Ref.to
        { compare := Ref.to fun tParent tCurrent w => (⟨.success, decide
            (((w tCurrent.pvAddr).getD (0, 0)).1 ≤ ((w tParent.pvAddr).getD (0, 0)).1)⟩, w)
          swap := Ref.to fun tLeft tRight w =>
            (.success, w ∘ Equiv.swap tLeft.pvAddr tRight.pvAddr) }
      ptHeapArray := Ref.to (plainArray _ 40 4).root
      zLength := 1 }

/-- The descriptor of an item at NULL. -/
def nullItem : Pointer := ⟨1, 0, 1, 1⟩

/-- A heap that could hand out its item does not copy it to NULL. -/
theorem rejected_pop :
    Rejected (plainMemory _).apis plainContainers nullItem (fun _ => none) .heapPop :=
  (rejected_iff (by decide) plainContainers _ .heapPop).1.2 (by decide)

/-- All the containers verify and the item is at NULL, but a remove hashes it. -/
theorem remove_hashes_null :
    mapVerify plainContainers.map = .success ∧ queueVerify plainContainers.queue = .success ∧
      stackVerify plainContainers.stack = .success ∧ heapVerify plainContainers.heap = .success ∧
      pointerVerify (plainMemory (Option (Nat × Nat))).apis nullItem = .nullptrError ∧
      ¬Rejected (plainMemory _).apis plainContainers nullItem (fun _ => none) .mapRemove := by
  refine ⟨by decide, by decide, by decide, by decide, by decide, fun rejected => ?_⟩
  exact rejected.unused (by decide)

end Ds

end LibJuno
