import LibJuno.Ds.Queue
import LibJuno.Ds.FlatArray

/-!
# The C++ template queue

`juno::buff` of `juno_buff.hpp`, with the array in the root and no fallible callback.
The array is a function of the index; `Queue.Inv.start` and `Queue.Inv.length` keep
every index that is used below `N`. A pointer into the array is the index it points at.
It answers its calls as `Buffered.fifo` does, and so does the C queue where no callback
fails (`queues_refine_fifo`).
-/

namespace LibJuno.Buff

open Ds Memory

/-- `QUEUE_ROOT_T<T, N>`. -/
structure QueueRoot (T ω : Type) where
  failureHandler : FailureHandler ω
  tArr : Nat → T
  iStartIndex : Nat
  zLength : Nat

section Operations

variable {T ω : Type} (N : Nat)

/-- `JUNO_QUEUE_T::New`; the array keeps what it held. -/
def queueNew (tQueue : QueueRoot T ω) (pfcnFailureHandler : FailureHandler ω) :
    Status × QueueRoot T ω :=
  (.success, { tQueue with failureHandler := pfcnFailureHandler, iStartIndex := 0, zLength := 0 })

/-- `juno::buff::Enqueue`. -/
def enqueue (tQueue : QueueRoot T ω) (tData : T) (w : ω) : Status × QueueRoot T ω × ω :=
  if tQueue.zLength < N then
    (.success, { tQueue with
      tArr := Function.update tQueue.tArr (sizeT (tQueue.iStartIndex + tQueue.zLength) % N) tData
      zLength := tQueue.zLength + 1 }, w)
  else (.invalidSizeError, tQueue, fail tQueue.failureHandler .invalidSizeError "Queue is full" w)

/-- `juno::buff::Dequeue`. -/
def dequeue [Inhabited T] (tQueue : QueueRoot T ω) (w : ω) : Result T × QueueRoot T ω × ω :=
  if tQueue.zLength > 0 then
    (⟨.success, tQueue.tArr tQueue.iStartIndex⟩, { tQueue with
      iStartIndex := sizeT (tQueue.iStartIndex + 1) % N
      zLength := tQueue.zLength - 1 }, w)
  else (⟨.err, default⟩, tQueue, fail tQueue.failureHandler .err "Queue is empty" w)

/-- `juno::buff::QueuePeek`; on failure the pointer is NULL. -/
def queuePeek (tQueue : QueueRoot T ω) (w : ω) : Result (Option Nat) × ω :=
  if tQueue.zLength > 0 then (⟨.success, some tQueue.iStartIndex⟩, w)
  else (⟨.err, none⟩, fail tQueue.failureHandler .err "Queue is empty" w)

end Operations

variable {T ω : Type} [Inhabited T]

/-- The queue and the world, call by call; a peek is answered by the item pointed at. -/
def queueMachine (N : Nat) : Machine (QueueRoot T ω × ω) (Buffered.Call T) (Reply T) where
  step s call :=
    match call with
    | .put x =>
      let r := enqueue N s.1 x s.2
      (⟨r.1, none⟩, r.2)
    | .take =>
      let r := dequeue N s.1 s.2
      (⟨r.1.tStatus, if r.1.tStatus = .success then some r.1.tOk else none⟩, r.2)
    | .look =>
      let r := queuePeek s.1 s.2
      (⟨r.1.tStatus, r.1.tOk.map s.1.tArr⟩, s.1, r.2)

namespace Queue

/-- The window lies inside the array. -/
structure Inv (N : Nat) (q : QueueRoot T ω) : Prop where
  start : q.iStartIndex < N ∨ N = 0 ∧ q.iStartIndex = 0
  length : q.zLength ≤ N

/-- The items of the queue, front first. -/
def items (N : Nat) (q : QueueRoot T ω) : List T := Ring.window q.tArr N q.iStartIndex q.zLength

omit [Inhabited T] in
theorem new_inv (N : Nat) (tQueue : QueueRoot T ω) (handler : FailureHandler ω) :
    Inv N (queueNew tQueue handler).2 := by
  refine ⟨?_, Nat.zero_le _⟩
  rcases Nat.eq_zero_or_pos N with none | pos
  · exact Or.inr ⟨none, rfl⟩
  · exact Or.inl pos

variable {N : Nat} {q : QueueRoot T ω}

omit [Inhabited T] in
theorem Inv.start_lt (h : Inv N q) (pos : 0 < N) : q.iStartIndex < N := by
  rcases h.start with lt | ⟨none, _⟩
  · exact lt
  · omega

omit [Inhabited T] in
theorem items_length : (items N q).length = q.zLength := Ring.window_length _ _ _ _

omit [Inhabited T] in
/-- A queue that holds something shows its front at `iStartIndex`. -/
theorem items_front (h : Inv N q) (some_ : 0 < q.zLength) :
    items N q = q.tArr q.iStartIndex :: Ring.window q.tArr N (q.iStartIndex + 1) (q.zLength - 1) := by
  have fill := h.length
  obtain ⟨len, hlen⟩ : ∃ len, q.zLength = len + 1 := ⟨q.zLength - 1, by omega⟩
  simp [items, hlen, Ring.window_cons, Nat.mod_eq_of_lt (h.start_lt (by omega))]

omit [Inhabited T] in
/-- `Enqueue` appends where there is room. -/
theorem enqueue_spec (h : Inv N q) (bound : N ≤ sizeMax / 2) (x : T) (w : ω) (room : q.zLength < N) :
    (enqueue N q x w).1 = .success ∧ Inv N (enqueue N q x w).2.1 ∧
      items N (enqueue N q x w).2.1 = items N q ++ [x] := by
  have lt := h.start_lt (by omega)
  have fits : sizeT (q.iStartIndex + q.zLength) = q.iStartIndex + q.zLength := sizeT_of_le (by omega)
  rw [enqueue, if_pos room, fits]
  exact ⟨rfl, ⟨h.start, room⟩, Ring.window_snoc _ x room⟩

/-- `Dequeue` hands out the front where there is one. -/
theorem dequeue_spec (h : Inv N q) (bound : N ≤ sizeMax / 2) (w : ω) (some_ : 0 < q.zLength) :
    (dequeue N q w).1.tStatus = .success ∧ Inv N (dequeue N q w).2.1 ∧
      items N q = (dequeue N q w).1.tOk :: items N (dequeue N q w).2.1 := by
  have fill := h.length
  have lt := h.start_lt (by omega)
  have fits : sizeT (q.iStartIndex + 1) = q.iStartIndex + 1 := sizeT_of_le (by omega)
  rw [items_front h some_, dequeue, if_pos some_, fits]
  refine ⟨rfl, ⟨Or.inl (Nat.mod_lt _ (by omega)), ?_⟩, ?_⟩
  · show q.zLength - 1 ≤ N
    omega
  · simp only [items, Ring.window_mod]

/-- Each call is the step of the bounded queue. -/
theorem step_fifo (bound : N ≤ sizeMax / 2) (h : Inv N q) (w : ω) (call : Buffered.Call T) :
    (Buffered.fifo N).step (items N q) call =
      (((queueMachine N).step (q, w) call).1.view, items N ((queueMachine N).step (q, w) call).2.1) ∧
    Inv N ((queueMachine N).step (q, w) call).2.1 := by
  cases call with
  | put x =>
    simp only [Buffered.fifo, Buffered.eager, items_length]
    by_cases room : q.zLength < N
    · obtain ⟨ok, next, grown⟩ := enqueue_spec h bound x w room
      simp [queueMachine, ok, next, grown, room, Reply.view]
    · simp [queueMachine, enqueue, room, h, Reply.view]
  | take =>
    rcases Nat.eq_zero_or_pos q.zLength with empty | some_
    · have nil : items N q = [] := List.length_eq_zero_iff.1 (items_length.trans empty)
      simp [Buffered.fifo, Buffered.eager, queueMachine, dequeue, empty, nil, h, Reply.view]
    · obtain ⟨ok, next, front⟩ := dequeue_spec h bound w some_
      rw [front]
      simp [Buffered.fifo, Buffered.eager, queueMachine, ok, next, Reply.view]
  | look =>
    rcases Nat.eq_zero_or_pos q.zLength with empty | some_
    · have nil : items N q = [] := List.length_eq_zero_iff.1 (items_length.trans empty)
      simp [Buffered.fifo, Buffered.eager, queueMachine, queuePeek, empty, nil, h, Reply.view]
    · have front := items_front h some_
      rw [front]
      simp [Buffered.fifo, Buffered.eager, queueMachine, queuePeek, some_, h, front, Reply.view]

/-- The window stays inside the array. -/
theorem run_inv (bound : N ≤ sizeMax / 2) (h : Inv N q) (w : ω) (calls : List (Buffered.Call T)) :
    Inv N ((queueMachine N).run (q, w) calls).1 := by
  induction calls generalizing q w with
  | nil => exact h
  | cons call calls ih => exact ih (step_fifo bound h w call).2 _

/-- The template queue answers as `Buffered.fifo` does. -/
theorem run_views (bound : N ≤ sizeMax / 2) (h : Inv N q) (w : ω) (calls : List (Buffered.Call T)) :
    ((queueMachine N).trace (q, w) calls).map (fun e => e.2.view) =
      ((Buffered.fifo N).trace (items N q) calls).map (fun e => e.2) := by
  have views := Machine.views_eq (M := queueMachine (ω := ω) N) (N := Buffered.fifo N)
    (R := fun s l => Inv N s.1 ∧ items N s.1 = l) (P := fun _ _ => True) id (fun e => e.2.view)
    (fun e => e.2) (fun s l call related _ => ?_) (s := (q, w)) ⟨h, rfl⟩
    (Machine.along_of (fun _ _ => trivial) _ calls)
  · simpa using views
  · obtain ⟨q, w⟩ := s
    obtain ⟨inv, rfl⟩ := related
    obtain ⟨step, next⟩ := step_fifo bound inv w call
    rw [id, step]
    exact ⟨rfl, next, rfl⟩

end Queue

/-! ## The two queues -/

/-- From initialisation on and whatever its callbacks do, the C queue is a bounded first-in
first-out buffer; where they all succeed, the template queue answers every call alike. The
template queue keeps the same bounds. -/
theorem queues_refine_fifo {ω ω' α : Type} [Inhabited α] {M : ItemMemory ω α} (A : ItemArray M)
    (bound : A.zCapacity ≤ sizeMax / 2) (handler : Handler M) (ptQueue : Ds.QueueRoot ω) (w : ω)
    (tQueue : QueueRoot α ω') (pfcnFailureHandler : FailureHandler ω') (w' : ω')
    (calls : List A.BufferCall) :
    let s₀ := ((queueInit ptQueue (Ref.to A.root) handler.ref).2, w)
    let events := ((Ds.queueMachine A).trace s₀ calls).map A.bufferEvent
    let s := (Ds.queueMachine A).run s₀ calls
    (s.1.iStartIndex < A.zCapacity ∨ A.zCapacity = 0 ∧ s.1.iStartIndex = 0) ∧
    s.1.zLength ≤ A.zCapacity ∧
    Buffered.taken events = Buffered.given events ++ queueItems A s.1 s.2 ∧
    (∀ c x, ((Ds.queueMachine A).step s (.put c x)).1.tStatus = .success ↔
      (queueItems A s.1 s.2).length < A.zCapacity ∧
        (A.root.ptApi.deref.setAt.deref c.toPointer ((s.1.iStartIndex + s.1.zLength) % A.zCapacity)
          (M.store s.2 c.pvAddr x)).1 = .success) ∧
    (∀ call, let next := (Ds.queueMachine A).step s call
      next.1.tStatus ≠ .success → queueItems A next.2.1 next.2.2 = queueItems A s.1 s.2) ∧
    (∀ between c x y, let peeked := (Ds.queueMachine A).step s .look
      let later := (Ds.queueMachine A).run peeked.2 between
      peeked.1 = ⟨.success, some x⟩ →
      Buffered.given (((Ds.queueMachine A).trace peeked.2 between).map A.bufferEvent) = [] →
      ((Ds.queueMachine A).step later (.take c)).1 = ⟨.success, some y⟩ → y = x) ∧
    ((Ds.queueMachine A).Along (QueueSmooth A) s₀ calls →
      ((Ds.queueMachine A).trace s₀ calls).map (fun e => e.2.view) =
        ((queueMachine A.zCapacity).trace ((queueNew tQueue pfcnFailureHandler).2, w')
          (calls.map ItemArray.BufferCall.call)).map (fun e => e.2.view)) ∧
    ∀ calls, let t := (queueMachine A.zCapacity).run ((queueNew tQueue pfcnFailureHandler).2, w') calls
      (t.1.iStartIndex < A.zCapacity ∨ A.zCapacity = 0 ∧ t.1.iStartIndex = 0) ∧
        t.1.zLength ≤ A.zCapacity := by
  intro s₀ events s
  have inv₀ : QueueInv A s₀.1 := queueInit_inv A handler ptQueue
  have inv : QueueInv A s.1 := queue_run_inv bound inv₀ calls
  refine ⟨inv.start, inv.length, ?_, fun c x => ?_, fun call error => ?_,
    fun between c x y shown none given => ?_, fun smooth => ?_, fun calls => ?_⟩
  · exact Buffered.Fifo.conserves (queue_run_fifo bound inv₀ calls)
  · rw [queueItems_length]
    exact queuePush_success_iff inv bound c.toCell _
  · have step := (queue_step bound s call inv).fifo
    rw [ItemArray.bufferEvent, Buffered.event_refused (Reply.view_error error)] at step
    exact step.refused
  · have path := queue_run_fifo bound inv (.look :: (between ++ [.take c]))
    simp only [Machine.trace_cons, Machine.trace_append, Machine.trace_nil, List.map_cons,
      List.map_append, List.map_nil] at path
    rw [shown, given] at path
    exact Buffered.Fifo.shown_is_next path none
  · rw [queue_run_views bound inv₀ calls smooth, Queue.run_views bound (Queue.new_inv _ _ _)]
    rfl
  · have inside := Queue.run_inv bound (Queue.new_inv A.zCapacity tQueue pfcnFailureHandler) w' calls
    exact ⟨inside.start, inside.length⟩

/-- Calls that fill two slots, wrap around and run dry. -/
def pairCalls : List flatPair.BufferCall :=
  [.put flatPairVariable 5, .put flatPairVariable 6, .put flatPairVariable 7, .take flatPairVariable,
    .put flatPairVariable 8, .look, .take flatPairVariable, .take flatPairVariable, .take flatPairVariable]

/-- Two slots in plain memory: the third enqueue and the last dequeue are refused. -/
theorem queues_refine_fifo_pair :
    ((Ds.queueMachine flatPair).trace ((queueInit ⟨Ref.to gtQueueApi, (noHandler Nat).ref,
        Ref.to flatPair.root, 9, 9⟩ (Ref.to flatPair.root) (noHandler Nat).ref).2, ⟨fun _ => 0, []⟩)
      pairCalls).map (fun e => e.2.view) =
    [(true, none), (true, none), (false, none), (true, some 5), (true, none), (true, some 6),
      (true, some 6), (true, some 8), (false, none)] := by
  have smooth : (Ds.queueMachine flatPair).Along (QueueSmooth flatPair)
      ((queueInit ⟨Ref.to gtQueueApi, (noHandler Nat).ref, Ref.to flatPair.root, 9, 9⟩
        (Ref.to flatPair.root) (noHandler Nat).ref).2, ⟨fun _ => 0, []⟩) pairCalls :=
    ⟨fun _ => rfl, fun _ => rfl, fun _ => rfl, fun _ => ⟨rfl, rfl, rfl⟩, fun _ => rfl, fun _ => rfl,
      fun _ => ⟨rfl, rfl, rfl⟩, fun _ => ⟨rfl, rfl, rfl⟩, fun _ => ⟨rfl, rfl, rfl⟩, trivial⟩
  have alike := (queues_refine_fifo flatPair (by decide) (noHandler Nat)
    ⟨Ref.to gtQueueApi, (noHandler Nat).ref, Ref.to flatPair.root, 9, 9⟩ ⟨fun _ => 0, []⟩
    ⟨⟨false, fun _ _ w => w⟩, fun _ => 3, 1, 2⟩ ⟨false, fun _ _ w => w⟩ () pairCalls).2.2.2.2.2.2.1 smooth
  exact alike.trans (by decide)

end LibJuno.Buff
