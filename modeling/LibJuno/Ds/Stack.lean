import LibJuno.Ds.FlatArray
import LibJuno.Lib.Machine
import LibJuno.Lib.Ring

/-!
# The array-backed stack

`stack_api.h` and `juno_buff_stack.c`. The stack is the slots below `zLength`, the last
one on top. `stackPop` moves `zLength` before it fetches and copies the item, and does
not move it back when that fails: the item is then lost. `stackLifo_iff` says that this
is the only way in which the stack is not a bounded last-in first-out buffer.
-/

namespace LibJuno.Ds

open Memory

/-- `JUNO_DS_STACK_API_T`: which of the three functions are set. -/
structure StackApi where
  push : Bool
  pop : Bool
  peek : Bool

/-- `gtStackApi`, the library's stack vtable: `stackPush`, `stackPop`, `stackPeek`. -/
def gtStackApi : StackApi := ⟨true, true, true⟩

/-- `JUNO_DS_STACK_ROOT_T`. -/
structure StackRoot (ω : Type) where
  ptApi : Ref StackApi
  failureHandler : FailureHandler ω
  ptStackArray : Ref (ArrayRoot ω)
  zLength : Nat

section Operations

variable {ω : Type}

/-- `JunoDs_StackVerify`. -/
def stackVerify (ptStack : StackRoot ω) : Status :=
  if !ptStack.ptStackArray.nonNull then .nullptrError
  else if !(ptStack.ptApi.nonNull && ptStack.ptApi.deref.push && ptStack.ptApi.deref.pop &&
      ptStack.ptApi.deref.peek) then .nullptrError
  else arrayVerify ptStack.ptStackArray

/-- `JunoDs_StackInit`: the fields are written before anything is verified. -/
def stackInit (ptStackArray : Ref (ArrayRoot ω)) (pfcnFailureHdlr : FailureHandler ω) :
    Status × StackRoot ω :=
  let ptStack : StackRoot ω := ⟨Ref.to gtStackApi, pfcnFailureHdlr, ptStackArray, 0⟩
  (stackVerify ptStack, ptStack)

variable (apis : PointerApis ω)

/-- `JunoDs_StackPush`. -/
def stackPush (ptStack : StackRoot ω) (tItem : Pointer) (w : ω) : Status × StackRoot ω × ω :=
  let tStatus := stackVerify ptStack
  if tStatus ≠ .success then (tStatus, ptStack, w)
  else
    let tStatus := pointerVerify apis tItem
    if tStatus ≠ .success then (tStatus, ptStack, w)
    else
      let ptBuffer := ptStack.ptStackArray.deref
      if ptStack.zLength < ptBuffer.zCapacity then
        let (tStatus, w) := ptBuffer.ptApi.deref.setAt.deref tItem ptStack.zLength w
        if tStatus ≠ .success then (tStatus, ptStack, w)
        else (tStatus, { ptStack with zLength := ptStack.zLength + 1 }, w)
      else
        (.oobError, ptStack, fail ptStack.failureHandler .oobError "Failed to enqueue data" w)

/-- `JunoDs_StackPop`. The length is decremented first and stays so whatever `GetAt` and
`Copy` return. -/
def stackPop (ptStack : StackRoot ω) (tReturn : Pointer) (w : ω) : Status × StackRoot ω × ω :=
  let tStatus := stackVerify ptStack
  if tStatus ≠ .success then (tStatus, ptStack, w)
  else
    let tStatus := pointerVerify apis tReturn
    if tStatus ≠ .success then (tStatus, ptStack, w)
    else
      let ptBuffer := ptStack.ptStackArray.deref
      if ptStack.zLength > 0 then
        let ptStack := { ptStack with zLength := ptStack.zLength - 1 }
        let (tResult, w) := ptBuffer.ptApi.deref.getAt.deref ptStack.zLength w
        if tResult.tStatus ≠ .success then (tResult.tStatus, ptStack, w)
        else
          let (tStatus, w) := (apis tReturn.ptApi).copy.deref tReturn tResult.tOk w
          (tStatus, ptStack, w)
      else (.oobError, ptStack, fail ptStack.failureHandler .oobError "Failed to enqueue data" w)

/-- `JunoDs_StackPeek`. -/
def stackPeek (ptStack : StackRoot ω) (w : ω) : Result Pointer × ω :=
  let tStatus := stackVerify ptStack
  if tStatus ≠ .success then (⟨tStatus, default⟩, w)
  else if ptStack.zLength = 0 then
    (⟨.oobError, default⟩, fail ptStack.failureHandler .oobError "Queue is empty" w)
  else ptStack.ptStackArray.deref.ptApi.deref.getAt.deref (ptStack.zLength - 1) w

end Operations

/-! ## What one call does -/

variable {ω α : Type} {M : ItemMemory ω α}

/-- The stack over the array `A`: wired to it and to the library's vtable, the failure
handler keeping its hands off the items, the length within the array. -/
structure StackInv (A : ItemArray M) (st : StackRoot ω) : Prop where
  api : st.ptApi = Ref.to gtStackApi
  array : st.ptStackArray = Ref.to A.root
  handler : ∀ tStatus message w, M.item (fail st.failureHandler tStatus message w) = M.item w
  length : st.zLength ≤ A.zCapacity

/-- The items of the stack, top first. -/
def stackItems (A : ItemArray M) (st : StackRoot ω) (w : ω) : List α := Ring.pile (A.at_ w) st.zLength

theorem stackItems_congr {A : ItemArray M} {st : StackRoot ω} {w w' : ω}
    (fill : st.zLength ≤ A.zCapacity) (agree : ∀ i, i < A.zCapacity → A.at_ w' i = A.at_ w i) :
    stackItems A st w' = stackItems A st w :=
  Ring.pile_congr fun i hi => agree i (by omega)

@[simp] theorem stackItems_length (A : ItemArray M) (st : StackRoot ω) (w : ω) :
    (stackItems A st w).length = st.zLength := Ring.pile_length _ _

theorem StackInv.verify {A : ItemArray M} {st : StackRoot ω} (h : StackInv A st)
    (pos : 0 < A.zCapacity) : stackVerify st = .success := by
  rw [stackVerify, h.array, h.api]
  exact A.verify pos

theorem StackInv.verify_empty {A : ItemArray M} {st : StackRoot ω} (h : StackInv A st)
    (none : A.zCapacity = 0) : stackVerify st = .nullptrError := by
  rw [stackVerify, h.array, h.api]
  exact A.verify_empty none

/-- What `stackPush` does: it stores through `SetAt` on top and grows the stack, or it
changes nothing. -/
theorem stackPush_spec {A : ItemArray M} {st : StackRoot ω} (h : StackInv A st) (c : Cell M) (w : ω) :
    let put := A.root.ptApi.deref.setAt.deref c.toPointer st.zLength w
    let r := stackPush M.apis st c.toPointer w
    (r.1 = .success ∧ st.zLength < A.zCapacity ∧ put.1 = .success ∧
      r.2 = ({ st with zLength := st.zLength + 1 }, put.2)) ∨
    (r.1 ≠ .success ∧ ¬(st.zLength < A.zCapacity ∧ put.1 = .success) ∧
      r.2.1 = st ∧ M.item r.2.2 = M.item w) := by
  intro put r
  rcases Nat.eq_zero_or_pos A.zCapacity with none | pos
  · right
    have stop : r = (.nullptrError, st, w) := by
      simp [r, stackPush, h.verify_empty none]
    rw [stop]
    exact ⟨by simp, by omega, rfl, rfl⟩
  have slots : st.ptStackArray.deref = A.root := by rw [h.array]; rfl
  by_cases room : st.zLength < A.zCapacity
  · have call : r = if put.1 ≠ .success then (put.1, st, put.2)
        else (put.1, { st with zLength := st.zLength + 1 }, put.2) := by
      simp only [r, stackPush, h.verify pos, c.verify, slots, ne_eq, not_true_eq_false, if_false]
      rw [if_pos room]
    rcases A.store_cases c room w call with ⟨done, ok, grown⟩ | ⟨failed, bad, held, items⟩
    · exact .inl ⟨done, room, ok, grown⟩
    · exact .inr ⟨failed, fun both => bad both.2, held, items⟩
  · right
    have call : r = (.oobError, st, fail st.failureHandler .oobError "Failed to enqueue data" w) := by
      simp only [r, stackPush, h.verify pos, c.verify, slots, ne_eq, not_true_eq_false, if_false]
      rw [if_neg room]
    rw [call]
    exact ⟨by simp, fun both => room both.1, rfl, h.handler _ _ _⟩

/-- `GetAt` and `Copy` succeed in the pop. -/
def PopServed (A : ItemArray M) (st : StackRoot ω) (c : A.Client) (w : ω) : Prop :=
  let get := A.root.ptApi.deref.getAt.deref (st.zLength - 1) w
  get.1.tStatus = .success ∧ ((M.apis M.ptApi).copy.deref c.toPointer get.1.tOk get.2).1 = .success

/-- What `stackPop` does: without items it changes nothing; else it drops the top, and
copies it out exactly if `GetAt` and `Copy` succeed. -/
theorem stackPop_spec {A : ItemArray M} {st : StackRoot ω} (h : StackInv A st) (c : A.Client) (w : ω) :
    let r := stackPop M.apis st c.toPointer w
    (∀ i, i < A.zCapacity → A.at_ r.2.2 i = A.at_ w i) ∧
    (st.zLength = 0 → r.1 ≠ .success ∧ r.2.1 = st) ∧
    (0 < st.zLength → r.2.1 = { st with zLength := st.zLength - 1 } ∧
      (r.1 = .success ↔ PopServed A st c w) ∧
      (r.1 = .success → M.item r.2.2 c.pvAddr = A.at_ w (st.zLength - 1))) := by
  intro r
  have fill := h.length
  rcases Nat.eq_zero_or_pos A.zCapacity with none | pos
  · have stop : r = (.nullptrError, st, w) := by
      simp [r, stackPop, h.verify_empty none]
    rw [stop]
    exact ⟨fun _ _ => rfl, fun _ => ⟨by simp, rfl⟩, fun some_ => by omega⟩
  have slots : st.ptStackArray.deref = A.root := by rw [h.array]; rfl
  by_cases some_ : st.zLength > 0
  swap
  · have call : r = (.oobError, st, fail st.failureHandler .oobError "Failed to enqueue data" w) := by
      simp only [r, stackPop, h.verify pos, c.verify, ne_eq, not_true_eq_false, if_false]
      rw [if_neg some_]
    rw [call]
    exact ⟨fun i _ => by simp [ItemArray.at_, h.handler], fun _ => ⟨by simp, rfl⟩,
      fun yes => absurd yes some_⟩
  have lt : st.zLength - 1 < A.zCapacity := by omega
  obtain ⟨keepsGet, slotGet⟩ := A.getAt_slot (st.zLength - 1) w lt
  simp only [PopServed]
  generalize fetched : A.root.ptApi.deref.getAt.deref (st.zLength - 1) w = get at keepsGet slotGet ⊢
  by_cases okGet : get.1.tStatus = .success
  swap
  · have call : r = (get.1.tStatus, { st with zLength := st.zLength - 1 }, get.2) := by
      simp only [r, stackPop, h.verify pos, c.verify, slots, fetched, ne_eq, not_true_eq_false,
        if_false, okGet, not_false_eq_true, if_true]
      rw [if_pos some_]
    rw [call]
    refine ⟨fun i _ => by simp [ItemArray.at_, keepsGet], fun empty => by omega, fun _ => ⟨rfl, ?_, ?_⟩⟩
    · simp [okGet]
    · exact fun ok => absurd ok okGet
  have source := slotGet okGet
  have copied := M.item_copy c.toPointer (A.slot (st.zLength - 1)).toPointer get.2 c.typed
    (A.slot (st.zLength - 1)).typed
  rw [source]
  generalize moved : (M.apis M.ptApi).copy.deref c.toPointer (A.slot (st.zLength - 1)).toPointer get.2
    = cp at copied ⊢
  have call : r = (cp.1, { st with zLength := st.zLength - 1 }, cp.2) := by
    simp only [r, stackPop, h.verify pos, c.verify, slots, fetched, source, Cell.api, moved, ne_eq,
      not_true_eq_false, if_false, okGet]
    rw [if_pos some_]
  rw [call]
  by_cases okCopy : cp.1 = .success
  · simp only [okCopy, if_true, keepsGet] at copied
    refine ⟨fun i hi => A.at_client c hi copied, fun empty => by omega, fun _ => ⟨rfl, ?_, fun _ => ?_⟩⟩
    · simp [okGet]
    · rw [copied, Function.update_self]
      rfl
  · simp only [okCopy, if_false, keepsGet] at copied
    refine ⟨fun i hi => by simp [ItemArray.at_, copied], fun empty => by omega,
      fun _ => ⟨rfl, ?_, fun ok => absurd ok okCopy⟩⟩
    simp [okGet]

/-- What `stackPeek` does: it names the slot of the top, and changes nothing. -/
theorem stackPeek_spec {A : ItemArray M} {st : StackRoot ω} (h : StackInv A st) (w : ω) :
    let r := stackPeek st w
    M.item r.2 = M.item w ∧
    (r.1.tStatus = .success → 0 < st.zLength ∧ r.1.tOk = (A.slot (st.zLength - 1)).toPointer) ∧
    (0 < st.zLength → r = A.root.ptApi.deref.getAt.deref (st.zLength - 1) w) := by
  intro r
  have fill := h.length
  rcases Nat.eq_zero_or_pos A.zCapacity with none | pos
  · have stop : r = (⟨.nullptrError, default⟩, w) := by
      simp [r, stackPeek, h.verify_empty none]
    rw [stop]
    exact ⟨rfl, by simp, fun some_ => by omega⟩
  have slots : st.ptStackArray.deref = A.root := by rw [h.array]; rfl
  rcases Nat.eq_zero_or_pos st.zLength with empty | some_
  · have call : r = (⟨.oobError, default⟩, fail st.failureHandler .oobError "Queue is empty" w) := by
      simp [r, stackPeek, h.verify pos, empty]
    rw [call]
    exact ⟨h.handler _ _ _, by simp, fun some_ => by omega⟩
  · have filled : st.zLength ≠ 0 := by omega
    have lt : st.zLength - 1 < A.zCapacity := by omega
    obtain ⟨keeps, slot⟩ := A.getAt_slot (st.zLength - 1) w lt
    have call : r = A.root.ptApi.deref.getAt.deref (st.zLength - 1) w := by
      simp [r, stackPeek, h.verify pos, filled, slots]
    rw [call]
    exact ⟨keeps, fun ok => ⟨some_, slot ok⟩, fun _ => rfl⟩

/-! ## Runs -/

/-- The stack and the world, call by call. -/
def stackMachine (A : ItemArray M) : Machine (StackRoot ω × ω) A.BufferCall (Reply α) where
  step s call :=
    match call with
    | .put c x =>
      let r := stackPush M.apis s.1 c.toPointer (M.store s.2 c.pvAddr x)
      (⟨r.1, none⟩, r.2)
    | .take c =>
      let r := stackPop M.apis s.1 c.toPointer s.2
      (⟨r.1, if r.1 = .success then some (M.item r.2.2 c.pvAddr) else none⟩, r.2)
    | .look =>
      let r := stackPeek s.1 s.2
      (⟨r.1.tStatus, if r.1.tStatus = .success then some (M.item r.2 r.1.tOk.pvAddr) else none⟩,
        s.1, r.2)

/-- The call is a step of a bounded last-in first-out buffer: an error leaves the items as
they were, a push goes on top, a pop copies out and removes the top, a peek shows it. -/
def LifoStep (A : ItemArray M) (s : StackRoot ω × ω) (call : A.BufferCall) : Prop :=
  Buffered.Lifo A.zCapacity (stackItems A s.1 s.2)
    (A.bufferEvent (call, ((stackMachine A).step s call).1))
    (stackItems A ((stackMachine A).step s call).2.1 ((stackMachine A).step s call).2.2)

/-- A pop of a stack that holds something finds `GetAt` and `Copy` succeeding. -/
def NoPopFails (A : ItemArray M) (s : StackRoot ω × ω) : A.BufferCall → Prop
  | .take c => 0 < s.1.zLength → PopServed A s.1 c s.2
  | _ => True

/-- The callbacks that the call makes on the stack all succeed. -/
def StackSmooth (A : ItemArray M) (s : StackRoot ω × ω) : A.BufferCall → Prop
  | .put c x => s.1.zLength < A.zCapacity →
    (A.root.ptApi.deref.setAt.deref c.toPointer s.1.zLength (M.store s.2 c.pvAddr x)).1 = .success
  | .take c => 0 < s.1.zLength → PopServed A s.1 c s.2
  | .look => 0 < s.1.zLength →
    (A.root.ptApi.deref.getAt.deref (s.1.zLength - 1) s.2).1.tStatus = .success

theorem StackSmooth.noPopFails {A : ItemArray M} {s : StackRoot ω × ω} {call : A.BufferCall}
    (h : StackSmooth A s call) : NoPopFails A s call := by
  cases call with
  | put c x => trivial
  | take c => exact h
  | look => trivial

section Steps

variable {A : ItemArray M} {st : StackRoot ω} (h : StackInv A st) (w : ω)

include h

/-- A push keeps the stack well formed and is a step of the buffer, whatever fails. -/
theorem stack_put (c : A.Client) (x : α) :
    StackInv A ((stackMachine A).step (st, w) (.put c x)).2.1 ∧ LifoStep A (st, w) (.put c x) := by
  have before : stackItems A st (M.store w c.pvAddr x) = stackItems A st w :=
    stackItems_congr h.length fun i hi => A.at_client c hi (M.item_store _ _ _)
  have value : M.item (M.store w c.pvAddr x) c.pvAddr = x := by simp [M.item_store]
  simp only [LifoStep, stackMachine]
  rw [← before]
  generalize M.store w c.pvAddr x = w₀ at value
  have spec := stackPush_spec h c.toCell w₀
  generalize stackPush M.apis st c.toPointer w₀ = r at spec
  rcases spec with ⟨ok, room, put, next⟩ | ⟨error, -, same, items⟩
  · have stored := A.item_setAt c.toCell st.zLength w₀ room
    simp only [put, if_true, value] at stored
    rw [ok, next]
    refine ⟨⟨h.api, h.array, h.handler, room⟩, ?_⟩
    have grown : stackItems A { st with zLength := st.zLength + 1 }
        (A.root.ptApi.deref.setAt.deref c.toPointer st.zLength w₀).2 = x :: stackItems A st w₀ := by
      unfold stackItems
      rw [← Ring.pile_push]
      exact Ring.pile_congr fun i (hi : i < st.zLength + 1) => A.at_update room (by omega) stored
    rw [grown]
    exact .takes x (by simpa using room)
  · rw [ItemArray.bufferEvent, Buffered.event_refused (Reply.view_error error), same]
    have kept : stackItems A st r.2.2 = stackItems A st w₀ :=
      stackItems_congr h.length fun i _ => by simp only [ItemArray.at_, items]
    rw [kept]
    exact ⟨h, .refuses _⟩

theorem stack_take_inv (c : A.Client) : StackInv A ((stackMachine A).step (st, w) (.take c)).2.1 := by
  obtain ⟨-, empty, full⟩ := stackPop_spec h c w
  simp only [stackMachine]
  rcases Nat.eq_zero_or_pos st.zLength with none | some_
  · rw [(empty none).2]
    exact h
  · have fill := h.length
    rw [(full some_).1]
    refine ⟨h.api, h.array, h.handler, ?_⟩
    show st.zLength - 1 ≤ A.zCapacity
    omega

/-- A pop is a step of the buffer exactly if it finds nothing or nothing fails in it: the
length shrinks in any case. -/
theorem stack_take (c : A.Client) :
    LifoStep A (st, w) (.take c) ↔ NoPopFails A (st, w) (.take c) := by
  obtain ⟨slots, empty, full⟩ := stackPop_spec h c w
  simp only [LifoStep, NoPopFails, stackMachine]
  generalize stackPop M.apis st c.toPointer w = r at slots empty full
  rcases Nat.eq_zero_or_pos st.zLength with none | some_
  · obtain ⟨error, same⟩ := empty none
    rw [ItemArray.bufferEvent, Buffered.event_refused (Reply.view_error error), same,
      stackItems_congr h.length slots]
    exact ⟨fun _ some_ => by omega, fun _ => .refuses _⟩
  · obtain ⟨next, served, copied⟩ := full some_
    have fill := h.length
    have rest : stackItems A r.2.1 r.2.2 = stackItems A { st with zLength := st.zLength - 1 } w := by
      rw [next]
      refine stackItems_congr ?_ slots
      show st.zLength - 1 ≤ A.zCapacity
      omega
    by_cases ok : r.1 = .success
    · refine ⟨fun _ _ => served.1 ok, fun _ => ?_⟩
      rw [rest, stackItems, Ring.pile_top _ some_, ok, copied ok]
      exact .gives _ _
    · refine ⟨fun step => ?_, fun kept => absurd (served.2 (kept some_)) ok⟩
      -- a refusal would have left the length alone
      rw [ItemArray.bufferEvent, Buffered.event_refused (Reply.view_error ok), rest] at step
      have lengths := congrArg List.length step.refused
      simp only [stackItems_length] at lengths
      omega

theorem stack_look :
    StackInv A ((stackMachine A).step (st, w) .look).2.1 ∧ LifoStep A (st, w) .look := by
  obtain ⟨items, named, -⟩ := stackPeek_spec h w
  have after : stackItems A st (stackPeek st w).2 = stackItems A st w :=
    stackItems_congr h.length fun i _ => by simp only [ItemArray.at_, items]
  simp only [LifoStep, stackMachine]
  generalize stackPeek st w = r at items named after
  refine ⟨h, ?_⟩
  rw [after]
  by_cases ok : r.1.tStatus = .success
  · obtain ⟨some_, slot⟩ := named ok
    rw [stackItems, Ring.pile_top _ some_, ok, items, slot]
    exact .shows _ _
  · rw [ItemArray.bufferEvent, Buffered.event_refused (Reply.view_error ok)]
    exact .refuses _

end Steps

/-- Every call keeps the stack well formed, also a pop that fails. -/
theorem stack_step_inv {A : ItemArray M} (s : StackRoot ω × ω) (call : A.BufferCall)
    (h : StackInv A s.1) : StackInv A ((stackMachine A).step s call).2.1 := by
  obtain ⟨st, w⟩ := s
  cases call with
  | put c x => exact (stack_put h w c x).1
  | take c => exact stack_take_inv h w c
  | look => exact (stack_look h w).1

/-- A call is a step of the buffer exactly if it is no pop that fails. -/
theorem stack_step_lifo {A : ItemArray M} (s : StackRoot ω × ω) (call : A.BufferCall)
    (h : StackInv A s.1) : LifoStep A s call ↔ NoPopFails A s call := by
  obtain ⟨st, w⟩ := s
  cases call with
  | put c x => exact iff_of_true (stack_put h w c x).2 trivial
  | take c => exact stack_take h w c
  | look => exact iff_of_true (stack_look h w).2 trivial

/-- A call whose callbacks succeed is the step of `Buffered.lifo`. -/
theorem stack_step_smooth {A : ItemArray M} (s : StackRoot ω × ω) (call : A.BufferCall)
    (h : StackInv A s.1) (smooth : StackSmooth A s call) :
    (Buffered.lifo A.zCapacity).step (stackItems A s.1 s.2) call.call =
      (((stackMachine A).step s call).1.view,
        stackItems A ((stackMachine A).step s call).2.1 ((stackMachine A).step s call).2.2) := by
  refine Buffered.lifo_step ((stack_step_lifo s call h).2 smooth.noPopFails) ?_ ?_
  all_goals obtain ⟨st, w⟩ := s
  · cases call with
    | put c x => exact rfl
    | take c =>
      by_cases ok : (stackPop M.apis st c.toPointer w).1 = .success <;>
        simp [ok, stackMachine, Buffered.Complete, ItemArray.BufferCall.call, Reply.view]
    | look =>
      by_cases ok : (stackPeek st w).1.tStatus = .success <;>
        simp [ok, stackMachine, Buffered.Complete, ItemArray.BufferCall.call, Reply.view]
  · intro can
    apply decide_eq_true
    cases call with
    | put c x =>
      have room : st.zLength < A.zCapacity := by
        simpa [Buffered.Servable, ItemArray.BufferCall.call] using can
      rcases stackPush_spec h c.toCell (M.store w c.pvAddr x) with ⟨ok, -⟩ | ⟨-, no, -⟩
      · exact ok
      · exact absurd ⟨room, smooth room⟩ no
    | take c =>
      have some_ : 0 < st.zLength := by simpa using List.length_pos_of_ne_nil can
      exact (((stackPop_spec h c w).2.2 some_).2.1).2 (smooth some_)
    | look =>
      have some_ : 0 < st.zLength := by simpa using List.length_pos_of_ne_nil can
      show (stackPeek st w).1.tStatus = .success
      rw [(stackPeek_spec h w).2.2 some_]
      exact smooth some_

theorem stackInit_inv (A : ItemArray M) (handler : Handler M) :
    StackInv A (stackInit (Ref.to A.root) handler.ref).2 :=
  ⟨rfl, rfl, handler.quiet, Nat.zero_le _⟩

section Runs

variable {A : ItemArray M} {s : StackRoot ω × ω} (h : StackInv A s.1) (calls : List A.BufferCall)

include h

/-- Every run keeps the stack well formed. -/
theorem stack_run_inv : StackInv A ((stackMachine A).run s calls).1 :=
  Machine.invariant (I := fun s => StackInv A s.1) (fun s call h _ => stack_step_inv s call h) h
    (Machine.along_of (fun _ _ => trivial) _ _)

/-- A run without a failing pop is a run of a bounded last-in first-out buffer. -/
theorem stack_run_lifo (kept : (stackMachine A).Along (NoPopFails A) s calls) :
    StepChain (Buffered.Lifo A.zCapacity) (stackItems A s.1 s.2)
      (((stackMachine A).trace s calls).map A.bufferEvent)
      (stackItems A ((stackMachine A).run s calls).1 ((stackMachine A).run s calls).2) :=
  Machine.refines (M := stackMachine A) (I := fun s => StackInv A s.1)
    (fun s => stackItems A s.1 s.2) A.bufferEvent
    (fun s call h kept => ⟨stack_step_inv s call h, (stack_step_lifo s call h).2 kept⟩) h kept

/-- Where no callback fails the stack has the outcomes of `Buffered.lifo`. -/
theorem stack_run_outcomes (smooth : (stackMachine A).Along (StackSmooth A) s calls) :
    ((stackMachine A).trace s calls).map (fun e => Buffered.outcome e.1.call e.2.view) =
      ((Buffered.lifo A.zCapacity).trace (stackItems A s.1 s.2)
        (calls.map ItemArray.BufferCall.call)).map (fun e => Buffered.outcome e.1 e.2) := by
  refine Machine.views_eq (R := fun s l => StackInv A s.1 ∧ stackItems A s.1 s.2 = l)
    ItemArray.BufferCall.call (fun e => Buffered.outcome e.1.call e.2.view)
    (fun e => Buffered.outcome e.1 e.2) ?_ ⟨h, rfl⟩ smooth
  rintro s l call ⟨h, rfl⟩ ok
  rw [stack_step_smooth s call h ok]
  exact ⟨rfl, stack_step_inv s call h, rfl⟩

end Runs

/-- The run is one of a bounded last-in first-out buffer, failures included. -/
structure RefinesLifo (A : ItemArray M) (s : StackRoot ω × ω) (calls : List A.BufferCall) : Prop where
  length : ∀ front rest, calls = front ++ rest → ((stackMachine A).run s front).1.zLength ≤ A.zCapacity
  lifo : (stackMachine A).Along (LifoStep A) s calls
  peek : ∀ front between c rest x y, calls = front ++ .look :: (between ++ .take c :: rest) →
    let peeked := (stackMachine A).step ((stackMachine A).run s front) .look
    let events := ((stackMachine A).trace peeked.2 between).map A.bufferEvent
    peeked.1 = ⟨.success, some x⟩ → Buffered.taken events = [] → Buffered.given events = [] →
    ((stackMachine A).step ((stackMachine A).run peeked.2 between) (.take c)).1 = ⟨.success, some y⟩ →
    y = x

/-- From initialisation on, a run of the stack is one of a bounded last-in first-out
buffer exactly if no pop of a stack that holds something fails in `GetAt` or `Copy`. -/
theorem stackLifo_iff (A : ItemArray M) (handler : Handler M) (w : ω) (calls : List A.BufferCall) :
    let s₀ := ((stackInit (Ref.to A.root) handler.ref).2, w)
    RefinesLifo A s₀ calls ↔ (stackMachine A).Along (NoPopFails A) s₀ calls := by
  intro s₀
  have inv₀ : StackInv A s₀.1 := stackInit_inv A handler
  have everywhere : (stackMachine A).Along (fun s _ => StackInv A s.1 ∧ True) s₀ calls :=
    Machine.invariant_along (fun s call h _ => stack_step_inv s call h) inv₀
      (Machine.along_of (fun _ _ => trivial) _ _)
  constructor
  · rintro ⟨-, lifo, -⟩
    have both := Machine.Along.and everywhere lifo
    exact both.mono fun s call ⟨⟨h, _⟩, step⟩ => (stack_step_lifo s call h).1 step
  · intro kept
    refine ⟨fun front rest _ => (stack_run_inv inv₀ front).length, ?_, ?_⟩
    · have both := Machine.Along.and everywhere kept
      exact both.mono fun s call ⟨⟨h, _⟩, kept⟩ => (stack_step_lifo s call h).2 kept
    · rintro front between c rest x y rfl peeked events shown noneIn noneOut given
      have tail : (stackMachine A).Along (NoPopFails A) ((stackMachine A).run s₀ front)
          ((.look :: (between ++ [.take c])) ++ rest) := by
        have := (Machine.along_append.1 kept).2
        simpa using this
      have path := stack_run_lifo (stack_run_inv inv₀ front) _ (Machine.along_append.1 tail).1
      simp only [Machine.trace_cons, Machine.trace_append, Machine.trace_nil, List.map_cons,
        List.map_append, List.map_nil] at path
      rw [shown, given] at path
      exact Buffered.Lifo.shown_is_next path noneIn noneOut

/-- One item is pushed, `Copy` fails in the pop, and the item is gone. -/
theorem stackLifo_pop_loses :
    ¬RefinesLifo flatPair ((stackInit (Ref.to flatPair.root) (noHandler Nat).ref).2,
      ⟨fun _ => 0, [.success, .success, .err]⟩) [.put flatPairVariable 5, .take flatPairVariable] := by
  intro refines
  have popped : Buffered.Lifo 2 [5] .refuses [] := refines.lifo.2.1
  exact absurd popped.refused (by decide)

end LibJuno.Ds
