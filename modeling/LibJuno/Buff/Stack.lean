import LibJuno.Ds.Stack

/-!
# The C++ template stack

`juno::buff` of `juno_buff.hpp`. `push` and `pop` answer as the C stack does where no
callback fails; `stackPeek` names the slot at `zLength`, one past the top.
`stacks_agree_iff` says for which runs that slot still answers for the top.
-/

namespace LibJuno.Buff

open Ds Memory

/-- `STACK_ROOT_T<T, N>`. -/
structure StackRoot (T ω : Type) where
  failureHandler : FailureHandler ω
  tArr : Nat → T
  zLength : Nat

section Operations

variable {T ω : Type} (N : Nat)

/-- `JUNO_STACK_T::New`; the array keeps what it held. -/
def stackNew (tStack : StackRoot T ω) (pfcnFailureHandler : FailureHandler ω) :
    Status × StackRoot T ω :=
  (.success, { tStack with failureHandler := pfcnFailureHandler, zLength := 0 })

/-- `juno::buff::Push`. -/
def push (tStack : StackRoot T ω) (tData : T) (w : ω) : Status × StackRoot T ω × ω :=
  if tStack.zLength < N then
    (.success, { tStack with
      tArr := Function.update tStack.tArr tStack.zLength tData
      zLength := tStack.zLength + 1 }, w)
  else (.invalidSizeError, tStack, fail tStack.failureHandler .invalidSizeError "Stack is full" w)

/-- `juno::buff::Pop`. -/
def pop [Inhabited T] (tStack : StackRoot T ω) (w : ω) : Result T × StackRoot T ω × ω :=
  if tStack.zLength > 0 then
    let tStack := { tStack with zLength := tStack.zLength - 1 }
    (⟨.success, tStack.tArr tStack.zLength⟩, tStack, w)
  else (⟨.err, default⟩, tStack, fail tStack.failureHandler .err "Stack is empty" w)

/-- `juno::buff::StackPeek`, the pointer as the index it points at; NULL on failure. -/
def stackPeek (tStack : StackRoot T ω) (w : ω) : Result (Option Nat) × ω :=
  if tStack.zLength > 0 then (⟨.success, some tStack.zLength⟩, w)
  else (⟨.err, none⟩, fail tStack.failureHandler .err "Stack is empty" w)

end Operations

variable {T ω : Type} [Inhabited T]

/-- The stack and the world, call by call; a peek is answered by the item pointed at, if
it lies in the array. -/
def stackMachine (N : Nat) : Machine (StackRoot T ω × ω) (Buffered.Call T) (Reply T) where
  step s call :=
    match call with
    | .put x =>
      let r := push N s.1 x s.2
      (⟨r.1, none⟩, r.2)
    | .take =>
      let r := pop s.1 s.2
      (⟨r.1.tStatus, if r.1.tStatus = .success then some r.1.tOk else none⟩, r.2)
    | .look =>
      let r := stackPeek s.1 s.2
      (⟨r.1.tStatus, (r.1.tOk.filter (· < N)).map s.1.tArr⟩, s.1, r.2)

/-- A successful peek points at an index below `N` that holds the element the next pop
returns. -/
def PeekNamesTop (N : Nat) (s : StackRoot T ω × ω) : Buffered.Call T → Prop
  | .look => (stackPeek s.1 s.2).1.tStatus = .success →
    ∃ i, (stackPeek s.1 s.2).1.tOk = some i ∧ i < N ∧ (pop s.1 s.2).1 = ⟨.success, s.1.tArr i⟩
  | _ => True

/-- A peek finds the stack empty, or with room and the slot above the top holding what the
top holds. -/
def SlotAboveIsTop (N : Nat) (s : StackRoot T ω × ω) : Buffered.Call T → Prop
  | .look => 0 < s.1.zLength → s.1.zLength < N ∧ s.1.tArr s.1.zLength = s.1.tArr (s.1.zLength - 1)
  | _ => True

theorem peekNamesTop_iff (N : Nat) (s : StackRoot T ω × ω) (call : Buffered.Call T) :
    PeekNamesTop N s call ↔ SlotAboveIsTop N s call := by
  cases call with
  | put x => exact Iff.rfl
  | take => exact Iff.rfl
  | look =>
    by_cases some_ : s.1.zLength > 0
    · simp only [PeekNamesTop, SlotAboveIsTop, stackPeek, pop, if_pos some_]
      constructor
      · intro names _
        obtain ⟨i, here, inside, same⟩ := names trivial
        cases here
        exact ⟨inside, by simpa using same.symm⟩
      · intro above _
        obtain ⟨room, same⟩ := above some_
        exact ⟨_, rfl, room, by rw [same]⟩
    · simp [PeekNamesTop, SlotAboveIsTop, stackPeek, some_]

namespace Stack

/-- The items of the stack, top first. -/
def items (s : StackRoot T ω) : List T := Ring.pile s.tArr s.zLength

/-- Each call has the outcome of the bounded stack, up to the item a peek shows. -/
theorem step_lifo {N : Nat} {s : StackRoot T ω × ω} (fill : s.1.zLength ≤ N) (call : Buffered.Call T) :
    Buffered.outcome call ((Buffered.lifo N).step (items s.1) call).1 =
      Buffered.outcome call ((stackMachine N).step s call).1.view ∧
    ((Buffered.lifo N).step (items s.1) call).2 = items ((stackMachine N).step s call).2.1 ∧
    ((stackMachine N).step s call).2.1.zLength ≤ N := by
  obtain ⟨st, w⟩ := s
  have length : (items st).length = st.zLength := Ring.pile_length _ _
  cases call with
  | put x =>
    by_cases room : st.zLength < N
    · have grown := Ring.pile_push st.tArr x st.zLength
      simp only [Buffered.lifo, Buffered.eager, length, stackMachine, push, if_pos room]
      exact ⟨rfl, grown.symm, room⟩
    · simp only [Buffered.lifo, Buffered.eager, length, stackMachine, push, if_neg room]
      exact ⟨rfl, trivial, fill⟩
  | take =>
    by_cases some_ : st.zLength > 0
    · have top : items st = _ := Ring.pile_top st.tArr some_
      simp only [top, Buffered.lifo, Buffered.eager, stackMachine, pop, if_pos some_]
      refine ⟨rfl, rfl, ?_⟩
      simp only at fill ⊢
      omega
    · have nil : items st = [] := List.length_eq_zero_iff.1 (by omega)
      simp only [nil, Buffered.lifo, Buffered.eager, stackMachine, pop, if_neg some_]
      exact ⟨rfl, trivial, fill⟩
  | look =>
    by_cases some_ : st.zLength > 0
    · have top : items st = _ := Ring.pile_top st.tArr some_
      simp only [top, Buffered.lifo, Buffered.eager, stackMachine, stackPeek, if_pos some_]
      exact ⟨rfl, trivial, fill⟩
    · have nil : items st = [] := List.length_eq_zero_iff.1 (by omega)
      simp only [nil, Buffered.lifo, Buffered.eager, stackMachine, stackPeek, if_neg some_]
      exact ⟨rfl, trivial, fill⟩

/-- The template stack has the outcomes of the bounded stack. -/
theorem run_outcomes {N : Nat} {s : StackRoot T ω × ω} (fill : s.1.zLength ≤ N)
    (calls : List (Buffered.Call T)) :
    ((stackMachine N).trace s calls).map (fun e => Buffered.outcome e.1 e.2.view) =
      ((Buffered.lifo N).trace (items s.1) calls).map (fun e => Buffered.outcome e.1 e.2) := by
  have outcomes := Machine.views_eq (M := stackMachine (ω := ω) N) (N := Buffered.lifo N)
    (R := fun s l => s.1.zLength ≤ N ∧ items s.1 = l) (P := fun _ _ => True) id
    (fun e => Buffered.outcome e.1 e.2.view) (fun e => Buffered.outcome e.1 e.2)
    (fun s l call related _ => ?_) ⟨fill, rfl⟩ (Machine.along_of (fun _ _ => trivial) s calls)
  · simpa using outcomes
  · obtain ⟨fill, rfl⟩ := related
    obtain ⟨same, next, fill'⟩ := step_lifo fill call
    exact ⟨same.symm, fill', next.symm⟩

end Stack

/-! ## The two stacks -/

/-- On the same calls the two stacks succeed alike and pop the same items, and the
template stack's peek names what its next pop returns. -/
structure AgreesWithC {ω ω' α : Type} [Inhabited α] {M : ItemMemory ω α} (A : ItemArray M)
    (s : Ds.StackRoot ω × ω) (t : StackRoot α ω' × ω') (calls : List A.BufferCall) : Prop where
  outcomes :
    ((Ds.stackMachine A).trace s calls).map (fun e => Buffered.outcome e.1.call e.2.view) =
      ((stackMachine A.zCapacity).trace t (calls.map ItemArray.BufferCall.call)).map
        (fun e => Buffered.outcome e.1 e.2.view)
  peek : (stackMachine A.zCapacity).Along (PeekNamesTop A.zCapacity) t
    (calls.map ItemArray.BufferCall.call)

/-- Where no callback of the C stack fails, a new template stack agrees with it exactly if
each of its peeks finds it empty, or not full with equal items in the top slot and the
slot above. -/
theorem stacks_agree_iff {ω ω' α : Type} [Inhabited α] {M : ItemMemory ω α} (A : ItemArray M)
    (handler : Handler M) (w : ω) (tStack : StackRoot α ω') (pfcnFailureHandler : FailureHandler ω')
    (w' : ω') (calls : List A.BufferCall)
    (smooth : (Ds.stackMachine A).Along (StackSmooth A)
      ((stackInit (Ref.to A.root) handler.ref).2, w) calls) :
    AgreesWithC A ((stackInit (Ref.to A.root) handler.ref).2, w)
        ((stackNew tStack pfcnFailureHandler).2, w') calls ↔
      (stackMachine A.zCapacity).Along (SlotAboveIsTop A.zCapacity)
        ((stackNew tStack pfcnFailureHandler).2, w') (calls.map ItemArray.BufferCall.call) := by
  constructor
  · rintro ⟨-, peek⟩
    exact peek.mono fun s call => (peekNamesTop_iff A.zCapacity s call).1
  · intro above
    refine ⟨?_, above.mono fun s call => (peekNamesTop_iff A.zCapacity s call).2⟩
    rw [stack_run_outcomes (stackInit_inv A handler) calls smooth, Stack.run_outcomes (Nat.zero_le _)]
    rfl

/-- The slot above the top still holds what was popped from it, which is what the top
holds. -/
theorem stacks_agree_pair :
    AgreesWithC flatPair ((stackInit (Ref.to flatPair.root) (noHandler Nat).ref).2, ⟨fun _ => 0, []⟩)
      ((stackNew ⟨⟨false, fun _ _ w => w⟩, fun _ => 0, 7⟩ ⟨false, fun _ _ w => w⟩).2, ())
      [.put flatPairVariable 5, .put flatPairVariable 5, .take flatPairVariable, .look] := by
  refine (stacks_agree_iff flatPair (noHandler Nat) ⟨fun _ => 0, []⟩ _ _ () _ ?_).2 ?_
  · exact ⟨fun _ => rfl, fun _ => rfl, fun _ => ⟨rfl, rfl⟩, fun _ => rfl, trivial⟩
  · exact ⟨trivial, trivial, trivial, fun _ => ⟨by decide, by decide⟩, trivial⟩

/-- One item in two slots: the peek names the free slot. -/
theorem stacks_disagree_pair :
    ¬AgreesWithC flatPair ((stackInit (Ref.to flatPair.root) (noHandler Nat).ref).2, ⟨fun _ => 0, []⟩)
      ((stackNew ⟨⟨false, fun _ _ w => w⟩, fun _ => 0, 7⟩ ⟨false, fun _ _ w => w⟩).2, ())
      [.put flatPairVariable 5, .look] := by
  rintro ⟨-, -, peek, -⟩
  obtain ⟨i, here, -, same⟩ := peek rfl
  cases here
  exact absurd same (by decide)

end LibJuno.Buff
