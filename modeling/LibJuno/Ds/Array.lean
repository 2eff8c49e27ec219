import LibJuno.Memory.Pointer
import LibJuno.Lib.Bounded

/-!
# The array trait

`array_api.h`: the vtable of `SetAt`, `GetAt` and `RemoveAt` that every container is
built on, and its verification. The library has no array of its own, the client
injects one; `ItemArray` is what the header promises of it. Slot `i` is a fixed
variable of the memory, no two slots share an address, and each callback may fail
without effect.
-/

namespace LibJuno.Ds

open Memory

/-- `JUNO_DS_ARRAY_API_T`, each callback applied to its own array. -/
structure ArrayApi (ω : Type) where
  setAt : Ref (Pointer → Nat → ω → Status × ω)
  getAt : Ref (Nat → ω → Result Pointer × ω)
  removeAt : Ref (Nat → ω → Status × ω)

/-- `JUNO_DS_ARRAY_ROOT_T`. -/
structure ArrayRoot (ω : Type) where
  ptApi : Ref (ArrayApi ω)
  zCapacity : Nat

/-- `JunoDs_ArrayApiVerify`. -/
def arrayApiVerify {ω : Type} (ptArrayApi : Ref (ArrayApi ω)) : Status :=
  assertExists (ptArrayApi.nonNull && ptArrayApi.deref.getAt.nonNull &&
    ptArrayApi.deref.setAt.nonNull && ptArrayApi.deref.removeAt.nonNull)

/-- `JunoDs_ArrayVerify`. -/
def arrayVerify {ω : Type} (ptArray : Ref (ArrayRoot ω)) : Status :=
  if !ptArray.nonNull then .nullptrError
  else if ptArray.deref.zCapacity = 0 then .nullptrError
  else arrayApiVerify ptArray.deref.ptApi

/-- An injected array of items that behaves as the header says. -/
structure ItemArray {ω α : Type} (M : ItemMemory ω α) where
  root : ArrayRoot ω
  slot : Nat → Cell M
  verified : arrayApiVerify root.ptApi = .success
  distinct : ∀ i j, i < root.zCapacity → j < root.zCapacity → (slot i).pvAddr = (slot j).pvAddr → i = j
  item_setAt : ∀ (c : Cell M) (i : Nat) (w : ω), i < root.zCapacity →
    let r := root.ptApi.deref.setAt.deref c.toPointer i w
    M.item r.2 = if r.1 = .success then Function.update (M.item w) (slot i).pvAddr (M.item w c.pvAddr)
      else M.item w
  getAt_slot : ∀ (i : Nat) (w : ω), i < root.zCapacity →
    let r := root.ptApi.deref.getAt.deref i w
    M.item r.2 = M.item w ∧ (r.1.tStatus = .success → r.1.tOk = (slot i).toPointer)
  item_removeAt : ∀ (i : Nat) (w : ω), i < root.zCapacity →
    let r := root.ptApi.deref.removeAt.deref i w
    ∃ x, M.item r.2 = if r.1 = .success then Function.update (M.item w) (slot i).pvAddr x else M.item w

/-- A failure handler that leaves the items alone. -/
structure Handler {ω α : Type} (M : ItemMemory ω α) where
  ref : FailureHandler ω
  quiet : ∀ tStatus message w, M.item (fail ref tStatus message w) = M.item w

/-- What the caller of a container sees of one call: the status, and on success the
item it was handed, copied out or pointed at. -/
structure Reply (α : Type) where
  tStatus : Status
  value : Option α
  deriving DecidableEq, Repr

/-- A reply up to the choice of error code. -/
def Reply.view {α : Type} (r : Reply α) : Bool × Option α := (r.tStatus = .success, r.value)

theorem Reply.view_error {α : Type} {r : Reply α} (error : r.tStatus ≠ .success) :
    r.view.1 = false := by
  simp [view, error]

namespace ItemArray

variable {ω α : Type} {M : ItemMemory ω α} (A : ItemArray M)

/-- The capacity of the array. -/
abbrev zCapacity : Nat := A.root.zCapacity

/-- The item in slot `i`. -/
def at_ (w : ω) (i : Nat) : α := M.item w (A.slot i).pvAddr

/-- A variable of the client: a valid descriptor that is no slot of the array. -/
structure Client extends Cell M where
  outside : ∀ i, i < A.zCapacity → pvAddr ≠ (A.slot i).pvAddr

theorem verify (h : 0 < A.zCapacity) : arrayVerify (Ref.to A.root) = .success := by
  have ne : A.root.zCapacity ≠ 0 := by
    simp only [zCapacity] at h
    omega
  simp [arrayVerify, Ref.to, ne, A.verified]

/-- Without capacity every operation stops at the verification. -/
theorem verify_empty (h : A.zCapacity = 0) : arrayVerify (Ref.to A.root) = .nullptrError := by
  simp [arrayVerify, Ref.to, zCapacity] at h ⊢
  simp [h]

/-- A write to slot `i` is seen in slot `i` and in no other. -/
theorem at_update {w w' : ω} {i j : Nat} {x : α} (hi : i < A.zCapacity) (hj : j < A.zCapacity)
    (written : M.item w' = Function.update (M.item w) (A.slot i).pvAddr x) :
    A.at_ w' j = Function.update (A.at_ w) i x j := by
  unfold at_
  rw [written]
  by_cases same : j = i
  · subst same
    simp
  · have other : (A.slot j).pvAddr ≠ (A.slot i).pvAddr := fun e => same (A.distinct j i hj hi e)
    rw [Function.update_of_ne other, Function.update_of_ne same]

/-- A write to a variable of the client is seen in no slot. -/
theorem at_client {w w' : ω} {j : Nat} {x : α} (c : A.Client) (hj : j < A.zCapacity)
    (written : M.item w' = Function.update (M.item w) c.pvAddr x) : A.at_ w' j = A.at_ w j := by
  unfold at_
  rw [written, Function.update_of_ne (c.outside j hj).symm]

/-- A call that stores through `SetAt` and changes its container when that succeeds. -/
theorem store_cases {σ : Type} {r : Status × σ × ω} {held grown : σ} (c : Cell M) {i : Nat}
    (inside : i < A.zCapacity) (w : ω)
    (call : r = if (A.root.ptApi.deref.setAt.deref c.toPointer i w).1 ≠ .success then
        ((A.root.ptApi.deref.setAt.deref c.toPointer i w).1, held,
          (A.root.ptApi.deref.setAt.deref c.toPointer i w).2)
      else ((A.root.ptApi.deref.setAt.deref c.toPointer i w).1, grown,
          (A.root.ptApi.deref.setAt.deref c.toPointer i w).2)) :
    (r.1 = .success ∧ (A.root.ptApi.deref.setAt.deref c.toPointer i w).1 = .success ∧
      r.2 = (grown, (A.root.ptApi.deref.setAt.deref c.toPointer i w).2)) ∨
    (r.1 ≠ .success ∧ (A.root.ptApi.deref.setAt.deref c.toPointer i w).1 ≠ .success ∧
      r.2.1 = held ∧ M.item r.2.2 = M.item w) := by
  have stored := A.item_setAt c i w inside
  by_cases ok : (A.root.ptApi.deref.setAt.deref c.toPointer i w).1 = .success
  · left
    rw [call, if_neg (not_not.2 ok)]
    exact ⟨ok, ok, rfl⟩
  · right
    rw [call, if_pos ok]
    exact ⟨ok, ok, rfl, stored.trans (if_neg ok)⟩

/-- A call of the client on a buffer over the array. To store `x` it writes `x` to a
variable of its own and passes that; to be handed an item it passes a variable to copy
into. -/
inductive BufferCall where
  | put (c : A.Client) (x : α)
  | take (c : A.Client)
  | look

/-- The call without the variables it goes through. -/
def BufferCall.call {A : ItemArray M} : A.BufferCall → Buffered.Call α
  | .put _ x => .put x
  | .take _ => .take
  | .look => .look

/-- A call and its reply as a buffer event: an error is a refusal. -/
def bufferEvent (e : A.BufferCall × Reply α) : Buffered.Event α :=
  Buffered.event e.1.call e.2.view

end ItemArray

end LibJuno.Ds
