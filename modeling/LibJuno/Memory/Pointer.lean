import LibJuno.Status

/-!
# Pointer descriptors and the memory behind them

`JUNO_POINTER_T` and its vtable as `pointer_api.h` has them, and the memory that the
injected callbacks act on. A callback is a function of the world `ω`, which holds
whatever the callbacks keep; `ItemMemory` says how much of it the containers can see:
the item of type `α` stored at each address. `Copy` may fail whenever it likes, and
then leaves every item alone.
-/

namespace LibJuno.Memory

/-- `JUNO_POINTER_T`. Addresses are natural numbers, NULL is 0; `ptApi` is the address
of the vtable. -/
structure Pointer where
  ptApi : Nat
  pvAddr : Nat
  zSize : Nat
  zAlignment : Nat
  deriving DecidableEq, Repr, Inhabited

/-- `JUNO_POINTER_API_T`. -/
structure PointerApi (ω : Type) where
  copy : Ref (Pointer → Pointer → ω → Status × ω)
  reset : Ref (Pointer → ω → Status × ω)

/-- The vtables of a program, by address. -/
abbrev PointerApis (ω : Type) := Nat → PointerApi ω

/-- `JunoMemory_PointerApiVerify`. -/
def pointerApiVerify {ω : Type} (apis : PointerApis ω) (ptPointerApi : Nat) : Status :=
  assertExists (ptPointerApi ≠ 0 && (apis ptPointerApi).copy.nonNull &&
    (apis ptPointerApi).reset.nonNull)

/-- `JunoMemory_PointerVerify`. -/
def pointerVerify {ω : Type} (apis : PointerApis ω) (tPointer : Pointer) : Status :=
  if !(tPointer.ptApi ≠ 0 && tPointer.pvAddr ≠ 0 && tPointer.zSize ≠ 0) then .nullptrError
  else pointerApiVerify apis tPointer.ptApi

theorem pointerVerify_eq_success {ω : Type} {apis : PointerApis ω} {tPointer : Pointer} :
    pointerVerify apis tPointer = .success ↔
      tPointer.ptApi ≠ 0 ∧ tPointer.pvAddr ≠ 0 ∧ tPointer.zSize ≠ 0 ∧
        pointerApiVerify apis tPointer.ptApi = .success := by
  unfold pointerVerify
  by_cases api : tPointer.ptApi = 0 <;> by_cases addr : tPointer.pvAddr = 0 <;>
    by_cases size : tPointer.zSize = 0 <;> simp [api, addr, size]

/-- The memory a container's callbacks act on: `item w a` is the item at address `a`,
`ptApi` the vtable of the item type. The client writes its own variables with `store`. -/
structure ItemMemory (ω α : Type) where
  apis : PointerApis ω
  ptApi : Nat
  item : ω → Nat → α
  store : ω → Nat → α → ω
  verified : pointerApiVerify apis ptApi = .success
  item_store : ∀ w a x, item (store w a x) = Function.update (item w) a x
  item_copy : ∀ (tDest tSrc : Pointer) (w : ω), tDest.ptApi = ptApi → tSrc.ptApi = ptApi →
    let r := (apis ptApi).copy.deref tDest tSrc w
    item r.2 = if r.1 = .success then Function.update (item w) tDest.pvAddr (item w tSrc.pvAddr)
      else item w

/-- A valid descriptor of an item: `JunoMemory_PointerVerify` accepts it. -/
structure Cell {ω α : Type} (M : ItemMemory ω α) extends Pointer where
  typed : ptApi = M.ptApi
  nonNull : pvAddr ≠ 0
  sized : zSize ≠ 0

theorem Cell.verify {ω α : Type} {M : ItemMemory ω α} (c : Cell M) :
    pointerVerify M.apis c.toPointer = .success := by
  have api := M.verified
  have present : M.ptApi ≠ 0 := by
    intro null
    simp [pointerApiVerify, null] at api
  exact pointerVerify_eq_success.2 ⟨c.typed ▸ present, c.nonNull, c.sized, c.typed ▸ api⟩

/-- The vtable behind a valid descriptor is the one of the item type. -/
@[simp] theorem Cell.api {ω α : Type} {M : ItemMemory ω α} (c : Cell M) :
    M.apis c.toPointer.ptApi = M.apis M.ptApi := by
  rw [c.typed]

end LibJuno.Memory
