import LibJuno.Ds.Array

/-!
# An array in plain memory

Two implementations of the array trait and of the pointer callbacks, with one item per
address. The first carries a script of the outcomes of the callbacks to come, which is how
a run with failures is written down; a callback whose scripted outcome is an error does
nothing. In the second (`plainMemory`) no callback fails.
-/

namespace LibJuno.Ds

open Memory

/-- One item per address, and what the next callbacks return; a callback past the end
of the script succeeds. -/
structure FlatWorld (α : Type) where
  cells : Nat → α
  outcomes : List Status

namespace FlatWorld

variable {α : Type}

/-- The outcome of the next callback. -/
def outcome (w : FlatWorld α) : Status := w.outcomes.headD .success

/-- The world past the next callback, with nothing done. -/
def skip (w : FlatWorld α) : FlatWorld α := { w with outcomes := w.outcomes.tail }

/-- A callback that writes `x` at address `a`. -/
def write (w : FlatWorld α) (a : Nat) (x : α) : Status × FlatWorld α :=
  (w.outcome, if w.outcome = .success then { w.skip with cells := Function.update w.cells a x }
    else w.skip)

theorem write_cells (w : FlatWorld α) (a : Nat) (x : α) :
    (w.write a x).2.cells =
      if (w.write a x).1 = .success then Function.update w.cells a x else w.cells := by
  by_cases ok : w.outcome = .success
  · simp [write, ok]
  · simp [write, ok, skip]

end FlatWorld

variable (α : Type) [Inhabited α]

/-- The pointer API of plain memory: one vtable for every address. -/
def flatApi : PointerApi (FlatWorld α) where
  copy := Ref.to fun tDest tSrc w => w.write tDest.pvAddr (w.cells tSrc.pvAddr)
  reset := Ref.to fun tPointer w => w.write tPointer.pvAddr default

def flatMemory : ItemMemory (FlatWorld α) α where
  apis _ := flatApi α
  ptApi := 1
  item w := w.cells
  store w a x := { w with cells := Function.update w.cells a x }
  verified := rfl
  item_store _ _ _ := rfl
  item_copy _ _ _ _ _ := FlatWorld.write_cells _ _ _

/-- The item at a nonzero address. -/
def flatCell (a : Nat) (nonNull : a ≠ 0) : Cell (flatMemory α) where
  ptApi := 1
  pvAddr := a
  zSize := 1
  zAlignment := 1
  typed := rfl
  nonNull := nonNull
  sized := by decide

/-- The array of `zCapacity` items at the addresses from `base + 1` on. -/
def flatArray (base zCapacity : Nat) : ItemArray (flatMemory α) where
  root :=
    { ptApi := Ref.to
        { setAt := Ref.to fun tItem iIndex w => w.write (base + 1 + iIndex) (w.cells tItem.pvAddr)
          getAt := Ref.to fun iIndex w => (⟨w.outcome, ⟨1, base + 1 + iIndex, 1, 1⟩⟩, w.skip)
          removeAt := Ref.to fun iIndex w => w.write (base + 1 + iIndex) default }
      zCapacity := zCapacity }
  slot i := flatCell α (base + 1 + i) (by omega)
  verified := rfl
  distinct i j _ _ same := by
    simp only [flatCell] at same
    omega
  item_setAt _ _ _ _ := FlatWorld.write_cells _ _ _
  getAt_slot _ _ _ := ⟨rfl, fun _ => rfl⟩
  item_removeAt _ _ _ := ⟨default, FlatWorld.write_cells _ _ _⟩

@[simp] theorem flatArray_zCapacity (base zCapacity : Nat) :
    (flatArray α base zCapacity).zCapacity = zCapacity := rfl

@[simp] theorem flatArray_slot (base zCapacity i : Nat) :
    ((flatArray α base zCapacity).slot i).pvAddr = base + 1 + i := rfl

@[simp] theorem flatCell_pvAddr (a : Nat) (nonNull : a ≠ 0) : (flatCell α a nonNull).pvAddr = a := rfl

/-- The variable of the client at address `k + 1` below the array. -/
def flatClient (base zCapacity k : Nat) (below : k < base) : (flatArray α base zCapacity).Client where
  toCell := flatCell α (k + 1) (by omega)
  outside i _ := by
    simp only [flatArray_slot, flatCell_pvAddr]
    omega

/-- A failure handler that is not set. -/
def noHandler : Handler (flatMemory α) where
  ref := ⟨false, fun _ _ w => w⟩
  quiet _ _ _ := rfl

/-- Two slots in plain memory, behind one variable of the client. -/
abbrev flatPair : ItemArray (flatMemory Nat) := flatArray Nat 1 2

abbrev flatPairVariable : flatPair.Client := flatClient Nat 1 2 0 Nat.one_pos

/-- Plain memory whose callbacks always succeed. -/
def plainMemory : ItemMemory (Nat → α) α where
  apis _ :=
    { copy := Ref.to fun tDest tSrc w => (.success, Function.update w tDest.pvAddr (w tSrc.pvAddr))
      reset := Ref.to fun tPointer w => (.success, Function.update w tPointer.pvAddr default) }
  ptApi := 1
  item w := w
  store := Function.update
  verified := rfl
  item_store _ _ _ := rfl
  item_copy _ _ _ _ _ := rfl

/-- The item at a nonzero address. -/
def plainCell (a : Nat) (nonNull : a ≠ 0) : Cell (plainMemory α) where
  ptApi := 1
  pvAddr := a
  zSize := 1
  zAlignment := 1
  typed := rfl
  nonNull := nonNull
  sized := by decide

/-- The array of `zCapacity` items at the addresses from `base + 1` on. -/
def plainArray (base zCapacity : Nat) : ItemArray (plainMemory α) where
  root :=
    { ptApi := Ref.to
        { setAt := Ref.to fun tItem iIndex w =>
            (.success, Function.update w (base + 1 + iIndex) (w tItem.pvAddr))
          getAt := Ref.to fun iIndex w => (⟨.success, ⟨1, base + 1 + iIndex, 1, 1⟩⟩, w)
          removeAt := Ref.to fun iIndex w =>
            (.success, Function.update w (base + 1 + iIndex) default) }
      zCapacity := zCapacity }
  slot i := plainCell α (base + 1 + i) (by omega)
  verified := rfl
  distinct i j _ _ same := by
    simp only [plainCell] at same
    omega
  item_setAt _ _ _ _ := rfl
  getAt_slot _ _ _ := ⟨rfl, fun _ => rfl⟩
  item_removeAt _ _ _ := ⟨default, rfl⟩

/-- The variable of the client at address `k + 1` below the array. -/
def plainClient (base zCapacity k : Nat) (below : k < base) : (plainArray α base zCapacity).Client where
  toCell := plainCell α (k + 1) (by omega)
  outside i _ := by
    simp only [plainArray, plainCell]
    omega

/-- A failure handler that is not set. -/
def noPlainHandler : Handler (plainMemory α) where
  ref := ⟨false, fun _ _ w => w⟩
  quiet _ _ _ := rfl

end LibJuno.Ds
