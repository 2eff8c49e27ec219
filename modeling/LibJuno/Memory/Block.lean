import LibJuno.Lib.Machine
import LibJuno.Lib.Pool
import LibJuno.Memory.Pointer

/-!
# The fixed block allocator

`memory_block.h` and `juno_memory_block.c`. The pool is `zLength` blocks of `zTypeSize`
bytes from `pvMemory` on. Blocks are carved in order; a released block goes on the free
stack `ptMetadata[0..zFreed)`, except the block carved last, whose release moves `zUsed`
back. `ptMetadata` is an array, and an access past its end is undefined behaviour: then
a call has no result (`none`). `Reset` is any function of the descriptor and the world.
-/

namespace LibJuno.Memory

/-- What the root's `ptApi` points to: nothing, this module's `tJunoMemoryBlockApi`, or
another allocator's vtable, with which of its functions are set. -/
inductive AllocApi where
  | null
  | block
  | other (get update put : Bool)
  deriving DecidableEq

/-- `JUNO_MEMORY_ALLOC_BLOCK_T`; of `JUNO_MEMORY_BLOCK_METADATA_T` the `ptFreeMem`. -/
structure AllocBlock (ω : Type) where
  ptApi : AllocApi
  failureHandler : FailureHandler ω
  ptPointerApi : Nat
  pvMemory : Nat
  ptMetadata : Ref (List Nat)
  zTypeSize : Nat
  zAlignment : Nat
  zLength : Nat
  zUsed : Nat
  zFreed : Nat

/-- `JunoMemory_AllocApiVerify`. -/
def allocApiVerify : AllocApi → Status
  | .null => .nullptrError
  | .block => .success
  | .other get update put => assertExists (get && update && put)

section Operations

variable {ω : Type}

/-- `ptMetadata[i].ptFreeMem = pvAddr`. -/
def AllocBlock.setFreeMem (ptMemBlk : AllocBlock ω) (i pvAddr : Nat) : Option (AllocBlock ω) :=
  if i < ptMemBlk.ptMetadata.deref.length then
    some { ptMemBlk with
      ptMetadata := ⟨ptMemBlk.ptMetadata.nonNull, ptMemBlk.ptMetadata.deref.set i pvAddr⟩ }
  else none

/-- The scan of `ptMetadata[i..i+n)` for an address. -/
def alreadyFreed (metadata : List Nat) (pvAddr : Nat) : (i n : Nat) → Option Bool
  | _, 0 => some false
  | i, n + 1 => do
    let ptFreeMem ← metadata[i]?
    if ptFreeMem = pvAddr then some true else alreadyFreed metadata pvAddr (i + 1) n

variable (apis : PointerApis ω)

/-- `JunoMemory_AllocVerify`. -/
def allocVerify (ptAlloc : AllocBlock ω) : Status :=
  if !(ptAlloc.ptApi ≠ .null && ptAlloc.ptPointerApi ≠ 0) then .nullptrError
  else if allocApiVerify ptAlloc.ptApi ≠ .success then allocApiVerify ptAlloc.ptApi
  else pointerApiVerify apis ptAlloc.ptPointerApi

/-- `Verify`. -/
def blockVerify (ptMemBlk : AllocBlock ω) (w : ω) : Status × ω :=
  let tStatus := allocVerify apis ptMemBlk
  if tStatus ≠ .success then (tStatus, w)
  else if !(ptMemBlk.ptApi ≠ .null && ptMemBlk.pvMemory ≠ 0 && ptMemBlk.ptMetadata.nonNull &&
      ptMemBlk.zLength ≠ 0 && ptMemBlk.zTypeSize ≠ 0 && ptMemBlk.zAlignment ≠ 0) then
    (.nullptrError, fail ptMemBlk.failureHandler .nullptrError
      "Module does not have all dependencies" w)
  else if ptMemBlk.zTypeSize ≠ 0 && ptMemBlk.zLength > sizeMax / ptMemBlk.zTypeSize then
    (.err, fail ptMemBlk.failureHandler .err "Invalid memory block configuration: size overflow" w)
  else if ptMemBlk.pvMemory % ptMemBlk.zAlignment ≠ 0 then
    (.err, fail ptMemBlk.failureHandler .err "Invalid memory alignment for block base pointer" w)
  else if ptMemBlk.ptApi ≠ .block then
    (.invalidTypeError, fail ptMemBlk.failureHandler .invalidTypeError "Module has invalid API" w)
  else (.success, w)

/-- `JunoMemory_BlockInit`: the fields are written before anything is verified. -/
def blockInit (ptPointerApi pvMemory : Nat) (ptMetadata : Ref (List Nat))
    (zTypeSize zAlignment zLength : Nat) (pfcnFailureHandler : FailureHandler ω) (w : ω) :
    Status × AllocBlock ω × ω :=
  let ptMemBlk : AllocBlock ω := ⟨.block, pfcnFailureHandler, ptPointerApi, pvMemory, ptMetadata,
    zTypeSize, zAlignment, zLength, 0, 0⟩
  if !(ptPointerApi ≠ 0) || !(pvMemory ≠ 0) || !ptMetadata.nonNull || zTypeSize = 0 || zLength = 0 ||
      zAlignment = 0 then
    (.err, ptMemBlk, fail pfcnFailureHandler .err "Invalid init parameters" w)
  else if zTypeSize ≠ 0 && zLength > sizeMax / zTypeSize then
    (.err, ptMemBlk, fail pfcnFailureHandler .err "Init size overflow" w)
  else if pvMemory % zAlignment ≠ 0 then
    (.err, ptMemBlk, fail pfcnFailureHandler .err "Init memory pointer misaligned" w)
  else
    let (tStatus, w) := blockVerify apis ptMemBlk w
    (tStatus, ptMemBlk, w)

/-- The part of `Juno_MemoryBlkGet` that puts a new block on an empty free stack. -/
def blockCarve (ptMemBlk : AllocBlock ω) : Option (AllocBlock ω) :=
  if ptMemBlk.zFreed = 0 then do
    let zNextFreeBlock := sizeT (ptMemBlk.zUsed * ptMemBlk.zTypeSize)
    let ptMemBlk ← ptMemBlk.setFreeMem ptMemBlk.zFreed (ptMemBlk.pvMemory + zNextFreeBlock)
    some { ptMemBlk with zFreed := ptMemBlk.zFreed + 1, zUsed := ptMemBlk.zUsed + 1 }
  else some ptMemBlk

/-- The part of `Juno_MemoryBlkGet` that hands out the top of the free stack, and pushes
it back if `Reset` fails. -/
def blockHandOut (ptMemBlk : AllocBlock ω) (w : ω) : Option (Result Pointer × AllocBlock ω × ω) := do
  let pvAddr ← ptMemBlk.ptMetadata.deref[ptMemBlk.zFreed - 1]?
  let tOk : Pointer := ⟨ptMemBlk.ptPointerApi, pvAddr, ptMemBlk.zTypeSize, ptMemBlk.zAlignment⟩
  let ptMemBlk := { ptMemBlk with zFreed := ptMemBlk.zFreed - 1 }
  let ptMemBlk ← ptMemBlk.setFreeMem ptMemBlk.zFreed 0
  let tStatus := pointerVerify apis tOk
  if tStatus ≠ .success then some (⟨tStatus, tOk⟩, ptMemBlk, w)
  else
    let (tStatus, w) := (apis tOk.ptApi).reset.deref tOk w
    if tStatus ≠ .success then do
      let ptMemBlk := { ptMemBlk with zFreed := ptMemBlk.zFreed + 1 }
      let ptMemBlk ← ptMemBlk.setFreeMem (ptMemBlk.zFreed - 1) pvAddr
      some (⟨tStatus, { tOk with pvAddr := 0 }⟩, ptMemBlk, w)
    else some (⟨tStatus, tOk⟩, ptMemBlk, w)

/-- `Juno_MemoryBlkGet`. -/
def memoryBlkGet (ptMemBlk : AllocBlock ω) (zSize : Nat) (w : ω) :
    Option (Result Pointer × AllocBlock ω × ω) :=
  let (tStatus, w) := blockVerify apis ptMemBlk w
  if tStatus ≠ .success then some (⟨tStatus, default⟩, ptMemBlk, w)
  else if zSize = 0 then
    some (⟨.invalidSizeError, default⟩, ptMemBlk, fail ptMemBlk.failureHandler .invalidSizeError
      "Attempted to allocate memory with size 0" w)
  else if zSize > ptMemBlk.zTypeSize then
    some (⟨.memallocError, default⟩, ptMemBlk, fail ptMemBlk.failureHandler .memallocError
      "Invalid size for block alloc" w)
  else if !(ptMemBlk.zUsed < ptMemBlk.zLength || ptMemBlk.zFreed ≠ 0) then
    some (⟨.memallocError, default⟩, ptMemBlk, fail ptMemBlk.failureHandler .memallocError
      "Failed to allocate block memory. Memory is full" w)
  else if ptMemBlk.zUsed > ptMemBlk.zLength || ptMemBlk.zFreed > ptMemBlk.zLength then
    some (⟨.err, default⟩, ptMemBlk, fail ptMemBlk.failureHandler .err
      "Corrupt allocator counters" w)
  else do
    let ptMemBlk ← blockCarve ptMemBlk
    blockHandOut apis ptMemBlk w

/-- `Juno_MemoryBlkUpdate`. The descriptor is written without a check that there is one: a
write through NULL is undefined behaviour. -/
def memoryBlkUpdate (ptMemBlk : AllocBlock ω) (ptMemory : Ref Pointer) (zNewSize : Nat) (w : ω) :
    Option (Status × AllocBlock ω × Pointer × ω) :=
  let (tStatus, w) := blockVerify apis ptMemBlk w
  if tStatus ≠ .success then some (tStatus, ptMemBlk, ptMemory.deref, w)
  else if zNewSize > ptMemBlk.zTypeSize then
    some (.memallocError, ptMemBlk, ptMemory.deref, fail ptMemBlk.failureHandler .memallocError
      "Failed to update memory, size is too big" w)
  else if ptMemory.nonNull then some (tStatus, ptMemBlk, { ptMemory.deref with zSize := zNewSize }, w)
  else none

/-- The caller's descriptor once its block is released. -/
def Pointer.cleared (tMemory : Pointer) : Pointer :=
  { tMemory with pvAddr := 0, zSize := 0, zAlignment := 0 }

/-- The part of `Juno_MemoryBlkPut` behind the checks: `Reset`, then the block carved last
moves `zUsed` back and any other address goes on the free stack. The descriptor has been
cleared by then, and is restored on failure. -/
def blockRelease (ptMemBlk : AllocBlock ω) (tMemory : Pointer) (w : ω) :
    Option (Status × AllocBlock ω × Pointer × ω) := do
  let (tStatus, w) := (apis tMemory.ptApi).reset.deref tMemory w
  if tStatus ≠ .success then some (tStatus, ptMemBlk, tMemory, w)
  else if ptMemBlk.pvMemory + sizeT ((ptMemBlk.zUsed - 1) * ptMemBlk.zTypeSize) = tMemory.pvAddr then
    some (tStatus, { ptMemBlk with zUsed := ptMemBlk.zUsed - 1 }, tMemory.cleared, w)
  else if ptMemBlk.zFreed ≥ ptMemBlk.zLength then
    some (.memfreeError, ptMemBlk, tMemory, fail ptMemBlk.failureHandler .memfreeError
      "Free list overflow" w)
  else do
    let ptMemBlk ← ptMemBlk.setFreeMem ptMemBlk.zFreed tMemory.pvAddr
    some (tStatus, { ptMemBlk with zFreed := ptMemBlk.zFreed + 1 }, tMemory.cleared, w)

/-- `Juno_MemoryBlkPut`; the descriptor `ptMemory` points to is returned as the call leaves it. -/
def memoryBlkPut (ptMemBlk : AllocBlock ω) (ptMemory : Ref Pointer) (w : ω) :
    Option (Status × AllocBlock ω × Pointer × ω) :=
  let tMemory := ptMemory.deref
  let (tStatus, w) := blockVerify apis ptMemBlk w
  if tStatus ≠ .success then some (tStatus, ptMemBlk, tMemory, w)
  else if !ptMemory.nonNull then some (.nullptrError, ptMemBlk, tMemory, w)
  else
    let tStatus := pointerVerify apis tMemory
    if tStatus ≠ .success then some (tStatus, ptMemBlk, tMemory, w)
    else if tMemory.pvAddr = 0 then some (.nullptrError, ptMemBlk, tMemory, w)
    else if tMemory.pvAddr % ptMemBlk.zAlignment ≠ 0 then
      some (.memfreeError, ptMemBlk, tMemory, fail ptMemBlk.failureHandler .memfreeError
        "Failed to free block memory. Invalid Address with Unaligned Memory" w)
    else if tMemory.pvAddr < ptMemBlk.pvMemory ||
        ptMemBlk.pvMemory + sizeT (ptMemBlk.zTypeSize * ptMemBlk.zLength) ≤ tMemory.pvAddr ||
        ptMemBlk.zUsed = 0 then
      some (.memfreeError, ptMemBlk, tMemory, fail ptMemBlk.failureHandler .memfreeError
        "Failed to free block memory. Invalid Address" w)
    else do
      let freed ← alreadyFreed ptMemBlk.ptMetadata.deref tMemory.pvAddr 0 ptMemBlk.zFreed
      if freed then
        some (.memfreeError, ptMemBlk, tMemory, fail ptMemBlk.failureHandler .memfreeError
          "Failed to free block memory. Memory already freed" w)
      else blockRelease apis ptMemBlk tMemory w

end Operations

/-! ## What one call does -/

variable {ω : Type} {apis : PointerApis ω} {b b' : AllocBlock ω}

/-- What `Verify` checks of an allocator. -/
structure BlockConfig (apis : PointerApis ω) (b : AllocBlock ω) : Prop where
  api : b.ptApi = .block
  pointerApi : b.ptPointerApi ≠ 0 ∧ pointerApiVerify apis b.ptPointerApi = .success
  memory : b.pvMemory ≠ 0
  metadata : b.ptMetadata.nonNull = true
  length : b.zLength ≠ 0
  typeSize : b.zTypeSize ≠ 0
  alignment : b.zAlignment ≠ 0
  size : b.zLength ≤ sizeMax / b.zTypeSize
  aligned : b.pvMemory % b.zAlignment = 0

theorem blockVerify_eq (h : BlockConfig apis b) (w : ω) : blockVerify apis b w = (.success, w) := by
  have alloc : allocVerify apis b = .success := by
    simp [allocVerify, allocApiVerify, h.api, h.pointerApi]
  have size := h.size
  simp [blockVerify, alloc, h.api, h.memory, h.metadata, h.length, h.typeSize, h.alignment, h.aligned,
    Nat.not_lt.2 size]

theorem blockVerify_config {w : ω} (accepted : (blockVerify apis b w).1 = .success) :
    BlockConfig apis b := by
  simp only [blockVerify] at accepted
  split_ifs at accepted with alloc present size aligned api <;> try simp at accepted
  · exact absurd accepted alloc
  · simp only [Bool.not_eq_true, Bool.not_eq_false', Bool.and_eq_true, decide_eq_true_eq,
      not_not] at present size aligned api
    obtain ⟨⟨⟨⟨⟨_, memory⟩, metadata⟩, length⟩, typeSize⟩, alignment⟩ := present
    have pointerApi : b.ptPointerApi ≠ 0 ∧ pointerApiVerify apis b.ptPointerApi = .success := by
      rcases eq_or_ne b.ptPointerApi 0 with null | pointerApi
      · simp [allocVerify, null] at alloc
      · exact ⟨pointerApi, by simpa [allocVerify, allocApiVerify, api, pointerApi] using alloc⟩
    exact ⟨api, pointerApi, memory, metadata, length, typeSize, alignment,
      Nat.not_lt.1 fun wraps => size ⟨typeSize, wraps⟩, aligned⟩

/-- An accepted allocator is configured, and its pool is whole. -/
theorem blockInit_config {ptPointerApi pvMemory zTypeSize zAlignment zLength : Nat}
    {ptMetadata : Ref (List Nat)} {handler : FailureHandler ω} {w : ω}
    (accepted : (blockInit apis ptPointerApi pvMemory ptMetadata zTypeSize zAlignment zLength
      handler w).1 = .success) :
    BlockConfig apis (blockInit apis ptPointerApi pvMemory ptMetadata zTypeSize zAlignment zLength
      handler w).2.1 := by
  simp only [blockInit] at accepted ⊢
  split_ifs at accepted ⊢
  exact blockVerify_config accepted

/-- The address of the block of index `k`. -/
def AllocBlock.block (b : AllocBlock ω) (k : Nat) : Nat := b.pvMemory + k * b.zTypeSize

/-- The free stack, its top last. -/
def AllocBlock.freeStack (b : AllocBlock ω) : List Nat := b.ptMetadata.deref.take b.zFreed

theorem BlockConfig.block_injective (h : BlockConfig apis b) : Function.Injective b.block := by
  intro k k' same
  have products : k * b.zTypeSize = k' * b.zTypeSize := Nat.add_left_cancel same
  exact Nat.eq_of_mul_eq_mul_right (Nat.pos_of_ne_zero h.typeSize) products

theorem BlockConfig.block_ne_zero (h : BlockConfig apis b) (k : Nat) : b.block k ≠ 0 := by
  have memory := h.memory
  simp only [AllocBlock.block]
  omega

/-- The offsets the code computes are those of the pool: nothing wraps. -/
theorem BlockConfig.offset (h : BlockConfig apis b) {k : Nat} (inside : k ≤ b.zLength) :
    sizeT (k * b.zTypeSize) = k * b.zTypeSize := by
  apply sizeT_of_le
  calc k * b.zTypeSize ≤ b.zLength * b.zTypeSize := Nat.mul_le_mul_right _ inside
    _ ≤ sizeMax := (Nat.le_div_iff_mul_le (Nat.pos_of_ne_zero h.typeSize)).1 h.size

/-- The allocator a call finds: configured, its counters within the pool, and its free
stack without NULL. -/
structure BlockReady (apis : PointerApis ω) (b : AllocBlock ω) : Prop where
  config : BlockConfig apis b
  metadata : b.ptMetadata.deref.length = b.zLength
  used : b.zUsed ≤ b.zLength
  freed : b.zFreed ≤ b.zLength
  nonNull : ∀ a ∈ b.freeStack, a ≠ 0

theorem BlockReady.freeStack_length (h : BlockReady apis b) : b.freeStack.length = b.zFreed := by
  have room := h.freed
  rw [← h.metadata] at room
  simp [AllocBlock.freeStack, room]

/-- `b'` is `b` with `carved` blocks carved and `free` on its free stack. -/
inductive Moved (b : AllocBlock ω) (carved : Nat) (free : List Nat) : AllocBlock ω → Prop where
  | mk (metadata : List Nat) (size : metadata.length = b.ptMetadata.deref.length)
      (stack : metadata.take free.length = free) :
      Moved b carved free { b with
        ptMetadata := ⟨b.ptMetadata.nonNull, metadata⟩, zUsed := carved, zFreed := free.length }

/-- The same memory, divided in the same way. -/
def AllocBlock.SamePool (b b' : AllocBlock ω) : Prop :=
  b' = { b with ptMetadata := b'.ptMetadata, zUsed := b'.zUsed, zFreed := b'.zFreed }

theorem Moved.samePool {carved : Nat} {free : List Nat} (moved : Moved b carved free b') :
    b.SamePool b' := by
  cases moved
  rfl

theorem Moved.freeStack {carved : Nat} {free : List Nat} (moved : Moved b carved free b') :
    b'.freeStack = free ∧ b'.zFreed = free.length ∧ b'.zUsed = carved := by
  cases moved with
  | mk metadata size stack => exact ⟨stack, rfl, rfl⟩

theorem BlockConfig.of_moved {carved : Nat} {free : List Nat} (moved : Moved b carved free b')
    (h : BlockConfig apis b) : BlockConfig apis b' := by
  cases moved
  exact ⟨h.api, h.pointerApi, h.memory, h.metadata, h.length, h.typeSize, h.alignment, h.size,
    h.aligned⟩

/-- A move that stays within the pool leaves an allocator ready for the next call. -/
theorem BlockReady.of_moved {carved : Nat} {free : List Nat} (h : BlockReady apis b)
    (moved : Moved b carved free b') (used : carved ≤ b.zLength) (freed : free.length ≤ b.zLength)
    (nonNull : ∀ a ∈ free, a ≠ 0) : BlockReady apis b' := by
  have config := h.config.of_moved moved
  have stack := moved.freeStack
  cases moved with
  | mk metadata size _ => exact ⟨config, size.trans h.metadata, used, freed, by rwa [stack.1]⟩

theorem take_set_snoc {α : Type} (l : List α) (x : α) {n : Nat} (inside : n < l.length) :
    (l.set n x).take (n + 1) = l.take n ++ [x] := by
  have inside' : n < (l.set n x).length := by simpa using inside
  rw [List.take_succ_eq_append_getElem inside', List.getElem_set_self, List.take_set_of_le (Nat.le_refl n)]

/-- The top of a free stack that is not empty. -/
theorem BlockReady.top (h : BlockReady apis b) (some_ : 0 < b.zFreed) :
    ∃ front a, b.freeStack = front ++ [a] ∧ b.ptMetadata.deref.take (b.zFreed - 1) = front ∧
      front.length = b.zFreed - 1 ∧ b.ptMetadata.deref[b.zFreed - 1]? = some a ∧ a ≠ 0 := by
  have room := h.freed
  have size := h.metadata
  have inside : b.zFreed - 1 < b.ptMetadata.deref.length := by omega
  have stack : b.freeStack = b.ptMetadata.deref.take (b.zFreed - 1) ++
      [b.ptMetadata.deref[b.zFreed - 1]] := by
    rw [← List.take_succ_eq_append_getElem inside, AllocBlock.freeStack]
    congr 1
    omega
  refine ⟨_, _, stack, rfl, ?_, List.getElem?_eq_getElem inside, ?_⟩
  · rw [List.length_take]
    omega
  · apply h.nonNull
    rw [stack]
    exact List.mem_append_right _ (List.mem_singleton.2 rfl)

/-- Only `zUsed` is written. -/
theorem BlockReady.recount (h : BlockReady apis b) (carved : Nat) :
    Moved b carved b.freeStack { b with zUsed := carved } := by
  have stay : Moved b carved b.freeStack { b with
      ptMetadata := ⟨b.ptMetadata.nonNull, b.ptMetadata.deref⟩, zUsed := carved,
      zFreed := b.freeStack.length } :=
    .mk _ rfl (by rw [h.freeStack_length, AllocBlock.freeStack])
  rwa [h.freeStack_length] at stay

theorem Moved.refl (h : BlockReady apis b) : Moved b b.zUsed b.freeStack b := by
  exact h.recount b.zUsed

theorem Moved.trans {b'' : AllocBlock ω} {carved carved' : Nat} {free free' : List Nat}
    (first : Moved b carved free b') (second : Moved b' carved' free' b'') :
    Moved b carved' free' b'' := by
  cases first with
  | mk metadata size _ =>
    cases second with
    | mk metadata' size' stack' => exact .mk metadata' (size'.trans size) stack'

/-- What is carved, and what is free, when a Get is about to hand out a block: on an empty
free stack a new block is put first. -/
def AllocBlock.ready (b : AllocBlock ω) : Nat × List Nat :=
  if b.zFreed = 0 then (b.zUsed + 1, [b.block b.zUsed]) else (b.zUsed, b.freeStack)

/-- The descriptor a Get takes off the free stack. -/
def AllocBlock.next (b : AllocBlock ω) : Pointer :=
  ⟨b.ptPointerApi, b.ready.2.getLastD 0, b.zTypeSize, b.zAlignment⟩

/-- A Get of this size finds a block. -/
def AllocBlock.Serves (b : AllocBlock ω) (zSize : Nat) : Prop :=
  0 < zSize ∧ zSize ≤ b.zTypeSize ∧ (b.zUsed < b.zLength ∨ b.zFreed ≠ 0)

theorem blockCarve_spec (h : BlockReady apis b) (room : b.zUsed < b.zLength ∨ b.zFreed ≠ 0) :
    ∃ b', blockCarve b = some b' ∧ Moved b b.ready.1 b.ready.2 b' ∧ BlockReady apis b' ∧
      0 < b'.zFreed := by
  have used := h.used
  have length := h.config.length
  rcases Nat.eq_zero_or_pos b.zFreed with empty | some_
  · have offset := h.config.offset used
    have inside : 0 < b.ptMetadata.deref.length := by rw [h.metadata]; omega
    have ready : b.ready = (b.zUsed + 1, [b.block b.zUsed]) := if_pos empty
    have moved : Moved b (b.zUsed + 1) [b.block b.zUsed]
        { b with ptMetadata := ⟨b.ptMetadata.nonNull, b.ptMetadata.deref.set 0 (b.block b.zUsed)⟩,
                 zUsed := b.zUsed + 1, zFreed := 1 } :=
      .mk _ (by simp) (by rw [List.length_singleton, take_set_snoc _ _ inside]; rfl)
    refine ⟨_, ?_, ready ▸ moved, h.of_moved moved (by omega) (by simp; omega) ?_, Nat.one_pos⟩
    · simp [blockCarve, AllocBlock.setFreeMem, empty, offset, inside, AllocBlock.block]
    · intro a member
      rw [List.mem_singleton.1 member]
      exact h.config.block_ne_zero _
  · have ready : b.ready = (b.zUsed, b.freeStack) := if_neg (by omega)
    refine ⟨b, ?_, ready ▸ Moved.refl h, h, some_⟩
    rw [blockCarve, if_neg (by omega)]

/-- What `blockHandOut` does with the top of the free stack: it is gone from the stack
if `Reset` succeeds, and stays there otherwise. -/
theorem blockHandOut_spec (h : BlockReady apis b) (some_ : 0 < b.zFreed) (w : ω) :
    let tOk : Pointer := ⟨b.ptPointerApi, b.freeStack.getLastD 0, b.zTypeSize, b.zAlignment⟩
    let reset := (apis b.ptPointerApi).reset.deref tOk w
    ∃ r, blockHandOut apis b w = some r ∧
      ((reset.1 = .success ∧ r.1 = ⟨.success, tOk⟩ ∧ Moved b b.zUsed b.freeStack.dropLast r.2.1) ∨
        (reset.1 ≠ .success ∧ r.1.tStatus ≠ .success ∧ Moved b b.zUsed b.freeStack r.2.1)) := by
  intro tOk reset
  have room := h.freed
  have size := h.metadata
  have inside : b.zFreed - 1 < b.ptMetadata.deref.length := by omega
  obtain ⟨front, a, stack, below, count, found, nonNull⟩ := h.top some_
  have valid : pointerVerify apis ⟨b.ptPointerApi, a, b.zTypeSize, b.zAlignment⟩ = .success :=
    pointerVerify_eq_success.2 ⟨h.config.pointerApi.1, nonNull, h.config.typeSize, h.config.pointerApi.2⟩
  have again : b.zFreed - 1 + 1 = b.zFreed := by omega
  simp only [tOk, reset, stack, List.getLastD_concat, List.dropLast_concat]
  rcases handed : (apis b.ptPointerApi).reset.deref ⟨b.ptPointerApi, a, b.zTypeSize, b.zAlignment⟩ w
    with ⟨tStatus, w'⟩
  rcases eq_or_ne tStatus .success with ok | failed
  · have taken : Moved b b.zUsed front { b with
        ptMetadata := ⟨b.ptMetadata.nonNull, b.ptMetadata.deref.set (b.zFreed - 1) 0⟩,
        zUsed := b.zUsed, zFreed := front.length } :=
      .mk _ (by simp) (by rw [count, List.take_set_of_le (Nat.le_refl _), below])
    refine ⟨(_, _, w'), ?_, .inl ⟨ok, rfl, taken⟩⟩
    rw [blockHandOut, found]
    simp [AllocBlock.setFreeMem, inside, valid, handed, ok, count]
  · have back : Moved b b.zUsed (front ++ [a]) { b with
        ptMetadata := ⟨b.ptMetadata.nonNull,
          (b.ptMetadata.deref.set (b.zFreed - 1) 0).set (b.zFreed - 1) a⟩,
        zUsed := b.zUsed, zFreed := (front ++ [a]).length } := by
      refine .mk _ (by simp) ?_
      rw [List.length_append, count, List.length_singleton, take_set_snoc _ _ (by simpa using inside),
        List.take_set_of_le (Nat.le_refl _), below]
    refine ⟨(⟨tStatus, ⟨b.ptPointerApi, 0, b.zTypeSize, b.zAlignment⟩⟩, _, w'), ?_,
      .inr ⟨failed, failed, back⟩⟩
    rw [blockHandOut, found]
    simp [AllocBlock.setFreeMem, inside, valid, handed, failed, count]

/-- What a Get does. -/
inductive GetOutcome (apis : PointerApis ω) (b : AllocBlock ω) (zSize : Nat) (w : ω) :
    Result Pointer × AllocBlock ω × ω → Prop where
  | refused {r : Result Pointer} {w' : ω} (short : ¬b.Serves zSize) (failed : r.tStatus ≠ .success) :
      GetOutcome apis b zSize w (r, b, w')
  | handed {b' : AllocBlock ω} {w' : ω} (serves : b.Serves zSize)
      (reset : ((apis b.ptPointerApi).reset.deref b.next w).1 = .success)
      (moved : Moved b b.ready.1 b.ready.2.dropLast b') :
      GetOutcome apis b zSize w (⟨.success, b.next⟩, b', w')
  | returned {r : Result Pointer} {b' : AllocBlock ω} {w' : ω} (serves : b.Serves zSize)
      (reset : ((apis b.ptPointerApi).reset.deref b.next w).1 ≠ .success) (failed : r.tStatus ≠ .success)
      (moved : Moved b b.ready.1 b.ready.2 b') :
      GetOutcome apis b zSize w (r, b', w')

theorem memoryBlkGet_spec (h : BlockReady apis b) (zSize : Nat) (w : ω) :
    ∃ r, memoryBlkGet apis b zSize w = some r ∧ GetOutcome apis b zSize w r := by
  have used := h.used
  have freed := h.freed
  simp only [memoryBlkGet, blockVerify_eq h.config, ne_eq, not_true_eq_false, if_false]
  rcases Nat.eq_zero_or_pos zSize with zero | positive
  · rw [if_pos zero]
    exact ⟨_, rfl, .refused (fun serves => by have := serves.1; omega) (by simp)⟩
  rw [if_neg (by omega)]
  rcases Nat.lt_or_ge b.zTypeSize zSize with large | fits
  · rw [if_pos large]
    exact ⟨_, rfl, .refused (fun serves => by have := serves.2.1; omega) (by simp)⟩
  rw [if_neg (by omega)]
  by_cases room : b.zUsed < b.zLength ∨ b.zFreed ≠ 0
  swap
  · rw [if_pos (by simpa using room)]
    exact ⟨_, rfl, .refused (fun serves => room serves.2.2) (by simp)⟩
  rw [if_neg (by simp; omega), if_neg (by simp; omega)]
  obtain ⟨b', carved, moved, ready, some_⟩ := blockCarve_spec h room
  obtain ⟨r, handed, outcome⟩ := blockHandOut_spec ready some_ w
  obtain ⟨stack, _, count⟩ := moved.freeStack
  rw [stack, count] at outcome
  have serves : b.Serves zSize := ⟨positive, fits, room⟩
  refine ⟨r, by rw [carved]; exact handed, ?_⟩
  obtain ⟨result, b'', w'⟩ := r
  have next : b.next = ⟨b'.ptPointerApi, b.ready.2.getLastD 0, b'.zTypeSize, b'.zAlignment⟩ := by
    cases moved
    rfl
  have api : b'.ptPointerApi = b.ptPointerApi := by
    cases moved
    rfl
  rw [← next, api] at outcome
  rcases outcome with ⟨reset, got, taken⟩ | ⟨reset, failed, back⟩
  · cases got
    exact .handed serves reset (moved.trans taken)
  · exact .returned serves reset failed (moved.trans back)

theorem alreadyFreed_eq (metadata : List Nat) (pvAddr i n : Nat) (inside : i + n ≤ metadata.length) :
    alreadyFreed metadata pvAddr i n = some (decide (pvAddr ∈ (metadata.drop i).take n)) := by
  induction n generalizing i with
  | zero => simp [alreadyFreed]
  | succ n ih =>
    have here : i < metadata.length := by omega
    rw [alreadyFreed, List.getElem?_eq_getElem here, List.drop_eq_getElem_cons here, List.take_succ_cons]
    rcases eq_or_ne metadata[i] pvAddr with same | other
    · simp [same]
    · simp [other, other.symm, ih (i + 1) (by omega)]

/-- The scan of the free stack finds what is on it. -/
theorem BlockReady.scan (h : BlockReady apis b) (pvAddr : Nat) :
    alreadyFreed b.ptMetadata.deref pvAddr 0 b.zFreed = some (decide (pvAddr ∈ b.freeStack)) := by
  have room := h.freed
  rw [alreadyFreed_eq _ _ _ _ (by rw [h.metadata]; omega), List.drop_zero, AllocBlock.freeStack]

/-- The address lies outside the pool, or no block is in use. -/
def AllocBlock.Outside (b : AllocBlock ω) (pvAddr : Nat) : Prop :=
  pvAddr < b.pvMemory ∨ b.pvMemory + b.zTypeSize * b.zLength ≤ pvAddr ∨ b.zUsed = 0

/-- What a Put refuses. -/
def PutRefuses (apis : PointerApis ω) (b : AllocBlock ω) (tMemory : Pointer) (w : ω) : Prop :=
  pointerVerify apis tMemory ≠ .success ∨ tMemory.pvAddr % b.zAlignment ≠ 0 ∨
    b.Outside tMemory.pvAddr ∨ tMemory.pvAddr ∈ b.freeStack ∨
    ((apis tMemory.ptApi).reset.deref tMemory w).1 ≠ .success ∨
    (tMemory.pvAddr ≠ b.block (b.zUsed - 1) ∧ b.zLength ≤ b.zFreed)

/-- What a Put does to the allocator and to the caller's descriptor. -/
inductive PutOutcome (apis : PointerApis ω) (b : AllocBlock ω) (tMemory : Pointer) (w : ω) :
    Status × AllocBlock ω × Pointer × ω → Prop where
  | refused {tStatus : Status} {w' : ω} (refuses : PutRefuses apis b tMemory w)
      (failed : tStatus ≠ .success) : PutOutcome apis b tMemory w (tStatus, b, tMemory, w')
  | shrunk {b' : AllocBlock ω} {w' : ω} (taken : ¬PutRefuses apis b tMemory w)
      (last : tMemory.pvAddr = b.block (b.zUsed - 1)) (moved : Moved b (b.zUsed - 1) b.freeStack b') :
      PutOutcome apis b tMemory w (.success, b', tMemory.cleared, w')
  | shelved {b' : AllocBlock ω} {w' : ω} (taken : ¬PutRefuses apis b tMemory w)
      (other : tMemory.pvAddr ≠ b.block (b.zUsed - 1))
      (moved : Moved b b.zUsed (b.freeStack ++ [tMemory.pvAddr]) b') :
      PutOutcome apis b tMemory w (.success, b', tMemory.cleared, w')

theorem blockRelease_spec (h : BlockReady apis b) {tMemory : Pointer} {w : ω}
    (checked : PutRefuses apis b tMemory w ↔ ((apis tMemory.ptApi).reset.deref tMemory w).1 ≠ .success ∨
      (tMemory.pvAddr ≠ b.block (b.zUsed - 1) ∧ b.zLength ≤ b.zFreed)) :
    ∃ r, blockRelease apis b tMemory w = some r ∧ PutOutcome apis b tMemory w r := by
  have used := h.used
  have size := h.metadata
  have address : b.pvMemory + sizeT ((b.zUsed - 1) * b.zTypeSize) = b.block (b.zUsed - 1) := by
    rw [h.config.offset (by omega)]
    rfl
  rcases zeroed : (apis tMemory.ptApi).reset.deref tMemory w with ⟨tStatus, w'⟩
  rw [zeroed] at checked
  rcases ne_or_eq tStatus .success with failed | rfl
  · refine ⟨(tStatus, b, tMemory, w'), ?_, .refused (checked.2 (.inl failed)) failed⟩
    simp [blockRelease, zeroed, failed]
  simp only [blockRelease, zeroed, ne_eq, not_true_eq_false, if_false, address]
  rcases eq_or_ne tMemory.pvAddr (b.block (b.zUsed - 1)) with last | other
  · have taken : ¬PutRefuses apis b tMemory w := by
      rw [checked]
      simp [last]
    rw [if_pos last.symm]
    exact ⟨_, rfl, .shrunk taken last (h.recount _)⟩
  rw [if_neg (Ne.symm other)]
  rcases Nat.lt_or_ge b.zFreed b.zLength with room | full
  · have taken : ¬PutRefuses apis b tMemory w := by
      rw [checked]
      simp [other, room]
    have inside : b.zFreed < b.ptMetadata.deref.length := by omega
    have pushed : Moved b b.zUsed (b.freeStack ++ [tMemory.pvAddr]) { b with
        ptMetadata := ⟨b.ptMetadata.nonNull, b.ptMetadata.deref.set b.zFreed tMemory.pvAddr⟩,
        zUsed := b.zUsed, zFreed := (b.freeStack ++ [tMemory.pvAddr]).length } := by
      refine .mk _ (by simp) ?_
      rw [List.length_append, h.freeStack_length, List.length_singleton, take_set_snoc _ _ inside]
      rfl
    refine ⟨(.success, _, _, w'), ?_, .shelved taken other pushed⟩
    simp [AllocBlock.setFreeMem, Nat.not_le.2 room, inside, h.freeStack_length]
  · rw [if_pos full]
    exact ⟨_, rfl, .refused (checked.2 (.inr ⟨other, full⟩)) (by simp)⟩

theorem memoryBlkPut_spec (h : BlockReady apis b) (tMemory : Pointer) (w : ω) :
    ∃ r, memoryBlkPut apis b (Ref.to tMemory) w = some r ∧ PutOutcome apis b tMemory w r := by
  have offset : sizeT (b.zTypeSize * b.zLength) = b.zTypeSize * b.zLength := by
    rw [Nat.mul_comm]
    exact h.config.offset (Nat.le_refl _)
  unfold memoryBlkPut Ref.to
  simp only [blockVerify_eq h.config, ne_eq, not_true_eq_false, Bool.not_true, Bool.false_eq_true,
    if_false, offset, h.scan]
  rcases ne_or_eq (pointerVerify apis tMemory) .success with invalid | valid
  · rw [if_pos invalid]
    exact ⟨_, rfl, .refused (.inl invalid) invalid⟩
  rw [if_neg (by simp [valid]), if_neg (pointerVerify_eq_success.1 valid).2.1]
  rcases ne_or_eq (tMemory.pvAddr % b.zAlignment) 0 with odd | aligned
  · rw [if_pos odd]
    exact ⟨_, rfl, .refused (.inr (.inl odd)) (by simp)⟩
  rw [if_neg (by simp [aligned])]
  by_cases outside : b.Outside tMemory.pvAddr
  · rw [if_pos (by simpa [AllocBlock.Outside, or_assoc] using outside)]
    exact ⟨_, rfl, .refused (.inr (.inr (.inl outside))) (by simp)⟩
  rw [if_neg (by simpa [AllocBlock.Outside, or_assoc] using outside)]
  by_cases stacked : tMemory.pvAddr ∈ b.freeStack
  · refine ⟨(.memfreeError, b, tMemory, fail b.failureHandler .memfreeError
      "Failed to free block memory. Memory already freed" w), ?_,
      .refused (.inr (.inr (.inr (.inl stacked)))) (by simp)⟩
    simp [stacked]
  · have checked : PutRefuses apis b tMemory w ↔
        ((apis tMemory.ptApi).reset.deref tMemory w).1 ≠ .success ∨
          (tMemory.pvAddr ≠ b.block (b.zUsed - 1) ∧ b.zLength ≤ b.zFreed) := by
      simp [PutRefuses, valid, aligned, outside, stacked]
    obtain ⟨r, released, outcome⟩ := blockRelease_spec h checked
    exact ⟨r, by simpa [stacked] using released, outcome⟩

/-! ## Runs of Get and Put -/

/-- The allocator, the descriptors it has handed out and not taken back, and the world. -/
structure PoolState (ω : Type) where
  blk : AllocBlock ω
  outstanding : List Pointer
  world : ω

inductive PoolCall where
  | get (zSize : Nat)
  | put (tMemory : Pointer)

inductive PoolReply where
  | got (tResult : Result Pointer)
  | returned (tStatus : Status) (tMemory : Pointer)

/-- One call. A successful Get hands its block out, a successful Put takes one descriptor
of the address back. -/
def poolMachine (apis : PointerApis ω) : Machine (PoolState ω) PoolCall (Option PoolReply) where
  step s call :=
    match call with
    | .get zSize =>
      match memoryBlkGet apis s.blk zSize s.world with
      | none => (none, s)
      | some (tResult, blk, w) =>
        (some (.got tResult),
          ⟨blk, if tResult.tStatus = .success then tResult.tOk :: s.outstanding else s.outstanding, w⟩)
    | .put tMemory =>
      match memoryBlkPut apis s.blk (Ref.to tMemory) s.world with
      | none => (none, s)
      | some (tStatus, blk, tMemory', w) =>
        (some (.returned tStatus tMemory'),
          ⟨blk, if tStatus = .success then s.outstanding.eraseP (·.pvAddr = tMemory.pvAddr)
            else s.outstanding, w⟩)

/-- The allocator of `blockInit`, before the first call. -/
def poolStart (apis : PointerApis ω) (ptPointerApi pvMemory : Nat) (metadata : List Nat)
    (zTypeSize zAlignment zLength : Nat) (handler : FailureHandler ω) (w : ω) : PoolState ω :=
  let init := blockInit apis ptPointerApi pvMemory (Ref.to metadata) zTypeSize zAlignment zLength handler w
  ⟨init.2.1, [], init.2.2⟩

/-- The pool `b₀` is divided between the clients, the free stack and the memory not carved. -/
structure PoolInv (apis : PointerApis ω) (b₀ : AllocBlock ω) (s : PoolState ω) : Prop where
  ready : BlockReady apis s.blk
  same : b₀.SamePool s.blk
  pool : Pool s.blk.block s.blk.zUsed (s.outstanding.map (·.pvAddr)) s.blk.freeStack
  whole : ∀ p ∈ s.outstanding, p.zSize = s.blk.zTypeSize

theorem AllocBlock.SamePool.trans {b₀ : AllocBlock ω} (first : b₀.SamePool b) (second : b.SamePool b') :
    b₀.SamePool b' := by
  rw [AllocBlock.SamePool, second, first]

/-- No descriptor is out. -/
theorem poolStart_inv {ptPointerApi pvMemory zTypeSize zAlignment zLength : Nat} {metadata : List Nat}
    {handler : FailureHandler ω} {w : ω} (storage : metadata.length = zLength)
    (accepted : (blockInit apis ptPointerApi pvMemory (Ref.to metadata) zTypeSize zAlignment zLength
      handler w).1 = .success) :
    let s := poolStart apis ptPointerApi pvMemory metadata zTypeSize zAlignment zLength handler w
    PoolInv apis s.blk s := by
  intro s
  have config := blockInit_config accepted
  have blk : s.blk = ⟨.block, handler, ptPointerApi, pvMemory, Ref.to metadata, zTypeSize, zAlignment,
      zLength, 0, 0⟩ := by
    simp only [s, poolStart, blockInit]
    split_ifs <;> rfl
  have start : s.outstanding = [] := rfl
  constructor
  · exact ⟨config, by rw [blk]; exact storage, by rw [blk]; exact Nat.zero_le _,
      by rw [blk]; exact Nat.zero_le _, by rw [blk]; simp [AllocBlock.freeStack]⟩
  · rfl
  · rw [blk, start]
    exact Pool.empty
  · simp [start]

/-- A move that leaves the pool divided keeps the invariant. -/
theorem PoolInv.of_moved {b₀ : AllocBlock ω} {s : PoolState ω} (h : PoolInv apis b₀ s) {carved : Nat}
    {free : List Nat} (moved : Moved s.blk carved free b') {outstanding : List Pointer}
    (pool : Pool s.blk.block carved (outstanding.map (·.pvAddr)) free) (used : carved ≤ s.blk.zLength)
    (whole : ∀ p ∈ outstanding, p.zSize = s.blk.zTypeSize) (w : ω) :
    PoolInv apis b₀ ⟨b', outstanding, w⟩ := by
  have count := pool.length
  have nonNull : ∀ a ∈ free, a ≠ 0 := by
    intro a member
    obtain ⟨k, _, rfl⟩ := pool.of_free member
    exact h.ready.config.block_ne_zero k
  obtain ⟨stack, _, carved_⟩ := moved.freeStack
  constructor
  · exact h.ready.of_moved moved used (by omega) nonNull
  · exact h.same.trans moved.samePool
  · have names : b'.block = s.blk.block := by
      cases moved
      rfl
    show Pool b'.block b'.zUsed _ b'.freeStack
    rwa [names, stack, carved_]
  · have size : b'.zTypeSize = s.blk.zTypeSize := by
      cases moved
      rfl
    intro p member
    rw [whole p member, size]

/-- The block a Get is about to hand out is the last of those ready. -/
theorem BlockReady.ready_last (h : BlockReady apis b) : b.ready.2 = b.ready.2.dropLast ++ [b.next.pvAddr] := by
  have some_ : b.ready.2 ≠ [] := by
    unfold AllocBlock.ready
    split_ifs with empty
    · exact List.cons_ne_nil _ _
    · apply List.ne_nil_of_length_pos
      rw [h.freeStack_length]
      exact Nat.pos_of_ne_zero empty
  rw [AllocBlock.next, List.getLastD_eq_getLast?, List.getLast?_eq_some_getLast some_, Option.getD_some,
    List.dropLast_append_getLast]

/-- What a Get that finds a block divides: the block it is about to hand out is the last free one. -/
theorem PoolInv.serve {b₀ : AllocBlock ω} {s : PoolState ω} (h : PoolInv apis b₀ s) {zSize : Nat}
    (serves : s.blk.Serves zSize) :
    Pool s.blk.block s.blk.ready.1 (s.outstanding.map (·.pvAddr)) s.blk.ready.2 ∧
      s.blk.ready.1 ≤ s.blk.zLength ∧ s.blk.ready.2 = s.blk.ready.2.dropLast ++ [s.blk.next.pvAddr] := by
  have used := h.ready.used
  have pool := h.pool
  have last := h.ready.ready_last
  rcases Nat.eq_zero_or_pos s.blk.zFreed with empty | some_
  · have ready : s.blk.ready = (s.blk.zUsed + 1, [s.blk.block s.blk.zUsed]) := if_pos empty
    have room : s.blk.zUsed < s.blk.zLength := by
      have found := serves.2.2
      omega
    have nothing : s.blk.freeStack = [] := by
      rw [AllocBlock.freeStack, empty, List.take_zero]
    rw [nothing] at pool
    rw [ready] at last ⊢
    exact ⟨pool.carve, room, last⟩
  · have ready : s.blk.ready = (s.blk.zUsed, s.blk.freeStack) := if_neg (by omega)
    rw [ready] at last ⊢
    exact ⟨pool, used, last⟩

theorem map_eraseP_pvAddr (outstanding : List Pointer) (pvAddr : Nat) :
    (outstanding.eraseP (·.pvAddr = pvAddr)).map (·.pvAddr) = (outstanding.map (·.pvAddr)).erase pvAddr := by
  induction outstanding with
  | nil => rfl
  | cons p outstanding ih =>
    rcases eq_or_ne p.pvAddr pvAddr with same | other
    · simp [same]
    · simp [other, ih]

/-- A descriptor of this address is out. -/
def PoolState.Designates (s : PoolState ω) (pvAddr : Nat) : Prop :=
  ∃ p ∈ s.outstanding, p.pvAddr = pvAddr

instance (s : PoolState ω) (pvAddr : Nat) : Decidable (s.Designates pvAddr) :=
  inferInstanceAs (Decidable (∃ p ∈ s.outstanding, p.pvAddr = pvAddr))

theorem PoolState.designates_iff {s : PoolState ω} {pvAddr : Nat} :
    s.Designates pvAddr ↔ pvAddr ∈ s.outstanding.map (·.pvAddr) := by
  simp [PoolState.Designates]

/-- The call is no Put that takes an address no descriptor of which is out. -/
def PoolKept (apis : PointerApis ω) (s : PoolState ω) : PoolCall → Prop
  | .get _ => True
  | .put tMemory => s.Designates tMemory.pvAddr ∨ PutRefuses apis s.blk tMemory s.world

/-- One call keeps the pool divided, and has a result. -/
theorem pool_step {b₀ : AllocBlock ω} {s : PoolState ω} (h : PoolInv apis b₀ s) (call : PoolCall)
    (kept : PoolKept apis s call) :
    PoolInv apis b₀ ((poolMachine apis).step s call).2 ∧ ((poolMachine apis).step s call).1 ≠ none := by
  cases call with
  | get zSize =>
    obtain ⟨r, found, outcome⟩ := memoryBlkGet_spec h.ready zSize s.world
    simp only [poolMachine, found]
    refine ⟨?_, by simp⟩
    cases outcome with
    | refused short failed =>
      rw [if_neg failed]
      exact ⟨h.ready, h.same, h.pool, h.whole⟩
    | handed serves reset moved =>
      obtain ⟨pool, used, last⟩ := h.serve serves
      rw [last] at pool
      have out : Pool s.blk.block s.blk.ready.1 ((s.blk.next :: s.outstanding).map (·.pvAddr))
        s.blk.ready.2.dropLast := pool.reuse
      rw [if_pos rfl]
      refine h.of_moved moved out used ?_ _
      intro p member
      rcases List.mem_cons.1 member with rfl | member
      · rfl
      · exact h.whole p member
    | returned serves reset failed moved =>
      obtain ⟨pool, used, _⟩ := h.serve serves
      rw [if_neg failed]
      exact h.of_moved moved pool used h.whole _
  | put tMemory =>
    obtain ⟨r, found, outcome⟩ := memoryBlkPut_spec h.ready tMemory s.world
    have used := h.ready.used
    have pool := h.pool
    have whole : ∀ p ∈ s.outstanding.eraseP (·.pvAddr = tMemory.pvAddr), p.zSize = s.blk.zTypeSize :=
      fun p member => h.whole p (List.mem_of_mem_eraseP member)
    simp only [poolMachine, found]
    refine ⟨?_, by simp⟩
    cases outcome with
    | refused refuses failed =>
      rw [if_neg failed]
      exact ⟨h.ready, h.same, h.pool, h.whole⟩
    | shrunk taken last moved =>
      have out := PoolState.designates_iff.1 (kept.resolve_right taken)
      have active : s.blk.zUsed - 1 + 1 = s.blk.zUsed := by
        have some_ : s.blk.zUsed ≠ 0 := fun none_ => taken (.inr (.inr (.inl (.inr (.inr none_)))))
        omega
      rw [if_pos rfl]
      refine h.of_moved moved ?_ (by omega) whole _
      rw [map_eraseP_pvAddr, last]
      rw [last] at out
      rw [← active] at pool
      exact pool.shrink out
    | shelved taken other moved =>
      have out := PoolState.designates_iff.1 (kept.resolve_right taken)
      rw [if_pos rfl]
      refine h.of_moved moved ?_ used whole _
      rw [map_eraseP_pvAddr]
      exact pool.shelve out

/-- A run without such Puts keeps the pool divided, and every call of it has a result. -/
theorem pool_run {b₀ : AllocBlock ω} {s : PoolState ω} {calls : List PoolCall} (h : PoolInv apis b₀ s)
    (kept : (poolMachine apis).Along (PoolKept apis) s calls) :
    PoolInv apis b₀ ((poolMachine apis).run s calls) ∧
      ∀ e ∈ (poolMachine apis).trace s calls, e.2 ≠ none := by
  induction calls generalizing s with
  | nil => exact ⟨h, by simp⟩
  | cons call calls ih =>
    obtain ⟨next, answered⟩ := pool_step h call kept.1
    obtain ⟨last, rest⟩ := ih next kept.2
    refine ⟨last, ?_⟩
    intro e member
    rcases List.mem_cons.1 member with rfl | member
    · exact answered
    · exact rest e member

/-- Blocks of different index do not overlap. -/
theorem AllocBlock.block_apart {k k' : Nat} (other : b.block k ≠ b.block k') :
    b.block k + b.zTypeSize ≤ b.block k' ∨ b.block k' + b.zTypeSize ≤ b.block k := by
  simp only [AllocBlock.block] at other ⊢
  rcases Nat.lt_trichotomy k k' with less | rfl | more
  · left
    have room := Nat.mul_le_mul_right b.zTypeSize less
    rw [Nat.succ_mul] at room
    omega
  · exact absurd rfl other
  · right
    have room := Nat.mul_le_mul_right b.zTypeSize more
    rw [Nat.succ_mul] at room
    omega

/-- Two descriptors do not share a byte. -/
def Pointer.Apart (p q : Pointer) : Prop :=
  p.pvAddr + p.zSize ≤ q.pvAddr ∨ q.pvAddr + q.zSize ≤ p.pvAddr

/-- A safe division of the pool of `zLength` blocks of `zTypeSize` bytes from `pvMemory` on. -/
structure PoolSafe (apis : PointerApis ω) (pvMemory zTypeSize zLength : Nat) (s : PoolState ω) : Prop where
  metadata : s.blk.ptMetadata.deref.length = zLength
  used : s.blk.zUsed ≤ zLength
  block : ∀ p ∈ s.outstanding, p.zSize = zTypeSize ∧ ∃ k, k < s.blk.zUsed ∧ p.pvAddr = pvMemory + k * zTypeSize
  apart : s.outstanding.Pairwise Pointer.Apart
  freed : s.blk.freeStack.length = s.blk.zFreed
  distinct : s.blk.freeStack.Nodup
  free : ∀ a ∈ s.blk.freeStack, ¬s.Designates a ∧ ∃ k, k < s.blk.zUsed ∧ a = pvMemory + k * zTypeSize
  count : s.outstanding.length = s.blk.zUsed - s.blk.zFreed ∧ s.blk.zFreed ≤ s.blk.zUsed
  serves : ∀ zSize, 0 < zSize → zSize ≤ zTypeSize →
    ((∃ tOk, ((poolMachine apis).step s (.get zSize)).1 = some (.got ⟨.success, tOk⟩)) ↔
      s.outstanding.length < zLength ∧
        ((apis s.blk.ptPointerApi).reset.deref s.blk.next s.world).1 = .success)

theorem PoolInv.safe {b₀ : AllocBlock ω} {s : PoolState ω} (h : PoolInv apis b₀ s) :
    PoolSafe apis b₀.pvMemory b₀.zTypeSize b₀.zLength s := by
  have pool := h.pool
  have count := pool.length
  have injective := h.ready.config.block_injective
  rw [h.ready.freeStack_length, List.length_map] at count
  have same := h.same
  rw [AllocBlock.SamePool] at same
  have memory : s.blk.pvMemory = b₀.pvMemory := by rw [same]
  have typeSize : s.blk.zTypeSize = b₀.zTypeSize := by rw [same]
  have length : s.blk.zLength = b₀.zLength := by rw [same]
  rw [← memory, ← typeSize, ← length]
  constructor
  case metadata => exact h.ready.metadata
  case used => exact h.ready.used
  case block =>
    intro p member
    exact ⟨h.whole p member, pool.of_live (List.mem_map_of_mem member)⟩
  case apart =>
    have different := List.pairwise_map.1 (pool.nodup injective).of_append_left
    refine different.imp_of_mem ?_
    intro p q member member' other
    obtain ⟨k, _, isBlock⟩ := pool.of_live (List.mem_map_of_mem member)
    obtain ⟨k', _, isBlock'⟩ := pool.of_live (List.mem_map_of_mem member')
    rw [Pointer.Apart, h.whole p member, h.whole q member', isBlock, isBlock']
    rw [isBlock, isBlock'] at other
    exact AllocBlock.block_apart other
  case freed => exact h.ready.freeStack_length
  case distinct => exact (pool.nodup injective).of_append_right
  case free =>
    intro a member
    refine ⟨?_, pool.of_free member⟩
    intro out
    exact pool.disjoint injective (PoolState.designates_iff.1 out) member
  case count => omega
  case serves =>
    intro zSize positive fits
    have used := h.ready.used
    obtain ⟨r, found, outcome⟩ := memoryBlkGet_spec h.ready zSize s.world
    simp only [poolMachine, found]
    have room : s.blk.Serves zSize ↔ s.outstanding.length < s.blk.zLength := by
      simp only [AllocBlock.Serves]
      omega
    cases outcome with
    | refused short failed =>
      constructor
      · rintro ⟨tOk, got⟩
        simp only [Option.some.injEq, PoolReply.got.injEq] at got
        rw [got] at failed
        exact absurd rfl failed
      · rintro ⟨few, _⟩
        exact absurd (room.2 few) short
    | handed serves reset moved => exact iff_of_true ⟨_, rfl⟩ ⟨room.1 serves, reset⟩
    | returned serves reset failed moved =>
      constructor
      · rintro ⟨tOk, got⟩
        simp only [Option.some.injEq, PoolReply.got.injEq] at got
        rw [got] at failed
        exact absurd rfl failed
      · rintro ⟨_, zeroed⟩
        exact absurd zeroed reset

/-- Every Put is given the address of a descriptor that is out. -/
def PutsOutstanding (s : PoolState ω) : PoolCall → Prop
  | .get _ => True
  | .put tMemory => s.Designates tMemory.pvAddr

/-- From an accepted initialisation on, clients that put back only what they hold keep the
pool safely divided, whatever `Reset` does, and every call stays within the metadata. -/
theorem pool_safe (apis : PointerApis ω) (ptPointerApi pvMemory zTypeSize zAlignment zLength : Nat)
    (metadata : List Nat) (handler : FailureHandler ω) (w : ω) (storage : metadata.length = zLength)
    (accepted : (blockInit apis ptPointerApi pvMemory (Ref.to metadata) zTypeSize zAlignment zLength
      handler w).1 = .success)
    (calls : List PoolCall) :
    let s₀ := poolStart apis ptPointerApi pvMemory metadata zTypeSize zAlignment zLength handler w
    (poolMachine apis).Along PutsOutstanding s₀ calls →
      PoolSafe apis pvMemory zTypeSize zLength ((poolMachine apis).run s₀ calls) ∧
        ∀ e ∈ (poolMachine apis).trace s₀ calls, e.2 ≠ none := by
  intro s₀ disciplined
  have start : PoolInv apis s₀.blk s₀ := poolStart_inv storage accepted
  have kept : (poolMachine apis).Along (PoolKept apis) s₀ calls := by
    refine disciplined.mono fun s call out => ?_
    cases call with
    | get zSize => trivial
    | put tMemory => exact .inl out
  obtain ⟨inv, answered⟩ := pool_run start kept
  have params : s₀.blk.pvMemory = pvMemory ∧ s₀.blk.zTypeSize = zTypeSize ∧ s₀.blk.zLength = zLength := by
    simp only [s₀, poolStart, blockInit]
    split_ifs <;> exact ⟨rfl, rfl, rfl⟩
  have safe := inv.safe
  rw [params.1, params.2.1, params.2.2] at safe
  exact ⟨safe, answered⟩

/-- A vtable whose `Reset` returns the statuses of a script, and success after its end. -/
def scriptedApis : PointerApis (List Status) := fun _ =>
  { copy := Ref.to fun _ _ script => (.success, script)
    reset := Ref.to fun _ script => (script.headD .success, script.tail) }

/-- Two blocks of eight bytes at address 16. -/
abbrev pairPool (script : List Status) : PoolState (List Status) :=
  poolStart scriptedApis 1 16 [0, 0] 8 8 2 ⟨false, fun _ _ w => w⟩ script

/-- Both blocks are handed out and the first one comes back; then a `Reset` fails. -/
theorem pool_safe_pair :
    let s₀ := pairPool [.success, .success, .success, .err]
    let calls : List PoolCall := [.get 8, .get 3, .put ⟨1, 16, 8, 8⟩, .get 1, .get 1]
    PoolSafe scriptedApis 16 8 2 ((poolMachine scriptedApis).run s₀ calls) ∧
      ∀ e ∈ (poolMachine scriptedApis).trace s₀ calls, e.2 ≠ none :=
  pool_safe scriptedApis 1 16 8 8 2 [0, 0] ⟨false, fun _ _ w => w⟩ [.success, .success, .success, .err]
    rfl (by decide) [.get 8, .get 3, .put ⟨1, 16, 8, 8⟩, .get 1, .get 1]
    ⟨trivial, trivial, by unfold PutsOutstanding; decide, trivial, trivial, trivial⟩

/-! ## Puts of what is not out -/

/-- A Put of a valid descriptor whose address is not out is refused and changes neither the
allocator nor the descriptor; a Get hands out no address that is out. -/
def RejectsBadPuts (apis : PointerApis ω) (s : PoolState ω) : PoolCall → Prop
  | .get zSize => ∀ tOk, ((poolMachine apis).step s (.get zSize)).1 = some (.got ⟨.success, tOk⟩) →
      ¬s.Designates tOk.pvAddr
  | .put tMemory => pointerApiVerify apis tMemory.ptApi = .success → tMemory.zSize ≠ 0 →
      ¬s.Designates tMemory.pvAddr →
      ∃ tStatus, tStatus ≠ .success ∧
        ((poolMachine apis).step s (.put tMemory)).1 = some (.returned tStatus tMemory) ∧
        ((poolMachine apis).step s (.put tMemory)).2.blk = s.blk

/-- A Put of a valid descriptor whose address is not out is given an address that is
misaligned, outside the pool or the start of a carved block, or finds no block in use,
a `Reset` that fails or a full free stack. -/
def BadPutsShow (apis : PointerApis ω) (s : PoolState ω) : PoolCall → Prop
  | .get _ => True
  | .put tMemory => pointerApiVerify apis tMemory.ptApi = .success → tMemory.zSize ≠ 0 →
      ¬s.Designates tMemory.pvAddr →
      tMemory.pvAddr % s.blk.zAlignment ≠ 0 ∨ s.blk.Outside tMemory.pvAddr ∨
        (∃ k, k < s.blk.zUsed ∧ tMemory.pvAddr = s.blk.block k) ∨
        ((apis tMemory.ptApi).reset.deref tMemory s.world).1 ≠ .success ∨ s.blk.zLength ≤ s.blk.zFreed

/-- What a Put of a valid descriptor whose address is not out refuses. -/
theorem PoolInv.refuses_iff {b₀ : AllocBlock ω} {s : PoolState ω} (h : PoolInv apis b₀ s)
    {tMemory : Pointer} (valid : pointerApiVerify apis tMemory.ptApi = .success)
    (sized : tMemory.zSize ≠ 0) (idle : ¬s.Designates tMemory.pvAddr) :
    PutRefuses apis s.blk tMemory s.world ↔
      tMemory.pvAddr % s.blk.zAlignment ≠ 0 ∨ s.blk.Outside tMemory.pvAddr ∨
        (∃ k, k < s.blk.zUsed ∧ tMemory.pvAddr = s.blk.block k) ∨
        ((apis tMemory.ptApi).reset.deref tMemory s.world).1 ≠ .success ∨
        s.blk.zLength ≤ s.blk.zFreed := by
  have api : tMemory.ptApi ≠ 0 := by
    intro null
    simp [pointerApiVerify, null] at valid
  have carved := h.pool.free_iff fun out => idle (PoolState.designates_iff.2 out)
  rw [PutRefuses, carved]
  constructor
  · rintro (invalid | odd | outside | stacked | failed | ⟨_, full⟩)
    · have null : tMemory.pvAddr = 0 := by
        by_contra addr
        exact invalid (pointerVerify_eq_success.2 ⟨api, addr, sized, valid⟩)
      have memory := h.ready.config.memory
      exact .inr (.inl (.inl (by omega)))
    · exact .inl odd
    · exact .inr (.inl outside)
    · exact .inr (.inr (.inl stacked))
    · exact .inr (.inr (.inr (.inl failed)))
    · exact .inr (.inr (.inr (.inr full)))
  · rintro (odd | outside | stacked | failed | full)
    · exact .inr (.inl odd)
    · exact .inr (.inr (.inl outside))
    · exact .inr (.inr (.inr (.inl stacked)))
    · exact .inr (.inr (.inr (.inr (.inl failed))))
    · rcases Nat.eq_zero_or_pos s.blk.zUsed with none_ | some_
      · exact .inr (.inr (.inl (.inr (.inr none_))))
      · rcases eq_or_ne tMemory.pvAddr (s.blk.block (s.blk.zUsed - 1)) with last | other
        · exact .inr (.inr (.inr (.inl ⟨_, by omega, last⟩)))
        · exact .inr (.inr (.inr (.inr (.inr ⟨other, full⟩))))

/-- Where the pool is divided, a call rejects bad puts exactly if a bad put shows. -/
theorem rejects_iff_shows {b₀ : AllocBlock ω} {s : PoolState ω} (h : PoolInv apis b₀ s) (call : PoolCall) :
    RejectsBadPuts apis s call ↔ BadPutsShow apis s call := by
  cases call with
  | get zSize =>
    refine iff_of_true ?_ trivial
    intro tOk got
    obtain ⟨r, found, outcome⟩ := memoryBlkGet_spec h.ready zSize s.world
    simp only [poolMachine, found, Option.some.injEq, PoolReply.got.injEq] at got
    cases outcome with
    | refused short failed => exact absurd (congrArg Result.tStatus got) failed
    | returned serves reset failed moved => exact absurd (congrArg Result.tStatus got) failed
    | handed serves reset moved =>
      obtain ⟨pool, _, last⟩ := h.serve serves
      have same : s.blk.next = tOk := congrArg Result.tOk got
      rw [PoolState.designates_iff, ← same]
      intro out
      refine pool.disjoint h.ready.config.block_injective out ?_
      rw [last]
      exact List.mem_append_right _ (List.mem_singleton.2 rfl)
  | put tMemory =>
    refine forall_congr' fun valid => forall_congr' fun sized => forall_congr' fun idle => ?_
    rw [← h.refuses_iff valid sized idle]
    obtain ⟨r, found, outcome⟩ := memoryBlkPut_spec h.ready tMemory s.world
    simp only [poolMachine, found]
    cases outcome with
    | refused refuses failed => exact iff_of_true ⟨_, failed, rfl, rfl⟩ refuses
    | shrunk taken last moved =>
      refine iff_of_false ?_ taken
      rintro ⟨tStatus, failed, answer, _⟩
      simp only [Option.some.injEq, PoolReply.returned.injEq] at answer
      exact failed answer.1.symm
    | shelved taken other moved =>
      refine iff_of_false ?_ taken
      rintro ⟨tStatus, failed, answer, _⟩
      simp only [Option.some.injEq, PoolReply.returned.injEq] at answer
      exact failed answer.1.symm

/-- From an accepted initialisation on, a run rejects every bad put exactly if every bad
put in it shows. -/
theorem pool_rejects_iff (apis : PointerApis ω)
    (ptPointerApi pvMemory zTypeSize zAlignment zLength : Nat) (metadata : List Nat)
    (handler : FailureHandler ω) (w : ω) (storage : metadata.length = zLength)
    (accepted : (blockInit apis ptPointerApi pvMemory (Ref.to metadata) zTypeSize zAlignment zLength
      handler w).1 = .success)
    (calls : List PoolCall) :
    let s₀ := poolStart apis ptPointerApi pvMemory metadata zTypeSize zAlignment zLength handler w
    (poolMachine apis).Along (RejectsBadPuts apis) s₀ calls ↔
      (poolMachine apis).Along (BadPutsShow apis) s₀ calls := by
  intro s₀
  have start : PoolInv apis s₀.blk s₀ := poolStart_inv storage accepted
  refine Machine.along_congr (I := PoolInv apis s₀.blk) (fun s call h => rejects_iff_shows h call) ?_ start
  intro s call h shows
  refine (pool_step h call ?_).1
  cases call with
  | get zSize => trivial
  | put tMemory =>
    by_cases out : s.Designates tMemory.pvAddr
    · exact .inl out
    right
    by_cases valid : pointerApiVerify apis tMemory.ptApi = .success ∧ tMemory.zSize ≠ 0
    · exact (h.refuses_iff valid.1 valid.2 out).2 (shows valid.1 valid.2 out)
    · refine .inl fun checked => valid ?_
      have parts := pointerVerify_eq_success.1 checked
      exact ⟨parts.2.2.2, parts.2.2.1⟩

/-- A block on the free stack is put back once more, and an address off the alignment. -/
theorem pool_rejects_pair :
    let s₀ := pairPool []
    let calls : List PoolCall := [.get 8, .get 8, .put ⟨1, 16, 8, 8⟩, .put ⟨1, 16, 8, 8⟩, .put ⟨1, 20, 8, 8⟩]
    (poolMachine scriptedApis).Along (RejectsBadPuts scriptedApis) s₀ calls :=
  (pool_rejects_iff scriptedApis 1 16 8 8 2 [0, 0] ⟨false, fun _ _ w => w⟩ [] rfl (by decide)
    [.get 8, .get 8, .put ⟨1, 16, 8, 8⟩, .put ⟨1, 16, 8, 8⟩, .put ⟨1, 20, 8, 8⟩]).2
    ⟨trivial, trivial, fun _ _ _ => .inr (.inr (.inl ⟨0, by decide, by decide⟩)),
      fun _ _ _ => .inr (.inr (.inl ⟨0, by decide, by decide⟩)), fun _ _ _ => .inl (by decide), trivial⟩

/-- The block carved last is put back twice: the second Put succeeds, and the block is then
handed out to two clients. -/
theorem pool_put_twice :
    let s₀ := pairPool []
    let calls : List PoolCall := [.get 8, .get 8, .put ⟨1, 24, 8, 8⟩, .put ⟨1, 24, 8, 8⟩]
    ¬(poolMachine scriptedApis).Along (RejectsBadPuts scriptedApis) s₀ calls ∧
      ((poolMachine scriptedApis).run s₀ (calls ++ [.get 8, .get 8])).outstanding.map (·.pvAddr) =
        [24, 24, 16] := by
  constructor
  · rintro ⟨_, _, _, second, _⟩
    obtain ⟨_, _, _, same⟩ := second (by decide) (by decide) (by decide)
    exact absurd (congrArg AllocBlock.zFreed same) (by decide)
  · decide

end LibJuno.Memory
