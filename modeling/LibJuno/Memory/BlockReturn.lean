import LibJuno.Memory.Block

/-!
# Blocks that can be put back

Runs of Get and Put in which clients may put back whatever they like. What is left of the
division of the pool is that the free stack holds addresses of the pool, each once. A block
that is handed out can be put back if it is aligned and counted as used: initialisation holds
only the base of the pool against the alignment, and a client that puts back what it does not
hold can bring `zUsed` down to 0 with blocks still on the free stack.
-/

namespace LibJuno.Memory

variable {ω : Type} {apis : PointerApis ω} {b b' b₀ : AllocBlock ω}

/-- The address lies in the pool. -/
def AllocBlock.Within (b : AllocBlock ω) (pvAddr : Nat) : Prop :=
  b.pvMemory ≤ pvAddr ∧ pvAddr < b.pvMemory + b.zTypeSize * b.zLength

theorem AllocBlock.not_outside {pvAddr : Nat} (within : b.Within pvAddr) :
    ¬b.Outside pvAddr ↔ b.zUsed ≠ 0 := by
  obtain ⟨low, high⟩ := within
  constructor
  · intro inside none_
    exact inside (.inr (.inr none_))
  · rintro used (below | beyond | none_)
    · omega
    · omega
    · exact used none_

theorem BlockConfig.within_block (h : BlockConfig apis b) {k : Nat} (inside : k < b.zLength) :
    b.Within (b.block k) := by
  have size := Nat.pos_of_ne_zero h.typeSize
  have room : (k + 1) * b.zTypeSize ≤ b.zLength * b.zTypeSize := Nat.mul_le_mul_right _ inside
  rw [Nat.succ_mul, Nat.mul_comm b.zLength] at room
  simp only [AllocBlock.Within, AllocBlock.block]
  omega

/-- What holds in every run: the allocator is ready, the free stack holds addresses of the
pool, each once, and so does every client. -/
structure PoolAny (apis : PointerApis ω) (b₀ : AllocBlock ω) (s : PoolState ω) : Prop where
  ready : BlockReady apis s.blk
  same : b₀.SamePool s.blk
  inside : ∀ a ∈ s.blk.freeStack, s.blk.Within a
  distinct : s.blk.freeStack.Nodup
  out : ∀ p ∈ s.outstanding, p.ptApi = s.blk.ptPointerApi ∧ s.blk.Within p.pvAddr

/-- A move within the pool keeps that. -/
theorem PoolAny.of_moved {s : PoolState ω} (h : PoolAny apis b₀ s) {carved : Nat} {free : List Nat}
    (moved : Moved s.blk carved free b') (used : carved ≤ s.blk.zLength) (freed : free.length ≤ s.blk.zLength)
    (inside : ∀ a ∈ free, s.blk.Within a) (distinct : free.Nodup) {outstanding : List Pointer}
    (out : ∀ p ∈ outstanding, p.ptApi = s.blk.ptPointerApi ∧ s.blk.Within p.pvAddr) (w : ω) :
    PoolAny apis b₀ ⟨b', outstanding, w⟩ := by
  have memory := h.ready.config.memory
  have nonNull : ∀ a ∈ free, a ≠ 0 := by
    intro a member
    have within := (inside a member).1
    omega
  have ready := h.ready.of_moved moved used freed nonNull
  have same := h.same.trans moved.samePool
  have stack := moved.freeStack.1
  have inside' : ∀ a ∈ b'.freeStack, s.blk.Within a := by rwa [stack]
  have distinct' : b'.freeStack.Nodup := by rwa [stack]
  cases moved with
  | mk metadata size taken => exact ⟨ready, same, inside', distinct', out⟩

/-- The blocks that are ready lie in the pool, each once. -/
theorem PoolAny.ready_free {s : PoolState ω} (h : PoolAny apis b₀ s) {zSize : Nat} (serves : s.blk.Serves zSize) :
    s.blk.ready.1 ≤ s.blk.zLength ∧ s.blk.ready.2.length ≤ s.blk.zLength ∧
      (∀ a ∈ s.blk.ready.2, s.blk.Within a) ∧ s.blk.ready.2.Nodup := by
  have used := h.ready.used
  have room := serves.2.2
  unfold AllocBlock.ready
  split_ifs with empty
  · have inside : s.blk.zUsed < s.blk.zLength := by omega
    refine ⟨inside, ?_, ?_, List.nodup_singleton _⟩
    · rw [List.length_singleton]
      omega
    · intro a member
      rw [List.mem_singleton.1 member]
      exact h.ready.config.within_block inside
  · refine ⟨used, ?_, h.inside, h.distinct⟩
    rw [h.ready.freeStack_length]
    exact h.ready.freed

/-- One call keeps that, whatever is put back. -/
theorem PoolAny.step {s : PoolState ω} (h : PoolAny apis b₀ s) (call : PoolCall) :
    PoolAny apis b₀ ((poolMachine apis).step s call).2 := by
  have used := h.ready.used
  cases call with
  | get zSize =>
    obtain ⟨r, found, outcome⟩ := memoryBlkGet_spec h.ready zSize s.world
    simp only [poolMachine, found]
    cases outcome with
    | refused short failed =>
      rw [if_neg failed]
      exact ⟨h.ready, h.same, h.inside, h.distinct, h.out⟩
    | handed serves reset moved =>
      obtain ⟨carved, count, inside, distinct⟩ := h.ready_free serves
      have last := h.ready.ready_last
      rw [if_pos rfl]
      refine h.of_moved moved carved ?_ ?_ (distinct.sublist (List.dropLast_sublist _)) ?_ _
      · rw [List.length_dropLast]
        omega
      · exact fun a member => inside a ((List.dropLast_sublist _).subset member)
      · intro p member
        rcases List.mem_cons.1 member with rfl | member
        · refine ⟨rfl, inside _ ?_⟩
          rw [last]
          exact List.mem_append_right _ (List.mem_singleton.2 rfl)
        · exact h.out p member
    | returned serves reset failed moved =>
      obtain ⟨carved, count, inside, distinct⟩ := h.ready_free serves
      rw [if_neg failed]
      exact h.of_moved moved carved count inside distinct h.out _
  | put tMemory =>
    obtain ⟨r, found, outcome⟩ := memoryBlkPut_spec h.ready tMemory s.world
    have count : s.blk.freeStack.length ≤ s.blk.zLength := h.ready.freeStack_length.trans_le h.ready.freed
    have out : ∀ p ∈ s.outstanding.eraseP (·.pvAddr = tMemory.pvAddr),
        p.ptApi = s.blk.ptPointerApi ∧ s.blk.Within p.pvAddr :=
      fun p member => h.out p (List.mem_of_mem_eraseP member)
    simp only [poolMachine, found]
    cases outcome with
    | refused refuses failed =>
      rw [if_neg failed]
      exact ⟨h.ready, h.same, h.inside, h.distinct, h.out⟩
    | shrunk taken last moved =>
      rw [if_pos rfl]
      exact h.of_moved moved (by omega) count h.inside h.distinct out _
    | shelved taken other moved =>
      simp only [PutRefuses, not_or, not_and, not_not] at taken
      obtain ⟨_, _, inPool, fresh, _, room⟩ := taken
      have within : s.blk.Within tMemory.pvAddr := by
        simp only [AllocBlock.Outside, not_or, Nat.not_lt, Nat.not_le] at inPool
        exact ⟨inPool.1, inPool.2.1⟩
      have short := Nat.not_le.1 (room other)
      rw [if_pos rfl]
      refine h.of_moved moved used ?_ ?_ ?_ out _
      · rw [List.length_append, h.ready.freeStack_length, List.length_singleton]
        exact short
      · intro a member
        rcases List.mem_append.1 member with member | member
        · exact h.inside a member
        · rwa [List.mem_singleton.1 member]
      · refine h.distinct.append (List.nodup_singleton _) ?_
        exact List.disjoint_singleton.2 fresh

section Start

variable {ptPointerApi pvMemory zTypeSize zAlignment zLength : Nat} {metadata : List Nat}
  {handler : FailureHandler ω} {w : ω}

/-- The block as initialised. -/
structure AllocBlock.Started (ptPointerApi zTypeSize zAlignment zLength : Nat) (b : AllocBlock ω) : Prop where
  api : b.ptPointerApi = ptPointerApi
  size : b.zTypeSize = zTypeSize
  alignment : b.zAlignment = zAlignment
  length : b.zLength = zLength
  used : b.zUsed = 0
  freed : b.zFreed = 0

theorem poolStart_started :
    (poolStart apis ptPointerApi pvMemory metadata zTypeSize zAlignment zLength handler w).blk.Started
      ptPointerApi zTypeSize zAlignment zLength := by
  simp only [poolStart, blockInit]
  split_ifs <;> exact ⟨rfl, rfl, rfl, rfl, rfl, rfl⟩

/-- The free stack is empty at first. -/
theorem poolStart_freeStack :
    (poolStart apis ptPointerApi pvMemory metadata zTypeSize zAlignment zLength handler w).blk.freeStack = [] := by
  rw [AllocBlock.freeStack, poolStart_started.freed, List.take_zero]

theorem poolStart_any (storage : metadata.length = zLength)
    (accepted : (blockInit apis ptPointerApi pvMemory (Ref.to metadata) zTypeSize zAlignment zLength
      handler w).1 = .success) :
    let s := poolStart apis ptPointerApi pvMemory metadata zTypeSize zAlignment zLength handler w
    PoolAny apis s.blk s := by
  intro s
  have start : PoolInv apis s.blk s := poolStart_inv storage accepted
  have nothing : s.blk.freeStack = [] := poolStart_freeStack
  refine ⟨start.ready, start.same, ?_, ?_, ?_⟩
  · simp [nothing]
  · rw [nothing]
    exact List.nodup_nil
  · exact fun p member => absurd member (List.not_mem_nil)

end Start

/-- When the Put of a descriptor that a client holds is taken, `Reset` succeeding. -/
theorem PoolAny.put_taken_iff {s : PoolState ω} (h : PoolAny apis b₀ s) {p : Pointer}
    (api : p.ptApi = s.blk.ptPointerApi) (within : s.blk.Within p.pvAddr)
    (reset : ((apis p.ptApi).reset.deref p s.world).1 = .success) :
    ¬PutRefuses apis s.blk p s.world ↔ p.zSize ≠ 0 ∧ p.pvAddr % s.blk.zAlignment = 0 ∧ s.blk.zUsed ≠ 0 ∧
      p.pvAddr ∉ s.blk.freeStack ∧
      (p.pvAddr = s.blk.block (s.blk.zUsed - 1) ∨ s.blk.zFreed < s.blk.zLength) := by
  have memory := h.ready.config.memory
  have pointerApi := h.ready.config.pointerApi
  have low := within.1
  have valid : pointerVerify apis p = .success ↔ p.zSize ≠ 0 := by
    rw [pointerVerify_eq_success, api]
    constructor
    · exact fun parts => parts.2.2.1
    · exact fun sized => ⟨pointerApi.1, by omega, sized, pointerApi.2⟩
  simp only [PutRefuses, not_or, not_and_or, not_not, Nat.not_le, AllocBlock.not_outside within, valid, reset, ne_eq,
    true_and]

/-- A Put is taken exactly if it is not refused. -/
theorem BlockReady.put_success_iff {s : PoolState ω} (h : BlockReady apis s.blk) (p : Pointer) :
    (∃ tMemory, ((poolMachine apis).step s (.put p)).1 = some (.returned .success tMemory)) ↔
      ¬PutRefuses apis s.blk p s.world := by
  obtain ⟨r, found, outcome⟩ := memoryBlkPut_spec h p s.world
  simp only [poolMachine, found]
  cases outcome with
  | refused refuses failed =>
    refine iff_of_false ?_ (not_not.2 refuses)
    rintro ⟨tMemory, answer⟩
    simp only [Option.some.injEq, PoolReply.returned.injEq] at answer
    exact failed answer.1
  | shrunk taken last moved => exact iff_of_true ⟨_, rfl⟩ taken
  | shelved taken other moved => exact iff_of_true ⟨_, rfl⟩ taken

/-! ## Blocks as they are handed out -/

/-- A Get that succeeds hands out a block that is aligned, and that a Put right behind it
takes back if `Reset` succeeds. -/
def GetReturnable (apis : PointerApis ω) (s : PoolState ω) : PoolCall → Prop
  | .get zSize => ∀ tOk, ((poolMachine apis).step s (.get zSize)).1 = some (.got ⟨.success, tOk⟩) →
      let s' := ((poolMachine apis).step s (.get zSize)).2
      tOk.pvAddr % s.blk.zAlignment = 0 ∧
        (((apis tOk.ptApi).reset.deref tOk s'.world).1 = .success →
          ∃ tMemory, ((poolMachine apis).step s' (.put tOk)).1 = some (.returned .success tMemory))
  | .put _ => True

/-- A Get carves a block only where the alignment divides its offset, and takes a block off
the free stack only while some block counts as used. -/
def GetSound (s : PoolState ω) : PoolCall → Prop
  | .get zSize => s.blk.Serves zSize →
      if s.blk.zFreed = 0 then s.blk.zAlignment ∣ s.blk.zUsed * s.blk.zTypeSize else s.blk.zUsed ≠ 0
  | .put _ => True

/-- The free stack holds aligned addresses. -/
def AllocBlock.Aligned (b : AllocBlock ω) : Prop := ∀ a ∈ b.freeStack, a % b.zAlignment = 0

theorem Moved.aligned {carved : Nat} {free : List Nat} (moved : Moved b carved free b')
    (aligned : ∀ a ∈ free, a % b.zAlignment = 0) : b'.Aligned := by
  have stack := moved.freeStack.1
  cases moved with
  | mk metadata size taken =>
    unfold AllocBlock.Aligned
    rwa [stack]

/-- A block at a multiple of the alignment from the base is aligned. -/
theorem BlockConfig.block_aligned_iff (h : BlockConfig apis b) (k : Nat) :
    b.block k % b.zAlignment = 0 ↔ b.zAlignment ∣ k * b.zTypeSize := by
  rw [← Nat.dvd_iff_mod_eq_zero]
  exact (Nat.dvd_add_right (Nat.dvd_of_mod_eq_zero h.aligned))

theorem PoolAny.ready_aligned {s : PoolState ω} (h : PoolAny apis b₀ s) (aligned : s.blk.Aligned) {zSize : Nat}
    (serves : s.blk.Serves zSize) (sound : GetSound s (.get zSize)) :
    (∀ a ∈ s.blk.ready.2, a % s.blk.zAlignment = 0) ∧ s.blk.ready.1 ≠ 0 := by
  have rule := sound serves
  unfold AllocBlock.ready
  split_ifs with empty
  · rw [if_pos empty] at rule
    refine ⟨?_, Nat.succ_ne_zero _⟩
    intro a member
    rw [List.mem_singleton.1 member]
    exact (h.ready.config.block_aligned_iff _).2 rule
  · rw [if_neg empty] at rule
    exact ⟨aligned, rule⟩

/-- One sound call keeps the free stack aligned. -/
theorem PoolAny.step_aligned {s : PoolState ω} (h : PoolAny apis b₀ s) (aligned : s.blk.Aligned)
    (call : PoolCall) (sound : GetSound s call) : ((poolMachine apis).step s call).2.blk.Aligned := by
  cases call with
  | get zSize =>
    obtain ⟨r, found, outcome⟩ := memoryBlkGet_spec h.ready zSize s.world
    simp only [poolMachine, found]
    cases outcome with
    | refused short failed => exact aligned
    | handed serves reset moved =>
      have ready := (h.ready_aligned aligned serves sound).1
      exact moved.aligned fun a member => ready a ((List.dropLast_sublist _).subset member)
    | returned serves reset failed moved => exact moved.aligned (h.ready_aligned aligned serves sound).1
  | put tMemory =>
    obtain ⟨r, found, outcome⟩ := memoryBlkPut_spec h.ready tMemory s.world
    simp only [poolMachine, found]
    cases outcome with
    | refused refuses failed => exact aligned
    | shrunk taken last moved => exact moved.aligned aligned
    | shelved taken other moved =>
      refine moved.aligned fun a member => ?_
      rcases List.mem_append.1 member with member | member
      · exact aligned a member
      · rw [List.mem_singleton.1 member]
        by_contra odd
        exact taken (.inr (.inl odd))

/-- What a sound Get hands out can be put back. -/
theorem PoolAny.get_returnable {s : PoolState ω} (h : PoolAny apis b₀ s) (aligned : s.blk.Aligned)
    (call : PoolCall) (sound : GetSound s call) : GetReturnable apis s call := by
  cases call with
  | put tMemory => trivial
  | get zSize =>
    have kept := h.step (.get zSize)
    obtain ⟨r, found, outcome⟩ := memoryBlkGet_spec h.ready zSize s.world
    intro tOk got
    simp only [poolMachine, found, Option.some.injEq, PoolReply.got.injEq] at kept got ⊢
    cases outcome with
    | refused short failed => exact absurd (congrArg Result.tStatus got) failed
    | returned serves reset failed moved => exact absurd (congrArg Result.tStatus got) failed
    | handed serves reset moved =>
      obtain rfl : s.blk.next = tOk := congrArg Result.tOk got
      rw [if_pos rfl] at kept ⊢
      obtain ⟨_, count, _, distinct⟩ := h.ready_free serves
      obtain ⟨ready, used⟩ := h.ready_aligned aligned serves sound
      have last := h.ready.ready_last
      rw [last] at ready distinct count
      have even : s.blk.next.pvAddr % s.blk.zAlignment = 0 :=
        ready _ (List.mem_append_right _ (List.mem_singleton.2 rfl))
      refine ⟨even, fun zeroed => ?_⟩
      obtain ⟨api, within⟩ := kept.out s.blk.next (List.mem_cons_self ..)
      have taken := (kept.put_taken_iff api within zeroed).2
      refine (kept.ready.put_success_iff s.blk.next).2 (taken ?_)
      have typeSize := h.ready.config.typeSize
      obtain ⟨stack, freed, carved⟩ := moved.freeStack
      have fresh : s.blk.next.pvAddr ∉ s.blk.ready.2.dropLast :=
        fun member => List.disjoint_of_nodup_append distinct member (List.mem_singleton.2 rfl)
      rw [List.length_append, List.length_singleton] at count
      dsimp only
      rw [stack, freed, carved]
      cases moved with
      | mk metadata size _ => exact ⟨typeSize, even, used, fresh, .inr count⟩

/-- Clients that put back only what they hold meet no unsound Get if the alignment divides the
block size, or there is one block only. -/
theorem getSound_of_dvd {ptPointerApi pvMemory zTypeSize zAlignment zLength : Nat} {metadata : List Nat}
    {handler : FailureHandler ω} {w : ω} (storage : metadata.length = zLength)
    (accepted : (blockInit apis ptPointerApi pvMemory (Ref.to metadata) zTypeSize zAlignment zLength
      handler w).1 = .success)
    (fits : zAlignment ∣ zTypeSize ∨ zLength = 1) {calls : List PoolCall} :
    let s₀ := poolStart apis ptPointerApi pvMemory metadata zTypeSize zAlignment zLength handler w
    (poolMachine apis).Along PutsOutstanding s₀ calls → (poolMachine apis).Along GetSound s₀ calls := by
  intro s₀ disciplined
  have start : PoolInv apis s₀.blk s₀ := poolStart_inv storage accepted
  have started : s₀.blk.Started ptPointerApi zTypeSize zAlignment zLength := poolStart_started
  have along := Machine.invariant_along (I := PoolInv apis s₀.blk) (fun s call h out => by
    refine (pool_step h call ?_).1
    cases call with
    | get zSize => trivial
    | put tMemory => exact .inl out) start disciplined
  refine along.mono fun s call here => ?_
  cases call with
  | put tMemory => trivial
  | get zSize =>
    intro serves
    have same := here.1.same
    rw [AllocBlock.SamePool] at same
    have count := here.1.pool.length
    rw [here.1.ready.freeStack_length] at count
    have room := serves.2.2
    rw [same]
    dsimp only
    split_ifs with empty
    · rw [started.alignment, started.size]
      rcases fits with divides | single
      · exact Nat.dvd_mul_left_of_dvd divides _
      · have first : s.blk.zUsed = 0 := by
          have length : s.blk.zLength = 1 := by
            rw [same]
            exact started.length.trans single
          omega
        rw [first, Nat.zero_mul]
        exact Nat.dvd_zero _
    · omega

/-- A Get that finds a block hands it out, if `Reset` succeeds. -/
theorem BlockReady.get_handed (h : BlockReady apis b) {zSize : Nat} (serves : b.Serves zSize) {w : ω}
    (reset : ((apis b.ptPointerApi).reset.deref b.next w).1 = .success) :
    ∃ b' w', memoryBlkGet apis b zSize w = some (⟨.success, b.next⟩, b', w') ∧
      Moved b b.ready.1 b.ready.2.dropLast b' := by
  obtain ⟨r, found, outcome⟩ := memoryBlkGet_spec h zSize w
  cases outcome with
  | refused short failed => exact absurd serves short
  | handed serves reset moved => exact ⟨_, _, found, moved⟩
  | returned serves failed _ moved => exact absurd reset failed

/-- Before the first call, with two blocks whose size the alignment does not divide: the second
one handed out is misaligned. -/
theorem PoolAny.second_misaligned {s : PoolState ω} (h : PoolAny apis b₀ s)
    (fresh : s.blk.zUsed = 0 ∧ s.blk.zFreed = 0) (odd : ¬s.blk.zAlignment ∣ s.blk.zTypeSize)
    (several : 2 ≤ s.blk.zLength) (zeroes : ∀ p w, ((apis s.blk.ptPointerApi).reset.deref p w).1 = .success) :
    ¬(poolMachine apis).Along (GetReturnable apis) s [.get s.blk.zTypeSize, .get s.blk.zTypeSize] := by
  rintro ⟨_, second, _⟩
  obtain ⟨none_, empty⟩ := fresh
  have positive := Nat.pos_of_ne_zero h.ready.config.typeSize
  obtain ⟨b₁, w₁, first, moved⟩ :=
    h.ready.get_handed ⟨positive, Nat.le_refl _, .inl (by omega)⟩ (zeroes s.blk.next s.world)
  have ready : s.blk.ready = (1, [s.blk.block 0]) := by rw [AllocBlock.ready, if_pos empty, none_]
  rw [ready] at moved
  have next := h.step (.get s.blk.zTypeSize)
  simp only [poolMachine, first, if_true] at next second
  obtain ⟨_, freed, carved⟩ := moved.freeStack
  have same : b₁.ptPointerApi = s.blk.ptPointerApi ∧ b₁.zTypeSize = s.blk.zTypeSize ∧
      b₁.zAlignment = s.blk.zAlignment ∧ b₁.zLength = s.blk.zLength := by
    cases moved
    exact ⟨rfl, rfl, rfl, rfl⟩
  have ready₁ : b₁.ready = (2, [b₁.block 1]) := by
    rw [AllocBlock.ready, if_pos (show b₁.zFreed = 0 from freed), carved]
  obtain ⟨b₂, w₂, handed, _⟩ := next.ready.get_handed (w := w₁)
    ⟨positive, Nat.le_of_eq same.2.1.symm, .inl (by dsimp only; omega)⟩ (by rw [same.1]; exact zeroes _ _)
  have aligned := (second b₁.next (by simp only [poolMachine, handed])).1
  rw [AllocBlock.next, ready₁] at aligned
  have divides := (next.ready.config.block_aligned_iff 1).1 aligned
  rw [Nat.one_mul] at divides
  dsimp only at divides
  rw [same.2.1, same.2.2.1] at divides
  exact odd divides

/-- From an accepted initialisation on, whatever the clients do: while every Get is sound,
every block handed out is aligned and can be put back. For clients that put back only what they
hold this is so if the alignment divides the block size or there is one block only; otherwise
the second block handed out is misaligned. -/
theorem blocks_returnable (apis : PointerApis ω) (ptPointerApi pvMemory zTypeSize zAlignment zLength : Nat)
    (metadata : List Nat) (handler : FailureHandler ω) (w : ω) (storage : metadata.length = zLength)
    (accepted : (blockInit apis ptPointerApi pvMemory (Ref.to metadata) zTypeSize zAlignment zLength
      handler w).1 = .success)
    (calls : List PoolCall) :
    let s₀ := poolStart apis ptPointerApi pvMemory metadata zTypeSize zAlignment zLength handler w
    ((poolMachine apis).Along GetSound s₀ calls → (poolMachine apis).Along (GetReturnable apis) s₀ calls) ∧
    (zAlignment ∣ zTypeSize ∨ zLength = 1 → (poolMachine apis).Along PutsOutstanding s₀ calls →
      (poolMachine apis).Along (GetReturnable apis) s₀ calls) ∧
    (¬zAlignment ∣ zTypeSize → 2 ≤ zLength →
      (∀ p w, ((apis ptPointerApi).reset.deref p w).1 = .success) →
      ¬(poolMachine apis).Along (GetReturnable apis) s₀ [.get zTypeSize, .get zTypeSize]) := by
  intro s₀
  have start : PoolAny apis s₀.blk s₀ := poolStart_any storage accepted
  have nothing : s₀.blk.freeStack = [] := poolStart_freeStack
  have aligned : s₀.blk.Aligned := by
    intro a member
    rw [nothing] at member
    exact absurd member List.not_mem_nil
  have returnable : (poolMachine apis).Along GetSound s₀ calls →
      (poolMachine apis).Along (GetReturnable apis) s₀ calls := by
    intro sound
    have along := Machine.invariant_along (I := fun s => PoolAny apis s₀.blk s ∧ s.blk.Aligned)
      (fun s call here sound => ⟨here.1.step call, here.1.step_aligned here.2 call sound⟩) ⟨start, aligned⟩ sound
    exact along.mono fun s call here => here.1.1.get_returnable here.1.2 call here.2
  refine ⟨returnable, ?_, ?_⟩
  · exact fun fits disciplined => returnable (getSound_of_dvd storage accepted fits disciplined)
  · intro odd several zeroes
    have started : s₀.blk.Started ptPointerApi zTypeSize zAlignment zLength := poolStart_started
    have misaligned := start.second_misaligned ⟨started.used, started.freed⟩
    rw [started.api, started.alignment, started.size, started.length] at misaligned
    exact misaligned odd several zeroes

/-- Two blocks of four bytes at address 16, to be aligned to eight. -/
abbrev oddPool (script : List Status) : PoolState (List Status) :=
  poolStart scriptedApis 1 16 [0, 0] 4 8 2 ⟨false, fun _ _ w => w⟩ script

/-- The two blocks of `pairPool` are handed out, and the first is put back and reused. -/
theorem blocks_returnable_pair :
    (poolMachine scriptedApis).Along (GetReturnable scriptedApis) (pairPool [])
      [.get 8, .get 3, .put ⟨1, 16, 8, 8⟩, .get 1] :=
  (blocks_returnable scriptedApis 1 16 8 8 2 [0, 0] ⟨false, fun _ _ w => w⟩ [] rfl (by decide)
    [.get 8, .get 3, .put ⟨1, 16, 8, 8⟩, .get 1]).1
    ⟨fun _ => by decide, fun _ => by decide, trivial, fun _ => by decide, trivial⟩

/-- The second block of `oddPool` lies at 20, and a Put of it is refused. -/
theorem block_misaligned :
    (blockInit scriptedApis 1 16 (Ref.to [0, 0]) 4 8 2 ⟨false, fun _ _ w => w⟩ []).1 = .success ∧
      ¬(poolMachine scriptedApis).Along (GetReturnable scriptedApis) (oddPool []) [.get 4, .get 4] ∧
      ((poolMachine scriptedApis).run (oddPool []) [.get 4, .get 4]).outstanding =
        [⟨1, 20, 4, 8⟩, ⟨1, 16, 4, 8⟩] ∧
      ((poolMachine scriptedApis).run (oddPool []) [.get 4, .get 4, .put ⟨1, 20, 4, 8⟩]).outstanding =
        [⟨1, 20, 4, 8⟩, ⟨1, 16, 4, 8⟩] := by
  refine ⟨by decide, ?_, by decide, by decide⟩
  rintro ⟨_, second, _⟩
  have odd := (second ⟨1, 20, 4, 8⟩ rfl).1
  exact absurd odd (by decide)

end LibJuno.Memory
