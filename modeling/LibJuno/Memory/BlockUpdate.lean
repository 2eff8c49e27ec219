import LibJuno.Memory.BlockReturn

/-!
# Blocks that are resized

`Juno_MemoryBlkUpdate` writes the size of a descriptor and holds it against the block size
only; `Juno_MemoryBlkPut` goes through `JunoMemory_PointerVerify`, which takes no descriptor of
size 0. Here are runs of all three functions, in which a client holds its descriptor with the
size it has been given last, and when such a descriptor can be put back.
-/

namespace LibJuno.Memory

variable {ω : Type} {apis : PointerApis ω} {b b₀ : AllocBlock ω}

/-- An Update writes the size if it fits the block, and otherwise nothing. -/
theorem memoryBlkUpdate_spec (h : BlockReady apis b) (p : Pointer) (zNewSize : Nat) (w : ω) :
    ∃ tStatus w', memoryBlkUpdate apis b (Ref.to p) zNewSize w =
        some (tStatus, b, if zNewSize ≤ b.zTypeSize then { p with zSize := zNewSize } else p, w') ∧
      (tStatus = .success ↔ zNewSize ≤ b.zTypeSize) := by
  simp only [memoryBlkUpdate, blockVerify_eq h.config, Ref.to, ne_eq, not_true_eq_false, if_false, if_true]
  rcases Nat.lt_or_ge b.zTypeSize zNewSize with large | fits
  · rw [if_pos large, if_neg (Nat.not_le.2 large)]
    exact ⟨_, _, rfl, iff_of_false (by decide) (Nat.not_le.2 large)⟩
  · rw [if_neg (Nat.not_lt.2 fits), if_pos fits]
    exact ⟨_, _, rfl, iff_of_true rfl fits⟩

/-! ## Runs with Update -/

inductive ResizeCall where
  | pool (call : PoolCall)
  | update (tMemory : Pointer) (zNewSize : Nat)

/-- One call. An Update is given a descriptor, and the client that holds it has it as the call
leaves it. -/
def resizeMachine (apis : PointerApis ω) : Machine (PoolState ω) ResizeCall (Option PoolReply) where
  step s call :=
    match call with
    | .pool call => (poolMachine apis).step s call
    | .update tMemory zNewSize =>
      match memoryBlkUpdate apis s.blk (Ref.to tMemory) zNewSize s.world with
      | none => (none, s)
      | some (tStatus, blk, tMemory', w) =>
        (some (.returned tStatus tMemory'), ⟨blk, s.outstanding.replace tMemory tMemory', w⟩)

theorem mem_replace {α : Type} [DecidableEq α] {l : List α} {a b x : α} (member : x ∈ l.replace a b) :
    x ∈ l ∨ x = b ∧ a ∈ l := by
  induction l with
  | nil => exact absurd member List.not_mem_nil
  | cons y l ih =>
    by_cases here : a = y
    · subst here
      rw [List.replace_cons_self] at member
      rcases List.mem_cons.1 member with rfl | member
      · exact .inr ⟨rfl, List.mem_cons_self ..⟩
      · exact .inl (List.mem_cons_of_mem _ member)
    · rw [List.replace_cons, beq_eq_false_iff_ne.2 here] at member
      rcases List.mem_cons.1 member with rfl | member
      · exact .inl (List.mem_cons_self ..)
      · rcases ih member with member | ⟨new, found⟩
        · exact .inl (List.mem_cons_of_mem _ member)
        · exact .inr ⟨new, List.mem_cons_of_mem _ found⟩

/-- One call keeps what holds in every run. -/
theorem PoolAny.resize_step {s : PoolState ω} (h : PoolAny apis b₀ s) (call : ResizeCall) :
    PoolAny apis b₀ ((resizeMachine apis).step s call).2 := by
  cases call with
  | pool call => exact h.step call
  | update tMemory zNewSize =>
    obtain ⟨tStatus, w', updated, _⟩ := memoryBlkUpdate_spec h.ready tMemory zNewSize s.world
    simp only [resizeMachine, updated]
    refine ⟨h.ready, h.same, h.inside, h.distinct, fun p member => ?_⟩
    rcases mem_replace member with member | ⟨rfl, found⟩
    · exact h.out p member
    · have held := h.out tMemory found
      split_ifs <;> exact held

/-! ## One descriptor -/

/-- Calls of Update on the one descriptor. -/
def updateMachine (apis : PointerApis ω) : Machine (AllocBlock ω × Pointer × ω) Nat (Option Status) where
  step s zNewSize :=
    match memoryBlkUpdate apis s.1 (Ref.to s.2.1) zNewSize s.2.2 with
    | none => (none, s)
    | some (tStatus, r) => (some tStatus, r)

/-- An Update that succeeds changes the size to the one it was given, which fits the block, and
one that fails changes nothing; neither changes the allocator. -/
def UpdateSound (apis : PointerApis ω) (s : AllocBlock ω × Pointer × ω) (zNewSize : Nat) : Prop :=
  let r := (updateMachine apis).step s zNewSize
  r.2.1 = s.1 ∧
    (r.1 = some .success → r.2.2.1 = { s.2.1 with zSize := zNewSize } ∧ zNewSize ≤ s.1.zTypeSize) ∧
    (r.1 ≠ some .success → r.2.2.1 = s.2.1)

/-- The address can be handed out (again). -/
def AllocBlock.Available (b : AllocBlock ω) (pvAddr : Nat) : Prop :=
  pvAddr ∈ b.freeStack ∨ ∃ k, b.zUsed ≤ k ∧ k < b.zLength ∧ pvAddr = b.block k

/-- The descriptor after the Updates, with what else they leave. -/
def updated (apis : PointerApis ω) (s : PoolState ω) (p : Pointer) (sizes : List Nat) : AllocBlock ω × Pointer × ω :=
  (updateMachine apis).run (s.blk, p, s.world) sizes

/-- Every Update on the descriptor is sound, and a Put behind them, `Reset` succeeding, takes
the block back. -/
def ResizeSound (apis : PointerApis ω) (s : PoolState ω) (p : Pointer) (sizes : List Nat) : Prop :=
  let t := updated apis s p sizes
  (updateMachine apis).Along (UpdateSound apis) (s.blk, p, s.world) sizes ∧
    (((apis t.2.1.ptApi).reset.deref t.2.1 t.2.2).1 = .success →
      ∃ b' p' w', memoryBlkPut apis t.1 (Ref.to t.2.1) t.2.2 = some (.success, b', p', w') ∧
        b'.Available p.pvAddr)

/-- The size that was requested last among those that fit a block, or else the present one. -/
def lastSize (zTypeSize zSize : Nat) (sizes : List Nat) : Nat :=
  (sizes.filter (· ≤ zTypeSize)).getLastD zSize

theorem lastSize_cons (zTypeSize zSize zNewSize : Nat) (sizes : List Nat) :
    lastSize zTypeSize zSize (zNewSize :: sizes) =
      lastSize zTypeSize (if zNewSize ≤ zTypeSize then zNewSize else zSize) sizes := by
  unfold lastSize
  split_ifs with fits
  · rw [List.filter_cons_of_pos (by simpa using fits), List.getLastD_cons]
  · rw [List.filter_cons_of_neg (by simpa using fits)]

theorem update_step (h : BlockReady apis b) (p : Pointer) (w : ω) (zNewSize : Nat) :
    UpdateSound apis (b, p, w) zNewSize ∧ ∃ w', ((updateMachine apis).step (b, p, w) zNewSize).2 =
      (b, if zNewSize ≤ b.zTypeSize then { p with zSize := zNewSize } else p, w') := by
  obtain ⟨tStatus, w', updated, success⟩ := memoryBlkUpdate_spec h p zNewSize w
  simp only [UpdateSound, updateMachine, updated, Option.some.injEq, success, ne_eq, true_and]
  refine ⟨⟨fun fits => ⟨if_pos fits, fits⟩, fun large => if_neg large⟩, w', rfl⟩

/-- The Updates are sound, and leave the descriptor with the last size that fits. -/
theorem updates_run (h : BlockReady apis b) (p : Pointer) (w : ω) (sizes : List Nat) :
    (updateMachine apis).Along (UpdateSound apis) (b, p, w) sizes ∧
      ∃ w', (updateMachine apis).run (b, p, w) sizes =
        (b, { p with zSize := lastSize b.zTypeSize p.zSize sizes }, w') := by
  induction sizes generalizing p w with
  | nil => exact ⟨trivial, w, rfl⟩
  | cons zNewSize sizes ih =>
    obtain ⟨sound, w₁, step⟩ := update_step h p w zNewSize
    have rest := ih (if zNewSize ≤ b.zTypeSize then { p with zSize := zNewSize } else p) w₁
    rw [← step] at rest
    obtain ⟨along, w₂, run⟩ := rest
    refine ⟨⟨sound, along⟩, w₂, run.trans ?_⟩
    rw [lastSize_cons]
    split_ifs <;> rfl

/-! ## Putting it back -/

/-- The block at the address can be taken back, from a descriptor of this size. -/
def AllocBlock.Releasable (b : AllocBlock ω) (pvAddr zSize : Nat) : Prop :=
  zSize ≠ 0 ∧ pvAddr % b.zAlignment = 0 ∧ b.zUsed ≠ 0 ∧ pvAddr ∉ b.freeStack ∧
    (pvAddr = b.block (b.zUsed - 1) ∨ b.zFreed < b.zLength)

/-- A Put succeeds exactly if it is not refused, and makes the block available. -/
theorem BlockReady.put_available_iff (h : BlockReady apis b) (p : Pointer) (w : ω) :
    (∃ b' p' w', memoryBlkPut apis b (Ref.to p) w = some (.success, b', p', w') ∧ b'.Available p.pvAddr) ↔
      ¬PutRefuses apis b p w := by
  obtain ⟨r, found, outcome⟩ := memoryBlkPut_spec h p w
  have used := h.used
  rw [found]
  cases outcome with
  | refused refuses failed =>
    refine iff_of_false ?_ (not_not.2 refuses)
    rintro ⟨b', p', w', same, _⟩
    exact failed (congrArg Prod.fst (Option.some.inj same))
  | shrunk taken last moved =>
    have inUse : b.zUsed ≠ 0 := fun none_ => taken (.inr (.inr (.inl (.inr (.inr none_)))))
    refine iff_of_true ⟨_, _, _, rfl, .inr ⟨b.zUsed - 1, ?_⟩⟩ taken
    cases moved
    exact ⟨Nat.le_refl _, by dsimp only; omega, last⟩
  | shelved taken other moved =>
    refine iff_of_true ⟨_, _, _, rfl, .inl ?_⟩ taken
    rw [moved.freeStack.1]
    exact List.mem_append_right _ (List.mem_singleton.2 rfl)

/-- The Updates are always sound; the Put behind them is taken exactly if the block can be
taken back from a descriptor of the last size. -/
theorem PoolAny.resizeSound_iff {s : PoolState ω} (h : PoolAny apis b₀ s) {p : Pointer} (member : p ∈ s.outstanding)
    (sizes : List Nat) :
    let t := updated apis s p sizes
    ResizeSound apis s p sizes ↔ (((apis t.2.1.ptApi).reset.deref t.2.1 t.2.2).1 = .success →
      s.blk.Releasable p.pvAddr (lastSize s.blk.zTypeSize p.zSize sizes)) := by
  obtain ⟨along, w', run⟩ := updates_run h.ready p s.world sizes
  obtain ⟨api, within⟩ := h.out p member
  intro t
  have left : t = (s.blk, { p with zSize := lastSize s.blk.zTypeSize p.zSize sizes }, w') := run
  have sound : ResizeSound apis s p sizes ↔ (((apis t.2.1.ptApi).reset.deref t.2.1 t.2.2).1 = .success →
      ∃ b' p' w'', memoryBlkPut apis t.1 (Ref.to t.2.1) t.2.2 = some (.success, b', p', w'') ∧
        b'.Available p.pvAddr) := and_iff_right along
  rw [sound]
  refine forall_congr' fun zeroed => ?_
  rw [left] at zeroed ⊢
  have here : PoolAny apis b₀ ⟨s.blk, s.outstanding, w'⟩ := ⟨h.ready, h.same, h.inside, h.distinct, h.out⟩
  have taken := here.put_taken_iff (p := { p with zSize := lastSize s.blk.zTypeSize p.zSize sizes }) api within zeroed
  exact (h.ready.put_available_iff _ w').trans taken

/-! ## Clients that put back what they hold -/

/-- Every Put is given the address of a descriptor that is out; an Update may be given any. -/
def HoldersOnly (s : PoolState ω) : ResizeCall → Prop
  | .pool call => PutsOutstanding s call
  | .update _ _ => True

/-- The state in which every client has the size back that it was given first. -/
def PoolState.restored (s : PoolState ω) : PoolState ω :=
  { s with outstanding := s.outstanding.map fun p => { p with zSize := s.blk.zTypeSize } }

theorem PoolState.restored_designates {s : PoolState ω} {pvAddr : Nat} :
    s.restored.Designates pvAddr ↔ s.Designates pvAddr := by
  simp [PoolState.Designates, PoolState.restored]

theorem map_replace {α β : Type} [DecidableEq α] {f : α → β} {l : List α} {a b : α} (same : f a = f b) :
    (l.replace a b).map f = l.map f := by
  induction l with
  | nil => rfl
  | cons y l ih =>
    by_cases here : a = y
    · subst here
      rw [List.replace_cons_self, List.map_cons, List.map_cons, same]
    · rw [List.replace_cons, beq_eq_false_iff_ne.2 here, List.map_cons, List.map_cons, ih]

/-- Get and Put do not look at the sizes that the clients hold. -/
theorem PoolState.restored_step {s : PoolState ω} (h : BlockReady apis s.blk) (call : PoolCall) :
    ((poolMachine apis).step s call).2.restored = ((poolMachine apis).step s.restored call).2 := by
  cases call with
  | get zSize =>
    obtain ⟨r, found, outcome⟩ := memoryBlkGet_spec h zSize s.world
    simp only [poolMachine, PoolState.restored, found]
    cases outcome with
    | refused short failed => rw [if_neg failed, if_neg failed]
    | handed serves reset moved =>
      cases moved
      rfl
    | returned serves reset failed moved =>
      cases moved
      rw [if_neg failed, if_neg failed]
  | put tMemory =>
    obtain ⟨r, found, outcome⟩ := memoryBlkPut_spec h tMemory s.world
    have erased : ∀ zSize : Nat, (s.outstanding.eraseP (·.pvAddr = tMemory.pvAddr)).map
        (fun p => { p with zSize := zSize }) =
        (s.outstanding.map fun p => { p with zSize := zSize }).eraseP (·.pvAddr = tMemory.pvAddr) := by
      intro zSize
      rw [List.eraseP_map]
      rfl
    simp only [poolMachine, PoolState.restored, found]
    cases outcome with
    | refused refuses failed => rw [if_neg failed, if_neg failed]
    | shrunk taken last moved =>
      cases moved
      rw [if_pos rfl, if_pos rfl, erased]
    | shelved taken other moved =>
      cases moved
      rw [if_pos rfl, if_pos rfl, erased]

/-- While clients put back only what they hold, the pool stays divided, whatever sizes they
hold. -/
theorem PoolInv.resize_step {s : PoolState ω} (h : PoolInv apis b₀ s.restored) (call : ResizeCall)
    (holders : HoldersOnly s call) : PoolInv apis b₀ ((resizeMachine apis).step s call).2.restored := by
  cases call with
  | pool call =>
    have kept : PoolKept apis s.restored call := by
      cases call with
      | get zSize => trivial
      | put tMemory => exact .inl (PoolState.restored_designates.2 holders)
    have ready : BlockReady apis s.blk := h.ready
    have step : ((resizeMachine apis).step s (.pool call)).2.restored = _ := PoolState.restored_step ready call
    rw [step]
    exact (pool_step h call kept).1
  | update tMemory zNewSize =>
    obtain ⟨tStatus, w', updated, _⟩ := memoryBlkUpdate_spec h.ready tMemory zNewSize s.world
    have same : s.restored.blk = s.blk := rfl
    rw [same] at updated
    simp only [resizeMachine, updated, PoolState.restored]
    rw [map_replace (by split_ifs <;> rfl)]
    exact ⟨h.ready, h.same, h.pool, h.whole⟩

/-- A block that a client holds is in use and not on the free stack, which has room for it. -/
theorem PoolInv.held {s : PoolState ω} (h : PoolInv apis b₀ s.restored) {p : Pointer} (member : p ∈ s.outstanding) :
    s.blk.zUsed ≠ 0 ∧ p.pvAddr ∉ s.blk.freeStack ∧ s.blk.zFreed < s.blk.zLength := by
  have designated : s.restored.Designates p.pvAddr := PoolState.restored_designates.2 ⟨p, member, rfl⟩
  have out := PoolState.designates_iff.1 designated
  have some_ := List.length_pos_of_mem out
  have count := h.pool.length
  have used := h.ready.used
  rw [h.ready.freeStack_length] at count
  have parts : s.restored.blk = s.blk := rfl
  rw [parts] at count used
  refine ⟨by omega, fun freed => ?_, by omega⟩
  exact h.pool.disjoint h.ready.config.block_injective out freed

/-- From an accepted initialisation on: Updates of a descriptor that a client holds are sound
and the block can be put back behind them exactly if `Reset` fails there or the block can be
taken back from a descriptor of the last size that fits. If clients put back only what they
hold, that means that this size is not 0 and the block is aligned. -/
theorem resized_freed_iff (apis : PointerApis ω) (ptPointerApi pvMemory zTypeSize zAlignment zLength : Nat)
    (metadata : List Nat) (handler : FailureHandler ω) (w : ω) (storage : metadata.length = zLength)
    (accepted : (blockInit apis ptPointerApi pvMemory (Ref.to metadata) zTypeSize zAlignment zLength
      handler w).1 = .success)
    (calls : List ResizeCall) :
    let s₀ := poolStart apis ptPointerApi pvMemory metadata zTypeSize zAlignment zLength handler w
    let s := (resizeMachine apis).run s₀ calls
    ∀ p ∈ s.outstanding, ∀ sizes,
      let t := updated apis s p sizes
      let zSize := lastSize s.blk.zTypeSize p.zSize sizes
      (ResizeSound apis s p sizes ↔
        (((apis t.2.1.ptApi).reset.deref t.2.1 t.2.2).1 = .success → s.blk.Releasable p.pvAddr zSize)) ∧
      ((resizeMachine apis).Along HoldersOnly s₀ calls → (ResizeSound apis s p sizes ↔
        (((apis t.2.1.ptApi).reset.deref t.2.1 t.2.2).1 = .success →
          zSize ≠ 0 ∧ p.pvAddr % s.blk.zAlignment = 0))) := by
  intro s₀ s p member sizes t zSize
  have any : PoolAny apis s₀.blk s := by
    have start : PoolAny apis s₀.blk s₀ := poolStart_any storage accepted
    have always := Machine.along_of (M := resizeMachine apis) (P := fun _ _ => True) (fun _ _ => trivial) s₀ calls
    exact Machine.invariant (I := PoolAny apis s₀.blk) (fun s call h _ => h.resize_step call) start always
  have general := any.resizeSound_iff member sizes
  refine ⟨general, fun holders => general.trans (forall_congr' fun _ => ?_)⟩
  have divided : PoolInv apis s₀.blk s.restored := by
    have start : PoolInv apis s₀.blk s₀.restored := poolStart_inv storage accepted
    exact Machine.invariant (I := fun s => PoolInv apis s₀.blk s.restored)
      (fun s call h holders => h.resize_step call holders) start holders
  obtain ⟨inUse, fresh, room⟩ := divided.held member
  constructor
  · exact fun able => ⟨able.1, able.2.1⟩
  · exact fun able => ⟨able.1, able.2, inUse, fresh, .inr room⟩

/-- A block of `pairPool` is resized, once too large, and put back. -/
theorem resized_freed_iff_pair :
    ResizeSound scriptedApis ((resizeMachine scriptedApis).run (pairPool []) [.pool (.get 8), .pool (.get 8)])
      ⟨1, 16, 8, 8⟩ [5, 9, 0, 3] :=
  ((resized_freed_iff scriptedApis 1 16 8 8 2 [0, 0] ⟨false, fun _ _ w => w⟩ [] rfl (by decide)
    [.pool (.get 8), .pool (.get 8)] ⟨1, 16, 8, 8⟩ (by decide) [5, 9, 0, 3]).2
    ⟨trivial, trivial, trivial⟩).2 fun _ => ⟨by decide, by decide⟩

/-- A block that is resized to 0 cannot be put back: the Update succeeds, the Put does not. -/
theorem resized_to_zero :
    let s := (resizeMachine scriptedApis).run (pairPool []) [.pool (.get 8), .pool (.get 8)]
    ⟨1, 16, 8, 8⟩ ∈ s.outstanding ∧
      (memoryBlkUpdate scriptedApis s.blk (Ref.to ⟨1, 16, 8, 8⟩) 0 s.world).map (·.1) = some .success ∧
      ¬ResizeSound scriptedApis s ⟨1, 16, 8, 8⟩ [0] := by
  refine ⟨by decide, by decide, ?_⟩
  rintro ⟨_, freed⟩
  obtain ⟨b', p', w', put, _⟩ := freed (by decide)
  have status := (congrArg (Option.map Prod.fst) put).trans (show _ = some Status.success from rfl)
  exact absurd status (by decide)

end LibJuno.Memory
