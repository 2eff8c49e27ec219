import LibJuno.Ds.Heap

/-!
# Building a heap, and what a sift reports

`JunoDs_Heap_Heapify` sinks one item after the other and ignores what each sift but the last
returns. A sift that reaches an item without room for two children in the array reports that
as out of bounds, although it has nothing left to do there: the index functions hold a child
index against the capacity, not the length. So the contents after a sift do not depend on its
status, and its status depends on where the item comes to rest.
-/

namespace LibJuno.Ds

open Memory

variable {ω α : Type} {M : ItemMemory ω α} {H : HeapArray M}

/-- The loop of `heapHeapify` sinks all items up to `i`, the root's last. -/
theorem heapHeapifyLoop_spec (reliable : H.Reliable) {h : HeapRoot ω} (inv : HeapInv H h) {i : Nat}
    (inside : i < h.zLength) (w : ω) :
    let below := HeapOrder.siftFrom H.Above h.zLength i (H.at_ w)
    ∃ w', heapHeapifyLoop h i w = (restStatus H (HeapOrder.sift H.Above h.zLength h.zLength below 0).1, w') ∧
      Lays H (HeapOrder.sift H.Above h.zLength h.zLength below 0).2 w w' := by
  have length := inv.length
  induction i generalizing w with
  | zero => exact heapSiftDown_spec reliable inv inside w
  | succ i ih =>
    intro below
    obtain ⟨w₁, sunk, lays₁⟩ := heapSiftDown_spec reliable inv inside w
    obtain ⟨w₂, looped, lays₂⟩ := ih (by omega) w₁
    have agree := HeapOrder.siftFrom_congr H.Above length lays₁.slots (show i < h.zLength by omega)
    obtain ⟨rest, cells⟩ := HeapOrder.sift_congr H.Above length agree (show 0 < h.zLength by omega)
    rw [rest] at looped
    refine ⟨w₂, ?_, fun k hk => (lays₂.slots k hk).trans (cells k hk), fun a outside => ?_⟩
    · rw [heapHeapifyLoop, sunk]
      exact looped
    · rw [lays₂.frame a outside, lays₁.frame a outside]

/-- `heapHeapify` builds a heap of the items there are. -/
theorem heapHeapify_spec (reliable : H.Reliable) {h : HeapRoot ω} (inv : HeapInv H h) (some_ : 0 < h.zLength)
    (w : ω) :
    ∃ w', heapHeapify h w = (restStatus H (HeapOrder.build H.Above h.zLength (H.at_ w)).1, h, w') ∧
      Lays H (HeapOrder.build H.Above h.zLength (H.at_ w)).2 w w' := by
  have length := inv.length
  have less := HeapOrder.parent_lt some_
  obtain ⟨w', looped, lays⟩ := heapHeapifyLoop_spec reliable inv less w
  refine ⟨w', ?_, lays⟩
  simp only [heapHeapify, inv.verify (show 0 < H.zCapacity by omega), inv.parent some_ (Nat.le_refl _), looped,
    ne_eq, not_true_eq_false, if_false]
  rw [if_neg (by omega), if_neg (by omega)]
  rfl

/-- Heapify makes a heap of anything, whatever it returns. -/
theorem heapify_builds (H : HeapArray M) (reliable : H.Reliable) {h : HeapRoot ω} (inv : HeapInv H h)
    (some_ : 1 ≤ h.zLength) (w : ω) :
    let r := heapHeapify h w
    (HeapOrder.cells (H.at_ r.2.2) h.zLength).Perm (HeapOrder.cells (H.at_ w) h.zLength) ∧
      (∀ i, 1 ≤ i → i < h.zLength → H.above (H.at_ r.2.2 ((i - 1) / 2)) (H.at_ r.2.2 i) = true) ∧
      (∀ i, h.zLength ≤ i → i < H.zCapacity → H.at_ r.2.2 i = H.at_ w i) ∧ r.2.1 = h := by
  intro r
  have length := inv.length
  obtain ⟨w', built, lays⟩ := heapHeapify_spec reliable inv some_ w
  obtain ⟨items, behind⟩ := HeapOrder.build_moves H.Above h.zLength (H.at_ w) some_
  have slots : ∀ k, k < h.zLength → H.at_ w' k = _ := fun k hk => lays.slots k (by omega)
  have ordered := (HeapOrder.build_ordered (H.at_ w) some_).congr slots
  simp only [r, built]
  refine ⟨?_, fun i pos inside => ordered i pos inside (Nat.zero_le _), fun i hi inside => ?_, trivial⟩
  · rw [HeapOrder.cells_congr slots]
    exact items
  · rw [lays.slots i inside, behind i hi]

/-- A heap over `plainHeap` with the given number of its slots in use. -/
def plainHeapRoot (zLength : Nat) : HeapRoot (Nat → Nat) :=
  ⟨Ref.to tHeapApi, Ref.to plainHeap.pointerApi, Ref.to plainHeap.root, zLength⟩

theorem plainHeapRoot_inv {zLength : Nat} (fits : zLength ≤ 3) : HeapInv plainHeap (plainHeapRoot zLength) :=
  ⟨rfl, rfl, rfl, fits⟩

/-- Memory with three numbers in the slots of `plainHeap`. -/
def plainHeapWorld (x y z : Nat) : Nat → Nat :=
  fun a => if a = 2 then x else if a = 3 then y else if a = 4 then z else 0

/-- Three items out of order are built to a heap. -/
theorem heapify_builds_plain :
    let r := heapHeapify (plainHeapRoot 3) (plainHeapWorld 4 7 9)
    (HeapOrder.cells (plainHeap.at_ r.2.2) 3).Perm (HeapOrder.cells (plainHeap.at_ (plainHeapWorld 4 7 9)) 3) ∧
      (∀ i, 1 ≤ i → i < 3 → plainHeap.above (plainHeap.at_ r.2.2 ((i - 1) / 2)) (plainHeap.at_ r.2.2 i) = true) ∧
      (∀ i, 3 ≤ i → i < plainHeap.zCapacity → plainHeap.at_ r.2.2 i = plainHeap.at_ (plainHeapWorld 4 7 9) i) ∧
      r.2.1 = plainHeapRoot 3 :=
  heapify_builds plainHeap plainHeap_reliable (plainHeapRoot_inv (Nat.le_refl 3)) (by decide) _

/-! ## Statuses -/

theorem heapSiftDown_success_iff (reliable : H.Reliable) {h : HeapRoot ω} (inv : HeapInv H h) {iStart : Nat}
    (inside : iStart < h.zLength) (w : ω) :
    (heapSiftDown h iStart w).1 = .success ↔
      2 * (HeapOrder.sift H.Above h.zLength h.zLength (H.at_ w) iStart).1 + 2 ≤ H.zCapacity := by
  obtain ⟨w', sunk, _⟩ := heapSiftDown_spec reliable inv inside w
  rw [sunk]
  exact restStatus_eq_success

theorem heapHeapify_success_iff (reliable : H.Reliable) {h : HeapRoot ω} (inv : HeapInv H h)
    (some_ : 0 < h.zLength) (w : ω) :
    (heapHeapify h w).1 = .success ↔
      2 * (HeapOrder.build H.Above h.zLength (H.at_ w)).1 + 2 ≤ H.zCapacity := by
  obtain ⟨w', built, _⟩ := heapHeapify_spec reliable inv some_ w
  rw [built]
  exact restStatus_eq_success

theorem heapPop_success_iff (reliable : H.Reliable) {h : HeapRoot ω} (inv : HeapInv H h) (c : H.Client)
    (some_ : 0 < h.zLength) (w : ω) :
    (heapPop M.apis h c.toPointer w).1 = .success ↔ h.zLength = 1 ∨
      2 * (HeapOrder.sift H.Above (h.zLength - 1) (h.zLength - 1)
        (H.at_ w ∘ Equiv.swap (h.zLength - 1) 0) 0).1 + 2 ≤ H.zCapacity := by
  have length := inv.length
  obtain ⟨w₁, _, rest, call⟩ := heapPop_removed reliable inv c w some_
  rcases Nat.eq_zero_or_pos (h.zLength - 1) with single | more
  · rw [call, if_neg (by omega)]
    exact iff_of_true rfl (.inl (by omega))
  · obtain ⟨w₂, sunk, _⟩ :=
      heapSiftDown_spec reliable (inv.resize (show h.zLength - 1 ≤ H.zCapacity by omega)) more w₁
    obtain ⟨same, _⟩ := HeapOrder.sift_congr H.Above (Nat.le_refl _) rest more
    have several : h.zLength ≠ 1 := by omega
    rw [call, if_pos more, sunk, or_iff_right several, ← same]
    exact restStatus_eq_success

/-- A heap that fills at most half of its array reports no error. -/
theorem heap_success_of_half (reliable : H.Reliable) {h : HeapRoot ω} (inv : HeapInv H h)
    (some_ : 0 < h.zLength) (half : 2 * h.zLength ≤ H.zCapacity) (w : ω) :
    (∀ iStart, iStart < h.zLength → (heapSiftDown h iStart w).1 = .success) ∧
      (heapHeapify h w).1 = .success ∧
      ∀ c : H.Client, (heapPop M.apis h c.toPointer w).1 = .success := by
  refine ⟨fun iStart inside => ?_, ?_, fun c => ?_⟩
  · have rest := (HeapOrder.sift_moves H.Above h.zLength (H.at_ w) h.zLength inside).1
    exact (heapSiftDown_success_iff reliable inv inside w).2 (by omega)
  · have rest := (HeapOrder.sift_moves H.Above h.zLength
      (HeapOrder.siftFrom H.Above h.zLength (HeapOrder.parent h.zLength) (H.at_ w)) h.zLength some_).1
    refine (heapHeapify_success_iff reliable inv some_ w).2 ?_
    unfold HeapOrder.build
    omega
  · apply (heapPop_success_iff reliable inv c some_ w).2
    rcases Nat.eq_zero_or_pos (h.zLength - 1) with single | more
    · exact .inl (by omega)
    · have rest := (HeapOrder.sift_moves H.Above (h.zLength - 1) (H.at_ w ∘ Equiv.swap (h.zLength - 1) 0)
        (h.zLength - 1) more).1
      exact .inr (by omega)

/-- With no callback failing, a sift, a Heapify and a Pop report success exactly if the last
item that sinks comes to rest where the array has room for two children. So they do in a heap
that fills at most half of its array. -/
theorem heap_success_iff (H : HeapArray M) (reliable : H.Reliable) {h : HeapRoot ω} (inv : HeapInv H h)
    (some_ : 1 ≤ h.zLength) (w : ω) :
    (∀ iStart, iStart < h.zLength → ((heapSiftDown h iStart w).1 = .success ↔
      2 * (HeapOrder.sift H.Above h.zLength h.zLength (H.at_ w) iStart).1 + 2 ≤ H.zCapacity)) ∧
      ((heapHeapify h w).1 = .success ↔
        2 * (HeapOrder.build H.Above h.zLength (H.at_ w)).1 + 2 ≤ H.zCapacity) ∧
      (∀ c : H.Client, ((heapPop M.apis h c.toPointer w).1 = .success ↔ h.zLength = 1 ∨
        2 * (HeapOrder.sift H.Above (h.zLength - 1) (h.zLength - 1)
          (H.at_ w ∘ Equiv.swap (h.zLength - 1) 0) 0).1 + 2 ≤ H.zCapacity)) ∧
      (2 * h.zLength ≤ H.zCapacity →
        (∀ iStart, iStart < h.zLength → (heapSiftDown h iStart w).1 = .success) ∧
        (heapHeapify h w).1 = .success ∧ ∀ c : H.Client, (heapPop M.apis h c.toPointer w).1 = .success) :=
  ⟨fun _ inside => heapSiftDown_success_iff reliable inv inside w,
    heapHeapify_success_iff reliable inv some_ w, fun c => heapPop_success_iff reliable inv c some_ w,
    fun half => heap_success_of_half reliable inv some_ half w⟩

/-- A root that stays at the root is no error. -/
theorem heap_success_iff_plain : (heapSiftDown (plainHeapRoot 3) 0 (plainHeapWorld 9 4 7)).1 = .success :=
  ((heap_success_iff plainHeap plainHeap_reliable (plainHeapRoot_inv (Nat.le_refl 3)) (by decide) _).1 0
    (by decide)).2 (by decide)

/-- With three slots and no callback failing, a sift from the last of three items, a Heapify
of two whose greater is the second, and a Pop that leaves these two are out of bounds. -/
theorem heap_false_error :
    plainHeap.Reliable ∧ (∀ zLength, zLength ≤ 3 → HeapInv plainHeap (plainHeapRoot zLength)) ∧
      (heapSiftDown (plainHeapRoot 3) 2 (plainHeapWorld 9 8 7)).1 = .oobError ∧
      (heapHeapify (plainHeapRoot 2) (plainHeapWorld 7 8 0)).1 = .oobError ∧
      (heapPop (plainMemory Nat).apis (plainHeapRoot 3) plainHeapVariable.toPointer
        (plainHeapWorld 9 8 7)).1 = .oobError := by
  refine ⟨plainHeap_reliable, fun _ fits => plainHeapRoot_inv fits, ?_, ?_, ?_⟩
  · decide
  · decide
  · decide

end LibJuno.Ds
