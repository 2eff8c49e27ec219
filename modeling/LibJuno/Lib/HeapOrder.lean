import Mathlib.Data.List.Nodup
import Mathlib.Data.List.Perm.Basic
import Mathlib.Logic.Equiv.Basic
import Mathlib.Order.Defs.Unbundled

/-!
# Binary heaps in an array of cells

The first `len` cells of `f : Nat → α`, read as a binary tree: cell `i` has the parent
`(i - 1) / 2`. They are a heap from `lo` on if each parent at or after `lo` may stay above
its children. Two algorithms restore the order by exchanging a cell with a neighbour:
rising (`Rising`, towards the root) and sinking (`Sinking`, towards the leaves). Each is
given by what it keeps while one place is out of order; an exchange keeps the items
(`cells_swap`). `sift` is the second as a function of the cells, and `build` makes a heap of
any cells by sinking one after the other, the last parent first.
-/

namespace HeapOrder

variable {α : Type*}

/-- The first `len` cells. -/
def cells (f : Nat → α) (len : Nat) : List α := (List.range len).map f

@[simp] theorem cells_length (f : Nat → α) (len : Nat) : (cells f len).length = len := by
  simp [cells]

theorem cells_succ (f : Nat → α) (len : Nat) : cells f (len + 1) = cells f len ++ [f len] := by
  simp [cells, List.range_succ]

theorem cells_congr {f g : Nat → α} {len : Nat} (agree : ∀ i, i < len → f i = g i) :
    cells f len = cells g len := by
  apply List.map_congr_left
  intro i member
  exact agree i (List.mem_range.1 member)

theorem mem_cells {f : Nat → α} {len : Nat} {x : α} : x ∈ cells f len ↔ ∃ i, i < len ∧ f i = x := by
  simp [cells]

/-- An exchange of two of the cells keeps the items. -/
theorem cells_swap (f : Nat → α) {len i j : Nat} (hi : i < len) (hj : j < len) :
    (cells (f ∘ Equiv.swap i j) len).Perm (cells f len) := by
  unfold cells
  rw [← List.map_map]
  apply List.Perm.map
  rw [List.perm_ext_iff_of_nodup (List.nodup_range.map (Equiv.injective _)) List.nodup_range]
  intro k
  simp only [List.mem_map, List.mem_range]
  constructor
  · rintro ⟨k', inside, rfl⟩
    rw [Equiv.swap_apply_def]
    split_ifs <;> assumption
  · intro inside
    refine ⟨Equiv.swap i j k, ?_, Equiv.swap_apply_self i j k⟩
    rw [Equiv.swap_apply_def]
    split_ifs <;> assumption

/-- The parent of a cell. -/
def parent (i : Nat) : Nat := (i - 1) / 2

theorem parent_lt {i : Nat} (h : 0 < i) : parent i < i := by
  unfold parent
  omega

/-- A cell after the root is the left or the right child of its parent. -/
theorem child_cases {i : Nat} (h : 0 < i) : i = 2 * parent i + 1 ∨ i = 2 * parent i + 2 := by
  unfold parent
  omega

theorem parent_left (i : Nat) : parent (2 * i + 1) = i := by
  unfold parent
  omega

theorem parent_right (i : Nat) : parent (2 * i + 2) = i := by
  unfold parent
  omega

variable {above : α → α → Prop}

/-- Each parent at or after `lo` may stay above its children. -/
def Ordered (above : α → α → Prop) (f : Nat → α) (len lo : Nat) : Prop :=
  ∀ j, 0 < j → j < len → lo ≤ parent j → above (f (parent j)) (f j)

theorem Ordered.congr {f g : Nat → α} {len lo : Nat} (h : Ordered above f len lo)
    (agree : ∀ i, i < len → g i = f i) : Ordered above g len lo := by
  intro j pos inside low
  have less := parent_lt pos
  rw [agree _ inside, agree _ (by omega)]
  exact h j pos inside low

theorem Ordered.shorten {f : Nat → α} {len len' lo : Nat} (h : Ordered above f len lo)
    (shorter : len' ≤ len) : Ordered above f len' lo :=
  fun j pos inside low => h j pos (by omega) low

/-- All is in order but for the child `i` under its parent, and the children of `i` are in
order under that parent. -/
structure Rising (above : α → α → Prop) (f : Nat → α) (len i : Nat) : Prop where
  other : ∀ j, 0 < j → j < len → j ≠ i → above (f (parent j)) (f j)
  grand : 0 < i → ∀ j, 0 < j → j < len → parent j = i → above (f (parent i)) (f j)

/-- All from `lo` on is in order but for the parent `i` over its children, and these are in
order under the parent of `i`. -/
structure Sinking (above : α → α → Prop) (f : Nat → α) (len lo i : Nat) : Prop where
  other : ∀ j, 0 < j → j < len → lo ≤ parent j → parent j ≠ i → above (f (parent j)) (f j)
  grand : 0 < i → lo ≤ parent i → ∀ j, 0 < j → j < len → parent j = i → above (f (parent i)) (f j)

theorem Rising.congr {f g : Nat → α} {len i : Nat} (h : Rising above f len i)
    (agree : ∀ k, k < len → g k = f k) : Rising above g len i where
  other j pos inside ne := by
    have less := parent_lt pos
    rw [agree _ inside, agree _ (by omega)]
    exact h.other j pos inside ne
  grand pos j pos' inside isChild := by
    have less := parent_lt pos
    have less' := parent_lt pos'
    rw [agree _ inside, agree _ (by omega)]
    exact h.grand pos j pos' inside isChild

/-- A cell put behind a heap is the one to rise. -/
theorem Ordered.rising_last {f : Nat → α} {len : Nat} (h : Ordered above f len 0) :
    Rising above f (len + 1) len where
  other j pos inside ne := h j pos (by omega) (Nat.zero_le _)
  grand pos j pos' inside isChild := by
    have less := parent_lt pos'
    omega

/-- A new root is the one to sink. -/
theorem Ordered.sinking_root {f g : Nat → α} {len : Nat} (h : Ordered above f len 0)
    (agree : ∀ i, 0 < i → i < len → g i = f i) : Sinking above g len 0 0 where
  other j pos inside low ne := by
    have less := parent_lt pos
    rw [agree j pos inside, agree (parent j) (by omega) (by omega)]
    exact h j pos inside low
  grand pos := absurd pos (Nat.lt_irrefl 0)

/-- Any cell over a heap is the one to sink. -/
theorem Ordered.sinking_next {f : Nat → α} {len i : Nat} (h : Ordered above f len (i + 1)) :
    Sinking above f len i i where
  other j pos inside low ne := h j pos inside (by omega)
  grand pos low := by
    have less := parent_lt pos
    omega

theorem Rising.settled {f : Nat → α} {len i : Nat} (h : Rising above f len i)
    (fits : 0 < i → above (f (parent i)) (f i)) : Ordered above f len 0 := by
  intro j pos inside _
  rcases eq_or_ne j i with rfl | ne
  · exact fits pos
  · exact h.other j pos inside ne

theorem Sinking.settled {f : Nat → α} {len lo i : Nat} (h : Sinking above f len lo i)
    (fits : ∀ j, 0 < j → j < len → parent j = i → above (f i) (f j)) : Ordered above f len lo := by
  intro j pos inside low
  rcases eq_or_ne (parent j) i with isParent | ne
  · rw [isParent]
    exact fits j pos inside isParent
  · exact h.other j pos inside low ne

/-- A parent is exchanged with the child that may stay above it and above its sibling, and
sinks on from there. -/
theorem Sinking.swap {f : Nat → α} {len lo i c : Nat} (h : Sinking above f len lo i) (low : lo ≤ i)
    (pos : 0 < c) (inside : c < len) (isChild : parent c = i) (leads : above (f c) (f i))
    (first : ∀ j, 0 < j → j < len → parent j = i → above (f c) (f j)) :
    Sinking above (f ∘ Equiv.swap c i) len lo c := by
  have less := parent_lt pos
  have here : (f ∘ Equiv.swap c i) c = f i := by simp
  have top : (f ∘ Equiv.swap c i) i = f c := by simp
  have rest : ∀ k, k ≠ c → k ≠ i → (f ∘ Equiv.swap c i) k = f k := by
    intro k ne ne'
    simp [Equiv.swap_apply_of_ne_of_ne ne ne']
  constructor
  · intro j pos' inside' low' ne
    have less' := parent_lt pos'
    rcases eq_or_ne j c with rfl | other
    · rwa [isChild, here, top]
    rcases eq_or_ne (parent j) i with beside | ne'
    · rw [beside, top, rest j other (by omega)]
      exact first j pos' inside' beside
    rw [rest (parent j) ne ne']
    rcases eq_or_ne j i with rfl | ne''
    · rw [top]
      exact h.grand pos' low' c pos inside isChild
    · rw [rest j other ne'']
      exact h.other j pos' inside' low' ne'
  · intro _ _ j pos' inside' below
    have less' := parent_lt pos'
    rw [isChild, top, rest j (by omega) (by omega)]
    have old := h.other j pos' inside' (by omega) (by omega)
    rwa [below] at old

section Preorder

variable [IsTrans α above]

theorem Ordered.rising {f : Nat → α} {len : Nat} (h : Ordered above f len 0) {i : Nat} (inside : i < len) :
    Rising above f len i where
  other j pos inside' _ := h j pos inside' (Nat.zero_le _)
  grand pos j pos' inside' isParent := by
    have upper := h i pos inside (Nat.zero_le _)
    have lower := h j pos' inside' (Nat.zero_le _)
    rw [isParent] at lower
    exact trans_of above upper lower

/-- The root may stay above every cell. -/
theorem Ordered.root [Std.Total above] {f : Nat → α} {len : Nat} (h : Ordered above f len 0) :
    ∀ i, i < len → above (f 0) (f i) := by
  intro i
  induction i using Nat.strongRecOn with
  | ind i ih =>
    intro inside
    rcases Nat.eq_zero_or_pos i with rfl | pos
    · exact (Std.Total.total (f 0) (f 0)).elim id id
    · have less := parent_lt pos
      exact trans_of above (ih (parent i) less (by omega)) (h i pos inside (Nat.zero_le _))

/-- The root exchanged with the last cell leaves a heap exactly if the last may stay above
the root. -/
theorem Ordered.exchange_iff [Std.Total above] {f : Nat → α} {len : Nat} (h : Ordered above f len 0)
    (some_ : 0 < len) :
    Ordered above (f ∘ Equiv.swap (len - 1) 0) len 0 ↔ above (f (len - 1)) (f 0) := by
  constructor
  · intro exchanged
    have root := exchanged.root (len - 1) (by omega)
    simpa using root
  intro leads j pos inside _
  have less := parent_lt pos
  have below : ∀ i, i < len → above (f (len - 1)) ((f ∘ Equiv.swap (len - 1) 0) i) := by
    intro i hi
    rw [Function.comp, Equiv.swap_apply_def]
    split_ifs with last first
    · exact leads
    · exact (Std.Total.total (f (len - 1)) (f (len - 1))).elim id id
    · exact trans_of above leads (h.root i hi)
  rcases Nat.eq_zero_or_pos (parent j) with isRoot | inner
  · have top : (f ∘ Equiv.swap (len - 1) 0) (parent j) = f (len - 1) := by simp [isRoot]
    rw [top]
    exact below j inside
  · have stays : (f ∘ Equiv.swap (len - 1) 0) (parent j) = f (parent j) := by
      simp [Equiv.swap_apply_of_ne_of_ne (show parent j ≠ len - 1 by omega) (show parent j ≠ 0 by omega)]
    rw [stays]
    have old := h j pos inside (Nat.zero_le _)
    rcases eq_or_ne j (len - 1) with rfl | other
    · exact trans_of above old (below _ inside)
    · simpa [Equiv.swap_apply_of_ne_of_ne other (show j ≠ 0 by omega)] using old

/-- A child that may not stay under its parent is exchanged with it, and rises on from there. -/
theorem Rising.swap {f : Nat → α} {len i : Nat} (h : Rising above f len i) (pos : 0 < i) (inside : i < len)
    (leads : above (f i) (f (parent i))) :
    Rising above (f ∘ Equiv.swap i (parent i)) len (parent i) := by
  have less := parent_lt pos
  have here : (f ∘ Equiv.swap i (parent i)) i = f (parent i) := by simp
  have top : (f ∘ Equiv.swap i (parent i)) (parent i) = f i := by simp
  have rest : ∀ k, k ≠ i → k ≠ parent i → (f ∘ Equiv.swap i (parent i)) k = f k := by
    intro k ne ne'
    simp [Equiv.swap_apply_of_ne_of_ne ne ne']
  have upper : 0 < parent i → above (f (parent (parent i))) (f (parent i)) :=
    fun pos' => h.other (parent i) pos' (by omega) (by omega)
  constructor
  · intro j pos' inside' ne
    have less' := parent_lt pos'
    rcases eq_or_ne j i with rfl | other
    · rwa [here, top]
    rw [rest j other ne]
    rcases eq_or_ne (parent j) i with below | ne'
    · rw [below, here]
      exact h.grand pos j pos' inside' below
    rcases eq_or_ne (parent j) (parent i) with beside | ne''
    · rw [beside, top]
      have old := h.other j pos' inside' other
      rw [beside] at old
      exact trans_of above leads old
    · rw [rest _ ne' ne'']
      exact h.other j pos' inside' other
  · intro posParent j pos' inside' isChild
    have less' := parent_lt posParent
    rw [rest (parent (parent i)) (by omega) (by omega)]
    rcases eq_or_ne j i with rfl | other
    · rw [here]
      exact upper posParent
    · have less'' := parent_lt pos'
      rw [rest j other (by omega)]
      have old := h.other j pos' inside' other
      rw [isChild] at old
      exact trans_of above (upper posParent) old

end Preorder

/-! ## Sinking as a function -/

section Sift

variable (above) [DecidableRel above] (len : Nat)

/-- The child `c`, if there is such a cell and the cell `i` may not stay above it. -/
def prefer (f : Nat → α) (i c : Nat) : Nat := if c < len ∧ ¬above (f i) (f c) then c else i

/-- The cell `i` or the child of it that may stay above the others, the left child being
tried first. -/
def leader (f : Nat → α) (i : Nat) : Nat :=
  prefer above len f (prefer above len f i (2 * i + 1)) (2 * i + 2)

/-- The item in cell `i` sinks, at most `n` levels deep: where it comes to rest, and the
cells then. -/
def sift : Nat → (Nat → α) → Nat → Nat × (Nat → α)
  | 0, f, i => (i, f)
  | n + 1, f, i =>
    if leader above len f i = i then (i, f)
    else sift n (f ∘ Equiv.swap (leader above len f i) i) (leader above len f i)

/-- The items in the cells from `i` down to 1 sink, one after the other. -/
def siftFrom : Nat → (Nat → α) → Nat → α
  | 0, f => f
  | i + 1, f => siftFrom i (sift above len len f (i + 1)).2

/-- The items in all cells that may have a child sink, the root's last: where that comes to
rest, and the cells then. -/
def build (f : Nat → α) : Nat × (Nat → α) := sift above len len (siftFrom above len (parent len) f) 0

variable (f : Nat → α)

theorem prefer_cases (i c : Nat) : prefer above len f i c = i ∨ prefer above len f i c = c ∧ c < len := by
  unfold prefer
  split_ifs with child
  · exact .inr ⟨rfl, child.1⟩
  · exact .inl rfl

/-- The leader is the cell itself or a child of it. -/
theorem leader_cases (i : Nat) : leader above len f i = i ∨
    0 < leader above len f i ∧ leader above len f i < len ∧ parent (leader above len f i) = i := by
  rcases prefer_cases above len f (prefer above len f i (2 * i + 1)) (2 * i + 2) with second | ⟨second, child⟩
  · rw [leader, second]
    rcases prefer_cases above len f i (2 * i + 1) with first | ⟨first, child⟩
    · exact .inl first
    · rw [first]
      exact .inr ⟨by omega, child, parent_left i⟩
  · rw [leader, second]
    exact .inr ⟨by omega, child, parent_right i⟩

/-- A sift exchanges cells of the heap, and the item comes to rest in one of them. -/
theorem sift_moves (n : Nat) {i : Nat} (inside : i < len) :
    (sift above len n f i).1 < len ∧ (cells (sift above len n f i).2 len).Perm (cells f len) ∧
      ∀ k, len ≤ k → (sift above len n f i).2 k = f k := by
  induction n generalizing f i with
  | zero => exact ⟨inside, .refl _, fun _ _ => rfl⟩
  | succ n ih =>
    rw [sift]
    split_ifs with rests
    · exact ⟨inside, .refl _, fun _ _ => rfl⟩
    obtain ⟨_, inside', _⟩ := (leader_cases above len f i).resolve_left rests
    obtain ⟨rest, items, behind⟩ := ih (f ∘ Equiv.swap (leader above len f i) i) inside'
    refine ⟨rest, items.trans (cells_swap f inside' inside), fun k hk => ?_⟩
    rw [behind k hk, Function.comp, Equiv.swap_apply_of_ne_of_ne (by omega) (by omega)]

theorem siftFrom_moves {i : Nat} (inside : i < len) :
    (cells (siftFrom above len i f) len).Perm (cells f len) ∧
      ∀ k, len ≤ k → siftFrom above len i f k = f k := by
  induction i generalizing f with
  | zero => exact ⟨.refl _, fun _ _ => rfl⟩
  | succ i ih =>
    obtain ⟨_, items, behind⟩ := sift_moves above len f len inside
    obtain ⟨items', behind'⟩ := ih (sift above len len f (i + 1)).2 (by omega)
    exact ⟨items'.trans items, fun k hk => (behind' k hk).trans (behind k hk)⟩

/-- `build` exchanges cells of the heap. -/
theorem build_moves (some_ : 0 < len) :
    (cells (build above len f).2 len).Perm (cells f len) ∧
      ∀ k, len ≤ k → (build above len f).2 k = f k := by
  obtain ⟨items, behind⟩ := siftFrom_moves above len f (parent_lt some_)
  obtain ⟨_, items', behind'⟩ := sift_moves above len (siftFrom above len (parent len) f) len some_
  exact ⟨items'.trans items, fun k hk => (behind' k hk).trans (behind k hk)⟩

section Congr

variable {len f} {g : Nat → α}

theorem prefer_congr (agree : ∀ k, k < len → g k = f k) {i : Nat} (inside : i < len) (c : Nat) :
    prefer above len g i c = prefer above len f i c := by
  unfold prefer
  by_cases child : c < len
  · rw [agree i inside, agree c child]
  · rw [if_neg (fun here => child here.1), if_neg (fun here => child here.1)]

theorem leader_congr (agree : ∀ k, k < len → g k = f k) {i : Nat} (inside : i < len) :
    leader above len g i = leader above len f i := by
  have inside' : prefer above len f i (2 * i + 1) < len := by
    rcases prefer_cases above len f i (2 * i + 1) with same | ⟨same, child⟩
    · exact same.symm ▸ inside
    · exact same.symm ▸ child
  rw [leader, prefer_congr above agree inside, prefer_congr above agree inside', leader]

/-- Cells that agree up to some bound behind the heap still do after a sift. -/
theorem sift_congr {cap n i : Nat} (bound : len ≤ cap) (agree : ∀ k, k < cap → g k = f k)
    (inside : i < len) :
    (sift above len n g i).1 = (sift above len n f i).1 ∧
      ∀ k, k < cap → (sift above len n g i).2 k = (sift above len n f i).2 k := by
  induction n generalizing f g i with
  | zero => exact ⟨rfl, agree⟩
  | succ n ih =>
    rw [sift, sift, leader_congr above (fun k hk => agree k (by omega)) inside]
    split_ifs with rests
    · exact ⟨rfl, agree⟩
    obtain ⟨_, inside', _⟩ := (leader_cases above len f i).resolve_left rests
    refine ih (fun k hk => ?_) inside'
    rw [Function.comp, Function.comp, Equiv.swap_apply_def]
    split_ifs
    · exact agree _ (by omega)
    · exact agree _ (by omega)
    · exact agree _ hk

theorem siftFrom_congr {cap i : Nat} (bound : len ≤ cap) (agree : ∀ k, k < cap → g k = f k)
    (inside : i < len) :
    ∀ k, k < cap → siftFrom above len i g k = siftFrom above len i f k := by
  induction i generalizing f g with
  | zero => exact agree
  | succ i ih => exact ih (sift_congr above bound agree inside).2 (by omega)

end Congr

section Preorder

variable [Std.Total above]

theorem prefer_above (i c : Nat) : above (f (prefer above len f i c)) (f i) ∧
    (c < len → above (f (prefer above len f i c)) (f c)) := by
  have reflexive : ∀ x, above x x := fun x => (Std.Total.total x x).elim id id
  unfold prefer
  split_ifs with child
  · exact ⟨(Std.Total.total (f i) (f c)).resolve_left child.2, fun _ => reflexive _⟩
  · refine ⟨reflexive _, fun inside => ?_⟩
    by_contra worse
    exact child ⟨inside, worse⟩

variable [IsTrans α above]

/-- The leader may stay above the cell and above each of its children. -/
theorem leader_above (i : Nat) : above (f (leader above len f i)) (f i) ∧
    ∀ j, 0 < j → j < len → parent j = i → above (f (leader above len f i)) (f j) := by
  obtain ⟨stays, left⟩ := prefer_above above len f i (2 * i + 1)
  obtain ⟨stays', right⟩ := prefer_above above len f (prefer above len f i (2 * i + 1)) (2 * i + 2)
  refine ⟨trans_of above stays' stays, ?_⟩
  rintro j pos inside rfl
  rcases child_cases pos with isLeft | isRight
  · have item : f j = f (2 * parent j + 1) := congrArg f isLeft
    rw [item]
    exact trans_of above stays' (left (by omega))
  · have item : f j = f (2 * parent j + 2) := congrArg f isRight
    rw [item]
    exact right (by omega)

variable {above len f}

/-- A sift of the one cell that may be out of order leaves none. -/
theorem sift_ordered {n lo i : Nat} (low : lo ≤ i) (inside : i < len) (fuel : len - i ≤ n)
    (sinking : Sinking above f len lo i) : Ordered above (sift above len n f i).2 len lo := by
  induction n generalizing f i with
  | zero => omega
  | succ n ih =>
    obtain ⟨stays, children⟩ := leader_above above len f i
    rw [sift]
    split_ifs with rests
    · rw [rests] at children
      exact sinking.settled children
    · obtain ⟨pos, inside', isChild⟩ := (leader_cases above len f i).resolve_left rests
      have less := parent_lt pos
      exact ih (by omega) inside' (by omega) (sinking.swap low pos inside' isChild stays children)

/-- Sinking from some cell on down to 1 puts all but the root in order. -/
theorem siftFrom_ordered {i : Nat} (inside : i < len) (ordered : Ordered above f len (i + 1)) :
    Ordered above (siftFrom above len i f) len 1 := by
  induction i generalizing f with
  | zero => exact ordered
  | succ i ih => exact ih (by omega) (sift_ordered (Nat.le_refl _) inside (by omega) ordered.sinking_next)

/-- `build` makes a heap of any cells: no cell behind the last parent has a child. -/
theorem build_ordered (f : Nat → α) (some_ : 0 < len) : Ordered above (build above len f).2 len 0 := by
  have leaves : Ordered above f len (parent len + 1) := by
    intro j pos inside low
    unfold parent at low
    omega
  have rest := siftFrom_ordered (parent_lt some_) leaves
  exact sift_ordered (Nat.le_refl 0) some_ (Nat.sub_le _ _) rest.sinking_next

end Preorder

end Sift

end HeapOrder
