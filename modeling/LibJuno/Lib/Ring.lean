import Mathlib.Data.List.Basic
import Mathlib.Logic.Function.Basic

/-!
# Windows and piles of cells

`window f cap start len` reads `len` cells of a ring of `cap` cells from `start` on.
Writing the cell after the window and growing it appends one item (`window_snoc`);
moving the start past the first cell drops it (`window_cons`), and what then happens
to the dropped cell is not seen (`window_update_dropped`). `pile f len` is the first
`len` cells, the last one on top.
-/

namespace Ring

variable {α : Type*}

/-- `len` cells of the ring `f` of `cap` cells, from `start` on. -/
def window (f : Nat → α) (cap start len : Nat) : List α :=
  (List.range len).map fun j => f ((start + j) % cap)

@[simp] theorem window_length (f : Nat → α) (cap start len : Nat) :
    (window f cap start len).length = len := by
  simp [window]

@[simp] theorem window_zero (f : Nat → α) (cap start : Nat) : window f cap start 0 = [] := rfl

theorem window_congr {f g : Nat → α} {cap : Nat} (pos : 0 < cap) (agree : ∀ i, i < cap → f i = g i)
    (start len : Nat) : window f cap start len = window g cap start len := by
  unfold window
  apply List.map_congr_left
  intro j _
  exact agree _ (Nat.mod_lt _ pos)

/-- The start of the window counts modulo the ring. -/
theorem window_mod (f : Nat → α) (cap start len : Nat) :
    window f cap (start % cap) len = window f cap start len := by
  simp [window, Nat.mod_add_mod]

/-- The first cell of the window and the window behind it. -/
theorem window_cons (f : Nat → α) (cap start len : Nat) :
    window f cap start (len + 1) = f (start % cap) :: window f cap (start + 1) len := by
  simp only [window, List.range_succ_eq_map, List.map_cons, List.map_map, Nat.add_zero]
  congr 1
  apply List.map_congr_left
  intro j _
  simp only [Function.comp, Nat.succ_eq_add_one]
  congr 2
  omega

/-- Two cells of a ring at a distance below `cap` are different cells. -/
theorem mod_ne {cap start i j : Nat} (less : i < j) (near : j - i < cap) :
    (start + i) % cap ≠ (start + j) % cap := by
  intro same
  have divides := Nat.dvd_of_mod_eq_zero (Nat.sub_mod_eq_zero_of_mod_eq same.symm)
  have bound := Nat.le_of_dvd (by omega) divides
  omega

/-- Writing the cell after the window and growing the window appends the item. -/
theorem window_snoc (f : Nat → α) (x : α) {cap start len : Nat} (room : len < cap) :
    window (Function.update f ((start + len) % cap) x) cap start (len + 1) =
      window f cap start len ++ [x] := by
  simp only [window, List.range_succ, List.map_append, List.map_cons, List.map_nil,
    Function.update_self]
  congr 1
  apply List.map_congr_left
  intro j member
  have lower := List.mem_range.1 member
  exact Function.update_of_ne (mod_ne lower (by omega)) _ _

/-- A write to the cell in front of the window is not seen. -/
theorem window_update_dropped (f : Nat → α) (x : α) {cap start len : Nat} (fits : len < cap) :
    window (Function.update f (start % cap) x) cap (start + 1) len = window f cap (start + 1) len := by
  unfold window
  apply List.map_congr_left
  intro j member
  have lower := List.mem_range.1 member
  have other : (start + 0) % cap ≠ (start + (j + 1)) % cap := mod_ne (by omega) (by omega)
  rw [Nat.add_zero] at other
  rw [show start + 1 + j = start + (j + 1) by omega]
  exact Function.update_of_ne other.symm _ _

/-- The first `len` cells, the last one first. -/
def pile (f : Nat → α) : Nat → List α
  | 0 => []
  | len + 1 => f len :: pile f len

@[simp] theorem pile_length (f : Nat → α) (len : Nat) : (pile f len).length = len := by
  induction len with
  | zero => rfl
  | succ len ih => rw [pile, List.length_cons, ih]

theorem pile_congr {f g : Nat → α} {len : Nat} (agree : ∀ i, i < len → f i = g i) :
    pile f len = pile g len := by
  induction len with
  | zero => rfl
  | succ len ih => rw [pile, pile, agree len (by omega), ih fun i hi => agree i (by omega)]

/-- A pile that is not empty, by its top. -/
theorem pile_top (f : Nat → α) {len : Nat} (some_ : 0 < len) :
    pile f len = f (len - 1) :: pile f (len - 1) := by
  obtain ⟨len, rfl⟩ : ∃ n, len = n + 1 := ⟨len - 1, by omega⟩
  rfl

/-- Writing the cell above the pile and growing the pile puts one item on top. -/
theorem pile_push (f : Nat → α) (x : α) (len : Nat) :
    pile (Function.update f len x) (len + 1) = x :: pile f len := by
  rw [pile, Function.update_self]
  congr 1
  exact pile_congr fun i hi => Function.update_of_ne (by omega) _ _

end Ring
