import Mathlib.Data.List.Induction

/-!
# Items with the items before them

A fold that appends, for each item, something that depends on the items before it makes the
list of these contributions. Each one can then be compared on its own.
-/

namespace Prefixed

variable {α β : Type*}

/-- The items, each with the items before it, `before` being there already. -/
def since (before : List α) : List α → List (List α × α)
  | [] => []
  | x :: xs => (before, x) :: since (before ++ [x]) xs

/-- Every item with the items before it. -/
abbrev all (xs : List α) : List (List α × α) := since [] xs

theorem since_append (before xs ys : List α) :
    since before (xs ++ ys) = since before xs ++ since (before ++ xs) ys := by
  induction xs generalizing before with
  | nil => simp [since]
  | cons x xs ih => simp [since, ih]

theorem all_concat (xs : List α) (x : α) : all (xs ++ [x]) = all xs ++ [(xs, x)] := by
  rw [all, since_append]
  rfl

/-- What stands before a list stands before each of its items. -/
theorem since_eq_map (before xs : List α) :
    since before xs = (all xs).map fun x => (before ++ x.1, x.2) := by
  induction xs using List.reverseRecOn with
  | nil => rfl
  | append_singleton xs x ih =>
    rw [all_concat, since_append, ih, List.map_append]
    rfl

theorem all_append (xs ys : List α) :
    all (xs ++ ys) = all xs ++ (all ys).map fun y => (xs ++ y.1, y.2) := by
  rw [all, since_append, List.nil_append, since_eq_map xs ys]

theorem mem_all {xs before : List α} {x : α} :
    (before, x) ∈ all xs ↔ ∃ after, xs = before ++ x :: after := by
  induction xs using List.reverseRecOn with
  | nil => simp [since]
  | append_singleton xs y ih =>
    rw [all_concat, List.mem_append, ih, List.mem_singleton, Prod.mk.injEq]
    constructor
    · rintro (⟨after, rfl⟩ | ⟨rfl, rfl⟩)
      · exact ⟨after ++ [y], by simp⟩
      · exact ⟨[], rfl⟩
    · rintro ⟨after, split⟩
      rcases List.eq_nil_or_concat after with rfl | ⟨after, z, rfl⟩
      · exact .inr ((List.append_inj' split rfl).imp Eq.symm fun same => (List.cons.inj same).1.symm)
      · refine .inl ⟨after, ?_⟩
        rw [List.concat_eq_append, ← List.cons_append, ← List.append_assoc] at split
        exact (List.append_inj' split rfl).1

/-- Where the items have distinct keys, the key tells what stands before an item. -/
theorem before_unique {κ : Type*} (key : α → κ) {xs ys xs' ys' : List α} {x x' : α}
    (distinct : ((xs ++ x :: ys).map key).Nodup) (split : xs ++ x :: ys = xs' ++ x' :: ys')
    (same : key x = key x') : xs = xs' ∧ x = x' := by
  induction xs generalizing xs' with
  | nil =>
    cases xs' with
    | nil => exact ⟨rfl, (List.cons.inj split).1⟩
    | cons z zs =>
      obtain ⟨rfl, rest⟩ := List.cons.inj split
      rw [List.nil_append, List.map_cons, List.nodup_cons, rest] at distinct
      exact absurd (List.mem_map.2 ⟨x', by simp, same.symm⟩) distinct.1
  | cons z zs ih =>
    cases xs' with
    | nil =>
      obtain ⟨rfl, rest⟩ := List.cons.inj split
      rw [List.cons_append, List.map_cons, List.nodup_cons] at distinct
      exact absurd (List.mem_map.2 ⟨x, by simp, same⟩) distinct.1
    | cons z' zs' =>
      obtain ⟨rfl, rest⟩ := List.cons.inj split
      rw [List.cons_append, List.map_cons, List.nodup_cons] at distinct
      obtain ⟨rfl, rfl⟩ := ih distinct.2 rest
      exact ⟨rfl, rfl⟩

/-- The items before an item satisfy what all items do. -/
theorem of_mem_all {xs : List α} {p : List α × α} (member : p ∈ all xs) : ∀ x ∈ p.1 ++ [p.2], x ∈ xs := by
  obtain ⟨after, rfl⟩ := mem_all.1 (show (p.1, p.2) ∈ all xs from member)
  intro x there
  simp only [List.mem_append, List.mem_cons, List.not_mem_nil, or_false] at there ⊢
  tauto

/-- A fold in which each item appends to a list makes the list of what the items append. -/
theorem foldl_appends {σ : Type*} (step : σ → α → σ) (read : σ → List β)
    (more : List α × α → List β) (s : σ)
    (one : ∀ before x, read (step (before.foldl step s) x) =
      read (before.foldl step s) ++ more (before, x)) (xs : List α) :
    read (xs.foldl step s) = read s ++ (all xs).flatMap more := by
  induction xs using List.reverseRecOn with
  | nil => simp [since]
  | append_singleton xs x ih =>
    rw [List.foldl_append, List.foldl_cons, List.foldl_nil, one, ih, all_concat, List.flatMap_append,
      List.append_assoc, List.flatMap_singleton]

end Prefixed
