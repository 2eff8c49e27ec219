import Mathlib.Data.List.Basic

/-!
# What a loop accumulates

A loop over a list carries a state. When one step keeps a property, the loop keeps it; when a
step leaves a condition true exactly if it was true and the item is in order, the condition
stands for all items; and when a step makes it true exactly if it was or the item is a hit,
it stands for some item. The same for loops that may fail.
-/

namespace Accumulate

variable {σ α : Type*} {items : List α} {s s' : σ}

section Loops

variable {f : σ → α → σ} {P : σ → Prop} {Q : α → Prop}

theorem keeps (step : ∀ s a, a ∈ items → P s → P (f s a)) (start : P s) : P (items.foldl f s) := by
  induction items generalizing s with
  | nil => exact start
  | cons a items ih =>
    apply ih
    · exact fun s b member => step s b (List.mem_cons_of_mem a member)
    · exact step s a List.mem_cons_self start

theorem all (step : ∀ s a, a ∈ items → (P (f s a) ↔ P s ∧ Q a)) :
    P (items.foldl f s) ↔ P s ∧ ∀ a ∈ items, Q a := by
  induction items generalizing s with
  | nil => simp
  | cons a items ih =>
    rw [List.foldl_cons, ih fun s b member => step s b (List.mem_cons_of_mem a member),
      step s a List.mem_cons_self, List.forall_mem_cons, and_assoc]

theorem any (step : ∀ s a, P (f s a) ↔ P s ∨ Q a) : P (items.foldl f s) ↔ P s ∨ ∃ a ∈ items, Q a := by
  induction items generalizing s with
  | nil => simp
  | cons a items ih =>
    rw [List.foldl_cons, ih, step, List.exists_mem_cons_iff, or_assoc]

end Loops

section Numbered

variable {Q : α → Prop}

/-- A loop over numbered items that does not look at the numbers. -/
theorem forall_mem_numbered {xs : List α} : (∀ x ∈ xs.zipIdx, Q x.1) ↔ ∀ x ∈ xs, Q x := by
  have firsts : xs.zipIdx.map Prod.fst = xs := by simp
  conv => rhs; rw [← firsts]
  exact List.forall_mem_map.symm

theorem exists_mem_numbered {xs : List α} : (∃ x ∈ xs.zipIdx, Q x.1) ↔ ∃ x ∈ xs, Q x := by
  have firsts : xs.zipIdx.map Prod.fst = xs := by simp
  conv => rhs; rw [← firsts]
  simp only [List.mem_map, exists_exists_and_eq_and]

end Numbered

section Failing

variable {f : σ → α → Option σ} {P : σ → Prop} {Q : α → Prop}

theorem keepsM (step : ∀ s a s', a ∈ items → P s → f s a = some s' → P s') (start : P s)
    (folded : items.foldlM f s = some s') : P s' := by
  induction items generalizing s with
  | nil =>
    obtain rfl := Option.some.inj folded
    exact start
  | cons a items ih =>
    rw [List.foldlM_cons] at folded
    obtain ⟨between, first, rest⟩ := Option.bind_eq_some_iff.1 folded
    apply ih _ (step s a between List.mem_cons_self start first) rest
    exact fun s b s' member => step s b s' (List.mem_cons_of_mem a member)

theorem allM (step : ∀ s a s', a ∈ items → f s a = some s' → (P s' ↔ P s ∧ Q a))
    (folded : items.foldlM f s = some s') : P s' ↔ P s ∧ ∀ a ∈ items, Q a := by
  induction items generalizing s with
  | nil =>
    obtain rfl := Option.some.inj folded
    simp
  | cons a items ih =>
    rw [List.foldlM_cons] at folded
    obtain ⟨between, first, rest⟩ := Option.bind_eq_some_iff.1 folded
    rw [ih (fun s b s' member => step s b s' (List.mem_cons_of_mem a member)) rest,
      step s a between List.mem_cons_self first, List.forall_mem_cons, and_assoc]

/-- A loop ends if each of its steps does. -/
theorem endsM (step : ∀ s a, a ∈ items → ((f s a).isSome ↔ Q a)) :
    (items.foldlM f s).isSome ↔ ∀ a ∈ items, Q a := by
  induction items generalizing s with
  | nil => simp
  | cons a items ih =>
    have first := step s a List.mem_cons_self
    have rest (s : σ) := ih (s := s) fun s b member => step s b (List.mem_cons_of_mem a member)
    rw [List.foldlM_cons, List.forall_mem_cons]
    cases taken : f s a with
    | none => simp [← first, taken]
    | some between => simp [← first, taken, ← rest between]

/-- Every step of a loop that ends was taken. -/
theorem takenM (folded : items.foldlM f s = some s') {a : α} (member : a ∈ items) :
    ∃ t t', f t a = some t' := by
  induction items generalizing s with
  | nil => cases member
  | cons b items ih =>
    rw [List.foldlM_cons] at folded
    obtain ⟨between, first, rest⟩ := Option.bind_eq_some_iff.1 folded
    rcases List.mem_cons.1 member with rfl | member
    · exact ⟨s, between, first⟩
    · exact ih rest member

/-- A loop whose steps change nothing changes nothing. -/
theorem stillM (still : ∀ a ∈ items, f s a = some s) : items.foldlM f s = some s := by
  induction items with
  | nil => rfl
  | cons a items ih =>
    rw [List.foldlM_cons, still a List.mem_cons_self]
    exact ih fun b member => still b (List.mem_cons_of_mem a member)

/-- A loop that is in order as long as no key comes twice: each step is in order when the item
is, its keys are distinct and none was seen before. -/
theorem uniqueM {κ : Type*} (seen : σ → κ → Prop) (keys : α → List κ)
    (step : ∀ s a s', f s a = some s' →
      (P s' ↔ P s ∧ Q a ∧ (keys a).Nodup ∧ ∀ k ∈ keys a, ¬seen s k))
    (grows : ∀ s a s', f s a = some s' → Q a → ∀ k, seen s' k ↔ seen s k ∨ k ∈ keys a)
    (folded : items.foldlM f s = some s') :
    (P s' ↔ P s ∧ (∀ a ∈ items, Q a) ∧ (items.flatMap keys).Nodup ∧
      ∀ k ∈ items.flatMap keys, ¬seen s k) ∧
    ((∀ a ∈ items, Q a) → ∀ k, seen s' k ↔ seen s k ∨ k ∈ items.flatMap keys) := by
  induction items generalizing s with
  | nil =>
    obtain rfl := Option.some.inj folded
    simp
  | cons a items ih =>
    rw [List.foldlM_cons] at folded
    obtain ⟨between, first, rest⟩ := Option.bind_eq_some_iff.1 folded
    obtain ⟨later, sees⟩ := ih rest
    rw [List.forall_mem_cons, List.flatMap_cons]
    refine ⟨?_, ?_⟩
    · rw [later, step s a between first, List.nodup_append]
      constructor
      · rintro ⟨⟨start, ok, distinct, fresh⟩, oks, distincts, freshs⟩
        have growth := grows s a between first ok
        refine ⟨start, ⟨ok, oks⟩, ⟨distinct, distincts, ?_⟩, ?_⟩
        · rintro k here k' there rfl
          exact freshs k there ((growth k).2 (.inr here))
        · intro k member
          rcases List.mem_append.1 member with here | there
          · exact fresh k here
          · exact fun old => freshs k there ((growth k).2 (.inl old))
      · rintro ⟨start, ⟨ok, oks⟩, ⟨distinct, distincts, apart⟩, fresh⟩
        have growth := grows s a between first ok
        refine ⟨⟨start, ok, distinct, fun k here => fresh k (List.mem_append_left _ here)⟩, oks,
          distincts, ?_⟩
        intro k there old
        rcases (growth k).1 old with old | here
        · exact fresh k (List.mem_append_right _ there) old
        · exact apart k here k there rfl
    · rintro ⟨ok, oks⟩ k
      rw [sees oks, grows s a between first ok, List.mem_append, or_assoc]

end Failing

end Accumulate
