import Mathlib.Data.List.Basic

/-!
# Contributions with their source

Lists under keys that several sources append to, told by the contributions in the order
they came. A list of items does not show which source an item is of; the ledger does.
Withdrawing a source by a test of the items alone leaves what the others contributed
exactly when the test tells the source of every contribution.
-/

/-- An item that `source` appends to the list under `key`. -/
structure Contribution (κ φ α : Type*) where
  key : κ
  source : φ
  item : α

namespace Contribution

variable {κ φ α : Type*} [DecidableEq κ]

/-- The list under `k` after the contributions. -/
def listed (cs : List (Contribution κ φ α)) (k : κ) : List α :=
  (cs.filter fun c => decide (c.key = k)).map item

theorem listed_append (cs ds : List (Contribution κ φ α)) (k : κ) :
    listed (cs ++ ds) k = listed cs k ++ listed ds k := by
  unfold listed
  rw [List.filter_append, List.map_append]

/-- A test of the items filters every list. -/
theorem listed_filter_item (cs : List (Contribution κ φ α)) (p : α → Bool) (k : κ) :
    listed (cs.filter fun c => p c.item) k = (listed cs k).filter p := by
  unfold listed
  rw [List.filter_map, List.filter_filter, List.filter_filter]
  congr 2
  funext c
  exact Bool.and_comm _ _

end Contribution

theorem List.filter_eq_filter_iff {α : Type*} {p q : α → Bool} {xs : List α} :
    xs.filter p = xs.filter q ↔ ∀ x ∈ xs, p x = q x := by
  constructor
  · intro same x member
    rw [Bool.eq_iff_iff]
    have here : x ∈ xs.filter p ↔ x ∈ xs.filter q := by rw [same]
    rw [List.mem_filter, List.mem_filter] at here
    constructor
    · exact fun kept => (here.1 ⟨member, kept⟩).2
    · exact fun kept => (here.2 ⟨member, kept⟩).2
  · exact List.filter_congr

/-- A test of the images keeps what a test of the elements keeps only where both agree,
also when several elements have one image. -/
theorem List.filter_map_eq_map_filter_iff {α β : Type*} [DecidableEq β] {f : α → β} {p : β → Bool}
    {q : α → Bool} {xs : List α} :
    (xs.map f).filter p = (xs.filter q).map f ↔ ∀ x ∈ xs, p (f x) = q x := by
  constructor
  · intro same x member
    by_cases kept : p (f x) = true
    · -- all elements with the image `f x` are needed to list it as often
      have counts := congrArg (List.count (f x)) same
      rw [List.count_filter kept, List.count_eq_countP, List.count_eq_countP, List.countP_map,
        List.countP_map, List.countP_filter, List.countP_eq_length_filter,
        List.countP_eq_length_filter] at counts
      have fibre : ((xs.filter ((· == f x) ∘ f)).filter q).length =
          (xs.filter ((· == f x) ∘ f)).length := by
        rw [List.filter_filter, counts]
        congr 2
        funext y
        exact Bool.and_comm _ _
      have all := List.length_filter_eq_length_iff.1 fibre
      rw [kept, all x (List.mem_filter.2 ⟨member, beq_self_eq_true _⟩)]
    · have absent : q x = false := by
        by_contra present
        have listed : f x ∈ (xs.filter q).map f :=
          List.mem_map_of_mem (List.mem_filter.2 ⟨member, Bool.of_not_eq_false present⟩)
        rw [← same] at listed
        exact kept (List.mem_filter.1 listed).2
      rw [Bool.of_not_eq_true kept, absent]
  · intro agree
    rw [List.filter_map]
    congr 1
    exact List.filter_congr agree

namespace Contribution

variable {κ φ α : Type*} [DecidableEq κ] [DecidableEq α]

/-- The test of the items withdraws the contributions that `keep` gives up, from every
list, exactly when it agrees with `keep` on each. -/
theorem filter_listed_iff {cs : List (Contribution κ φ α)} {p : α → Bool}
    {keep : Contribution κ φ α → Bool} :
    (∀ k, (listed cs k).filter p = listed (cs.filter keep) k) ↔ ∀ c ∈ cs, p c.item = keep c := by
  have swap : ∀ k, listed (cs.filter keep) k =
      ((cs.filter fun c => decide (c.key = k)).filter keep).map item := by
    intro k
    unfold listed
    rw [List.filter_filter, List.filter_filter]
    congr 2
    funext c
    exact Bool.and_comm _ _
  constructor
  · intro same c member
    have here := same c.key
    rw [swap, listed, List.filter_map_eq_map_filter_iff] at here
    exact here c (List.mem_filter.2 ⟨member, decide_eq_true rfl⟩)
  · intro agree k
    rw [swap, listed, List.filter_map_eq_map_filter_iff]
    exact fun c member => agree c (List.mem_filter.1 member).1

end Contribution
