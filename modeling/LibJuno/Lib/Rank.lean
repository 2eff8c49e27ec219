import Mathlib.Data.List.Nodup

/-!
# Ranks and bindings by position

Dropping elements of a list moves the later ones to the front: one that is kept goes to
its rank, the number of kept elements before it. When a second list is read by position, it
is this that decides which of its elements an element of the first list meets.
-/

variable {α β κ : Type*}

/-- The number of kept elements before index `i`. -/
def rank (p : α → Bool) (xs : List α) (i : Nat) : Nat := (xs.take i).countP p

theorem rank_cons_succ (p : α → Bool) (x : α) (xs : List α) (i : Nat) :
    rank p (x :: xs) (i + 1) = rank p xs i + if p x then 1 else 0 := by
  unfold rank
  rw [List.take_succ_cons, List.countP_cons]

/-- The kept elements, by the places that they had. -/
theorem getElem?_filter_iff {p : α → Bool} {xs : List α} {k : Nat} {x : α} :
    (xs.filter p)[k]? = some x ↔ ∃ i, xs[i]? = some x ∧ p x = true ∧ rank p xs i = k := by
  induction xs generalizing k with
  | nil => simp
  | cons y xs ih =>
    by_cases kept : p y = true
    · rw [List.filter_cons_of_pos kept]
      constructor
      · intro here
        cases k with
        | zero =>
          have same : y = x := by simpa using here
          exact ⟨0, by simp [same], same ▸ kept, rfl⟩
        | succ k =>
          obtain ⟨i, found, keeps, place⟩ := ih.1 (by simpa using here)
          refine ⟨i + 1, by simpa using found, keeps, ?_⟩
          rw [rank_cons_succ, if_pos kept, place]
      · rintro ⟨i, found, keeps, place⟩
        cases i with
        | zero =>
          have same : y = x := by simpa using found
          rw [← place, same]
          rfl
        | succ i =>
          rw [rank_cons_succ, if_pos kept] at place
          rw [← place, List.getElem?_cons_succ]
          exact ih.2 ⟨i, by simpa using found, keeps, rfl⟩
    · rw [List.filter_cons_of_neg kept, ih]
      constructor
      · rintro ⟨i, found, keeps, place⟩
        refine ⟨i + 1, by simpa using found, keeps, ?_⟩
        rw [rank_cons_succ, if_neg kept, Nat.add_zero, place]
      · rintro ⟨i, found, keeps, place⟩
        cases i with
        | zero =>
          have same : y = x := by simpa using found
          exact absurd (same ▸ keeps) kept
        | succ i =>
          rw [rank_cons_succ, if_neg kept, Nat.add_zero] at place
          exact ⟨i, by simpa using found, keeps, place⟩

/-- `n` is bound to `v`: it names an element that `value` gives `v`. -/
def Binds (name : α → κ) (xs : List α) (value : Nat → α → Option β) (n : κ) (v : β) : Prop :=
  ∃ i x, xs[i]? = some x ∧ name x = n ∧ value i x = some v

/-- Under distinct names the same bindings are the same values everywhere. -/
theorem binds_iff {name : α → κ} {xs : List α} (distinct : (xs.map name).Nodup)
    {value value' : Nat → α → Option β} :
    (∀ n v, Binds name xs value n v ↔ Binds name xs value' n v) ↔
      ∀ i x, xs[i]? = some x → value i x = value' i x := by
  have one : ∀ {i j : Nat} {x y : α}, xs[i]? = some x → xs[j]? = some y → name x = name y → i = j := by
    intro i j x y hx hy same
    have left : (xs.map name)[i]? = some (name y) := by rw [List.getElem?_map, hx, ← same]; rfl
    have right : (xs.map name)[j]? = some (name y) := by rw [List.getElem?_map, hy]; rfl
    have inside : i < (xs.map name).length := (List.getElem?_eq_some_iff.1 left).1
    exact (List.getElem?_inj inside distinct).1 (left.trans right.symm)
  constructor
  · intro same i x here
    have at_name : ∀ v, value i x = some v ↔ value' i x = some v := by
      intro v
      constructor
      · intro given
        obtain ⟨j, y, there, named, given'⟩ := (same (name x) v).1 ⟨i, x, here, rfl, given⟩
        obtain rfl := one there here named
        rwa [Option.some.inj (there.symm.trans here)] at given'
      · intro given
        obtain ⟨j, y, there, named, given'⟩ := (same (name x) v).2 ⟨i, x, here, rfl, given⟩
        obtain rfl := one there here named
        rwa [Option.some.inj (there.symm.trans here)] at given'
    exact Option.ext at_name
  · intro same n v
    constructor
    · rintro ⟨i, x, here, named, given⟩
      exact ⟨i, x, here, named, (same i x here).symm.trans given⟩
    · rintro ⟨i, x, here, named, given⟩
      exact ⟨i, x, here, named, (same i x here).trans given⟩

/-- Reading a second list beside the kept elements binds each to the value at its rank. -/
theorem mem_zip_filter_iff {name : α → κ} {p : α → Bool} {xs : List α} {ys : List β} {n : κ} {v : β} :
    (n, v) ∈ ((xs.filter p).map name).zip ys ↔
      Binds name xs (fun i x => if p x then ys[rank p xs i]? else none) n v := by
  rw [List.mem_iff_getElem?]
  constructor
  · rintro ⟨k, here⟩
    obtain ⟨named, given⟩ := List.getElem?_zip_eq_some.1 here
    rw [List.getElem?_map, Option.map_eq_some_iff] at named
    obtain ⟨x, kept, rfl⟩ := named
    obtain ⟨i, found, keeps, rfl⟩ := getElem?_filter_iff.1 kept
    exact ⟨i, x, found, rfl, (if_pos keeps).trans given⟩
  · rintro ⟨i, x, found, rfl, given⟩
    dsimp only at given
    split at given
    · next keeps =>
      refine ⟨rank p xs i, List.getElem?_zip_eq_some.2 ⟨?_, given⟩⟩
      rw [List.getElem?_map, getElem?_filter_iff.2 ⟨i, found, keeps, rfl⟩]
      rfl
    · cases given

theorem join_getElem?_eq_none_iff {xs : List (Option α)} :
    (∀ q : Nat, xs[q]?.join = none) ↔ xs.filterMap id = [] := by
  rw [List.filterMap_eq_nil_iff]
  constructor
  · intro none_at x member
    obtain ⟨q, here⟩ := List.mem_iff_getElem?.1 member
    have at_q := none_at q
    rwa [here, Option.join_some] at at_q
  · intro all q
    cases found : xs[q]? with
    | none => rfl
    | some x => exact all x (List.mem_of_getElem? found)

/-- Dropping the gaps moves none of the first `n` places exactly if behind a gap among them
there are only gaps. -/
theorem getElem?_filterMap_id_iff (xs : List (Option α)) (n : Nat) :
    (∀ k < n, xs[k]?.join = (xs.filterMap id)[k]?) ↔
      ∀ p q : Nat, p < n → p < q → xs[p]?.join = none → xs[q]?.join = none := by
  induction xs generalizing n with
  | nil => simp
  | cons x xs ih =>
    cases n with
    | zero => simp
    | succ n =>
      cases x with
      | none =>
        rw [List.filterMap_cons_none rfl]
        constructor
        · intro same p q _ later _
          have first := same 0 (Nat.succ_pos n)
          have empty : xs.filterMap id = [] := by
            cases shape : xs.filterMap id with
            | nil => rfl
            | cons y ys => rw [shape] at first; cases first
          cases q with
          | zero => exact absurd later (Nat.not_lt_zero p)
          | succ q => exact join_getElem?_eq_none_iff.2 empty q
        · intro gaps k _
          have empty : xs.filterMap id = [] :=
            join_getElem?_eq_none_iff.1 fun q => gaps 0 (q + 1) (Nat.succ_pos n) (Nat.succ_pos q) rfl
          rw [empty, List.getElem?_nil]
          cases k with
          | zero => rfl
          | succ k => exact join_getElem?_eq_none_iff.2 empty k
      | some a =>
        have kept : (some a :: xs).filterMap id = a :: xs.filterMap id := rfl
        rw [kept]
        constructor
        · intro same p q inside later gap
          cases p with
          | zero => cases gap
          | succ p =>
            cases q with
            | zero => exact absurd later (Nat.not_lt_zero _)
            | succ q =>
              exact (ih n).1 (fun k inside => same (k + 1) (Nat.succ_lt_succ inside)) p q
                (Nat.lt_of_succ_lt_succ inside) (Nat.lt_of_succ_lt_succ later) gap
        · intro gaps k inside
          cases k with
          | zero => rfl
          | succ k =>
            refine (ih n).2 (fun p q inside later gap => ?_) k (Nat.lt_of_succ_lt_succ inside)
            exact gaps (p + 1) (q + 1) (Nat.succ_lt_succ inside) (Nat.succ_lt_succ later) gap
