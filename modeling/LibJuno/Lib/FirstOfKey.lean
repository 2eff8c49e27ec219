import Mathlib.Data.List.Nodup
import Mathlib.Data.List.Perm.Basic

/-!
# Lists that keep the first item of each key

Items arrive one by one and an item is dropped when one with its key is there. What a batch
adds is a sublist of it. When batches share only keys that were there before them, each
adds what it would add alone, so their order matters up to permutation only.
-/

section UniqueKeys

variable {α κ : Type*} [DecidableEq κ] {key : α → κ}

theorem filter_key_length {xs : List α} (distinct : (xs.map key).Nodup) (k : κ) :
    (xs.filter fun x => decide (key x = k)).length ≤ 1 := by
  have same : ((xs.filter fun x => decide (key x = k)).map key).Nodup :=
    distinct.sublist (List.filter_sublist.map key)
  have all : (xs.filter fun x => decide (key x = k)).map key =
      List.replicate (xs.filter fun x => decide (key x = k)).length k := by
    rw [List.eq_replicate_iff, List.length_map]
    refine ⟨rfl, fun k' member => ?_⟩
    obtain ⟨x, chosen, rfl⟩ := List.mem_map.1 member
    exact of_decide_eq_true (List.mem_filter.1 chosen).2
  rw [all] at same
  exact List.nodup_replicate.1 same

theorem filter_key_of_mem {xs : List α} (distinct : (xs.map key).Nodup) {x : α} (member : x ∈ xs) :
    (xs.filter fun y => decide (key y = key x)) = [x] := by
  have one := filter_key_length distinct (key x)
  have chosen : x ∈ xs.filter fun y => decide (key y = key x) :=
    List.mem_filter.2 ⟨member, decide_eq_true rfl⟩
  generalize (xs.filter fun y => decide (key y = key x)) = l at one chosen
  match l, one with
  | [y], _ => rw [List.mem_singleton.1 chosen]

/-- With distinct keys, a key selects the same items in every order. -/
theorem filter_key_perm {xs ys : List α} (perm : xs.Perm ys) (distinct : (xs.map key).Nodup) (k : κ) :
    xs.filter (fun x => decide (key x = k)) = ys.filter fun x => decide (key x = k) := by
  have one := filter_key_length distinct k
  have filtered := perm.filter fun x => decide (key x = k)
  generalize xs.filter (fun x => decide (key x = k)) = l at one filtered
  match l, one with
  | [], _ => exact (List.nil_perm.1 filtered).symm
  | [x], _ => exact (List.singleton_perm.1 filtered)

/-- With distinct keys, the item of a key is the same in every order. -/
theorem find_key_perm {xs ys : List α} (perm : xs.Perm ys) (distinct : (xs.map key).Nodup) (k : κ) :
    xs.find? (fun x => decide (key x = k)) = ys.find? fun x => decide (key x = k) := by
  rw [← List.head?_filter, ← List.head?_filter, filter_key_perm perm distinct]

/-- Lists with the same items of each key are permutations of each other. -/
theorem perm_of_keys [DecidableEq α] (key : α → κ) {xs ys : List α}
    (same : ∀ k, (xs.filter fun x => decide (key x = k)).Perm (ys.filter fun x => decide (key x = k))) :
    xs.Perm ys := by
  rw [List.perm_iff_count]
  intro x
  have at_x := (same (key x)).count_eq x
  rwa [List.count_filter (by simp), List.count_filter (by simp)] at at_x

end UniqueKeys

namespace FirstOfKey

variable {α β κ : Type*} [DecidableEq κ] (key : α → κ)

/-- `x` goes to the end of the list, unless its key is there. -/
def add (seen : List α) (x : α) : List α :=
  if key x ∈ seen.map key then seen else seen ++ [x]

/-- What a batch adds to the list. -/
def added (seen : List α) : List α → List α
  | [] => []
  | x :: xs =>
    if key x ∈ seen.map key then added seen xs else x :: added (seen ++ [x]) xs

theorem foldl_add (xs seen : List α) : xs.foldl (add key) seen = seen ++ added key seen xs := by
  induction xs generalizing seen with
  | nil => simp [added]
  | cons x xs ih =>
    rw [List.foldl_cons, ih, added, add]
    split
    · rfl
    · rw [List.append_assoc, List.singleton_append]

/-- Only the keys that were there matter, and only those of the batch. -/
theorem added_congr {xs seen seen' : List α}
    (same : ∀ x ∈ xs, key x ∈ seen.map key ↔ key x ∈ seen'.map key) :
    added key seen xs = added key seen' xs := by
  induction xs generalizing seen seen' with
  | nil => rfl
  | cons x xs ih =>
    have here := same x List.mem_cons_self
    have rest : ∀ y ∈ xs, key y ∈ seen.map key ↔ key y ∈ seen'.map key :=
      fun y member => same y (List.mem_cons_of_mem _ member)
    rw [added, added]
    by_cases known : key x ∈ seen.map key
    · rw [if_pos known, if_pos (here.1 known), ih rest]
    · rw [if_neg known, if_neg fun h => known (here.2 h)]
      rw [ih]
      intro y member
      simp only [List.map_append, List.mem_append, rest y member]

theorem added_append (seen xs ys : List α) :
    added key seen (xs ++ ys) = added key seen xs ++ added key (seen ++ added key seen xs) ys := by
  have whole := foldl_add key (xs ++ ys) seen
  rw [List.foldl_append, foldl_add, foldl_add, List.append_assoc] at whole
  exact (List.append_cancel_left whole).symm

theorem mem_of_added {seen xs : List α} {x : α} (h : x ∈ added key seen xs) : x ∈ xs := by
  induction xs generalizing seen with
  | nil => cases h
  | cons y ys ih =>
    rw [added] at h
    split at h
    · exact List.mem_cons_of_mem _ (ih h)
    · rcases List.mem_cons.1 h with rfl | later
      · exact List.mem_cons_self
      · exact List.mem_cons_of_mem _ (ih later)

theorem added_fresh {seen xs : List α} {x : α} (h : x ∈ added key seen xs) :
    key x ∉ seen.map key := by
  induction xs generalizing seen with
  | nil => cases h
  | cons y ys ih =>
    rw [added] at h
    split at h
    · exact ih h
    · next fresh =>
      rcases List.mem_cons.1 h with rfl | later
      · exact fresh
      · intro there
        apply ih later
        rw [List.map_append]
        exact List.mem_append_left _ there

/-- Every key of the batch is there afterwards. -/
theorem key_mem_added (seen : List α) {xs : List α} {x : α} (member : x ∈ xs) :
    key x ∈ (seen ++ added key seen xs).map key := by
  induction xs generalizing seen with
  | nil => cases member
  | cons y ys ih =>
    rw [added]
    rcases List.mem_cons.1 member with rfl | later
    · split
      · next there => exact List.map_append ▸ List.mem_append_left _ there
      · simp
    · split
      · exact ih seen later
      · have rest := ih (seen ++ [y]) later
        rwa [List.append_assoc] at rest

/-- Batches that share only keys that were there add what each adds alone. -/
theorem added_flatMap {bs : List β} (items : β → List α) {seen : List α}
    (apart : bs.Pairwise fun b c =>
      ∀ x ∈ items b, ∀ y ∈ items c, key x = key y → key x ∈ seen.map key) :
    added key seen (bs.flatMap items) = bs.flatMap fun b => added key seen (items b) := by
  induction bs with
  | nil => rfl
  | cons b bs ih =>
    rw [List.pairwise_cons] at apart
    rw [List.flatMap_cons, List.flatMap_cons, added_append, ← ih apart.2]
    congr 1
    apply added_congr
    intro y member
    obtain ⟨c, among, inside⟩ := List.mem_flatMap.1 member
    rw [List.map_append, List.mem_append]
    constructor
    · rintro (there | new)
      · exact there
      · obtain ⟨x, from_b, same⟩ := List.mem_map.1 new
        exact same ▸ apart.1 c among x (mem_of_added key from_b) y inside same
    · exact Or.inl

/-- So the order of such batches matters up to permutation only. -/
theorem foldl_add_perm {bs bs' : List β} (items : β → List α) {seen seen' : List α}
    (perm : bs.Perm bs') (start : seen.Perm seen')
    (apart : bs.Pairwise fun b c =>
      ∀ x ∈ items b, ∀ y ∈ items c, key x = key y → key x ∈ seen.map key) :
    ((bs.flatMap items).foldl (add key) seen).Perm ((bs'.flatMap items).foldl (add key) seen') := by
  have keys : ∀ k, k ∈ seen.map key ↔ k ∈ seen'.map key := fun k => (start.map key).mem_iff
  have apart' : bs'.Pairwise fun b c =>
      ∀ x ∈ items b, ∀ y ∈ items c, key x = key y → key x ∈ seen'.map key := by
    refine ((perm.pairwise_iff ?_).1 apart).imp ?_
    · intro b c h x hx y hy same
      exact same ▸ h y hy x hx same.symm
    · intro b c h x hx y hy same
      exact (keys _).1 (h x hx y hy same)
  rw [foldl_add, foldl_add, added_flatMap key items apart, added_flatMap key items apart']
  refine start.append ?_
  have same : (fun b => added key seen (items b)) = fun b => added key seen' (items b) := by
    funext b
    exact added_congr key fun x _ => keys (key x)
  rw [same]
  exact perm.flatMap_right _

/-- The items of a key: those that were there, or else the first one that arrives. -/
theorem filter_foldl_add (xs seen : List α) (k : κ) :
    ((xs.foldl (add key) seen).filter fun x => decide (key x = k)) =
      if (seen.filter fun x => decide (key x = k)) = [] then
        (xs.filter fun x => decide (key x = k)).take 1
      else seen.filter fun x => decide (key x = k) := by
  induction xs generalizing seen with
  | nil => split <;> simp_all
  | cons x xs ih =>
    have there : (seen.filter fun y => decide (key y = k)) = [] ↔ k ∉ seen.map key := by
      rw [List.filter_eq_nil_iff, List.mem_map]
      simp
    rw [List.foldl_cons, ih]
    by_cases here : key x = k
    · subst here
      rw [List.filter_cons_of_pos (by simp)]
      by_cases known : key x ∈ seen.map key
      · rw [add, if_pos known, if_neg fun none => there.1 none known, if_neg fun none => there.1 none known]
      · rw [add, if_neg known, if_pos (there.2 known), List.filter_append, there.2 known,
          List.nil_append, List.filter_cons_of_pos (by simp), List.filter_nil,
          if_neg (List.cons_ne_nil _ _)]
        rfl
    · have unchanged : ((add key seen x).filter fun y => decide (key y = k)) =
          seen.filter fun y => decide (key y = k) := by
        unfold add
        split
        · rfl
        · simp [here]
      rw [unchanged, List.filter_cons_of_neg (by simpa using here)]

section Replacing

/-- Of the items that arrive on top of `seen`, this one is the first of its key. -/
structure Leads (seen xs : List α) (x : α) : Prop where
  first : xs.find? (fun y => decide (key y = key x)) = some x
  unseen : ∀ y ∈ seen, key y ≠ key x

/-- An owner has the keys `own`. Its items are taken out of a list, and new ones `new` and,
among those that arrive by key, its own ones `mine` put back. The list of a new pass is
reached when the leading items of the others stay, and no others come to lead. -/
structure LeadsKept (own : κ → Bool) (mine : α → Bool) (seen xs seen' xs' : List α) : Prop where
  stay : ∀ x, own (key x) = false → Leads key seen xs x → Leads key seen' xs' x
  come : ∀ x, Leads key seen' xs' x → mine x = false →
    own (key x) = false ∧ Leads key seen xs x

variable {key}

theorem leads_iff {seen xs : List α} {x : α} :
    Leads key seen xs x ↔ (seen.filter fun y => decide (key y = key x)) = [] ∧
      ∃ rest, (xs.filter fun y => decide (key y = key x)) = x :: rest := by
  have found : xs.find? (fun y => decide (key y = key x)) = some x ↔
      ∃ rest, (xs.filter fun y => decide (key y = key x)) = x :: rest := by
    rw [← List.head?_filter]
    cases xs.filter fun y => decide (key y = key x) <;> simp
  rw [← found, List.filter_eq_nil_iff]
  simp only [decide_eq_true_eq]
  exact ⟨fun leads => ⟨leads.unseen, leads.first⟩, fun h => ⟨h.2, h.1⟩⟩

theorem mem_foldl_add {seen xs : List α} {x : α} :
    x ∈ xs.foldl (add key) seen ↔ x ∈ seen ∨ Leads key seen xs x := by
  have of_key : ∀ l : List α, x ∈ l ↔ x ∈ l.filter fun y => decide (key y = key x) := by
    intro l
    rw [List.mem_filter]
    simp
  rw [of_key (xs.foldl (add key) seen), filter_foldl_add, leads_iff, of_key seen]
  by_cases none_seen : (seen.filter fun y => decide (key y = key x)) = []
  · rw [if_pos none_seen, none_seen]
    cases xs.filter fun y => decide (key y = key x) with
    | nil => simp
    | cons y rest => simp [eq_comm]
  · rw [if_neg none_seen]
    simp [none_seen]

variable {own : κ → Bool} {mine : α → Bool} {v seen xs seen' xs' new : List α}

theorem perm_eq_nil {l l' : List α} (perm : l.Perm l') : l = [] ↔ l' = [] := by
  rw [← List.length_eq_zero_iff, perm.length_eq, List.length_eq_zero_iff]

theorem filter_own (k : κ) (l : List α) :
    ((l.filter fun x => !own (key x)).filter fun x => decide (key x = k)) =
      if own k then [] else l.filter fun x => decide (key x = k) := by
  rw [List.filter_filter]
  split
  · next owned =>
    rw [List.filter_eq_nil_iff]
    intro x _
    by_cases here : key x = k <;> simp [here, owned]
  · next other =>
    apply List.filter_congr
    intro x _
    by_cases here : key x = k <;> simp [here, other]

theorem ite_then_nil (l : List α) : (if l = [] then [] else l) = l := by
  split
  · next none => exact none.symm
  · rfl

/-- The first item of a key that arrives in the new pass is the first one that the owner puts
back, unless there are others. -/
theorem LeadsKept.take_one (kept : LeadsKept key own mine seen xs seen' xs') {k : κ}
    (none_seen : (seen'.filter fun x => decide (key x = k)) = [])
    (replaced : own k = true ∨ (seen.filter fun x => decide (key x = k)) ≠ [] ∨
      (xs.filter fun x => decide (key x = k)) = []) :
    (((xs'.filter mine).filter fun x => decide (key x = k)).take 1) =
      (xs'.filter fun x => decide (key x = k)).take 1 := by
  have swapped : ((xs'.filter mine).filter fun x => decide (key x = k)) =
      (xs'.filter fun x => decide (key x = k)).filter mine := by
    rw [List.filter_filter, List.filter_filter]
    simp only [Bool.and_comm]
  rw [swapped]
  cases arrived : xs'.filter fun x => decide (key x = k) with
  | nil => rfl
  | cons x rest =>
    have here : key x = k := by
      have member : x ∈ xs'.filter fun x => decide (key x = k) := by rw [arrived]; exact List.mem_cons_self
      simpa using (List.mem_filter.1 member).2
    subst here
    cases own_item : mine x with
    | true => simp [own_item]
    | false =>
      obtain ⟨other, leads⟩ := kept.come x (leads_iff.2 ⟨none_seen, rest, arrived⟩) own_item
      obtain ⟨none_before, rest', before⟩ := leads_iff.1 leads
      rcases replaced with owned | some_seen | none_arrived
      · rw [other] at owned; cases owned
      · exact absurd none_before some_seen
      · rw [before] at none_arrived; cases none_arrived

/-- Taking out the items of an owner and putting the new ones back gives the list of a new
pass when the leading items of the others are kept. -/
theorem LeadsKept.perm [DecidableEq α] (kept : LeadsKept key own mine seen xs seen' xs')
    (start : v.Perm (xs.foldl (add key) seen))
    (direct : seen'.Perm ((seen.filter fun x => !own (key x)) ++ new)) :
    ((xs'.filter mine).foldl (add key) ((v.filter fun x => !own (key x)) ++ new)).Perm
      (xs'.foldl (add key) seen') := by
  apply perm_of_keys key
  intro k
  have listed := start.filter fun x => decide (key x = k)
  have direct := direct.filter fun x => decide (key x = k)
  rw [List.filter_append, filter_own] at direct
  rw [filter_foldl_add] at listed ⊢
  rw [filter_foldl_add, List.filter_append, filter_own]
  cases owned : own k with
  | true =>
    rw [owned, if_pos rfl, List.nil_append] at direct
    rw [if_pos rfl, List.nil_append]
    by_cases fresh : (new.filter fun x => decide (key x = k)) = []
    · have none_seen := List.perm_nil.1 (fresh ▸ direct)
      rw [if_pos fresh, if_pos none_seen, kept.take_one none_seen (.inl owned)]
    · rw [if_neg fresh, if_neg (mt (perm_eq_nil direct).1 fresh)]
      exact direct.symm
  | false =>
    rw [owned, if_neg Bool.false_ne_true] at direct
    rw [if_neg Bool.false_ne_true]
    by_cases some_seen : (seen.filter fun x => decide (key x = k)) = []
    · rw [if_pos some_seen] at listed
      rw [some_seen, List.nil_append] at direct
      cases arrived : xs.filter fun x => decide (key x = k) with
      | nil =>
        rw [arrived] at listed
        rw [List.perm_nil.1 listed, List.nil_append]
        by_cases fresh : (new.filter fun x => decide (key x = k)) = []
        · have none_seen := List.perm_nil.1 (fresh ▸ direct)
          rw [if_pos fresh, if_pos none_seen, kept.take_one none_seen (.inr (.inr arrived))]
        · rw [if_neg fresh, if_neg (mt (perm_eq_nil direct).1 fresh)]
          exact direct.symm
      | cons x rest =>
        have here : key x = k := by
          have member : x ∈ xs.filter fun x => decide (key x = k) := by rw [arrived]; exact List.mem_cons_self
          simpa using (List.mem_filter.1 member).2
        subst here
        -- the leading item stays, so nothing new has its key
        obtain ⟨none_seen, rest', arrived'⟩ :=
          leads_iff.1 (kept.stay x owned (leads_iff.2 ⟨some_seen, rest, arrived⟩))
        rw [arrived] at listed
        have one := List.perm_singleton.1 (show (v.filter _).Perm [x] from listed)
        rw [none_seen] at direct
        rw [one, List.nil_perm.1 direct, if_neg (by simp), if_pos none_seen, arrived']
        rfl
    · rw [if_neg some_seen] at listed
      have occupied : ((v.filter fun x => decide (key x = k)) ++
          new.filter fun x => decide (key x = k)) ≠ [] := by
        intro none
        rw [(List.append_eq_nil_iff.1 none).1] at listed
        exact some_seen (List.nil_perm.1 listed)
      have same := (listed.append_right _).trans direct.symm
      rw [if_neg occupied, if_neg (mt (perm_eq_nil same).2 occupied)]
      exact same

section Sides

variable {ys : List α}

/-- Where nothing of a key was seen, the same item leads or none does. -/
theorem take_one_congr {k : κ} (none_seen : (seen.filter fun x => decide (key x = k)) = [])
    (none_seen' : (seen'.filter fun x => decide (key x = k)) = [])
    (same : ∀ x, key x = k → (Leads key seen xs x ↔ Leads key seen' xs' x)) :
    (xs.filter fun x => decide (key x = k)).take 1 = (xs'.filter fun x => decide (key x = k)).take 1 := by
  have of_key : ∀ {l : List α} {x : α} {rest : List α},
      (l.filter fun x => decide (key x = k)) = x :: rest → key x = k := by
    intro l x rest first
    have member : x ∈ l.filter fun x => decide (key x = k) := by rw [first]; exact List.mem_cons_self
    simpa using (List.mem_filter.1 member).2
  cases arrived : xs.filter fun x => decide (key x = k) with
  | nil =>
    cases arrived' : xs'.filter fun x => decide (key x = k) with
    | nil => rfl
    | cons x rest =>
      have here := of_key arrived'
      have leads := (same x here).2 (leads_iff.2 ⟨by rw [here]; exact none_seen', rest, by rw [here]; exact arrived'⟩)
      obtain ⟨-, rest', first⟩ := leads_iff.1 leads
      rw [here, arrived] at first
      cases first
  | cons x rest =>
    have here := of_key arrived
    have leads := (same x here).1 (leads_iff.2 ⟨by rw [here]; exact none_seen, rest, by rw [here]; exact arrived⟩)
    obtain ⟨-, rest', first⟩ := leads_iff.1 leads
    rw [here] at first
    rw [first]
    rfl

variable (start : v.Perm (xs.foldl (add key) seen))
  (direct : seen'.Perm ((seen.filter fun x => !own (key x)) ++ new))
  (new_own : ∀ x ∈ new, own (key x) = true) (ys_own : ∀ x ∈ ys, own (key x) = true)

include direct new_own

omit [DecidableEq κ] in
theorem mem_seen_iff {x : α} : x ∈ seen' ↔ if own (key x) then x ∈ new else x ∈ seen := by
  rw [direct.mem_iff, List.mem_append, List.mem_filter]
  have inside := new_own x
  cases owned : own (key x) with
  | true => simp
  | false =>
    rw [owned] at inside
    simp only [Bool.not_false, and_true, Bool.false_eq_true, if_false]
    exact or_iff_left fun fresh => Bool.false_ne_true (inside fresh)

/-- For the keys of the owner, the items of others that were seen do not matter. -/
theorem leads_kept_iff {x : α} (owned : own (key x) = true) :
    Leads key ((v.filter fun x => !own (key x)) ++ new) ys x ↔ Leads key seen' ys x := by
  have unseen : (∀ y ∈ (v.filter fun x => !own (key x)) ++ new, key y ≠ key x) ↔
      ∀ y ∈ seen', key y ≠ key x := by
    constructor
    · intro none y member same
      have there := (mem_seen_iff direct new_own).1 member
      rw [same, owned, if_pos rfl] at there
      exact none y (List.mem_append_right _ there) same
    · intro none y member same
      rcases List.mem_append.1 member with kept | fresh
      · have other := (List.mem_filter.1 kept).2
        rw [same, owned] at other
        cases other
      · exact none y ((mem_seen_iff direct new_own).2 (by rw [same, owned, if_pos rfl]; exact fresh)) same
  exact ⟨fun leads => ⟨leads.first, unseen.1 leads.unseen⟩, fun leads => ⟨leads.first, unseen.2 leads.unseen⟩⟩

include start ys_own

/-- When the list of a new pass is reached, the same items lead. -/
theorem leads_of_perm
    (perm : (ys.foldl (add key) ((v.filter fun x => !own (key x)) ++ new)).Perm
      (xs'.foldl (add key) seen')) :
    (∀ x, own (key x) = false → (Leads key seen xs x ↔ Leads key seen' xs' x)) ∧
      ∀ x, own (key x) = true → (Leads key seen' ys x ↔ Leads key seen' xs' x) := by
  have listed : ∀ x, (x ∈ (v.filter fun x => !own (key x)) ++ new ∨
      Leads key ((v.filter fun x => !own (key x)) ++ new) ys x) ↔ x ∈ seen' ∨ Leads key seen' xs' x := by
    intro x
    rw [← mem_foldl_add, ← mem_foldl_add]
    exact perm.mem_iff
  have unseen : ∀ {seen xs : List α} {x : α}, Leads key seen xs x → x ∉ seen :=
    fun leads member => leads.unseen _ member rfl
  refine ⟨fun x other => ?_, fun x owned => ?_⟩
  · have there := mem_seen_iff direct new_own (x := x)
    rw [other, if_neg Bool.false_ne_true] at there
    have outside : (x ∈ (v.filter fun x => !own (key x)) ++ new ∨
        Leads key ((v.filter fun x => !own (key x)) ++ new) ys x) ↔ x ∈ seen ∨ Leads key seen xs x := by
      rw [← @mem_foldl_add _ _ _ key seen, ← start.mem_iff, List.mem_append, List.mem_filter, other]
      constructor
      · rintro ((⟨member, -⟩ | fresh) | leads)
        · exact member
        · rw [new_own x fresh] at other; cases other
        · rw [ys_own x (List.mem_of_find?_eq_some leads.first)] at other; cases other
      · exact fun member => .inl (.inl ⟨member, rfl⟩)
    have same := outside.symm.trans (listed x)
    rw [there] at same
    constructor
    · exact fun leads => (same.1 (.inr leads)).resolve_left (unseen leads)
    · exact fun leads => (same.2 (.inr leads)).resolve_left (fun member => unseen leads (there.2 member))
  · have there := mem_seen_iff direct new_own (x := x)
    rw [owned, if_pos rfl] at there
    have same := listed x
    rw [leads_kept_iff direct new_own owned, List.mem_append, List.mem_filter, owned, there] at same
    simp only [Bool.not_true, Bool.false_eq_true, and_false, false_or] at same
    constructor
    · exact fun leads => (same.1 (.inr leads)).resolve_left fun member => unseen leads (there.2 member)
    · exact fun leads => (same.2 (.inr leads)).resolve_left fun member => unseen leads (there.2 member)

/-- When the same items lead, the list of a new pass is reached. -/
theorem perm_of_leads [DecidableEq α]
    (others : ∀ x, own (key x) = false → (Leads key seen xs x ↔ Leads key seen' xs' x))
    (owned : ∀ x, own (key x) = true → (Leads key seen' ys x ↔ Leads key seen' xs' x)) :
    (ys.foldl (add key) ((v.filter fun x => !own (key x)) ++ new)).Perm (xs'.foldl (add key) seen') := by
  apply perm_of_keys key
  intro k
  have none_of : ∀ {l : List α}, (∀ x ∈ l, own (key x) = true) → own k = false →
      (l.filter fun x => decide (key x = k)) = [] := by
    intro l inside other
    rw [List.filter_eq_nil_iff]
    intro x member here
    have := inside x member
    rw [of_decide_eq_true here, other] at this
    cases this
  have listed := start.filter fun x => decide (key x = k)
  have direct := direct.filter fun x => decide (key x = k)
  rw [List.filter_append, filter_own] at direct
  rw [filter_foldl_add] at listed ⊢
  rw [filter_foldl_add, List.filter_append, filter_own]
  cases side : own k with
  | true =>
    rw [side, if_pos rfl, List.nil_append] at direct
    rw [if_pos rfl, List.nil_append]
    by_cases fresh : (new.filter fun x => decide (key x = k)) = []
    · have none_seen := List.perm_nil.1 (fresh ▸ direct)
      rw [if_pos fresh, if_pos none_seen]
      exact .of_eq (take_one_congr none_seen none_seen fun x here => owned x (here ▸ side))
    · rw [if_neg fresh, if_neg (mt (perm_eq_nil direct).1 fresh)]
      exact direct.symm
  | false =>
    rw [side, if_neg Bool.false_ne_true, none_of new_own side, List.append_nil] at direct
    rw [if_neg Bool.false_ne_true, none_of new_own side, none_of ys_own side, List.append_nil,
      List.take_nil, ite_then_nil]
    by_cases none_seen : (seen.filter fun x => decide (key x = k)) = []
    · have none_seen' := List.perm_nil.1 (none_seen ▸ direct)
      rw [if_pos none_seen] at listed
      rw [if_pos none_seen', ← take_one_congr none_seen none_seen' fun x here => others x (here ▸ side)]
      exact listed
    · rw [if_neg none_seen] at listed
      rw [if_neg (mt (perm_eq_nil direct).1 none_seen)]
      exact listed.trans direct.symm

/-- An owner's items are taken out of a list, new ones are put in, and others of its keys
arrive by key. The list of a new pass is reached if and only if for the keys of others the
same items lead before and in the new pass, and for the keys of the owner the same among
those that arrive and in the new pass. -/
theorem perm_foldl_add_iff [DecidableEq α] :
    (ys.foldl (add key) ((v.filter fun x => !own (key x)) ++ new)).Perm (xs'.foldl (add key) seen') ↔
      (∀ x, own (key x) = false → (Leads key seen xs x ↔ Leads key seen' xs' x)) ∧
        ∀ x, own (key x) = true → (Leads key seen' ys x ↔ Leads key seen' xs' x) :=
  ⟨leads_of_perm start direct new_own ys_own,
    fun same => perm_of_leads start direct new_own ys_own same.1 same.2⟩

end Sides

end Replacing

end FirstOfKey
