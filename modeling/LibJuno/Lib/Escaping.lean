import Mathlib.Data.List.Basic

/-!
# Escaping

Some symbols of a text are written as words. Replacing them one after the other is the same as
replacing them at once when no word has a symbol that is replaced later (`replaceAlls_eq`). The
text can be read back when the words all start with one of the replaced symbols and none is the
beginning of another (`decode_escape`).
-/

namespace Escaping

variable {α : Type*} [DecidableEq α]

/-- Every occurrence of the symbol replaced by the word. -/
def replaceAll (u : α) (word s : List α) : List α :=
  s.flatMap fun c => if c = u then word else [c]

/-- What is written for some symbols. -/
abbrev Table (α : Type*) := List (α × List α)

/-- What is written for a symbol. -/
def wordOf (t : Table α) (c : α) : List α :=
  match t with
  | [] => [c]
  | e :: t => if c = e.1 then e.2 else wordOf t c

def escape (t : Table α) (s : List α) : List α := s.flatMap (wordOf t)

/-- The entry whose word comes next in the text. -/
def nextWord (t : Table α) (s : List α) : Option (α × List α) := t.find? fun e => e.2.isPrefixOf s

/-- The text read back from its word at symbol `k`. -/
def decodeFrom (t : Table α) : Nat → List α → List α
  | _, [] => []
  | k + 1, _ :: s => decodeFrom t k s
  | 0, c :: s =>
    match nextWord t (c :: s) with
    | some e => e.1 :: decodeFrom t (e.2.length - 1) s
    | none => c :: decodeFrom t 0 s

def decode (t : Table α) (s : List α) : List α := decodeFrom t 0 s

/-- The words can be told from the text and from one another. -/
structure Readable (t : Table α) (mark : α) : Prop where
  marked : ∃ word, (mark, word) ∈ t
  starts : ∀ e ∈ t, ∃ tail, e.2 = mark :: tail
  apart : ∀ e ∈ t, ∀ e' ∈ t, e.2 <+: e'.2 → e = e'

variable {t : Table α} {c mark : α} {s s' : List α}

/-- A symbol has an entry, or is written as it is. -/
theorem wordOf_cases (t : Table α) (c : α) :
    (c, wordOf t c) ∈ t ∨ wordOf t c = [c] ∧ ∀ e ∈ t, e.1 ≠ c := by
  induction t with
  | nil => exact .inr ⟨rfl, by simp⟩
  | cons e t ih =>
    rw [wordOf]
    by_cases same : c = e.1
    · rw [if_pos same, same]
      exact .inl List.mem_cons_self
    · rw [if_neg same]
      rcases ih with listed | ⟨plain, absent⟩
      · exact .inl (List.mem_cons_of_mem _ listed)
      · refine .inr ⟨plain, fun e' member => ?_⟩
        rcases List.mem_cons.1 member with rfl | later
        · exact fun eq => same eq.symm
        · exact absent e' later

theorem escape_of_absent (absent : ∀ e ∈ t, e.1 ∉ s) : escape t s = s := by
  induction s with
  | nil => rfl
  | cons c s ih =>
    have rest := ih fun e member inside => absent e member (List.mem_cons_of_mem _ inside)
    rw [escape] at rest ⊢
    rw [List.flatMap_cons, rest]
    rcases wordOf_cases t c with listed | ⟨plain, -⟩
    · exact absurd List.mem_cons_self (absent _ listed)
    · rw [plain, List.singleton_append]

/-- Symbols replaced one after the other. -/
theorem replaceAlls_eq (later : t.Pairwise fun e e' => e'.1 ∉ e.2) (s : List α) :
    t.foldl (fun s e => replaceAll e.1 e.2 s) s = escape t s := by
  induction t generalizing s with
  | nil => simp [escape, wordOf]
  | cons e t ih =>
    obtain ⟨absent, rest⟩ := List.pairwise_cons.1 later
    rw [List.foldl_cons, ih rest, replaceAll, escape, escape, List.flatMap_assoc]
    apply List.flatMap_congr
    intro c _
    rw [wordOf]
    split
    · exact escape_of_absent absent
    · exact List.flatMap_singleton ..

/-- What is written has a replaced symbol only as part of a word. -/
theorem not_mem_escape {u : α} (replaced : ∃ word, (u, word) ∈ t) (absent : ∀ e ∈ t, u ∉ e.2)
    (s : List α) : u ∉ escape t s := by
  intro member
  obtain ⟨c, -, inside⟩ := List.mem_flatMap.1 member
  rcases wordOf_cases t c with listed | ⟨plain, unlisted⟩
  · exact absent _ listed inside
  · rw [plain, List.mem_singleton] at inside
    obtain ⟨word, entry⟩ := replaced
    exact unlisted _ entry inside

theorem decodeFrom_skip (word rest : List α) :
    decodeFrom t word.length (word ++ rest) = decode t rest := by
  induction word with
  | nil => rfl
  | cons c word ih => exact ih

theorem decode_word (readable : Readable t mark) {e : α × List α} (listed : e ∈ t) (rest : List α) :
    decode t (e.2 ++ rest) = e.1 :: decode t rest := by
  have next : nextWord t (e.2 ++ rest) = some e := by
    cases found : nextWord t (e.2 ++ rest) with
    | none =>
      have none_fits := List.find?_eq_none.1 found e listed
      exact absurd (List.isPrefixOf_iff_prefix.2 (List.prefix_append _ _)) none_fits
    | some e' =>
      rw [nextWord] at found
      have fits := List.find?_some found
      rw [List.isPrefixOf_iff_prefix] at fits
      have listed' := List.mem_of_find?_eq_some found
      rcases List.prefix_or_prefix_of_prefix fits (List.prefix_append e.2 rest) with shorter | longer
      · rw [readable.apart e' listed' e listed shorter]
      · rw [readable.apart e listed e' listed' longer]
  obtain ⟨tail, start⟩ := readable.starts e listed
  rw [start, List.cons_append] at next ⊢
  rw [decode, decodeFrom, next]
  dsimp only
  rw [start, List.length_cons, Nat.add_sub_cancel, decodeFrom_skip]

theorem decode_plain (readable : Readable t mark) (unlisted : ∀ e ∈ t, e.1 ≠ c) (rest : List α) :
    decode t (c :: rest) = c :: decode t rest := by
  have next : nextWord t (c :: rest) = none := by
    rw [nextWord, List.find?_eq_none]
    intro e listed fits
    obtain ⟨tail, start⟩ := readable.starts e listed
    obtain ⟨word, entry⟩ := readable.marked
    rw [start, List.isPrefixOf_iff_prefix, List.cons_prefix_cons] at fits
    exact unlisted _ entry fits.1
  rw [decode, decodeFrom, next]
  rfl

/-- **What was escaped is read back.** -/
theorem decode_escape (readable : Readable t mark) (s : List α) : decode t (escape t s) = s := by
  induction s with
  | nil => rfl
  | cons c s ih =>
    rw [escape, List.flatMap_cons]
    rcases wordOf_cases t c with listed | ⟨plain, unlisted⟩
    · rw [decode_word readable listed]
      exact congrArg (c :: ·) ih
    · rw [plain, List.singleton_append, decode_plain readable unlisted]
      exact congrArg (c :: ·) ih

end Escaping
