import Mathlib.Data.List.Basic

/-!
# Worlds that keep a log

What a program hands to its callbacks is not in their results. To speak of it the program
runs in a world with a log beside it, where each callback writes its arguments down and then
acts as before. `Follows` is the relation between the two runs: same result, same world, and
a log that has only grown.
-/

namespace LibJuno

/-- A world of type `ω` with a log of entries beside it. -/
structure Logged (ε ω : Type) where
  world : ω
  log : List ε

namespace Logged

variable {ε ω τ : Type}

/-- The callback `f`, which logs `entries`. -/
def record (entries : List ε) (f : ω → τ × ω) (w : Logged ε ω) : τ × Logged ε ω :=
  ((f w.world).1, ⟨(f w.world).2, w.log ++ entries⟩)

/-- The outcome `r'` is `r`, over a log that goes on from `old`. -/
def Follows (old : List ε) (r' : τ × Logged ε ω) (r : τ × ω) : Prop :=
  ∃ more, r' = (r.1, ⟨r.2, old ++ more⟩)

theorem Follows.done (x : τ) (w : Logged ε ω) : Follows w.log (x, w) (x, w.world) :=
  ⟨[], by rw [List.append_nil]⟩

theorem Follows.logged {old more : List ε} (x : τ) (v : ω) :
    Follows old (x, (⟨v, old ++ more⟩ : Logged ε ω)) (x, v) :=
  ⟨more, rfl⟩

theorem Follows.map {σ : Type} {old : List ε} {r' : τ × Logged ε ω} {r : τ × ω} (f : τ → σ)
    (h : Follows old r' r) : Follows old (f r'.1, r'.2) (f r.1, r.2) := by
  obtain ⟨more, rfl⟩ := h
  exact ⟨more, rfl⟩

/-- What follows a later log follows an earlier one. -/
theorem Follows.after {old more : List ε} {r' : τ × Logged ε ω} {r : τ × ω}
    (h : Follows (old ++ more) r' r) : Follows old r' r := by
  obtain ⟨rest, rfl⟩ := h
  exact ⟨more ++ rest, by rw [List.append_assoc]⟩

/-- An entry once logged stays in the log. -/
theorem Follows.mem {old : List ε} {r' : τ × Logged ε ω} {r : τ × ω} (h : Follows old r' r) {e : ε}
    (logged : e ∈ old) : e ∈ r'.2.log := by
  obtain ⟨more, rfl⟩ := h
  exact List.mem_append_left more logged

end Logged

end LibJuno
