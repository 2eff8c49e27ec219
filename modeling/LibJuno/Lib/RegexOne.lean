import LibJuno.Lib.RegexRuns

/-!
# Words of one symbol

Whether an expression matches a word of one symbol wherever that stands. What it asks of the
symbols around is not looked at, so the test is on the safe side.
-/

namespace Regex

variable {α : Type*} {s : List α} {u : α} {i : Nat} {c : Captures}

/-- The expression matches the empty word everywhere. -/
def idles : Regex α → Bool
  | eps => true
  | sym _ => false
  | seq r t => idles r && idles t
  | alt r t => idles r || idles t
  | star _ _ => true
  | group _ r => idles r
  | around _ => false

/-- The expression matches the one symbol everywhere. -/
def takesOne (u : α) : Regex α → Bool
  | eps => false
  | sym p => p u
  | seq r t => takesOne u r && idles t || idles r && takesOne u t
  | alt r t => takesOne u r || takesOne u t
  | star _ _ => false
  | group _ r => takesOne u r
  | around _ => false

theorem idles_run {r : Regex α} (idle : idles r = true) (i : Nat) (c : Captures) :
    ∃ c', (i, c') ∈ runs s r i c := by
  induction r generalizing c with
  | eps => exact ⟨c, List.mem_singleton_self _⟩
  | sym p => cases idle
  | seq r t ihr iht =>
    rw [idles, Bool.and_eq_true] at idle
    obtain ⟨c', first⟩ := ihr idle.1 c
    obtain ⟨c'', second⟩ := iht idle.2 c'
    exact ⟨c'', mem_runs_seq.2 ⟨_, first, second⟩⟩
  | alt r t ihr iht =>
    rw [idles, Bool.or_eq_true] at idle
    rcases idle with left | right
    · obtain ⟨c', member⟩ := ihr left c
      exact ⟨c', mem_runs_alt.2 (.inl member)⟩
    · obtain ⟨c', member⟩ := iht right c
      exact ⟨c', mem_runs_alt.2 (.inr member)⟩
  | star greedy r => exact ⟨c, mem_rounds_self greedy _ _ i c⟩
  | group n r ih =>
    obtain ⟨c', member⟩ := ih idle c
    exact ⟨_, mem_runs_group.2 ⟨_, member, rfl⟩⟩
  | around p => cases idle

theorem takesOne_run {r : Regex α} (takes : takesOne u r = true) (here : s[i]? = some u)
    (c : Captures) : ∃ c', (i + 1, c') ∈ runs s r i c := by
  induction r generalizing c with
  | eps => cases takes
  | sym p => exact ⟨c, mem_runs_sym_of here takes⟩
  | seq r t ihr iht =>
    rw [takesOne, Bool.or_eq_true, Bool.and_eq_true, Bool.and_eq_true] at takes
    rcases takes with ⟨takes, idle⟩ | ⟨idle, takes⟩
    · obtain ⟨c', first⟩ := ihr takes c
      obtain ⟨c'', second⟩ := idles_run idle (i + 1) c'
      exact ⟨c'', mem_runs_seq.2 ⟨_, first, second⟩⟩
    · obtain ⟨c', first⟩ := idles_run idle i c
      obtain ⟨c'', second⟩ := iht takes c'
      exact ⟨c'', mem_runs_seq.2 ⟨_, first, second⟩⟩
  | alt r t ihr iht =>
    rw [takesOne, Bool.or_eq_true] at takes
    rcases takes with left | right
    · obtain ⟨c', member⟩ := ihr left c
      exact ⟨c', mem_runs_alt.2 (.inl member)⟩
    · obtain ⟨c', member⟩ := iht right c
      exact ⟨c', mem_runs_alt.2 (.inr member)⟩
  | star => cases takes
  | group n r ih =>
    obtain ⟨c', member⟩ := ih takes c
    exact ⟨_, mem_runs_group.2 ⟨_, member, rfl⟩⟩
  | around p => cases takes

theorem matchAt_of_takesOne {r : Regex α} (takes : takesOne u r = true) (here : s[i]? = some u) :
    matchAt s r i ≠ none := by
  obtain ⟨c, member⟩ := takesOne_run takes here []
  apply Option.isSome_iff_ne_none.1
  exact matchAt_isSome.2 ⟨_, member⟩

end Regex
