import Mathlib.Data.List.Induction

/-!
# The status bar

`providers/statusBarHelper.ts`. An error is shown for five seconds and then gives way to the
text that it replaced. An error that comes while another one is shown replaces that one's
text, so of a quick series of errors it is the one before the last, and not the indexed
count, that comes back: `rest_iff_calm`.
-/

namespace LibJuno.Providers

/-- `StatusBarHelper`. The pending timer, if any, holds the text to restore. -/
structure StatusBar where
  text : String
  clearTimer : Option String
  lastErrorTime : Option Nat
  informed : List String

/-- What happens to the status bar, with the time of an error in milliseconds. The timer may
fire at any moment; it does nothing when it was cleared or has fired. -/
inductive BarEvent where
  | showIndexed (fileCount : Nat)
  | showError (now : Nat) (message : String)
  | clear

def indexedText (fileCount : Nat) : String := "$(check) LibJuno: Indexed " ++ toString fileCount ++ " files"

def errorText (message : String) : String := "$(warning) LibJuno: " ++ message

namespace StatusBar

def fresh : StatusBar := ⟨"", none, none, []⟩

/-- `showError` offers the message as a notification when the last error was less than ten
seconds ago. -/
def step (s : StatusBar) : BarEvent → StatusBar
  | .showIndexed fileCount =>
    { s with clearTimer := none, lastErrorTime := none, text := indexedText fileCount }
  | .showError now message =>
    { text := errorText message
      clearTimer := some s.text
      lastErrorTime := some now
      informed :=
        if s.lastErrorTime.any fun last => decide (now - last < 10000) then s.informed ++ [message]
        else s.informed }
  | .clear =>
    match s.clearTimer with
    | none => s
    | some previous => { s with text := previous, clearTimer := none }

def run (events : List BarEvent) : StatusBar := events.foldl step fresh

end StatusBar

section Rest

/-- The event does not set the indexed text. -/
def BarEvent.passing : BarEvent → Prop
  | .showIndexed _ => False
  | _ => True

/-- An error that the timer has not cleared yet. -/
def Open (es : List BarEvent) : Prop :=
  ∃ before now message after, es = before ++ .showError now message :: after ∧ .clear ∉ after

/-- Between any two errors the timer fires. -/
def Calm (es : List BarEvent) : Prop :=
  ∀ before t m mid t' m' after,
    es = before ++ .showError t m :: (mid ++ .showError t' m' :: after) → .clear ∈ mid

/-- The characters of a literal, and of what is appended to it. -/
theorem toList_literal_append {lit : String} {cs : List Char} (chars : String.ofList cs = lit)
    (rest : String) : (lit ++ rest).toList = cs ++ rest.toList := by
  subst chars
  rw [String.toList_append, String.toList_ofList]

theorem errorText_ne_indexedText (message : String) (fileCount : Nat) :
    errorText message ≠ indexedText fileCount := by
  have warning : (errorText message).toList.take 3 = ['$', '(', 'w'] :=
    congrArg (List.take 3) (toList_literal_append rfl message)
  have check : ("$(check) LibJuno: Indexed " ++ toString fileCount).toList.take 3 = ['$', '(', 'c'] :=
    congrArg (List.take 3) (toList_literal_append rfl (toString fileCount))
  have whole : (indexedText fileCount).toList.take 3 = ['$', '(', 'c'] := by
    unfold indexedText
    rw [String.toList_append, List.take_append_of_le_length, check]
    have three := congrArg List.length check
    rw [List.length_take, List.length_cons, List.length_cons, List.length_singleton] at three
    omega
  intro same
  rw [same, whole] at warning
  exact absurd warning (by decide)

/-- A place in a list with one more item is the last one or was there before. -/
theorem split_last {α : Type*} {es before after : List α} {e x : α}
    (split : es ++ [e] = before ++ x :: after) :
    (after = [] ∧ es = before ∧ e = x) ∨ ∃ rest, after = rest ++ [e] ∧ es = before ++ x :: rest := by
  rcases List.eq_nil_or_concat after with rfl | ⟨rest, last, rfl⟩
  · obtain ⟨same, ends⟩ := List.append_inj' split rfl
    exact .inl ⟨rfl, same, List.singleton_inj.1 ends⟩
  · rw [List.concat_eq_append, ← List.cons_append, ← List.append_assoc] at split
    obtain ⟨same, ends⟩ := List.append_inj' split rfl
    obtain rfl := List.singleton_inj.1 ends
    exact .inr ⟨rest, List.concat_eq_append, same⟩

theorem open_append_clear (es : List BarEvent) : ¬Open (es ++ [.clear]) := by
  rintro ⟨before, now, message, after, split, uncleared⟩
  rcases split_last split with ⟨-, -, own⟩ | ⟨rest, rfl, -⟩
  · cases own
  · exact uncleared (by simp)

theorem open_append_error (es : List BarEvent) (now : Nat) (message : String) :
    Open (es ++ [.showError now message]) :=
  ⟨es, now, message, [], rfl, nofun⟩

/-- The second of two errors is the last event, or both were there before. -/
theorem split_errors {es before mid after : List BarEvent} {e x x' : BarEvent}
    (split : es ++ [e] = before ++ x :: (mid ++ x' :: after)) :
    (after = [] ∧ es = before ++ x :: mid ∧ e = x') ∨
      ∃ rest, after = rest ++ [e] ∧ es = before ++ x :: (mid ++ x' :: rest) := by
  have shape : before ++ x :: (mid ++ x' :: after) = (before ++ x :: mid) ++ x' :: after := by simp
  rcases split_last (split.trans shape) with here | ⟨rest, ends, same⟩
  · exact .inl here
  · exact .inr ⟨rest, ends, by rw [same]; simp⟩

theorem calm_of_append {es : List BarEvent} {e : BarEvent} (calm : Calm (es ++ [e])) : Calm es := by
  rintro before t m mid t' m' after rfl
  exact calm before t m mid t' m' (after ++ [e]) (by simp)

theorem calm_append_clear (es : List BarEvent) : Calm (es ++ [.clear]) ↔ Calm es := by
  refine ⟨calm_of_append, ?_⟩
  intro calm before t m mid t' m' after split
  rcases split_errors split with ⟨-, -, own⟩ | ⟨rest, -, same⟩
  · cases own
  · exact calm before t m mid t' m' rest same

theorem calm_append_error (es : List BarEvent) (now : Nat) (message : String) :
    Calm (es ++ [.showError now message]) ↔ Calm es ∧ ¬Open es := by
  constructor
  · intro calm
    refine ⟨calm_of_append calm, ?_⟩
    rintro ⟨before, t, m, mid, rfl, uncleared⟩
    exact uncleared (calm before t m mid now message [] (by simp))
  · rintro ⟨calm, cleared⟩ before t m mid t' m' after split
    rcases split_errors split with ⟨-, same, -⟩ | ⟨rest, -, same⟩
    · by_contra uncleared
      exact cleared ⟨before, t, m, mid, same, uncleared⟩
    · exact calm before t m mid t' m' rest same

theorem not_open_of_append {es es' : List BarEvent} (cleared : ¬Open (es ++ es')) : ¬Open es' := by
  rintro ⟨before, now, message, after, rfl, uncleared⟩
  exact cleared ⟨es ++ before, now, message, after, by simp, uncleared⟩

theorem calm_singleton (e : BarEvent) : Calm [e] := by
  intro before t m mid t' m' after split
  have lengths := congrArg List.length split
  simp at lengths
  omega

/-- The text that comes back after these events: the count, or the error before the last one
of the latest errors between which the timer did not fire. -/
def Restores (fileCount : Nat) (es : List BarEvent) (text : String) : Prop :=
  (Calm es ∧ text = indexedText fileCount) ∨
    ∃ before t m t' m' after, es = before ++ .showError t m :: .showError t' m' :: after ∧
      Calm (.showError t' m' :: after) ∧ text = errorText m

theorem Restores.eq_indexed_iff {fileCount : Nat} {es : List BarEvent} {text : String}
    (restores : Restores fileCount es text) : text = indexedText fileCount ↔ Calm es := by
  rcases restores with ⟨calm, rfl⟩ | ⟨before, t, m, t', m', after, rfl, -, rfl⟩
  · exact ⟨fun _ => calm, fun _ => rfl⟩
  · refine ⟨fun same => absurd same (errorText_ne_indexedText m fileCount), fun calm => ?_⟩
    exact absurd (calm before t m [] t' m' after rfl) (List.not_mem_nil)

/-- An error that comes when none is shown leaves what comes back. -/
theorem Restores.append_error {fileCount : Nat} {es : List BarEvent} {text : String}
    (restores : Restores fileCount es text) (cleared : ¬Open es) (now : Nat) (message : String) :
    Restores fileCount (es ++ [.showError now message]) text := by
  rcases restores with ⟨calm, same⟩ | ⟨before, t, m, t', m', after, rfl, calm, same⟩
  · exact .inl ⟨(calm_append_error es now message).2 ⟨calm, cleared⟩, same⟩
  · refine .inr ⟨before, t, m, t', m', after ++ [.showError now message], by simp, ?_, same⟩
    rw [← List.cons_append, calm_append_error]
    refine ⟨calm, ?_⟩
    rw [List.append_cons] at cleared
    exact not_open_of_append cleared

theorem Restores.append_clear {fileCount : Nat} {es : List BarEvent} {text : String}
    (restores : Restores fileCount es text) : Restores fileCount (es ++ [.clear]) text := by
  rcases restores with ⟨calm, same⟩ | ⟨before, t, m, t', m', after, rfl, calm, same⟩
  · exact .inl ⟨(calm_append_clear es).2 calm, same⟩
  · refine .inr ⟨before, t, m, t', m', after ++ [.clear], by simp, ?_, same⟩
    rw [← List.cons_append]
    exact (calm_append_clear _).2 calm

/-- The status bar against what happened since the count was shown. While an error is shown it
is the last event. -/
structure Follows (fileCount : Nat) (es : List BarEvent) (s : StatusBar) : Prop where
  pending : s.clearTimer.isSome = true ↔ Open es
  shown : ∀ previous, s.clearTimer = some previous → Restores fileCount es previous ∧
    ∃ before t m, es = before ++ [.showError t m] ∧ s.text = errorText m
  rest : s.clearTimer = none → Restores fileCount es s.text

theorem Follows.start (fileCount : Nat) (s : StatusBar) :
    Follows fileCount [] (s.step (.showIndexed fileCount)) where
  pending := by
    refine ⟨nofun, ?_⟩
    rintro ⟨before, now, message, after, split, -⟩
    simp at split
  shown _ := nofun
  rest _ := by
    refine .inl ⟨?_, rfl⟩
    intro before t m mid t' m' after split
    simp at split

/-- An error keeps the text that it replaces, whatever that is. -/
theorem Follows.showError {fileCount : Nat} {es : List BarEvent} {s : StatusBar}
    (follows : Follows fileCount es s) (now : Nat) (message : String) :
    Follows fileCount (es ++ [.showError now message]) (s.step (.showError now message)) where
  pending := ⟨fun _ => open_append_error es now message, fun _ => rfl⟩
  shown := by
    rintro previous ⟨⟩
    refine ⟨?_, es, now, message, rfl, rfl⟩
    cases timer : s.clearTimer with
    | none =>
      refine (follows.rest timer).append_error ?_ now message
      rw [← follows.pending, timer]
      decide
    | some p =>
      obtain ⟨-, before, t, m, rfl, text⟩ := follows.shown p timer
      exact .inr ⟨before, t, m, now, message, [], by simp, calm_singleton _, text⟩
  rest := nofun

theorem Follows.clear {fileCount : Nat} {es : List BarEvent} {s : StatusBar}
    (follows : Follows fileCount es s) : Follows fileCount (es ++ [.clear]) (s.step .clear) := by
  have never := open_append_clear es
  cases timer : s.clearTimer with
  | none =>
    have same : s.step .clear = s := by
      unfold StatusBar.step
      rw [timer]
    rw [same]
    constructor
    · rw [timer]
      exact ⟨nofun, fun open_ => absurd open_ never⟩
    · rw [timer]
      nofun
    · exact fun cleared => (follows.rest cleared).append_clear
  | some previous =>
    have restored : s.step .clear = { s with text := previous, clearTimer := none } := by
      unfold StatusBar.step
      rw [timer]
    rw [restored]
    constructor
    · exact ⟨nofun, fun open_ => absurd open_ never⟩
    · nofun
    · exact fun _ => (follows.shown previous timer).1.append_clear

theorem run_append (earlier : List BarEvent) (fileCount : Nat) (es : List BarEvent) (e : BarEvent) :
    StatusBar.run (earlier ++ .showIndexed fileCount :: (es ++ [e])) =
      (StatusBar.run (earlier ++ .showIndexed fileCount :: es)).step e := by
  unfold StatusBar.run
  rw [← List.cons_append, ← List.append_assoc, List.foldl_append]
  rfl

theorem follows_run (earlier : List BarEvent) (fileCount : Nat) {es : List BarEvent}
    (passing : ∀ e ∈ es, e.passing) :
    Follows fileCount es (StatusBar.run (earlier ++ .showIndexed fileCount :: es)) := by
  induction es using List.reverseRecOn with
  | nil =>
    unfold StatusBar.run
    rw [List.foldl_append]
    exact .start fileCount _
  | append_singleton es e ih =>
    have before := ih fun e' member => passing e' (List.mem_append_left _ member)
    rw [run_append]
    cases e with
    | showIndexed n => exact (passing (.showIndexed n) (by simp)).elim
    | showError now message => exact before.showError now message
    | clear => exact before.clear

end Rest

section Notices

/-- The time of the last error since the count was shown. -/
theorem lastErrorTime_run (earlier : List BarEvent) (fileCount : Nat) {es : List BarEvent}
    (passing : ∀ e ∈ es, e.passing) (last : Nat) :
    (StatusBar.run (earlier ++ .showIndexed fileCount :: es)).lastErrorTime = some last ↔
      ∃ before message after, es = before ++ .showError last message :: after ∧
        ∀ e ∈ after, e = .clear := by
  induction es using List.reverseRecOn with
  | nil =>
    unfold StatusBar.run
    rw [List.foldl_append]
    refine ⟨nofun, ?_⟩
    rintro ⟨before, message, after, split, -⟩
    simp at split
  | append_singleton es e ih =>
    have earlier_errors := ih fun e' member => passing e' (List.mem_append_left _ member)
    rw [run_append]
    cases e with
    | showIndexed n => exact (passing (.showIndexed n) (by simp)).elim
    | showError now message =>
      constructor
      · rintro ⟨⟩
        exact ⟨es, message, [], rfl, nofun⟩
      · rintro ⟨before, m, after, split, cleared⟩
        rcases split_last split with ⟨-, -, own⟩ | ⟨rest, rfl, -⟩
        · obtain ⟨rfl, -⟩ := BarEvent.showError.inj own
          rfl
        · have kind := cleared (.showError now message) (by simp)
          cases kind
    | clear =>
      have kept : ((StatusBar.run (earlier ++ .showIndexed fileCount :: es)).step .clear).lastErrorTime =
          (StatusBar.run (earlier ++ .showIndexed fileCount :: es)).lastErrorTime := by
        generalize StatusBar.run _ = s
        unfold StatusBar.step
        cases s.clearTimer <;> rfl
      rw [kept, earlier_errors]
      constructor
      · rintro ⟨before, m, after, rfl, cleared⟩
        refine ⟨before, m, after ++ [.clear], by simp, fun e member => ?_⟩
        rcases List.mem_append.1 member with early | own
        · exact cleared e early
        · exact List.mem_singleton.1 own
      · rintro ⟨before, m, after, split, cleared⟩
        rcases split_last split with ⟨-, -, own⟩ | ⟨rest, rfl, same⟩
        · cases own
        · exact ⟨before, m, rest, same, fun e member => cleared e (List.mem_append_left _ member)⟩

end Notices

/-- Since the indexed count was last shown, and while no error is shown, the status bar shows
the count if and only if the timer fired between any two errors; else it shows the error
before the last one of the latest errors between which the timer did not fire. While an
error is shown, it is the last one. A further error is also a notification exactly when
another one came less than ten seconds before it. -/
theorem rest_iff_calm (earlier : List BarEvent) (fileCount : Nat) {es : List BarEvent}
    (passing : ∀ e ∈ es, e.passing) :
    let s := StatusBar.run (earlier ++ .showIndexed fileCount :: es)
    (¬Open es → (s.text = indexedText fileCount ↔ Calm es) ∧
      (¬Calm es → ∃ before t m t' m' after, es = before ++ .showError t m :: .showError t' m' :: after ∧
        Calm (.showError t' m' :: after) ∧ s.text = errorText m)) ∧
    (Open es → ∃ before t m, es = before ++ [.showError t m] ∧ s.text = errorText m) ∧
    ∀ now message, (s.step (.showError now message)).informed = s.informed ++ [message] ↔
      ∃ before last m after, es = before ++ .showError last m :: after ∧
        (∀ e ∈ after, e = .clear) ∧ now - last < 10000 := by
  intro s
  have follows := follows_run earlier fileCount passing
  refine ⟨fun cleared => ?_, fun shown => ?_, fun now message => ?_⟩
  · rw [← follows.pending, Option.not_isSome_iff_eq_none] at cleared
    have restores := follows.rest cleared
    exact ⟨restores.eq_indexed_iff, fun hasty => restores.resolve_left fun calm => hasty calm.1⟩
  · obtain ⟨previous, timer⟩ := Option.isSome_iff_exists.1 (follows.pending.2 shown)
    exact (follows.shown previous timer).2
  · have times := lastErrorTime_run earlier fileCount passing
    have recent : (s.step (.showError now message)).informed = s.informed ++ [message] ↔
        ∃ last, s.lastErrorTime = some last ∧ now - last < 10000 := by
      unfold StatusBar.step
      dsimp only
      cases s.lastErrorTime with
      | none => simp
      | some last => by_cases soon : now - last < 10000 <;> simp [soon]
    rw [recent]
    constructor
    · rintro ⟨last, time, soon⟩
      obtain ⟨before, m, after, split, cleared⟩ := (times last).1 time
      exact ⟨before, last, m, after, split, cleared, soon⟩
    · rintro ⟨before, last, m, after, split, cleared, soon⟩
      exact ⟨last, (times last).2 ⟨before, m, after, split, cleared⟩, soon⟩

/-- After three quick errors the second one comes back, and the count does not. -/
theorem rest_iff_calm_three :
    ∃ before t m t' m' after, [BarEvent.showError 0 "a", .showError 2000 "b", .showError 3000 "c", .clear] =
        before ++ .showError t m :: .showError t' m' :: after ∧ Calm (.showError t' m' :: after) ∧
      (StatusBar.run ([] ++ .showIndexed 3 ::
        [.showError 0 "a", .showError 2000 "b", .showError 3000 "c", .clear])).text = errorText m := by
  have passing : ∀ e ∈ [BarEvent.showError 0 "a", .showError 2000 "b", .showError 3000 "c", .clear],
      e.passing := by
    simp [BarEvent.passing]
  refine ((rest_iff_calm [] 3 passing).1
    (open_append_clear [.showError 0 "a", .showError 2000 "b", .showError 3000 "c"])).2 fun calm => ?_
  exact absurd (calm [] 0 "a" [] 2000 "b" [.showError 3000 "c", .clear] rfl) List.not_mem_nil

end LibJuno.Providers
