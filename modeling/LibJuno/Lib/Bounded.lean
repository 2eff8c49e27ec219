import LibJuno.Lib.Machine

/-!
# Bounded first-in first-out and last-in first-out buffers

What a buffer of at most `cap` items may do, as step relations on the list of items
held, over one set of events: an item is taken in, an item is given out, an item is
shown, or the call is refused and nothing changes. A chain of first-in first-out
steps gives out what it took in, in order (`Fifo.conserves`), and an item shown is
the next one given out (`Fifo.shown_is_next`). The relations let a buffer refuse any
call; `fifo` and `lifo` are the machines that refuse only what they must, and a buffer
that serves every call it can takes exactly their steps (`fifo_step`, `lifo_step`).
-/

namespace Buffered

/-- What one call on a buffer does, as its caller sees it. -/
inductive Event (α : Type*) where
  | takes (x : α)
  | gives (x : α)
  | shows (x : α)
  | refuses

/-- A call on a buffer: store an item, hand one out, or show the one to be handed out. -/
inductive Call (α : Type*) where
  | put (x : α)
  | take
  | look

variable {α : Type*}

/-- A call and its answer, whether it was served and the item that went with it, as an
event. -/
def event : Call α → Bool × Option α → Event α
  | .put x, (true, _) => .takes x
  | .take, (true, some x) => .gives x
  | .look, (true, some x) => .shows x
  | _, _ => .refuses

/-- A call that is not served is a refusal. -/
theorem event_refused {call : Call α} {answer : Bool × Option α} (no : answer.1 = false) :
    event call answer = .refuses := by
  obtain ⟨served, item⟩ := answer
  subst no
  cases call <;> rfl

/-- An item goes with the answer exactly when one is asked for and the call is served. -/
def Complete : Call α → Bool × Option α → Prop
  | .put _, answer => answer.2 = none
  | _, answer => answer.2.isSome = answer.1

/-- The answer without the item shown by a look. -/
def outcome : Call α → Bool × Option α → Bool × Option α
  | .look, answer => (answer.1, none)
  | _, answer => answer

/-- A buffer of `cap` items that holds `l` can serve the call. -/
def Servable (cap : Nat) (l : List α) : Call α → Prop
  | .put _ => l.length < cap
  | _ => l ≠ []

/-- The items taken in, in order. -/
def taken : List (Event α) → List α
  | [] => []
  | .takes x :: es => x :: taken es
  | _ :: es => taken es

/-- The items given out, in order. -/
def given : List (Event α) → List α
  | [] => []
  | .gives x :: es => x :: given es
  | _ :: es => given es

/-- A bounded queue, the oldest item first. -/
inductive Fifo (cap : Nat) : List α → Event α → List α → Prop where
  | takes {l : List α} (x : α) (room : l.length < cap) : Fifo cap l (.takes x) (l ++ [x])
  | gives (x : α) (l : List α) : Fifo cap (x :: l) (.gives x) l
  | shows (x : α) (l : List α) : Fifo cap (x :: l) (.shows x) (x :: l)
  | refuses (l : List α) : Fifo cap l .refuses l

/-- A bounded stack, the youngest item first. -/
inductive Lifo (cap : Nat) : List α → Event α → List α → Prop where
  | takes {l : List α} (x : α) (room : l.length < cap) : Lifo cap l (.takes x) (x :: l)
  | gives (x : α) (l : List α) : Lifo cap (x :: l) (.gives x) l
  | shows (x : α) (l : List α) : Lifo cap (x :: l) (.shows x) (x :: l)
  | refuses (l : List α) : Lifo cap l .refuses l

/-- The buffer of `cap` items that hands out the front of its list and refuses only what
it must. -/
def eager (insert : α → List α → List α) (cap : Nat) :
    Machine (List α) (Call α) (Bool × Option α) where
  step l call :=
    match call, l with
    | .put x, l => if l.length < cap then ((true, none), insert x l) else ((false, none), l)
    | .take, [] => ((false, none), [])
    | .take, x :: l => ((true, some x), l)
    | .look, [] => ((false, none), [])
    | .look, x :: l => ((true, some x), x :: l)

/-- The bounded queue. -/
def fifo (cap : Nat) : Machine (List α) (Call α) (Bool × Option α) := eager (fun x l => l ++ [x]) cap

/-- The bounded stack. -/
def lifo (cap : Nat) : Machine (List α) (Call α) (Bool × Option α) := eager List.cons cap

section Eager

variable {cap : Nat} {l l' : List α} {call : Call α} {answer : Bool × Option α}

/-- A refused call that could not have been served is a refused call of the machine. -/
theorem eager_refused (insert : α → List α → List α) (complete : Complete call answer)
    (no : answer.1 = false) (cannot : ¬Servable cap l call) :
    (eager insert cap).step l call = (answer, l) := by
  obtain ⟨served, item⟩ := answer
  subst no
  cases call with
  | put x =>
    simp only [Servable] at cannot
    simp only [Complete] at complete
    simp [eager, cannot, complete]
  | take =>
    simp only [Servable, ne_eq, not_not] at cannot
    simp only [Complete, Option.isSome_eq_false_iff, Option.isNone_iff_eq_none] at complete
    simp [eager, cannot, complete]
  | look =>
    simp only [Servable, ne_eq, not_not] at cannot
    simp only [Complete, Option.isSome_eq_false_iff, Option.isNone_iff_eq_none] at complete
    simp [eager, cannot, complete]

/-- A queue that serves every call it can takes the steps of `fifo`. -/
theorem fifo_step (step : Fifo cap l (event call answer) l') (complete : Complete call answer)
    (serves : Servable cap l call → answer.1 = true) : (fifo cap).step l call = (answer, l') := by
  obtain ⟨served, item⟩ := answer
  cases served with
  | false =>
    rw [event_refused rfl] at step
    cases step
    exact eager_refused _ complete rfl fun can => by simpa using serves can
  | true =>
    cases call <;> cases item <;> simp only [Complete, event] at complete step <;>
      first | contradiction | (cases step; simp [fifo, eager, *])

/-- A stack that serves every call it can takes the steps of `lifo`. -/
theorem lifo_step (step : Lifo cap l (event call answer) l') (complete : Complete call answer)
    (serves : Servable cap l call → answer.1 = true) : (lifo cap).step l call = (answer, l') := by
  obtain ⟨served, item⟩ := answer
  cases served with
  | false =>
    rw [event_refused rfl] at step
    cases step
    exact eager_refused _ complete rfl fun can => by simpa using serves can
  | true =>
    cases call <;> cases item <;> simp only [Complete, event] at complete step <;>
      first | contradiction | (cases step; simp [lifo, eager, *])

end Eager

namespace Fifo

variable {cap : Nat}

theorem refused {l l' : List α} (h : Fifo cap l .refuses l') : l' = l := by
  cases h
  rfl

/-- What was held and what came in is what went out and what is held, in order. -/
theorem conserves {l l' : List α} {es : List (Event α)} (h : StepChain (Fifo cap) l es l') :
    l ++ taken es = given es ++ l' := by
  induction h with
  | nil => simp [taken, given]
  | cons step _ ih =>
    cases step with
    | takes x room => simpa [taken, given] using ih
    | gives x l => simpa [taken, given] using ih
    | shows x l => simpa [taken, given] using ih
    | refuses l => simpa [taken, given] using ih

/-- As long as nothing is given out, the head stays the head. -/
theorem head_stays {x : α} {l l' : List α} {es : List (Event α)}
    (h : StepChain (Fifo cap) (x :: l) es l') (none : given es = []) : ∃ l'', l' = x :: l'' := by
  generalize held : x :: l = front at h
  induction h generalizing l with
  | nil => exact ⟨l, held.symm⟩
  | cons step _ ih =>
    subst held
    cases step with
    | takes y room => exact ih (by simpa [given] using none) rfl
    | gives => simp [given] at none
    | shows => exact ih (by simpa [given] using none) rfl
    | refuses => exact ih (by simpa [given] using none) rfl

/-- The item shown is the next item given out, whatever is taken in between. -/
theorem shown_is_next {x y : α} {l l' : List α} {es : List (Event α)}
    (h : StepChain (Fifo cap) l (.shows x :: (es ++ [.gives y])) l') (none : given es = []) : y = x := by
  cases h with
  | cons step rest =>
    cases step with
    | shows _ l =>
      obtain ⟨mid, front, last⟩ := rest.split
      obtain ⟨l'', rfl⟩ := head_stays front none
      cases last.single
      rfl

end Fifo

namespace Lifo

variable {cap : Nat}

theorem refused {l l' : List α} (h : Lifo cap l .refuses l') : l' = l := by
  cases h
  rfl

/-- As long as nothing comes in or goes out, nothing changes. -/
theorem rests {l l' : List α} {es : List (Event α)} (h : StepChain (Lifo cap) l es l')
    (noneIn : taken es = []) (noneOut : given es = []) : l' = l := by
  induction h with
  | nil => rfl
  | cons step _ ih =>
    cases step with
    | takes => simp [taken] at noneIn
    | gives => simp [given] at noneOut
    | shows => exact ih (by simpa [taken] using noneIn) (by simpa [given] using noneOut)
    | refuses => exact ih (by simpa [taken] using noneIn) (by simpa [given] using noneOut)

/-- The item shown is the next item given out, unless one is taken in on top of it. -/
theorem shown_is_next {x y : α} {l l' : List α} {es : List (Event α)}
    (h : StepChain (Lifo cap) l (.shows x :: (es ++ [.gives y])) l')
    (noneIn : taken es = []) (noneOut : given es = []) : y = x := by
  cases h with
  | cons step rest =>
    cases step with
    | shows _ l =>
      obtain ⟨mid, front, last⟩ := rest.split
      obtain rfl := rests front noneIn noneOut
      cases last.single
      rfl

end Lifo

end Buffered
