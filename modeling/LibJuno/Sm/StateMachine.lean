import LibJuno.Status
import LibJuno.Lib.Machine
import LibJuno.Lib.Ancestry
import Mathlib.Data.List.Induction

/-!
# State machines

The functions of `sm_api.h` on a memory of states and state machines. A state links to the
next one by an option, and the state machine holds the address of the current state. In
every run the current state is there from the last initialisation with one (`sm_live`), and
transitions follow the links to the end of the chain (`sm_walks`).
-/

namespace LibJuno.Sm

/-- `JUNO_SM_STATE_ROOT_T`; NULL is 0. -/
structure StateRoot where
  ptApi : Nat
  pfcnFailureHandler : Nat
  pvFailureUserData : Nat
  ptSm : Nat
  bIsSome : Bool
  tSome : Nat
  deriving DecidableEq, Inhabited

/-- `JUNO_SM_ROOT_T`. -/
structure SmRoot where
  pfcnFailureHandler : Nat
  pvFailureUserData : Nat
  ptCurrentState : Nat
  deriving DecidableEq, Inhabited

/-- `JUNO_SM_OPTION_STATE_T`. -/
structure OptionState where
  bIsSome : Bool
  tSome : Nat
  deriving DecidableEq

/-- The states and the state machines of a program, by address. -/
structure World where
  states : Nat → StateRoot
  sms : Nat → SmRoot

/-- Memory that nothing has been written to. -/
def World.zero : World := ⟨fun _ => ⟨0, 0, 0, 0, false, 0⟩, fun _ => ⟨0, 0, 0⟩⟩

/-- `JunoSm_Verify`. -/
def smVerify (w : World) (ptSmRoot : Nat) : Status :=
  if ptSmRoot = 0 then .nullptrError else assertExists ((w.sms ptSmRoot).ptCurrentState ≠ 0)

/-- `JunoSm_StateVerify`. -/
def smStateVerify (w : World) (ptSmState : Nat) : Status :=
  if ptSmState = 0 then .nullptrError
  else if !((w.states ptSmState).ptApi ≠ 0 && (w.states ptSmState).ptSm ≠ 0) then .nullptrError
  else if (w.states ptSmState).bIsSome then assertExists ((w.states ptSmState).tSome ≠ 0)
  else .success

/-- `JunoSm_StateInit`. -/
def smStateInit (ptSm ptStateRoot ptNextState ptStateApi pfcnFailureHandler pvFailureUserData : Nat)
    (w : World) : Status × World :=
  if !(ptStateRoot ≠ 0 && ptStateApi ≠ 0 && ptSm ≠ 0) then (.nullptrError, w)
  else
    let state : StateRoot := ⟨ptStateApi, pfcnFailureHandler, pvFailureUserData, ptSm,
      ptNextState ≠ 0, ptNextState⟩
    let w : World := { w with states := Function.update w.states ptStateRoot state }
    (smStateVerify w ptStateRoot, w)

/-- `JunoSm_Init`: the start state is stored before it is checked. -/
def smInit (ptSmRoot ptStartState pfcnFailureHandler pvFailureUserData : Nat) (w : World) :
    Status × World :=
  if ptSmRoot = 0 then (.nullptrError, w)
  else
    let sm : SmRoot := ⟨pfcnFailureHandler, pvFailureUserData, ptStartState⟩
    let w : World := { w with sms := Function.update w.sms ptSmRoot sm }
    (smVerify w ptSmRoot, w)

/-- `JunoSm_GetCurrentState`. -/
def smGetCurrentState (w : World) (ptSmRoot : Nat) : Result Nat :=
  if smVerify w ptSmRoot ≠ .success then ⟨smVerify w ptSmRoot, 0⟩
  else ⟨.success, (w.sms ptSmRoot).ptCurrentState⟩

/-- `JunoSm_TransitionState`. -/
def smTransitionState (ptSmRoot : Nat) (w : World) : Result OptionState × World :=
  if smVerify w ptSmRoot ≠ .success then (⟨smVerify w ptSmRoot, false, 0⟩, w)
  else
    let sm := w.sms ptSmRoot
    let state := w.states sm.ptCurrentState
    if state.bIsSome then
      (⟨.success, true, state.tSome⟩,
        { w with sms := Function.update w.sms ptSmRoot { sm with ptCurrentState := state.tSome } })
    else (⟨.success, false, 0⟩, w)

/-- The calls a program makes. -/
inductive Op where
  | stateInit (ptSm ptStateRoot ptNextState ptStateApi handler userData : Nat)
  | init (ptSmRoot ptStartState handler userData : Nat)
  | getCurrentState (ptSmRoot : Nat)
  | transition (ptSmRoot : Nat)
  deriving DecidableEq

inductive Outcome where
  | status (tStatus : Status)
  | state (tResult : Result Nat)
  | option (tResult : Result OptionState)
  deriving DecidableEq

/-- The state machines of a program as a machine. -/
def calls : Machine World Op Outcome where
  step w
    | .stateInit sm state next api handler user =>
      let r := smStateInit sm state next api handler user w
      (.status r.1, r.2)
    | .init sm start handler user =>
      let r := smInit sm start handler user w
      (.status r.1, r.2)
    | .getCurrentState sm => (.state (smGetCurrentState w sm), w)
    | .transition sm =>
      let r := smTransitionState sm w
      (.option r.1, r.2)

section Verified

variable {w : World} {sm : Nat}

/-- A state machine with a current state. -/
def HasState (w : World) (sm : Nat) : Prop := sm ≠ 0 ∧ (w.sms sm).ptCurrentState ≠ 0

theorem smVerify_eq_success : smVerify w sm = .success ↔ HasState w sm := by
  unfold smVerify HasState
  split
  · next null => simp [null]
  · next present => simp [present]

theorem smGetCurrentState_eq : (smGetCurrentState w sm).tStatus = .success ↔ HasState w sm := by
  rw [← smVerify_eq_success]
  unfold smGetCurrentState
  split
  · next failed => simp [failed]
  · next verified => simpa using verified

theorem smGetCurrentState_of_hasState (has : HasState w sm) :
    smGetCurrentState w sm = ⟨.success, (w.sms sm).ptCurrentState⟩ := by
  rw [smGetCurrentState, if_neg (not_not.2 (smVerify_eq_success.2 has))]

/-- The links of the states. -/
def World.next (w : World) (state : Nat) : Option Nat :=
  if (w.states state).bIsSome then some (w.states state).tSome else none

/-- No link is to NULL. -/
def Linked (w : World) : Prop := ∀ state next, w.next state = some next → next ≠ 0

theorem linked_zero : Linked .zero := by
  intro state next link
  cases link

/-- What a transition does: it follows the link of the current state, if there is one. -/
theorem smTransitionState_cases (has : HasState w sm) :
    (∃ next, w.next (w.sms sm).ptCurrentState = some next ∧
      smTransitionState sm w = (⟨.success, true, next⟩,
        { w with sms := Function.update w.sms sm { w.sms sm with ptCurrentState := next } })) ∨
    (w.next (w.sms sm).ptCurrentState = none ∧ smTransitionState sm w = (⟨.success, false, 0⟩, w)) := by
  unfold World.next smTransitionState
  rw [if_neg (not_not.2 (smVerify_eq_success.2 has))]
  dsimp only
  cases (w.states (w.sms sm).ptCurrentState).bIsSome with
  | true => exact .inl ⟨_, rfl, rfl⟩
  | false => exact .inr ⟨rfl, rfl⟩

theorem smTransitionState_failed (has : ¬HasState w sm) :
    smTransitionState sm w = (⟨smVerify w sm, false, 0⟩, w) := by
  rw [smTransitionState, if_pos fun verified => has (smVerify_eq_success.1 verified)]

end Verified

section Reached

variable {w : World}

/-- What a call does to the links: only an initialisation with everything it needs sets one. -/
theorem next_step (op : Op) (state : Nat) :
    (calls.step w op).2.next state = w.next state ∨
      (calls.step w op).2.next state = none ∨
      ∃ next, next ≠ 0 ∧ (calls.step w op).2.next state = some next := by
  cases op with
  | stateInit sm root next api handler user =>
    unfold calls smStateInit
    dsimp only
    split
    · exact .inl rfl
    · by_cases here : state = root
      · subst here
        by_cases null : next = 0
        · exact .inr (.inl (by simp [World.next, null]))
        · exact .inr (.inr ⟨next, null, by simp [World.next, null]⟩)
      · exact .inl (by simp [World.next, Function.update_of_ne here])
  | init sm start handler user =>
    unfold calls smInit
    dsimp only
    split <;> exact .inl rfl
  | getCurrentState => exact .inl rfl
  | transition sm =>
    by_cases has : HasState w sm
    · rcases smTransitionState_cases has with ⟨next, -, moved⟩ | ⟨-, stays⟩
      · exact .inl (by unfold calls; dsimp only; rw [moved]; rfl)
      · exact .inl (by unfold calls; dsimp only; rw [stays])
    · exact .inl (by unfold calls; dsimp only; rw [smTransitionState_failed has])

theorem Linked.step (linked : Linked w) (op : Op) : Linked (calls.step w op).2 := by
  intro state next link
  rcases next_step op state with same | none | ⟨next', present, set⟩
  · exact linked state next (same ▸ link)
  · rw [none] at link
    cases link
  · rw [set] at link
    cases link
    exact present

/-- Whether a call gives a state machine another state to start from. -/
def Op.starts (sm : Nat) : Op → Bool
  | .init sm' _ _ _ => sm' = sm
  | _ => false

/-- A call that does not start a state machine keeps its having a current state. -/
theorem hasState_step (linked : Linked w) {op : Op} {sm : Nat} (other : op.starts sm = false) :
    HasState (calls.step w op).2 sm ↔ HasState w sm := by
  cases op with
  | stateInit sm' root next api handler user =>
    unfold calls smStateInit
    dsimp only
    split <;> exact Iff.rfl
  | init sm' start handler user =>
    have other : sm' ≠ sm := by simpa [Op.starts] using other
    unfold calls smInit HasState
    dsimp only
    split
    · exact Iff.rfl
    · dsimp only
      rw [Function.update_of_ne (Ne.symm other)]
  | getCurrentState => exact Iff.rfl
  | transition sm' =>
    by_cases has : HasState w sm'
    · rcases smTransitionState_cases has with ⟨next, link, moved⟩ | ⟨-, stays⟩
      · unfold calls HasState
        dsimp only
        rw [moved]
        dsimp only
        by_cases here : sm = sm'
        · subst here
          rw [Function.update_self]
          exact ⟨fun _ => has, fun _ => ⟨has.1, linked _ _ link⟩⟩
        · rw [Function.update_of_ne here]
      · unfold calls
        dsimp only
        rw [stays]
    · unfold calls
      dsimp only
      rw [smTransitionState_failed has]

theorem hasState_init {sm start handler user : Nat} (present : sm ≠ 0) :
    HasState (calls.step w (.init sm start handler user)).2 sm ↔ start ≠ 0 := by
  unfold calls smInit HasState
  dsimp only
  rw [if_neg present]
  dsimp only
  rw [Function.update_self]
  exact and_iff_right present

/-- The last call of a run that starts the state machine gave it a state. -/
def StartedLast (sm : Nat) (ops : List Op) : Prop :=
  ∃ front start handler user back, ops = front ++ .init sm start handler user :: back ∧ start ≠ 0 ∧
    ∀ op ∈ back, op.starts sm = false

theorem startedLast_concat {ops : List Op} {op : Op} {sm : Nat} (other : op.starts sm = false) :
    StartedLast sm (ops ++ [op]) ↔ StartedLast sm ops := by
  constructor
  · rintro ⟨front, start, handler, user, back, split, present, later⟩
    rcases List.eq_nil_or_concat back with rfl | ⟨back, last, rfl⟩
    · obtain ⟨rfl, same⟩ := List.append_inj' split rfl
      cases same
      simp [Op.starts] at other
    · rw [List.concat_eq_append] at split later
      have split : ops ++ [op] = (front ++ .init sm start handler user :: back) ++ [last] := by
        simpa using split
      obtain ⟨rfl, -⟩ := List.append_inj' split rfl
      exact ⟨front, start, handler, user, back, rfl, present, fun op mem => later op (by simp [mem])⟩
  · rintro ⟨front, start, handler, user, back, rfl, present, later⟩
    refine ⟨front, start, handler, user, back ++ [op], by simp, present, fun op' mem => ?_⟩
    rcases List.mem_append.1 mem with earlier | last
    · exact later op' earlier
    · exact List.mem_singleton.1 last ▸ other

theorem startedLast_concat_init {ops : List Op} {sm start handler user : Nat} :
    StartedLast sm (ops ++ [.init sm start handler user]) ↔ start ≠ 0 := by
  constructor
  · rintro ⟨front, start', handler', user', back, split, present, later⟩
    rcases List.eq_nil_or_concat back with rfl | ⟨back, last, rfl⟩
    · obtain ⟨-, same⟩ := List.append_inj' split rfl
      cases same
      exact present
    · rw [List.concat_eq_append] at split later
      have split : ops ++ [.init sm start handler user] =
          (front ++ .init sm start' handler' user' :: back) ++ [last] := by
        simpa using split
      obtain ⟨-, same⟩ := List.append_inj' split rfl
      have quiet := later last (by simp)
      rw [← List.head_eq_of_cons_eq same] at quiet
      simp [Op.starts] at quiet
  · exact fun present => ⟨ops, start, handler, user, [], rfl, present, nofun⟩

/-- A call that starts a state machine is an initialisation of it. -/
theorem Op.eq_init {op : Op} {sm : Nat} (starts : op.starts sm = true) :
    ∃ start handler user, op = .init sm start handler user := by
  cases op with
  | init sm' start handler user =>
    have same : sm' = sm := by simpa [Op.starts] using starts
    exact ⟨start, handler, user, by rw [same]⟩
  | stateInit => cases starts
  | getCurrentState => cases starts
  | transition => cases starts

theorem linked_run (ops : List Op) : Linked (calls.run .zero ops) :=
  Machine.invariant (fun _ op linked _ => linked.step op) linked_zero
    (Machine.along_of (fun _ _ => trivial) _ ops : calls.Along (fun _ _ => True) _ ops)

theorem hasState_run (ops : List Op) {sm : Nat} (present : sm ≠ 0) :
    HasState (calls.run .zero ops) sm ↔ StartedLast sm ops := by
  induction ops using List.reverseRecOn with
  | nil =>
    constructor
    · exact fun has => absurd rfl has.2
    · rintro ⟨front, _, _, _, back, split, -⟩
      simp at split
  | append_singleton ops op ih =>
    rw [Machine.run_append, Machine.run_cons, Machine.run_nil]
    cases starts : op.starts sm with
    | false => rw [hasState_step (linked_run ops) starts, ih, startedLast_concat starts]
    | true =>
      obtain ⟨start, handler, user, rfl⟩ := Op.eq_init starts
      rw [hasState_init present, startedLast_concat_init]

end Reached

/-- **A state machine has a state.** After every run from untouched memory no link is to NULL,
and a state machine has a current state exactly when its last initialisation gave it one;
no transition, and no initialisation of states or of other machines, takes it away. -/
theorem sm_live (ops : List Op) (sm : Nat) (present : sm ≠ 0) :
    Linked (calls.run .zero ops) ∧
      ((smGetCurrentState (calls.run .zero ops) sm).tStatus = .success ↔ StartedLast sm ops) :=
  ⟨linked_run ops, by rw [smGetCurrentState_eq, hasState_run ops present]⟩

/-- Two state machines share a state; the second one is started over with NULL. -/
theorem sm_live_shared :
    let ops : List Op := [.stateInit 1 10 11 7 0 0, .init 1 10 0 0, .init 2 10 0 0, .transition 1,
      .init 2 0 0 0]
    (StartedLast 1 ops ∧ ¬StartedLast 2 ops) ∧
      (smGetCurrentState (calls.run .zero ops) 1).tStatus = .success := by
  intro ops
  have first : (smGetCurrentState (calls.run .zero ops) 1).tStatus = .success := by decide
  have second : ¬(smGetCurrentState (calls.run .zero ops) 2).tStatus = .success := by decide
  exact ⟨⟨(sm_live ops 1 (by decide)).2.1 first,
    fun started => second ((sm_live ops 2 (by decide)).2.2 started)⟩, first⟩

section Walks

open Ancestry

/-- A call that changes neither a link nor where a state machine starts. -/
def Op.quiet (sm : Nat) : Op → Bool
  | .stateInit .. => false
  | op => !op.starts sm

/-- `t` is where `n` transitions from `s` lead; they stay where the chain ends. -/
def Walked (next : Nat → Option Nat) (n s t : Nat) : Prop :=
  up next n s = some t ∨ up next n s = none ∧ IsTop next s t

variable {next : Nat → Option Nat} {n s s' t : Nat}

theorem Walked.along (link : next s = some s') (walked : Walked next n s' t) :
    Walked next (n + 1) s t := by
  unfold Walked
  rw [up_succ, link, Option.bind_some]
  rcases walked with here | ⟨past, top⟩
  · exact .inl here
  · exact .inr ⟨past, .of_above (.single link) top⟩

theorem Walked.stay (last : next s = none) (walked : Walked next n s t) :
    Walked next (n + 1) s t := by
  refine .inr ⟨by rw [up_succ, last, Option.bind_none], ?_⟩
  rcases walked with here | ⟨-, top⟩
  · cases n with
    | zero => exact Option.some.inj here ▸ ⟨.refl, last⟩
    | succ n =>
      rw [up_succ, last] at here
      cases here
  · exact top

def OptionState.of : Option Nat → OptionState
  | some next => ⟨true, next⟩
  | none => ⟨false, 0⟩

/-- What the transitions of a state machine returned. -/
def returned (sm : Nat) (trace : List (Op × Outcome)) : List Outcome :=
  trace.filterMap fun entry => if entry.1 = .transition sm then some entry.2 else none

/-- A quiet call that is no transition of the machine leaves its chain as it is. -/
theorem quiet_step {w : World} {op : Op} {sm : Nat} (quiet : op.quiet sm = true)
    (other : op ≠ .transition sm) :
    (calls.step w op).2.states = w.states ∧ (calls.step w op).2.sms sm = w.sms sm := by
  cases op with
  | stateInit => cases quiet
  | init sm' start handler user =>
    have apart : sm' ≠ sm := by simpa [Op.quiet, Op.starts] using quiet
    unfold calls smInit
    dsimp only
    split
    · exact ⟨rfl, rfl⟩
    · exact ⟨rfl, Function.update_of_ne (Ne.symm apart) _ _⟩
  | getCurrentState => exact ⟨rfl, rfl⟩
  | transition sm' =>
    have apart : sm ≠ sm' := fun same => other (same ▸ rfl)
    unfold calls
    dsimp only
    by_cases has : HasState w sm'
    · rcases smTransitionState_cases has with ⟨next, -, moved⟩ | ⟨-, stays⟩
      · rw [moved]
        exact ⟨rfl, Function.update_of_ne apart _ _⟩
      · rw [stays]
        exact ⟨rfl, rfl⟩
    · rw [smTransitionState_failed has]
      exact ⟨rfl, rfl⟩

theorem next_congr {w w' : World} (same : w'.states = w.states) : w'.next = w.next := by
  unfold World.next
  rw [same]

/-- The returns of `n` transitions from `s`. -/
def returns (next : Nat → Option Nat) (n s : Nat) : List Outcome :=
  (List.range n).map fun k => .option ⟨.success, .of (up next (k + 1) s)⟩

theorem returns_succ : returns next (n + 1) s =
    .option ⟨.success, .of (next s)⟩ :: (List.range n).map fun k =>
      .option ⟨.success, .of ((next s).bind (up next (k + 1)))⟩ := by
  rw [returns, List.range_succ_eq_map, List.map_cons, List.map_map]
  refine congrArg₂ _ rfl (List.map_congr_left fun k _ => ?_)
  rw [Function.comp_apply, up_succ (k + 1)]

theorem returns_along (link : next s = some s') :
    returns next (n + 1) s = .option ⟨.success, .of (some s')⟩ :: returns next n s' := by
  rw [returns_succ, link]
  rfl

theorem returns_stay (last : next s = none) :
    returns next (n + 1) s = .option ⟨.success, .of none⟩ :: returns next n s := by
  rw [returns_succ, returns, last]
  refine congrArg₂ _ rfl (List.map_congr_left fun k _ => ?_)
  rw [up_succ, last, Option.bind_none, Option.bind_none]

/-- A run of quiet calls, by the number of its transitions. -/
theorem walks {w : World} {sm : Nat} (linked : Linked w) (has : HasState w sm) {ops : List Op}
    (quiet : ∀ op ∈ ops, op.quiet sm = true) :
    returned sm (calls.trace w ops) =
        returns w.next (ops.count (.transition sm)) (w.sms sm).ptCurrentState ∧
      HasState (calls.run w ops) sm ∧
      Walked w.next (ops.count (.transition sm)) (w.sms sm).ptCurrentState
        ((calls.run w ops).sms sm).ptCurrentState := by
  induction ops generalizing w with
  | nil => exact ⟨rfl, has, .inl rfl⟩
  | cons op ops ih =>
    have now := quiet op (.head _)
    have unstarted : op.starts sm = false := by
      cases op <;> simp_all [Op.quiet, Op.starts]
    have ih := ih (linked.step op) ((hasState_step linked unstarted).2 has)
      fun op mem => quiet op (.tail _ mem)
    rw [Machine.trace_cons, Machine.run_cons, returned, List.filterMap_cons]
    by_cases own : op = .transition sm
    · subst own
      rw [List.count_cons_self, if_pos rfl]
      rcases smTransitionState_cases has with ⟨next, link, moved⟩ | ⟨last, stays⟩
      · have step : calls.step w (.transition sm) = (.option ⟨.success, true, next⟩,
            { w with sms := Function.update w.sms sm { w.sms sm with ptCurrentState := next } }) := by
          unfold calls
          dsimp only
          rw [moved]
        rw [step] at ih ⊢
        dsimp only at ih ⊢
        rw [Function.update_self] at ih
        rw [returns_along link]
        exact ⟨congrArg₂ _ rfl ih.1, ih.2.1, ih.2.2.along link⟩
      · have step : calls.step w (.transition sm) = (.option ⟨.success, false, 0⟩, w) := by
          unfold calls
          dsimp only
          rw [stays]
        rw [step] at ih ⊢
        rw [returns_stay last]
        exact ⟨congrArg₂ _ rfl ih.1, ih.2.1, ih.2.2.stay last⟩
    · have same := quiet_step (w := w) now own
      rw [next_congr same.1, same.2] at ih
      rw [List.count_cons_of_ne own, if_neg own]
      exact ih

/-- **Transitions follow the links.** Once a machine is started, and while no state and not the
machine itself is initialised again, its `n` transitions lead `n` links on from its state, or to the
end of the chain if that is nearer, whatever other machines do between them. Each one succeeds
and returns the state it leads to, if there is one. -/
theorem sm_walks (before ops : List Op) (sm : Nat) (present : sm ≠ 0)
    (started : StartedLast sm before) (quiet : ∀ op ∈ ops, op.quiet sm = true) :
    let w := calls.run .zero before
    let start := (w.sms sm).ptCurrentState
    let n := ops.count (.transition sm)
    returned sm (calls.trace w ops) = returns w.next n start ∧
      ∃ t, smGetCurrentState (calls.run w ops) sm = ⟨.success, t⟩ ∧ Walked w.next n start t := by
  intro w start n
  obtain ⟨outcomes, has, walked⟩ := walks (linked_run before) ((hasState_run before present).2 started) quiet
  exact ⟨outcomes, _, smGetCurrentState_of_hasState has, walked⟩

/-- Two machines over one chain of two states. -/
theorem sm_walks_shared :
    let before : List Op := [.stateInit 1 10 11 7 0 0, .stateInit 1 11 0 7 0 0, .init 1 10 0 0,
      .init 2 10 0 0]
    let ops : List Op := [.transition 1, .transition 2, .transition 1]
    returned 1 (calls.trace (calls.run .zero before) ops) =
      [.option ⟨.success, true, 11⟩, .option ⟨.success, false, 0⟩] := by
  intro before ops
  have started : StartedLast 1 before := ⟨[_, _], 10, 0, 0, [_], rfl, by decide, by decide⟩
  exact (sm_walks before ops 1 (by decide) started (by decide)).1

end Walks

end LibJuno.Sm
