import LibJuno.Sm.StateMachine

/-!
# The traffic light

The program of `example_state_machine.c`: three states in a circle that count to ten. The main
loop asks the current state whether it should exit, and either resets and leaves it or runs its
action. The loop has no other end than a failed call, and none ever fails: the lights go round
for ever, each one shown ten times (`traffic_light`).
-/

namespace LibJuno.Sm

/-- `TRAFFIC_LIGHT_T`. -/
inductive Light where
  | red
  | yellow
  | green
  deriving DecidableEq, Repr, Inhabited

/-- The lights by number. -/
def Light.all : List Light := [.red, .yellow, .green]

/-- `tNextLight` of the static states. -/
def Light.next : Light → Light
  | .red => .yellow
  | .yellow => .green
  | .green => .red

/-- What `TRAFFIC_LIGHT_STATE_T` adds to a state. -/
structure TrafficLightState where
  iCounter : Int
  tNextLight : Light
  tThisLight : Light
  deriving DecidableEq

/-- Where the linker puts `tSm`, its states and their functions. -/
structure Layout where
  tSm : Nat
  tStates : Light → Nat
  tSmStateApi : Nat
  smPresent : tSm ≠ 0
  apiPresent : tSmStateApi ≠ 0
  statePresent : ∀ light, tStates light ≠ 0
  apart : ∀ light light', tStates light = tStates light' → light = light'

/-- The memory of the program and what it has printed. -/
structure Program where
  world : World
  traffic : Nat → TrafficLightState
  printed : List Light

/-- `StateAction`. -/
def stateAction (ptJunoSm : Nat) (p : Program) : Status × Program :=
  if smStateVerify p.world ptJunoSm ≠ .success then (smStateVerify p.world ptJunoSm, p)
  else
    let state := p.traffic ptJunoSm
    (.success, { p with
      printed := p.printed ++ [state.tThisLight]
      traffic := Function.update p.traffic ptJunoSm { state with iCounter := state.iCounter + 1 } })

/-- `ShouldExit`. -/
def shouldExit (ptJunoSm : Nat) (p : Program) : Result Bool :=
  if smStateVerify p.world ptJunoSm ≠ .success then ⟨smStateVerify p.world ptJunoSm, false⟩
  else ⟨.success, (p.traffic ptJunoSm).iCounter = 10⟩

/-- `ResetState`. -/
def resetState (ptJunoSm : Nat) (p : Program) : Status × Program :=
  if smStateVerify p.world ptJunoSm ≠ .success then (smStateVerify p.world ptJunoSm, p)
  else (.success, { p with
    traffic := Function.update p.traffic ptJunoSm { p.traffic ptJunoSm with iCounter := 0 } })

/-- The static `tSm`. -/
def loaded (layout : Layout) : Program where
  world := .zero
  traffic address :=
    if address = layout.tStates .red then ⟨0, .yellow, .red⟩
    else if address = layout.tStates .yellow then ⟨0, .green, .yellow⟩
    else ⟨0, .red, .green⟩
  printed := []

/-- The initialisation of one state in `main`, which drops its status. -/
def initState (layout : Layout) (p : Program) (light : Light) : Program :=
  { p with world := (smStateInit layout.tSm (layout.tStates light)
      (layout.tStates (p.traffic (layout.tStates light)).tNextLight) layout.tSmStateApi 0 0 p.world).2 }

/-- `main` up to its loop; it returns -1 when the state machine is not initialised. -/
def prepare (layout : Layout) (p : Program) : Option Program :=
  let r := smInit layout.tSm (layout.tStates .red) 0 0 p.world
  if r.1 ≠ .success then none
  else some (Light.all.foldl (initState layout) { p with world := r.2 })

/-- The body of the loop of `main`; it is left by a failed call. -/
def iteration (layout : Layout) (p : Program) : Option Program :=
  let tStateResult := smGetCurrentState p.world layout.tSm
  if tStateResult.tStatus ≠ .success then none
  else if tStateResult.tOk ≠ 0 then
    let tBoolResult := shouldExit tStateResult.tOk p
    if tBoolResult.tStatus ≠ .success then none
    else if tBoolResult.tOk then
      let p := (resetState tStateResult.tOk p).2
      some { p with world := (smTransitionState layout.tSm p.world).2 }
    else some (stateAction tStateResult.tOk p).2
  else some p

/-- The program after so many iterations. -/
def iterations (layout : Layout) : Nat → Option Program
  | 0 => prepare layout (loaded layout)
  | n + 1 => (iterations layout n).bind (iteration layout)

/-- The light after so many changes. -/
def lightAfter : Nat → Light
  | 0 => .red
  | n + 1 => (lightAfter n).next

/-- The lights go round. -/
theorem lightAfter_eq (n : Nat) : lightAfter n = Light.all[n % 3]! := by
  induction n with
  | zero => rfl
  | succ n ih =>
    rw [lightAfter, ih, Nat.add_mod]
    have less : n % 3 < 3 := Nat.mod_lt _ (by decide)
    generalize n % 3 = k at less
    match k with
    | 0 => rfl
    | 1 => rfl
    | 2 => rfl

section Rounds

variable {layout : Layout} {p : Program} {n : Nat}

/-- The states as `main` initialises them. -/
def Circle (layout : Layout) (w : World) : Prop :=
  ∀ light, w.states (layout.tStates light) =
    ⟨layout.tSmStateApi, 0, 0, layout.tSm, true, layout.tStates light.next⟩

/-- After `n` iterations the lights have changed `n / 11` times, and the current one has been shown
`n % 11` times. -/
structure At (layout : Layout) (n : Nat) (p : Program) : Prop where
  circle : Circle layout p.world
  current : (p.world.sms layout.tSm).ptCurrentState = layout.tStates (lightAfter (n / 11))
  counts : ∀ light, p.traffic (layout.tStates light) =
    ⟨if light = lightAfter (n / 11) then (n % 11 : Nat) else 0, light.next, light⟩
  shown : p.printed = (List.range (n - n / 11)).map fun k => lightAfter (k / 10)

theorem Circle.stateVerify {w : World} (circle : Circle layout w) (light : Light) :
    smStateVerify w (layout.tStates light) = .success := by
  unfold smStateVerify
  rw [circle]
  simp [layout.statePresent, layout.apiPresent, layout.smPresent]

theorem At.hasState (here : At layout n p) : HasState p.world layout.tSm :=
  ⟨layout.smPresent, by rw [here.current]; exact layout.statePresent _⟩

/-- The initialisation of a state sets it and leaves the other memory. -/
theorem initState_eq (light : Light) : initState layout p light = { p with world := { p.world with
    states := Function.update p.world.states (layout.tStates light) ⟨layout.tSmStateApi, 0, 0, layout.tSm, true,
      layout.tStates (p.traffic (layout.tStates light)).tNextLight⟩ } } := by
  unfold initState smStateInit
  simp [layout.statePresent, layout.apiPresent, layout.smPresent]

theorem loaded_traffic (light : Light) :
    (loaded layout).traffic (layout.tStates light) = ⟨0, light.next, light⟩ := by
  have ne : ∀ {light light'}, light ≠ light' → layout.tStates light ≠ layout.tStates light' :=
    fun apart same => apart (layout.apart _ _ same)
  unfold loaded
  cases light with
  | red => exact if_pos rfl
  | yellow =>
    dsimp only
    rw [if_neg (ne (by decide)), if_pos rfl]
    rfl
  | green =>
    dsimp only
    rw [if_neg (ne (by decide)), if_neg (ne (by decide))]
    rfl

theorem at_prepare : ∃ p, prepare layout (loaded layout) = some p ∧ At layout 0 p := by
  have other : ∀ {light light'}, light ≠ light' → layout.tStates light ≠ layout.tStates light' :=
    fun apart same => apart (layout.apart _ _ same)
  have started : (smInit layout.tSm (layout.tStates .red) 0 0 .zero).1 = .success := by
    simp [smInit, smVerify, layout.smPresent, layout.statePresent]
  refine ⟨_, if_neg (not_not.2 started), ?_⟩
  rw [Light.all, List.foldl_cons, List.foldl_cons, List.foldl_cons, List.foldl_nil]
  simp only [initState_eq, loaded_traffic]
  refine ⟨?_, ?_, ?_, rfl⟩
  · intro light
    dsimp only
    cases light with
    | red => rw [Function.update_of_ne (other (by decide)), Function.update_of_ne (other (by decide)),
        Function.update_self]
    | yellow => rw [Function.update_of_ne (other (by decide)), Function.update_self]
    | green => rw [Function.update_self]
  · simp [smInit, layout.smPresent, lightAfter]
  · intro light
    rw [loaded_traffic]
    simp

/-- The current light after its ten times. -/
theorem At.leave (here : At layout n p) (full : n % 11 = 10) :
    At layout (n + 1) { p with
      world := (smTransitionState layout.tSm p.world).2
      traffic := Function.update p.traffic (layout.tStates (lightAfter (n / 11)))
        { p.traffic (layout.tStates (lightAfter (n / 11))) with iCounter := 0 } } := by
  have turn : (n + 1) / 11 = n / 11 + 1 := by omega
  have fresh : (n + 1) % 11 = 0 := by omega
  have link : p.world.next (p.world.sms layout.tSm).ptCurrentState =
      some (layout.tStates (lightAfter (n / 11)).next) := by
    rw [here.current, World.next, here.circle]
    rfl
  rcases smTransitionState_cases here.hasState with ⟨next, link', moved⟩ | ⟨last, -⟩
  · cases Option.some.inj (link.symm.trans link')
    rw [moved]
    refine ⟨here.circle, ?_, ?_, ?_⟩
    · dsimp only
      rw [Function.update_self, turn, lightAfter]
    · intro light
      dsimp only
      rw [turn, fresh]
      by_cases left : light = lightAfter (n / 11)
      · subst left
        rw [Function.update_self, here.counts]
        simp
      · rw [Function.update_of_ne (fun same => left (layout.apart _ _ same)), here.counts, if_neg left]
        simp
    · have same : n + 1 - (n + 1) / 11 = n - n / 11 := by omega
      rw [same]
      exact here.shown
  · rw [link] at last
    cases last

/-- The current light before its ten times. -/
theorem At.show (here : At layout n p) (more : n % 11 ≠ 10) :
    At layout (n + 1) { p with
      printed := p.printed ++ [lightAfter (n / 11)]
      traffic := Function.update p.traffic (layout.tStates (lightAfter (n / 11)))
        ⟨(n % 11 : Nat) + 1, (lightAfter (n / 11)).next, lightAfter (n / 11)⟩ } := by
  have stays : (n + 1) / 11 = n / 11 := by omega
  have counted : (n + 1) % 11 = n % 11 + 1 := by omega
  refine ⟨here.circle, by rw [stays]; exact here.current, ?_, ?_⟩
  · intro light
    dsimp only
    rw [stays, counted]
    by_cases current : light = lightAfter (n / 11)
    · subst current
      rw [Function.update_self, if_pos rfl]
      simp
    · rw [Function.update_of_ne (fun same => current (layout.apart _ _ same)), here.counts,
        if_neg current, if_neg current]
  · have length : n + 1 - (n + 1) / 11 = n - n / 11 + 1 := by omega
    have last : (n - n / 11) / 10 = n / 11 := by omega
    rw [length, List.range_succ, List.map_append, List.map_singleton, last, here.shown]

/-- What one iteration does: the current light is shown, or after ten times it is left. -/
theorem At.iteration (here : At layout n p) :
    ∃ p', iteration layout p = some p' ∧ At layout (n + 1) p' := by
  have verified := here.circle.stateVerify (lightAfter (n / 11))
  have light := here.counts (lightAfter (n / 11))
  rw [if_pos rfl] at light
  unfold Sm.iteration
  rw [smGetCurrentState_of_hasState here.hasState, here.current]
  dsimp only
  rw [if_neg (not_not.2 rfl), if_pos (layout.statePresent _), shouldExit, if_neg (not_not.2 verified),
    if_neg (not_not.2 rfl), light]
  dsimp only
  by_cases full : n % 11 = 10
  · rw [if_pos (by simp [full]), resetState, if_neg (not_not.2 verified)]
    exact ⟨_, rfl, here.leave full⟩
  · rw [if_neg (by simpa using (by omega : ((n % 11 : Nat) : Int) ≠ 10)), stateAction,
      if_neg (not_not.2 verified)]
    dsimp only
    rw [light]
    exact ⟨_, rfl, here.show full⟩

theorem at_iterations (layout : Layout) (n : Nat) :
    ∃ p, iterations layout n = some p ∧ At layout n p := by
  induction n with
  | zero => exact at_prepare
  | succ n ih =>
    obtain ⟨p, run, here⟩ := ih
    obtain ⟨p', step, next⟩ := here.iteration
    exact ⟨p', by rw [iterations, run, Option.bind_some, step], next⟩

end Rounds

/-- **The lights go round.** Wherever the program is loaded, its loop never ends. After `n`
iterations the current state is that of the light after `n / 11` changes, with the counter at
`n % 11` and those of the other lights at 0, and the program has printed each light ten times
in a row in the order of the circle. No counter ever exceeds 10. -/
theorem traffic_light (layout : Layout) (n : Nat) :
    ∃ p, iterations layout n = some p ∧
      smGetCurrentState p.world layout.tSm = ⟨.success, layout.tStates (lightAfter (n / 11))⟩ ∧
      (∀ light, (p.traffic (layout.tStates light)).iCounter =
        if light = lightAfter (n / 11) then ((n % 11 : Nat) : Int) else 0) ∧
      p.printed = (List.range (n - n / 11)).map (fun k => Light.all[k / 10 % 3]!) := by
  obtain ⟨p, run, here⟩ := at_iterations layout n
  refine ⟨p, run, ?_, fun light => by rw [here.counts], ?_⟩
  · rw [smGetCurrentState_of_hasState here.hasState, here.current]
  · rw [here.shown]
    exact List.map_congr_left fun k _ => lightAfter_eq _

end LibJuno.Sm
