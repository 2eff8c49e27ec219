import LibJuno.Ds.FlatArray
import LibJuno.Ds.Queue

/-!
# The software bus broker

`broker_api.h` and `juno_broker.c`. A pipe is a queue with a message id; the broker keeps
an array of pointers to pipes and enqueues a published message on each registered pipe of
that id, in registration order. Pipes are named by their addresses, of a type `P`. The
state is the broker, every pipe object and the memory behind their arrays.
-/

namespace LibJuno.Sb

open Ds Memory

/-- `JUNO_SB_PIPE_T`. -/
structure Pipe (ω : Type) where
  tRoot : QueueRoot ω
  iMsgId : UInt32

/-- `JUNO_SB_BROKER_API_T`: which of the two functions are set. -/
structure BrokerApi where
  publish : Bool
  registerSubscriber : Bool

/-- `gtBrokerApi`: `publish`, `registerSubscriber`. -/
def gtBrokerApi : BrokerApi := ⟨true, true⟩

/-- `JUNO_SB_BROKER_ROOT_T`. -/
structure BrokerRoot (P ω : Type) where
  ptApi : Ref BrokerApi
  failureHandler : FailureHandler ω
  ptPipeRegistry : Ref (Nat → P)
  zRegistryLength : Nat
  zRegistryCapacity : Nat

section Operations

variable {P ω : Type}

/-- `JunoSb_BrokerApiVerify`. -/
def brokerApiVerify (ptBrokerApi : Ref BrokerApi) : Status :=
  assertExists (ptBrokerApi.nonNull && ptBrokerApi.deref.publish &&
    ptBrokerApi.deref.registerSubscriber)

/-- `JunoSb_BrokerVerify`. -/
def brokerVerify (ptBroker : BrokerRoot P ω) : Status :=
  let tStatus := brokerApiVerify ptBroker.ptApi
  if tStatus ≠ .success then tStatus
  else assertExists (ptBroker.ptPipeRegistry.nonNull && ptBroker.zRegistryCapacity ≠ 0)

/-- `JunoSb_PipeVerify`. -/
def pipeVerify (pipes : P → Pipe ω) (ptPipe : Ref P) : Status :=
  if !ptPipe.nonNull then .nullptrError else queueVerify (pipes ptPipe.deref).tRoot

/-- `JunoSb_BrokerInit`. -/
def brokerInit (ptPipeRegistry : Ref (Nat → P)) (iRegistryCapacity : Nat)
    (pfcnFailureHdlr : FailureHandler ω) : Status × BrokerRoot P ω :=
  let ptBroker : BrokerRoot P ω :=
    ⟨Ref.to gtBrokerApi, pfcnFailureHdlr, ptPipeRegistry, 0, iRegistryCapacity⟩
  (brokerVerify ptBroker, ptBroker)

/-- `JunoSb_PipeInit`. -/
def pipeInit (ptPipe : Pipe ω) (iMid : UInt32) (ptArray : Ref (ArrayRoot ω))
    (pfcnFailureHandler : FailureHandler ω) : Status × Pipe ω :=
  let r := queueInit ptPipe.tRoot ptArray pfcnFailureHandler
  (r.1, ⟨r.2, iMid⟩)

variable [DecidableEq P]

/-- The pipes after an operation on the queue root of one of them. -/
def setRoot (pipes : P → Pipe ω) (ptPipe : P) (tRoot : QueueRoot ω) : P → Pipe ω :=
  Function.update pipes ptPipe { pipes ptPipe with tRoot := tRoot }

@[simp] theorem setRoot_self (pipes : P → Pipe ω) (ptPipe : P) (tRoot : QueueRoot ω) :
    (setRoot pipes ptPipe tRoot ptPipe).tRoot = tRoot := by
  simp [setRoot]

theorem setRoot_of_ne (pipes : P → Pipe ω) {ptPipe other : P} (tRoot : QueueRoot ω)
    (ne : other ≠ ptPipe) : setRoot pipes ptPipe tRoot other = pipes other :=
  Function.update_of_ne ne _ _

@[simp] theorem setRoot_iMsgId (pipes : P → Pipe ω) (ptPipe other : P) (tRoot : QueueRoot ω) :
    (setRoot pipes ptPipe tRoot other).iMsgId = (pipes other).iMsgId := by
  by_cases here : other = ptPipe
  · subst here
    simp [setRoot]
  · rw [setRoot_of_ne _ _ here]

variable (apis : PointerApis ω)

/-- The loop of `Publish` over `n` registry entries from `i` on. The `Enqueue` of a pipe's
vtable is `queuePush`. -/
def publishLoop (ptPipeRegistry : Nat → P) (tMid : UInt32) (tMsg : Pointer) :
    Nat → Nat → (P → Pipe ω) → ω → Status × (P → Pipe ω) × ω
  | 0, _, pipes, w => (.success, pipes, w)
  | n + 1, i, pipes, w =>
    let ptCurrentItem := ptPipeRegistry i
    let tStatus := queueVerify (pipes ptCurrentItem).tRoot
    if tStatus ≠ .success then (tStatus, pipes, w)
    else if (pipes ptCurrentItem).iMsgId = tMid then
      let r := queuePush apis (pipes ptCurrentItem).tRoot tMsg w
      let pipes := setRoot pipes ptCurrentItem r.2.1
      if r.1 ≠ .success then (r.1, pipes, r.2.2)
      else publishLoop ptPipeRegistry tMid tMsg n (i + 1) pipes r.2.2
    else publishLoop ptPipeRegistry tMid tMsg n (i + 1) pipes w

/-- `Publish`. -/
def publish (ptBroker : BrokerRoot P ω) (tMid : UInt32) (tMsg : Pointer) (pipes : P → Pipe ω) (w : ω) :
    Status × (P → Pipe ω) × ω :=
  let tStatus := brokerVerify ptBroker
  if tStatus ≠ .success then (tStatus, pipes, w)
  else publishLoop apis ptBroker.ptPipeRegistry.deref tMid tMsg ptBroker.zRegistryLength 0 pipes w

/-- `RegisterSubscriber`. -/
def registerSubscriber (ptBroker : BrokerRoot P ω) (ptPipe : Ref P) (pipes : P → Pipe ω) (w : ω) :
    Status × BrokerRoot P ω × ω :=
  let tStatus := brokerVerify ptBroker
  if tStatus ≠ .success then (tStatus, ptBroker, w)
  else
    let tStatus := pipeVerify pipes ptPipe
    if tStatus ≠ .success then (tStatus, ptBroker, w)
    else if ptBroker.zRegistryLength ≥ ptBroker.zRegistryCapacity then
      (.err, ptBroker,
        fail ptBroker.failureHandler .err "Failed to register subscriber. Registry Full" w)
    else
      (.success, { ptBroker with
        ptPipeRegistry := { ptBroker.ptPipeRegistry with
          deref := Function.update ptBroker.ptPipeRegistry.deref ptBroker.zRegistryLength ptPipe.deref }
        zRegistryLength := ptBroker.zRegistryLength + 1 }, w)

end Operations

/-! ## The pipes and their memory -/

/-- The pipe objects of a program: each has its message id, its failure handler and an
array of its own. -/
structure Pipes {ω α : Type} (M : ItemMemory ω α) (P : Type) where
  array : P → ItemArray M
  mid : P → UInt32
  handler : P → Handler M
  bound : ∀ p, (array p).zCapacity ≤ sizeMax / 2
  apart : ∀ p q i j, p ≠ q → i < (array p).zCapacity → j < (array q).zCapacity →
    ((array p).slot i).pvAddr ≠ ((array q).slot j).pvAddr

variable {ω α P : Type} {M : ItemMemory ω α}

/-- A variable of the client: a valid descriptor that is no slot of any pipe. -/
structure Pipes.Client (F : Pipes M P) extends Cell M where
  outside : ∀ p i, i < (F.array p).zCapacity → pvAddr ≠ ((F.array p).slot i).pvAddr

/-- The variable as a variable of one pipe's client. -/
def Pipes.Client.of {F : Pipes M P} (c : F.Client) (p : P) : (F.array p).Client :=
  ⟨c.toCell, c.outside p⟩

/-- The broker, the pipes and the world. -/
structure Bus (P ω : Type) where
  broker : BrokerRoot P ω
  pipes : P → Pipe ω
  world : ω

namespace Bus

variable {F : Pipes M P}

/-- The messages that pipe `p` holds, oldest first. -/
def held (F : Pipes M P) (s : Bus P ω) (p : P) : List α :=
  queueItems (F.array p) (s.pipes p).tRoot s.world

/-- Every pipe is a well-formed queue over its array and keeps its message id. -/
structure PipesInv (F : Pipes M P) (pipes : P → Pipe ω) : Prop where
  queue : ∀ p, QueueInv (F.array p) (pipes p).tRoot
  mid : ∀ p, (pipes p).iMsgId = F.mid p

theorem PipesInv.setRoot [DecidableEq P] {pipes : P → Pipe ω} {q : P} {tRoot : QueueRoot ω}
    (h : PipesInv F pipes) (next : QueueInv (F.array q) tRoot) : PipesInv F (setRoot pipes q tRoot) := by
  refine ⟨fun p => ?_, fun p => ?_⟩
  · by_cases here : p = q
    · subst here
      rw [setRoot_self]
      exact next
    · rw [setRoot_of_ne _ _ here]
      exact h.queue p
  · rw [setRoot_iMsgId]
    exact h.mid p

/-- The bus is wired to the library's vtable, its pipes are well formed and the registry
is within its capacity. -/
structure Inv (F : Pipes M P) (s : Bus P ω) : Prop where
  pipes : PipesInv F s.pipes
  handler : ∀ tStatus message w, M.item (fail s.broker.failureHandler tStatus message w) = M.item w
  length : s.broker.zRegistryLength ≤ s.broker.zRegistryCapacity

/-- The `n` registry entries from `i` on. -/
def entries (ptPipeRegistry : Nat → P) (n i : Nat) : List P := (List.range' i n).map ptPipeRegistry

/-- How often pipe `p` is registered. -/
def registered [DecidableEq P] (s : Bus P ω) (p : P) : Nat :=
  (entries s.broker.ptPipeRegistry.deref s.broker.zRegistryLength 0).count p

end Bus

/-! ## What one call does -/

section Calls

variable [DecidableEq P] {F : Pipes M P} {pipes : P → Pipe ω}

/-- An enqueue on one pipe appends to that pipe and is not seen in any other. -/
theorem enqueue_held (inv : Bus.PipesInv F pipes) (q : P) (c : F.Client) (w : ω) :
    let r := queuePush M.apis (pipes q).tRoot c.toPointer w
    let pipes' := setRoot pipes q r.2.1
    r.1 = .success → Bus.PipesInv F pipes' ∧ M.item r.2.2 c.pvAddr = M.item w c.pvAddr ∧
      ∀ p, queueItems (F.array p) (pipes' p).tRoot r.2.2 =
        queueItems (F.array p) (pipes p).tRoot w ++ if q = p then [M.item w c.pvAddr] else [] := by
  intro r pipes' ok
  obtain ⟨next, done⟩ := queuePush_items (inv.queue q) (F.bound q) c.toCell w
  rcases done with ⟨-, -, grown, i, hi, written⟩ | ⟨error, -⟩
  swap
  · exact absurd ok error
  refine ⟨inv.setRoot next, ?_, fun p => ?_⟩
  · rw [written, Function.update_of_ne (c.outside q i hi)]
  · by_cases here : q = p
    · subst here
      simpa [pipes'] using grown
    · have other : ∀ j, j < (F.array p).zCapacity →
          ((F.array q).slot i).pvAddr ≠ ((F.array p).slot j).pvAddr :=
        fun j hj => F.apart q p i j here hi hj
      simp only [pipes', setRoot_of_ne _ _ (Ne.symm here), if_neg here, List.append_nil]
      exact queueItems_outside (inv.queue p).length other written

/-- The publish loop, when it succeeds, appends the message to the pipes of the id, once
for each entry. -/
theorem publishLoop_held (ptPipeRegistry : Nat → P) (tMid : UInt32) (c : F.Client) (n : Nat) :
    ∀ (i : Nat) (pipes : P → Pipe ω) (w : ω), Bus.PipesInv F pipes →
    let r := publishLoop M.apis ptPipeRegistry tMid c.toPointer n i pipes w
    r.1 = .success → Bus.PipesInv F r.2.1 ∧
      ∀ p, queueItems (F.array p) (r.2.1 p).tRoot r.2.2 =
        queueItems (F.array p) (pipes p).tRoot w ++
          if F.mid p = tMid then
            List.replicate ((Bus.entries ptPipeRegistry n i).count p) (M.item w c.pvAddr)
          else [] := by
  induction n with
  | zero =>
    intro i pipes w inv r _
    exact ⟨inv, fun p => by simp [r, publishLoop, Bus.entries]⟩
  | succ n ih =>
    intro i pipes w inv r ok
    have valid : queueVerify (pipes (ptPipeRegistry i)).tRoot = .success := by
      by_contra bad
      simp only [r, publishLoop, ne_eq, bad, not_false_eq_true, if_true] at ok
    have count : ∀ p, (Bus.entries ptPipeRegistry (n + 1) i).count p =
        (Bus.entries ptPipeRegistry n (i + 1)).count p + if ptPipeRegistry i = p then 1 else 0 := by
      intro p
      simp [Bus.entries, List.range'_succ, List.count_cons]
    by_cases matches_ : (pipes (ptPipeRegistry i)).iMsgId = tMid
    · have enqueued := enqueue_held inv (ptPipeRegistry i) c w
      have step : r = publishLoop M.apis ptPipeRegistry tMid c.toPointer (n + 1) i pipes w := rfl
      simp only [publishLoop, valid, matches_, ne_eq, not_true_eq_false, if_false, if_true] at step
      generalize queuePush M.apis (pipes (ptPipeRegistry i)).tRoot c.toPointer w = put at enqueued step
      by_cases okPut : put.1 = .success
      swap
      · simp only [okPut, not_false_eq_true, if_true] at step
        rw [step] at ok
        exact absurd ok okPut
      simp only [okPut, not_true_eq_false, if_false] at step
      obtain ⟨inv', same, grown⟩ := enqueued okPut
      obtain ⟨inv'', rest⟩ := ih (i + 1) _ put.2.2 inv' (step ▸ ok)
      rw [step]
      refine ⟨inv'', fun p => ?_⟩
      rw [rest p, grown p, same, count p, List.append_assoc]
      congr 1
      by_cases here : ptPipeRegistry i = p
      · have mid : F.mid p = tMid := by rw [← inv.mid p, ← here, matches_]
        simp [here, mid, List.replicate_succ]
      · simp [here]
    · have step : r = publishLoop M.apis ptPipeRegistry tMid c.toPointer n (i + 1) pipes w := by
        simp only [r, publishLoop, valid, matches_, ne_eq, not_true_eq_false, if_false]
      obtain ⟨inv', rest⟩ := ih (i + 1) pipes w inv (step ▸ ok)
      rw [step]
      refine ⟨inv', fun p => ?_⟩
      rw [rest p, count p]
      by_cases here : ptPipeRegistry i = p
      · have mid : F.mid p ≠ tMid := by rw [← inv.mid p, ← here]; exact matches_
        simp [mid]
      · simp [here]

/-- A dequeue takes the front of its pipe and is not seen in any other. -/
theorem dequeue_held (inv : Bus.PipesInv F pipes) (q : P) (c : F.Client) (w : ω) :
    let r := queuePop M.apis (pipes q).tRoot c.toPointer w
    let pipes' := setRoot pipes q r.2.1
    Bus.PipesInv F pipes' ∧
      ∀ p, queueItems (F.array p) (pipes p).tRoot w =
        (if q = p ∧ r.1 = .success then [M.item r.2.2 c.pvAddr] else []) ++
          queueItems (F.array p) (pipes' p).tRoot r.2.2 := by
  intro r pipes'
  obtain ⟨next, ⟨y, i, x, written⟩, done⟩ : QueueInv (F.array q) r.2.1 ∧
      (∃ y i x, M.item r.2.2 = Function.update (M.item w) c.pvAddr y ∨ i < (F.array q).zCapacity ∧
        M.item r.2.2 =
          Function.update (Function.update (M.item w) c.pvAddr y) ((F.array q).slot i).pvAddr x) ∧
      ((r.1 = .success ∧ queueItems (F.array q) (pipes q).tRoot w =
          M.item r.2.2 c.pvAddr :: queueItems (F.array q) r.2.1 r.2.2) ∨
        (r.1 ≠ .success ∧
          queueItems (F.array q) r.2.1 r.2.2 = queueItems (F.array q) (pipes q).tRoot w)) :=
    queuePop_items (inv.queue q) (F.bound q) (c.of q) w
  refine ⟨inv.setRoot next, fun p => ?_⟩
  · by_cases here : q = p
    · subst here
      simp only [pipes', setRoot_self, true_and]
      rcases done with ⟨ok, front⟩ | ⟨error, same⟩
      · rw [if_pos ok]
        exact front
      · rw [if_neg error]
        exact same.symm
    · simp only [pipes', setRoot_of_ne _ _ (Ne.symm here), here, false_and, if_false, List.nil_append]
      refine (queueItems_congr _ (inv.queue p).length fun j hj => ?_).symm
      have client : ((F.array p).slot j).pvAddr ≠ c.pvAddr := (c.outside p j hj).symm
      unfold ItemArray.at_
      rcases written with write | ⟨hi, write⟩
      · rw [write]
        exact Function.update_of_ne client _ _
      · have other : ((F.array p).slot j).pvAddr ≠ ((F.array q).slot i).pvAddr :=
          F.apart p q j i (Ne.symm here) hj hi
        rw [write, Function.update_of_ne other]
        exact Function.update_of_ne client _ _

end Calls

/-- A failed registration, and a failed registration only, keeps the registry as it is. -/
theorem registerSubscriber_spec (ptBroker : BrokerRoot P ω) (ptPipe : Ref P) (pipes : P → Pipe ω) (w : ω)
    (handler : ∀ tStatus message w, M.item (fail ptBroker.failureHandler tStatus message w) = M.item w) :
    let r := registerSubscriber ptBroker ptPipe pipes w
    M.item r.2.2 = M.item w ∧
    ((r.1 = .success ∧ ptBroker.zRegistryLength < ptBroker.zRegistryCapacity ∧
        r.2.1 = { ptBroker with
          ptPipeRegistry := { ptBroker.ptPipeRegistry with
            deref := Function.update ptBroker.ptPipeRegistry.deref ptBroker.zRegistryLength ptPipe.deref }
          zRegistryLength := ptBroker.zRegistryLength + 1 }) ∨
      (r.1 ≠ .success ∧ r.2.1 = ptBroker)) := by
  intro r
  by_cases valid : brokerVerify ptBroker = .success
  swap
  · have call : r = (brokerVerify ptBroker, ptBroker, w) := by
      simp [r, registerSubscriber, valid]
    rw [call]
    exact ⟨rfl, Or.inr ⟨valid, rfl⟩⟩
  by_cases pipe : pipeVerify pipes ptPipe = .success
  swap
  · have call : r = (pipeVerify pipes ptPipe, ptBroker, w) := by
      simp [r, registerSubscriber, valid, pipe]
    rw [call]
    exact ⟨rfl, Or.inr ⟨pipe, rfl⟩⟩
  by_cases full : ptBroker.zRegistryLength ≥ ptBroker.zRegistryCapacity
  · have call : r = (.err, ptBroker,
        fail ptBroker.failureHandler .err "Failed to register subscriber. Registry Full" w) := by
      simp only [r, registerSubscriber, valid, pipe, ne_eq, not_true_eq_false, if_false]
      rw [if_pos full]
    rw [call]
    exact ⟨handler _ _ _, Or.inr ⟨by simp, rfl⟩⟩
  · refine ⟨?_, Or.inl ⟨?_, by omega, ?_⟩⟩ <;>
      simp only [r, registerSubscriber, valid, pipe, ne_eq, not_true_eq_false, if_false] <;>
      rw [if_neg full]

/-! ## Runs -/

/-- A call of a client of the bus. To publish `x` it writes `x` to a variable of its own
and passes that; to dequeue it passes a variable to copy into. -/
inductive SbCall (F : Pipes M P) where
  | register (ptPipe : Ref P)
  | publish (tMid : UInt32) (c : F.Client) (x : α)
  | dequeue (p : P) (c : F.Client)

section Runs

variable [DecidableEq P]

/-- The bus, call by call. -/
def sbMachine (F : Pipes M P) : Machine (Bus P ω) (SbCall F) (Reply α) where
  step s call :=
    match call with
    | .register ptPipe =>
      let r := registerSubscriber s.broker ptPipe s.pipes s.world
      (⟨r.1, none⟩, ⟨r.2.1, s.pipes, r.2.2⟩)
    | .publish tMid c x =>
      let r := publish M.apis s.broker tMid c.toPointer s.pipes (M.store s.world c.pvAddr x)
      (⟨r.1, none⟩, ⟨s.broker, r.2.1, r.2.2⟩)
    | .dequeue p c =>
      let r := queuePop M.apis (s.pipes p).tRoot c.toPointer s.world
      (⟨r.1, if r.1 = .success then some (M.item r.2.2 c.pvAddr) else none⟩,
        ⟨s.broker, setRoot s.pipes p r.2.1, r.2.2⟩)

variable {F : Pipes M P}

/-- The registrations of pipe `p` by the call. -/
def registrations (p : P) (e : SbCall F × Reply α) : Nat :=
  match e.1 with
  | .register ptPipe => if e.2.tStatus = .success ∧ ptPipe.deref = p then 1 else 0
  | _ => 0

/-- The messages the call brings for pipe `p`, registered `k` times. -/
def arrivals (p : P) (k : Nat) (e : SbCall F × Reply α) : List α :=
  match e.1 with
  | .publish tMid _ x => if e.2.tStatus = .success ∧ F.mid p = tMid then List.replicate k x else []
  | _ => []

/-- The messages the call takes from pipe `p`. -/
def departures (p : P) (e : SbCall F × Reply α) : List α :=
  match e.1 with
  | .dequeue q _ => if q = p ∧ e.2.tStatus = .success then e.2.value.toList else []
  | _ => []

/-- The messages published under the id of pipe `p` after it was registered, in order,
once for each registration so far; `k` registrations came before. -/
def published (p : P) : Nat → List (SbCall F × Reply α) → List α
  | _, [] => []
  | k, e :: es => arrivals p k e ++ published p (k + registrations p e) es

/-- The messages dequeued from pipe `p`, in order. -/
def dequeued (p : P) (es : List (SbCall F × Reply α)) : List α := es.flatMap (departures p)

omit [DecidableEq P] in
/-- The call is a successful registration. -/
def isRegistration (e : SbCall F × Reply α) : Bool :=
  match e.1 with
  | .register _ => e.2.tStatus = .success
  | _ => false

/-- A publication succeeds. -/
def PublishSucceeds (F : Pipes M P) (s : Bus P ω) (call : SbCall F) : Prop :=
  ∀ tMid c x, call = .publish tMid c x → ((sbMachine F).step s call).1.tStatus = .success

/-- What a call does to the bus: it keeps it well formed, moves messages as its event
says, and only ever appends to the registry. -/
structure SbStep (F : Pipes M P) (s : Bus P ω) (call : SbCall F) : Prop where
  inv : Bus.Inv F ((sbMachine F).step s call).2
  capacity : ((sbMachine F).step s call).2.broker.zRegistryCapacity = s.broker.zRegistryCapacity
  held : ∀ p, Bus.held F s p ++ arrivals p (Bus.registered s p) (call, ((sbMachine F).step s call).1) =
    departures p (call, ((sbMachine F).step s call).1) ++ Bus.held F ((sbMachine F).step s call).2 p
  registered : ∀ p, Bus.registered ((sbMachine F).step s call).2 p =
    Bus.registered s p + registrations p (call, ((sbMachine F).step s call).1)
  length : ((sbMachine F).step s call).2.broker.zRegistryLength =
    s.broker.zRegistryLength + if isRegistration (call, ((sbMachine F).step s call).1) then 1 else 0
  kept : ∀ i, i < s.broker.zRegistryLength →
    ((sbMachine F).step s call).2.broker.ptPipeRegistry.deref i = s.broker.ptPipeRegistry.deref i

omit [DecidableEq P] in
theorem held_congr {s s' : Bus P ω} (h : Bus.PipesInv F s.pipes) (pipes : s'.pipes = s.pipes)
    (items : M.item s'.world = M.item s.world) (p : P) : Bus.held F s' p = Bus.held F s p := by
  unfold Bus.held
  rw [pipes]
  exact queueItems_congr _ (h.queue p).length fun i _ => by simp only [ItemArray.at_, items]

theorem sb_register {s : Bus P ω} (h : Bus.Inv F s) (ptPipe : Ref P) : SbStep F s (.register ptPipe) := by
  obtain ⟨items, spec⟩ := registerSubscriber_spec s.broker ptPipe s.pipes s.world h.handler
  have same : ∀ p, Bus.held F ((sbMachine F).step s (.register ptPipe)).2 p = Bus.held F s p :=
    held_congr h.pipes rfl items
  rcases spec with ⟨ok, room, next⟩ | ⟨error, next⟩
  · have ok : ((sbMachine F).step s (.register ptPipe)).1.tStatus = .success := ok
    have broker : ((sbMachine F).step s (.register ptPipe)).2.broker = _ := next
    refine ⟨⟨h.pipes, ?_, ?_⟩, ?_, fun p => ?_, fun p => ?_, ?_, fun i hi => ?_⟩
    · rw [broker]
      exact h.handler
    · rw [broker]
      exact room
    · rw [broker]
    · rw [same p]
      simp [arrivals, departures]
    · unfold Bus.registered
      rw [broker]
      have front : Bus.entries (Function.update s.broker.ptPipeRegistry.deref s.broker.zRegistryLength
          ptPipe.deref) s.broker.zRegistryLength 0 =
          Bus.entries s.broker.ptPipeRegistry.deref s.broker.zRegistryLength 0 := by
        apply List.map_congr_left
        intro i member
        have lower := List.mem_range'.1 member
        exact Function.update_of_ne (by omega) _ _
      have last : Bus.entries (Function.update s.broker.ptPipeRegistry.deref s.broker.zRegistryLength
          ptPipe.deref) (s.broker.zRegistryLength + 1) 0 =
          Bus.entries s.broker.ptPipeRegistry.deref s.broker.zRegistryLength 0 ++ [ptPipe.deref] := by
        rw [← front]
        simp [Bus.entries, List.range'_1_concat]
      rw [last]
      simp [registrations, ok, List.count_append, List.count_singleton]
    · rw [broker]
      simp [isRegistration, ok]
    · rw [broker]
      exact Function.update_of_ne (by omega) _ _
  · have failed : ((sbMachine F).step s (.register ptPipe)).1.tStatus ≠ .success := error
    have broker : ((sbMachine F).step s (.register ptPipe)).2.broker = s.broker := next
    refine ⟨⟨h.pipes, broker ▸ h.handler, broker ▸ h.length⟩, by rw [broker], fun p => ?_, fun p => ?_,
      ?_, fun i _ => by rw [broker]⟩
    · rw [same p]
      simp [arrivals, departures]
    · unfold Bus.registered
      rw [broker]
      simp [registrations, failed]
    · rw [broker]
      simp [isRegistration, failed]

theorem sb_publish {s : Bus P ω} (h : Bus.Inv F s) (tMid : UInt32) (c : F.Client) (x : α)
    (ok : ((sbMachine F).step s (.publish tMid c x)).1.tStatus = .success) :
    SbStep F s (.publish tMid c x) := by
  have valid : brokerVerify s.broker = .success := by
    by_contra bad
    simp only [sbMachine, publish, ne_eq, bad, not_false_eq_true, if_true] at ok
  have call : publish M.apis s.broker tMid c.toPointer s.pipes (M.store s.world c.pvAddr x) =
      publishLoop M.apis s.broker.ptPipeRegistry.deref tMid c.toPointer s.broker.zRegistryLength 0 s.pipes
        (M.store s.world c.pvAddr x) := by
    simp only [publish, valid, ne_eq, not_true_eq_false, if_false]
  have done := ok
  simp only [sbMachine, call] at done
  obtain ⟨next, grown⟩ := publishLoop_held s.broker.ptPipeRegistry.deref tMid c s.broker.zRegistryLength 0
    s.pipes (M.store s.world c.pvAddr x) h.pipes done
  rw [← call] at next grown
  refine ⟨⟨next, h.handler, h.length⟩, rfl, fun p => ?_, fun p => ?_, ?_, fun i _ => rfl⟩
  · have before : queueItems (F.array p) (s.pipes p).tRoot (M.store s.world c.pvAddr x) = Bus.held F s p :=
      queueItems_outside (h.pipes.queue p).length (c.outside p) (M.item_store _ _ _)
    have value : M.item (M.store s.world c.pvAddr x) c.pvAddr = x := by simp [M.item_store]
    have after : Bus.held F ((sbMachine F).step s (.publish tMid c x)).2 p = _ := grown p
    rw [after, before, value]
    simp [arrivals, departures, ok, Bus.registered]
  · simp [registrations, Bus.registered, sbMachine]
  · simp [isRegistration, sbMachine]

theorem sb_dequeue {s : Bus P ω} (h : Bus.Inv F s) (q : P) (c : F.Client) :
    SbStep F s (.dequeue q c) := by
  obtain ⟨next, taken⟩ := dequeue_held h.pipes q c s.world
  refine ⟨⟨next, h.handler, h.length⟩, rfl, fun p => ?_, fun p => ?_, ?_, fun i _ => rfl⟩
  · have front := taken p
    unfold Bus.held
    simp only [arrivals, departures, sbMachine, List.append_nil]
    rw [front]
    by_cases here : q = p ∧ (queuePop M.apis (s.pipes q).tRoot c.toPointer s.world).1 = .success
    · simp [here.1, here.1 ▸ here.2]
    · simp only [here, if_false]
  · simp [registrations, Bus.registered, sbMachine]
  · simp [isRegistration, sbMachine]

/-- Every call but a failed publication is a step of the bus. -/
theorem sb_step {s : Bus P ω} (h : Bus.Inv F s) (call : SbCall F) (ok : PublishSucceeds F s call) :
    SbStep F s call := by
  cases call with
  | register ptPipe => exact sb_register h ptPipe
  | publish tMid c x => exact sb_publish h tMid c x (ok tMid c x rfl)
  | dequeue q c => exact sb_dequeue h q c

theorem sb_run_inv {s : Bus P ω} {calls : List (SbCall F)} (h : Bus.Inv F s)
    (ok : (sbMachine F).Along (PublishSucceeds F) s calls) : Bus.Inv F ((sbMachine F).run s calls) :=
  Machine.invariant (I := Bus.Inv F) (fun _ call h ok => (sb_step h call ok).inv) h ok

/-- What was held and what came in is what went out and what is held, pipe by pipe. -/
theorem sb_run_held {s : Bus P ω} {calls : List (SbCall F)} (h : Bus.Inv F s)
    (ok : (sbMachine F).Along (PublishSucceeds F) s calls) (p : P) :
    Bus.held F s p ++ published p (Bus.registered s p) ((sbMachine F).trace s calls) =
      dequeued p ((sbMachine F).trace s calls) ++ Bus.held F ((sbMachine F).run s calls) p := by
  induction calls generalizing s with
  | nil => simp [published, dequeued]
  | cons call calls ih =>
    have step := sb_step h call ok.1
    have rest := ih step.inv ok.2
    rw [step.registered p] at rest
    rw [Machine.trace_cons, Machine.run_cons, published, dequeued, List.flatMap_cons, ← List.append_assoc,
      step.held p, List.append_assoc, rest, ← List.append_assoc]
    rfl

/-- The registry grows by the successful registrations and keeps its entries. -/
theorem sb_run_registry {s : Bus P ω} {calls : List (SbCall F)} (h : Bus.Inv F s)
    (ok : (sbMachine F).Along (PublishSucceeds F) s calls) :
    ((sbMachine F).run s calls).broker.zRegistryLength =
      s.broker.zRegistryLength + ((sbMachine F).trace s calls).countP isRegistration ∧
    ((sbMachine F).run s calls).broker.zRegistryCapacity = s.broker.zRegistryCapacity ∧
    ∀ i, i < s.broker.zRegistryLength →
      ((sbMachine F).run s calls).broker.ptPipeRegistry.deref i = s.broker.ptPipeRegistry.deref i := by
  induction calls generalizing s with
  | nil => simp
  | cons call calls ih =>
    have step := sb_step h call ok.1
    obtain ⟨length, capacity, kept⟩ := ih step.inv ok.2
    rw [Machine.run_cons, Machine.trace_cons, List.countP_cons]
    refine ⟨?_, capacity.trans step.capacity, fun i hi => ?_⟩
    · rw [length, step.length]
      omega
    · rw [kept i (by rw [step.length]; omega), step.kept i hi]

/-- Only messages of its own id come to a pipe. -/
theorem published_mid {p : P} {x : α} {es : List (SbCall F × Reply α)} {k : Nat}
    (h : x ∈ published p k es) : ∃ c r, (SbCall.publish (F.mid p) c x, r) ∈ es := by
  induction es generalizing k with
  | nil => simp [published] at h
  | cons e es ih =>
    rw [published, List.mem_append] at h
    rcases h with here | later
    · obtain ⟨call, r⟩ := e
      cases call with
      | register ptPipe => simp [arrivals] at here
      | dequeue q c => simp [arrivals] at here
      | publish tMid c y =>
        simp only [arrivals] at here
        split at here
        · rename_i both
          obtain rfl := List.eq_of_mem_replicate here
          exact ⟨c, r, by rw [both.2]; exact List.mem_cons_self ..⟩
        · simp at here
    · obtain ⟨c, r, member⟩ := ih later
      exact ⟨c, r, List.mem_cons_of_mem _ member⟩

/-- The bus before its first call: the broker initialised over the registry storage, every
pipe initialised over its array. -/
def sbInit (F : Pipes M P) (handler : Handler M) (ptPipeRegistry : Ref (Nat → P))
    (iRegistryCapacity : Nat) (old : P → Pipe ω) (w : ω) : Bus P ω where
  broker := (brokerInit ptPipeRegistry iRegistryCapacity handler.ref).2
  pipes p := (pipeInit (old p) (F.mid p) (Ref.to (F.array p).root) (F.handler p).ref).2
  world := w

omit [DecidableEq P] in
theorem sbInit_inv (F : Pipes M P) (handler : Handler M) (ptPipeRegistry : Ref (Nat → P))
    (iRegistryCapacity : Nat) (old : P → Pipe ω) (w : ω) :
    Bus.Inv F (sbInit F handler ptPipeRegistry iRegistryCapacity old w) :=
  ⟨⟨fun p => queueInit_inv (F.array p) (F.handler p) (old p).tRoot, fun _ => rfl⟩, handler.quiet,
    Nat.zero_le _⟩

/-- In a run whose publications all succeed, every pipe holds what was published under its
id after it was registered, once for each registration and in order, minus what was
dequeued from it; the registry holds the successful registrations and keeps them; a
failed registration changes nothing. -/
theorem broker_delivers (F : Pipes M P) (handler : Handler M) (ptPipeRegistry : Ref (Nat → P))
    (iRegistryCapacity : Nat) (old : P → Pipe ω) (w : ω) (calls : List (SbCall F))
    (ok : (sbMachine F).Along (PublishSucceeds F)
      (sbInit F handler ptPipeRegistry iRegistryCapacity old w) calls) :
    let s₀ := sbInit F handler ptPipeRegistry iRegistryCapacity old w
    let events := (sbMachine F).trace s₀ calls
    let s := (sbMachine F).run s₀ calls
    (∀ p, published p 0 events = dequeued p events ++ Bus.held F s p) ∧
    (∀ p x, x ∈ Bus.held F s p → ∃ c r, (SbCall.publish (F.mid p) c x, r) ∈ events) ∧
    s.broker.zRegistryLength = events.countP isRegistration ∧
    s.broker.zRegistryLength ≤ iRegistryCapacity ∧
    (∀ front rest, calls = front ++ rest →
      ∀ i, i < ((sbMachine F).run s₀ front).broker.zRegistryLength →
        s.broker.ptPipeRegistry.deref i = ((sbMachine F).run s₀ front).broker.ptPipeRegistry.deref i) ∧
    (∀ ptPipe, let next := (sbMachine F).step s (.register ptPipe)
      next.1.tStatus ≠ .success →
        next.2.broker = s.broker ∧ next.2.pipes = s.pipes ∧ ∀ p, Bus.held F next.2 p = Bus.held F s p) := by
  intro s₀ events s
  have inv₀ : Bus.Inv F s₀ := sbInit_inv F handler ptPipeRegistry iRegistryCapacity old w
  have inv : Bus.Inv F s := sb_run_inv inv₀ ok
  obtain ⟨length, capacity, -⟩ := sb_run_registry inv₀ ok
  have delivered : ∀ p, published p 0 events = dequeued p events ++ Bus.held F s p :=
    fun p => sb_run_held inv₀ ok p
  refine ⟨delivered, fun p x held => ?_, ?_, ?_, ?_, fun ptPipe failed => ?_⟩
  · have came : x ∈ published p 0 events := by
      rw [delivered p]
      exact List.mem_append_right _ held
    exact published_mid came
  · exact length.trans (Nat.zero_add _)
  · exact inv.length.trans_eq capacity
  · rintro front rest rfl i hi
    obtain ⟨okFront, okRest⟩ := Machine.along_append.1 ok
    have kept := (sb_run_registry (sb_run_inv inv₀ okFront) okRest).2.2 i hi
    rw [← Machine.run_append] at kept
    exact kept
  · obtain ⟨items, spec⟩ := registerSubscriber_spec s.broker ptPipe s.pipes s.world inv.handler
    rcases spec with ⟨ok, -⟩ | ⟨-, same⟩
    · exact absurd ok failed
    · exact ⟨same, rfl, held_congr inv.pipes rfl items⟩

/-- Two pipes of two slots in plain memory. -/
def flatPipes : Pipes (flatMemory Nat) Bool where
  array p := flatArray Nat (bif p then 4 else 1) 2
  mid p := bif p then 7 else 9
  handler _ := noHandler Nat
  bound _ := show 2 ≤ sizeMax / 2 by decide
  apart p q i j ne hi hj := by
    rw [flatArray_zCapacity] at hi hj
    cases p <;> cases q <;> simp only [cond_true, cond_false, flatArray_slot] <;>
      first | exact absurd rfl ne | omega

def flatPipesVariable : flatPipes.Client where
  toCell := flatCell Nat 1 Nat.one_ne_zero
  outside p i _ := by
    show 1 ≠ (bif p then 4 else 1) + 1 + i
    cases p <;> simp only [cond_true, cond_false] <;> omega

/-- One pipe registered twice, another once, and a message for neither. -/
def flatPipesCalls : List (SbCall flatPipes) :=
  [.publish 7 flatPipesVariable 3, .register (Ref.to true), .register (Ref.to false),
    .publish 7 flatPipesVariable 4, .register (Ref.to true), .dequeue true flatPipesVariable,
    .publish 9 flatPipesVariable 5, .publish 8 flatPipesVariable 0]

def flatBus : Bus Bool (FlatWorld Nat) :=
  sbInit flatPipes (noHandler Nat) (Ref.to fun _ => false) 3
    (fun _ => ⟨⟨Ref.to gtQueueApi, (noHandler Nat).ref, Ref.to flatPair.root, 9, 9⟩, 0⟩) ⟨fun _ => 0, []⟩

theorem broker_delivers_flat :
    [5] = [] ++ Bus.held flatPipes ((sbMachine flatPipes).run flatBus flatPipesCalls) false ∧
    [4] = [4] ++ Bus.held flatPipes ((sbMachine flatPipes).run flatBus flatPipesCalls) true := by
  have ok : (sbMachine flatPipes).Along (PublishSucceeds flatPipes) flatBus flatPipesCalls :=
    ⟨fun _ _ _ _ => rfl, fun _ _ _ _ => rfl, fun _ _ _ _ => rfl, fun _ _ _ _ => rfl,
      fun _ _ _ _ => rfl, fun _ _ _ _ => rfl, fun _ _ _ _ => rfl, fun _ _ _ _ => rfl, trivial⟩
  have delivered := (broker_delivers flatPipes (noHandler Nat) (Ref.to fun _ => false) 3
    (fun _ => ⟨⟨Ref.to gtQueueApi, (noHandler Nat).ref, Ref.to flatPair.root, 9, 9⟩, 0⟩) ⟨fun _ => 0, []⟩
    flatPipesCalls ok).1
  exact ⟨delivered false, delivered true⟩

end Runs

end LibJuno.Sb
