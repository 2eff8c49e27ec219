import LibJuno.Sb.Broker

/-!
# One subscriber and the others

`Publish` gives up at the first registration whose pipe does not verify or does not take
the message. The fan-out itself offers the message to every registration in turn, whatever
became of the ones before; `publish_fans_out_iff` says when a publication comes to that.
-/

namespace LibJuno.Sb

open Ds Memory

variable {ω α P : Type} {M : ItemMemory ω α}

/-- The pipe objects and the memory behind their arrays. -/
abbrev PipeState (P ω : Type) := (P → Pipe ω) × ω

/-- The pipes that `JunoDs_QueueVerify` accepts are queues over their arrays; of the
others nothing is known. -/
def SoundPipes (F : Pipes M P) (pipes : P → Pipe ω) : Prop :=
  ∀ p, queueVerify (pipes p).tRoot = .success → QueueInv (F.array p) (pipes p).tRoot

section Turns

variable (F : Pipes M P) (tMid : UInt32) (c : Cell M)

/-- The pipe is valid and of the message's id. -/
def Wants (s : PipeState P ω) (p : P) : Prop :=
  queueVerify (s.1 p).tRoot = .success ∧ (s.1 p).iMsgId = tMid

/-- The queue of the pipe has room and `SetAt` on its array succeeds. -/
def Accepts (s : PipeState P ω) (p : P) : Prop :=
  (s.1 p).tRoot.zLength < (F.array p).zCapacity ∧
    ((F.array p).root.ptApi.deref.setAt.deref c.toPointer
      (((s.1 p).tRoot.iStartIndex + (s.1 p).tRoot.zLength) % (F.array p).zCapacity) s.2).1 = .success

/-- The message is appended to the pipe when it is offered. -/
def Takes (s : PipeState P ω) (p : P) : Prop := Wants tMid s p ∧ Accepts F c s p

/-- `Publish` does not go on behind the registration: the pipe does not verify, or it is
of the id and does not take the message. -/
def Stops (s : PipeState P ω) (p : P) : Prop :=
  queueVerify (s.1 p).tRoot ≠ .success ∨ (s.1 p).iMsgId = tMid ∧ ¬Accepts F c s p

instance (s : PipeState P ω) (p : P) : Decidable (Wants tMid s p) := inferInstanceAs (Decidable (_ ∧ _))

instance (s : PipeState P ω) (p : P) : Decidable (Accepts F c s p) := inferInstanceAs (Decidable (_ ∧ _))

instance (s : PipeState P ω) (p : P) : Decidable (Takes F tMid c s p) := inferInstanceAs (Decidable (_ ∧ _))

variable [DecidableEq P]

/-- The fan-out, registration by registration: the message is offered to every valid pipe
of the id. The output says whether it was taken. -/
def fanOut : Machine (PipeState P ω) P Bool where
  step s p :=
    (decide (Takes F tMid c s p),
      if Wants tMid s p then
        let r := queuePush M.apis (s.1 p).tRoot c.toPointer s.2
        (setRoot s.1 p r.2.1, r.2.2)
      else s)

/-- How many registrations of pipe `p` take the message. -/
def taken (s : PipeState P ω) (entries : List P) (p : P) : Nat :=
  ((fanOut F tMid c).trace s entries).countP fun e => decide (e.1 = p) && e.2

/-- Every registration of a valid pipe of the id that has room, and whose array access
succeeds, has the message appended once; the other pipes stay as they are. -/
structure FansOut (s : PipeState P ω) (entries : List P) (s' : PipeState P ω) : Prop where
  appended : ∀ p, queueVerify (s.1 p).tRoot = .success →
    queueItems (F.array p) (s'.1 p).tRoot s'.2 = queueItems (F.array p) (s.1 p).tRoot s.2 ++
      List.replicate (taken F tMid c s entries p) (M.item s.2 c.pvAddr)
  unchanged : ∀ p, taken F tMid c s entries p = 0 →
    s'.1 p = s.1 p ∧ ∀ i, i < (F.array p).zCapacity → (F.array p).at_ s'.2 i = (F.array p).at_ s.2 i

/-- Every registration that takes the message is reached: the broker verifies, and no
registration before it stops the publication. -/
def Unstarved (ptBroker : BrokerRoot P ω) (s : PipeState P ω) (entries : List P) : Prop :=
  ∀ front p rest, entries = front ++ p :: rest →
    Takes F tMid c ((fanOut F tMid c).run s front) p →
      brokerVerify ptBroker = .success ∧ (fanOut F tMid c).Along (fun s p => ¬Stops F tMid c s p) s front

end Turns

/-! ## What the turns do -/

section Grown

variable {F : Pipes M P} {c : Cell M} {n n' : P → Nat} {s s' s'' : PipeState P ω}

/-- From `s` to `s'` every pipe `p` has had the message appended `n p` times. -/
structure Grown (F : Pipes M P) (c : Cell M) (n : P → Nat) (s s' : PipeState P ω) : Prop where
  sound : SoundPipes F s'.1
  verify : ∀ p, queueVerify (s'.1 p).tRoot = queueVerify (s.1 p).tRoot
  mid : ∀ p, (s'.1 p).iMsgId = (s.1 p).iMsgId
  message : M.item s'.2 c.pvAddr = M.item s.2 c.pvAddr
  appended : ∀ p, queueVerify (s.1 p).tRoot = .success →
    queueItems (F.array p) (s'.1 p).tRoot s'.2 =
      queueItems (F.array p) (s.1 p).tRoot s.2 ++ List.replicate (n p) (M.item s.2 c.pvAddr)
  unchanged : ∀ p, n p = 0 →
    s'.1 p = s.1 p ∧ ∀ i, i < (F.array p).zCapacity → (F.array p).at_ s'.2 i = (F.array p).at_ s.2 i

theorem Grown.congr (same : ∀ p, n p = n' p) (grown : Grown F c n s s') : Grown F c n' s s' := by
  rwa [← funext same]

/-- Nothing that a pipe can see has changed. -/
theorem Grown.of_same (sound : SoundPipes F s.1) (pipes : s'.1 = s.1) (items : M.item s'.2 = M.item s.2) :
    Grown F c (fun _ => 0) s s' := by
  have slots : ∀ p i, (F.array p).at_ s'.2 i = (F.array p).at_ s.2 i := by
    intro p i
    simp only [ItemArray.at_, items]
  constructor
  · exact pipes ▸ sound
  · intro p
    rw [pipes]
  · intro p
    rw [pipes]
  · rw [items]
  · intro p valid
    rw [pipes, List.replicate_zero, List.append_nil]
    exact queueItems_congr _ (sound p valid).length fun i _ => slots p i
  · intro p _
    exact ⟨by rw [pipes], fun i _ => slots p i⟩

theorem Grown.trans (first : Grown F c n s s') (second : Grown F c n' s' s'') :
    Grown F c (fun p => n p + n' p) s s'' := by
  constructor
  · exact second.sound
  · intro p
    rw [second.verify, first.verify]
  · intro p
    rw [second.mid, first.mid]
  · rw [second.message, first.message]
  · intro p valid
    rw [second.appended p (by rw [first.verify, valid]), first.appended p valid, first.message,
      List.append_assoc, List.replicate_append_replicate]
  · intro p none_
    obtain ⟨pipe, slots⟩ := first.unchanged p (by omega)
    obtain ⟨pipe', slots'⟩ := second.unchanged p (by omega)
    exact ⟨pipe'.trans pipe, fun i hi => (slots' i hi).trans (slots i hi)⟩

/-- A valid pipe is longer by the messages appended. -/
theorem Grown.length (grown : Grown F c n s s') {p : P} (valid : queueVerify (s.1 p).tRoot = .success) :
    (s'.1 p).tRoot.zLength = (s.1 p).tRoot.zLength + n p := by
  have lengths := congrArg List.length (grown.appended p valid)
  simpa only [queueItems_length, List.length_append, List.length_replicate] using lengths

end Grown

section Turns

variable [DecidableEq P] {F : Pipes M P} {tMid : UInt32} {c : Cell M} {s : PipeState P ω}

/-- An offer that is not taken, or that is never made, leaves the pipes as they are. -/
theorem fanOut_refused (sound : SoundPipes F s.1) {p : P} (refused : ¬Takes F tMid c s p) :
    let s' := ((fanOut F tMid c).step s p).2
    s'.1 = s.1 ∧ M.item s'.2 = M.item s.2 := by
  intro s'
  by_cases wants : Wants tMid s p
  swap
  · simp only [s', fanOut, if_neg wants, and_self]
  have spec := queuePush_spec (sound p wants.1) (F.bound p) c s.2
  rcases spec with ⟨-, room, put, -⟩ | ⟨-, -, same, items⟩
  · exact absurd ⟨wants, room, put⟩ refused
  · simp only [s', fanOut, if_pos wants, same]
    exact ⟨Function.update_eq_self p s.1, items⟩

/-- The pipe that takes the message grows by it, and no other pipe sees that. -/
theorem fanOut_taken (sound : SoundPipes F s.1) {p : P} (takes : Takes F tMid c s p) :
    Grown F c (fun q => if p = q then 1 else 0) s ((fanOut F tMid c).step s p).2 := by
  obtain ⟨wants, room, put⟩ := takes
  have inv := sound p wants.1
  obtain ⟨next, done⟩ := queuePush_items inv (F.bound p) c s.2
  have step : ((fanOut F tMid c).step s p).2 =
      (setRoot s.1 p (queuePush M.apis (s.1 p).tRoot c.toPointer s.2).2.1,
        (queuePush M.apis (s.1 p).tRoot c.toPointer s.2).2.2) := by
    simp only [fanOut, if_pos wants]
  rw [step]
  have root : (queuePush M.apis (s.1 p).tRoot c.toPointer s.2).2.1 =
      { (s.1 p).tRoot with zLength := (s.1 p).tRoot.zLength + 1 } := by
    rcases queuePush_spec inv (F.bound p) c s.2 with ⟨-, -, -, grown⟩ | ⟨-, refused, -⟩
    · rw [grown]
    · exact absurd ⟨room, put⟩ refused
  have ok := (queuePush_success_iff inv (F.bound p) c s.2).2 ⟨room, put⟩
  generalize queuePush M.apis (s.1 p).tRoot c.toPointer s.2 = r at next done root ok
  rcases done with ⟨-, -, grown, i, hi, written⟩ | ⟨failed, -⟩
  swap
  · exact absurd ok failed
  have away : ∀ q, p ≠ q → setRoot s.1 p r.2.1 q = s.1 q := fun q here => setRoot_of_ne _ _ (Ne.symm here)
  have others : ∀ q, p ≠ q → ∀ j, j < (F.array q).zCapacity →
      (F.array q).at_ r.2.2 j = (F.array q).at_ s.2 j := by
    intro q other j hj
    have apart := F.apart p q i j other hi hj
    simp only [ItemArray.at_, written, Function.update_of_ne (Ne.symm apart)]
  constructor <;> dsimp only
  · intro q valid
    by_cases here : p = q
    · subst here
      rw [setRoot_self]
      exact next
    · rw [away q here] at valid ⊢
      exact sound q valid
  · intro q
    by_cases here : p = q
    · subst here
      rw [setRoot_self, root]
      rfl
    · rw [away q here]
  · intro q
    exact setRoot_iMsgId s.1 p q r.2.1
  · -- should the message lie in the slot that is written, it is written over by itself
    rw [written]
    by_cases same : c.pvAddr = ((F.array p).slot i).pvAddr
    · rw [← same, Function.update_self]
    · rw [Function.update_of_ne same]
  · intro q valid
    by_cases here : p = q
    · subst here
      rw [setRoot_self, if_pos rfl]
      exact grown
    · rw [away q here, if_neg here, List.replicate_zero, List.append_nil]
      exact queueItems_congr _ (sound q valid).length (others q here)
  · intro q none_
    have here : p ≠ q := by
      intro same
      simp [same] at none_
    exact ⟨away q here, others q here⟩

/-- What one registration adds. -/
theorem taken_one (q p : P) :
    taken F tMid c s [q] p = if q = p ∧ Takes F tMid c s q then 1 else 0 := by
  by_cases takes : Takes F tMid c s q <;> simp [taken, fanOut, takes, List.countP_cons]

/-- One turn of the fan-out. -/
theorem fanOut_step (sound : SoundPipes F s.1) (p : P) :
    Grown F c (taken F tMid c s [p]) s ((fanOut F tMid c).step s p).2 := by
  by_cases takes : Takes F tMid c s p
  · exact (fanOut_taken sound takes).congr fun q => by simp [taken_one, takes]
  · obtain ⟨pipes, items⟩ := fanOut_refused sound takes
    exact (Grown.of_same sound pipes items).congr fun q => by simp [taken_one, takes]

theorem taken_append (entries entries' : List P) (p : P) :
    taken F tMid c s (entries ++ entries') p =
      taken F tMid c s entries p + taken F tMid c ((fanOut F tMid c).run s entries) entries' p := by
  rw [taken, Machine.trace_append, List.countP_append]
  rfl

theorem taken_cons (q : P) (entries : List P) (p : P) :
    taken F tMid c s (q :: entries) p =
      taken F tMid c s [q] p + taken F tMid c ((fanOut F tMid c).step s q).2 entries p :=
  taken_append [q] entries p

/-- Only a valid pipe takes the message. -/
theorem taken_invalid (sound : SoundPipes F s.1) {p : P} (invalid : queueVerify (s.1 p).tRoot ≠ .success)
    (entries : List P) : taken F tMid c s entries p = 0 := by
  induction entries generalizing s with
  | nil => rfl
  | cons q entries ih =>
    have turn : Grown F c (taken F tMid c s [q]) s ((fanOut F tMid c).step s q).2 := fanOut_step sound q
    have refused : ¬(q = p ∧ Takes F tMid c s q) := by
      rintro ⟨rfl, takes⟩
      exact invalid takes.1.1
    rw [taken_cons, taken_one, if_neg refused, Nat.zero_add]
    exact ih turn.sound fun ok => invalid ((turn.verify p).symm.trans ok)

/-- The whole fan-out: every pipe grows by the registrations that take the message. -/
theorem fanOut_run (sound : SoundPipes F s.1) (entries : List P) :
    Grown F c (taken F tMid c s entries) s ((fanOut F tMid c).run s entries) := by
  induction entries generalizing s with
  | nil => exact .of_same sound rfl rfl
  | cons p entries ih =>
    have turn : Grown F c (taken F tMid c s [p]) s ((fanOut F tMid c).step s p).2 := fanOut_step sound p
    exact (turn.trans (ih turn.sound)).congr fun q => (taken_cons p entries q).symm

/-- A pipe takes the message at most as often as it is registered, and while it has room. -/
theorem taken_le (sound : SoundPipes F s.1) {p : P} (valid : queueVerify (s.1 p).tRoot = .success)
    (entries : List P) : taken F tMid c s entries p ≤ entries.count p ∧
      (s.1 p).tRoot.zLength + taken F tMid c s entries p ≤ (F.array p).zCapacity := by
  constructor
  · induction entries generalizing s with
    | nil => exact Nat.le_refl 0
    | cons q entries ih =>
      have turn : Grown F c (taken F tMid c s [q]) s ((fanOut F tMid c).step s q).2 := fanOut_step sound q
      have rest := ih turn.sound ((turn.verify p).trans valid)
      have here : taken F tMid c s [q] p ≤ if q = p then 1 else 0 := by
        rw [taken_one]
        by_cases same : q = p
        · rw [if_pos same]
          split <;> omega
        · rw [if_neg (fun both => same both.1)]
          exact Nat.zero_le _
      rw [taken_cons, List.count_cons]
      simp only [beq_iff_eq]
      omega
  · have grown : Grown F c (taken F tMid c s entries) s ((fanOut F tMid c).run s entries) :=
      fanOut_run sound entries
    have fits := (grown.sound p ((grown.verify p).trans valid)).length
    rw [grown.length valid] at fits
    exact fits

/-- A valid pipe of the id with room for all its registrations, whose array takes every
message, has the message appended once for each. -/
theorem taken_all (sound : SoundPipes F s.1) {p : P} (wants : Wants tMid s p) {entries : List P}
    (room : (s.1 p).tRoot.zLength + entries.count p ≤ (F.array p).zCapacity)
    (stores : ∀ i w, ((F.array p).root.ptApi.deref.setAt.deref c.toPointer i w).1 = .success) :
    taken F tMid c s entries p = entries.count p := by
  induction entries generalizing s with
  | nil => rfl
  | cons q entries ih =>
    have turn : Grown F c (taken F tMid c s [q]) s ((fanOut F tMid c).step s q).2 := fanOut_step sound q
    have longer := turn.length wants.1
    have here : taken F tMid c s [q] p = if q = p then 1 else 0 := by
      rw [taken_one]
      by_cases same : q = p
      · subst same
        rw [List.count_cons_self] at room
        have takes : Takes F tMid c s q := ⟨wants, by omega, stores _ _⟩
        rw [if_pos ⟨rfl, takes⟩, if_pos rfl]
      · rw [if_neg same, if_neg (fun both => same both.1)]
    rw [List.count_cons] at room ⊢
    simp only [beq_iff_eq] at room ⊢
    rw [taken_cons, here, ih turn.sound ⟨(turn.verify p).trans wants.1, (turn.mid p).trans wants.2⟩ (by omega),
      Nat.add_comm]

/-- No registration takes the message exactly if no pipe grows. -/
theorem taken_eq_zero {entries : List P} :
    (∀ p, taken F tMid c s entries p = 0) ↔
      (fanOut F tMid c).Along (fun s p => ¬Takes F tMid c s p) s entries := by
  induction entries generalizing s with
  | nil => exact iff_of_true (fun _ => rfl) trivial
  | cons p entries ih =>
    have own : (∀ q, taken F tMid c s [p] q = 0) ↔ ¬Takes F tMid c s p := by
      constructor
      · intro none_ takes
        have here := none_ p
        rw [taken_one, if_pos ⟨rfl, takes⟩] at here
        cases here
      · intro refused q
        rw [taken_one, if_neg (fun both => refused both.2)]
    rw [Machine.Along, ← own, ← ih, ← forall_and]
    refine forall_congr' fun q => ?_
    rw [taken_cons]
    omega

/-- A publication that makes the turns of `front` and stops at the first of `rest`, if
there is one, leaves `s'`. -/
structure Reaches (F : Pipes M P) (tMid : UInt32) (c : Cell M) (s : PipeState P ω) (front rest : List P)
    (s' : PipeState P ω) : Prop where
  goes : (fanOut F tMid c).Along (fun s p => ¬Stops F tMid c s p) s front
  stops : ∀ p rest', rest = p :: rest' → Stops F tMid c ((fanOut F tMid c).run s front) p
  pipes : s'.1 = ((fanOut F tMid c).run s front).1
  items : M.item s'.2 = M.item ((fanOut F tMid c).run s front).2

/-- The publish loop makes the turns of the fan-out up to the first registration that
stops it. -/
theorem publishLoop_reaches (ptPipeRegistry : Nat → P) (n : Nat) :
    ∀ (i : Nat) (s : PipeState P ω), SoundPipes F s.1 →
    ∃ front rest, Bus.entries ptPipeRegistry n i = front ++ rest ∧
      Reaches F tMid c s front rest (publishLoop M.apis ptPipeRegistry tMid c.toPointer n i s.1 s.2).2 := by
  induction n with
  | zero =>
    intro i s sound
    exact ⟨[], [], rfl, trivial, by simp, rfl, rfl⟩
  | succ n ih =>
    intro i s sound
    have entries : Bus.entries ptPipeRegistry (n + 1) i =
        ptPipeRegistry i :: Bus.entries ptPipeRegistry n (i + 1) := by
      simp [Bus.entries, List.range'_succ]
    rw [entries, publishLoop]
    generalize ptPipeRegistry i = p
    -- the loop stops here, with the pipes as they are
    have stop : ∀ s' : PipeState P ω, Stops F tMid c s p → s'.1 = s.1 → M.item s'.2 = M.item s.2 →
        Reaches F tMid c s [] (p :: Bus.entries ptPipeRegistry n (i + 1)) s' := by
      intro s' stops pipes items
      refine ⟨trivial, ?_, pipes, items⟩
      rintro p' rest' ⟨rfl, rfl⟩
      exact stops
    -- the loop goes on with the state of the fan-out
    have go : ¬Stops F tMid c s p → ∃ front rest,
        p :: Bus.entries ptPipeRegistry n (i + 1) = front ++ rest ∧ Reaches F tMid c s front rest
          (publishLoop M.apis ptPipeRegistry tMid c.toPointer n (i + 1)
            ((fanOut F tMid c).step s p).2.1 ((fanOut F tMid c).step s p).2.2).2 := by
      intro goes
      have turn : Grown F c (taken F tMid c s [p]) s ((fanOut F tMid c).step s p).2 := fanOut_step sound p
      obtain ⟨front, rest, split, reaches⟩ := ih (i + 1) _ turn.sound
      exact ⟨p :: front, rest, by rw [split]; rfl, ⟨goes, reaches.goes⟩, reaches.stops, reaches.pipes,
        reaches.items⟩
    by_cases valid : queueVerify (s.1 p).tRoot = .success
    swap
    · simp only [ne_eq, valid, not_false_eq_true, if_true]
      exact ⟨[], _, rfl, stop _ (.inl valid) rfl rfl⟩
    simp only [valid, ne_eq, not_true_eq_false, if_false]
    by_cases id_ : (s.1 p).iMsgId = tMid
    swap
    · have same : ((fanOut F tMid c).step s p).2 = s := by
        simp only [fanOut, Wants, id_, and_false, if_false]
      have goes : ¬Stops F tMid c s p := by simp [Stops, valid, id_]
      rw [if_neg id_]
      simpa only [same] using go goes
    rw [if_pos id_]
    have step : ((fanOut F tMid c).step s p).2 =
        (setRoot s.1 p (queuePush M.apis (s.1 p).tRoot c.toPointer s.2).2.1,
          (queuePush M.apis (s.1 p).tRoot c.toPointer s.2).2.2) := by
      simp only [fanOut, Wants, valid, id_, and_self, if_true]
    by_cases accepts : Accepts F c s p
    · have ok := (queuePush_success_iff (sound p valid) (F.bound p) c s.2).2 accepts
      have goes : ¬Stops F tMid c s p := by simp [Stops, valid, accepts]
      rw [if_neg (not_not.2 ok)]
      simpa only [step] using go goes
    · have failed := fun ok => accepts ((queuePush_success_iff (sound p valid) (F.bound p) c s.2).1 ok)
      have refused : ¬Takes F tMid c s p := fun takes => accepts takes.2
      obtain ⟨pipes, items⟩ := fanOut_refused sound refused
      rw [if_pos failed]
      rw [step] at pipes items
      exact ⟨[], _, rfl, stop _ (.inr ⟨id_, accepts⟩) pipes items⟩

/-- What makes the turns of `front` only starves the registrations of `rest` that take the
message. -/
theorem fansOut_iff (sound : SoundPipes F s.1) {front rest : List P} {s' : PipeState P ω}
    (pipes : s'.1 = ((fanOut F tMid c).run s front).1)
    (items : M.item s'.2 = M.item ((fanOut F tMid c).run s front).2) :
    FansOut F tMid c s (front ++ rest) s' ↔
      (fanOut F tMid c).Along (fun s p => ¬Takes F tMid c s p) ((fanOut F tMid c).run s front) rest := by
  have before : Grown F c (taken F tMid c s front) s ((fanOut F tMid c).run s front) := fanOut_run sound front
  have made : Grown F c (taken F tMid c s front) s s' :=
    (before.trans (Grown.of_same before.sound pipes items)).congr fun p => Nat.add_zero _
  have count : ∀ p, taken F tMid c s (front ++ rest) p = taken F tMid c s front p +
      taken F tMid c ((fanOut F tMid c).run s front) rest p := taken_append front rest
  rw [← taken_eq_zero]
  constructor
  · intro fans p
    by_cases valid : queueVerify (s.1 p).tRoot = .success
    · have lengths := congrArg List.length ((fans.appended p valid).symm.trans (made.appended p valid))
      simp only [List.length_append, List.length_replicate] at lengths
      have total := count p
      omega
    · exact taken_invalid before.sound (by rwa [before.verify]) rest
  · intro none_
    have same : ∀ p, taken F tMid c s (front ++ rest) p = taken F tMid c s front p := by
      intro p
      rw [count, none_ p, Nat.add_zero]
    refine ⟨fun p valid => ?_, fun p zero => made.unchanged p (same p ▸ zero)⟩
    rw [same]
    exact made.appended p valid

/-- Nothing behind the stop takes the message exactly if what takes it is before the stop. -/
theorem reaches_unstarved_iff {ptBroker : BrokerRoot P ω} (valid : brokerVerify ptBroker = .success)
    {front rest : List P} {s' : PipeState P ω} (reaches : Reaches F tMid c s front rest s') :
    Unstarved F tMid c ptBroker s (front ++ rest) ↔
      (fanOut F tMid c).Along (fun s p => ¬Takes F tMid c s p) ((fanOut F tMid c).run s front) rest := by
  rw [Machine.along_iff_split]
  constructor
  · intro reached reachedRest p rest' split takes
    subst split
    rw [← Machine.run_append] at takes
    obtain ⟨-, goes⟩ := reached (front ++ reachedRest) p rest' (List.append_assoc ..).symm takes
    cases reachedRest with
    | nil =>
      rw [List.append_nil] at takes
      rcases reaches.stops p rest' rfl with invalid | ⟨_, refused⟩
      · exact invalid takes.1.1
      · exact refused takes.2
    | cons q reachedRest => exact (Machine.along_append.1 goes).2.1 (reaches.stops q _ rfl)
  · intro refused front' p rest' split takes
    rcases List.append_eq_append_iff.1 split with ⟨between, rfl, behind⟩ | ⟨between, before, behind⟩
    · rw [Machine.run_append] at takes
      exact absurd takes (refused between p rest' behind)
    · have goes := reaches.goes
      rw [before] at goes
      exact ⟨valid, (Machine.along_append.1 goes).1⟩

/-- A publication comes to the fan-out exactly if every registration that takes the message
is reached. The fan-out gives a valid pipe the message at most once for each of its
registrations and never more than fits, and once for each if the pipe is of the id, has room
for all of them and its array takes every message. -/
theorem publish_fans_out_iff (F : Pipes M P) (ptBroker : BrokerRoot P ω) (tMid : UInt32) (c : Cell M)
    (s : PipeState P ω) (sound : SoundPipes F s.1) :
    let entries := Bus.entries ptBroker.ptPipeRegistry.deref ptBroker.zRegistryLength 0
    (FansOut F tMid c s entries (publish M.apis ptBroker tMid c.toPointer s.1 s.2).2 ↔
      Unstarved F tMid c ptBroker s entries) ∧
    ∀ p, queueVerify (s.1 p).tRoot = .success →
      taken F tMid c s entries p ≤ entries.count p ∧
      (s.1 p).tRoot.zLength + taken F tMid c s entries p ≤ (F.array p).zCapacity ∧
      (Wants tMid s p → (s.1 p).tRoot.zLength + entries.count p ≤ (F.array p).zCapacity →
        (∀ i w, ((F.array p).root.ptApi.deref.setAt.deref c.toPointer i w).1 = .success) →
        taken F tMid c s entries p = entries.count p) := by
  intro entries
  refine ⟨?_, fun p valid => ⟨(taken_le sound valid entries).1, (taken_le sound valid entries).2,
    fun wants room stores => taken_all sound wants room stores⟩⟩
  by_cases valid : brokerVerify ptBroker = .success
  · have loop : ∃ front rest, entries = front ++ rest ∧ Reaches F tMid c s front rest
        (publishLoop M.apis ptBroker.ptPipeRegistry.deref tMid c.toPointer ptBroker.zRegistryLength 0 s.1 s.2).2 :=
      publishLoop_reaches ptBroker.ptPipeRegistry.deref ptBroker.zRegistryLength 0 s sound
    obtain ⟨front, rest, parts, reaches⟩ := loop
    have call : publish M.apis ptBroker tMid c.toPointer s.1 s.2 = publishLoop M.apis
        ptBroker.ptPipeRegistry.deref tMid c.toPointer ptBroker.zRegistryLength 0 s.1 s.2 := by
      simp only [publish, valid, ne_eq, not_true_eq_false, if_false]
    rw [call, parts, fansOut_iff sound reaches.pipes reaches.items, reaches_unstarved_iff valid reaches]
  · have call : publish M.apis ptBroker tMid c.toPointer s.1 s.2 = (brokerVerify ptBroker, s.1, s.2) := by
      simp only [publish, ne_eq, valid, not_false_eq_true, if_true]
    have nothing : FansOut F tMid c s ([] ++ entries) (s.1, s.2) ↔
        (fanOut F tMid c).Along (fun s p => ¬Takes F tMid c s p) s entries := fansOut_iff sound rfl rfl
    rw [call]
    refine nothing.trans (Machine.along_iff_split.trans ?_)
    refine forall_congr' fun front => forall_congr' fun p => forall_congr' fun rest => ?_
    refine forall_congr' fun split => forall_congr' fun takes => ?_
    exact iff_of_false id fun reached => valid reached.1

/-- Two pipes of one id over plain memory, with `full` messages in the pipe `false`. -/
def flatPipeState (full : Nat) : PipeState Bool (FlatWorld Nat) where
  fst p := ⟨⟨Ref.to gtQueueApi, (noHandler Nat).ref, Ref.to (flatPipes.array p).root, 0,
    bif p then 0 else full⟩, 7⟩
  snd := ⟨fun _ => 0, []⟩

/-- The broker of a registry that names the pipes in the given order. -/
def flatBroker (first second : Bool) : BrokerRoot Bool (FlatWorld Nat) where
  ptApi := Ref.to gtBrokerApi
  failureHandler := (noHandler Nat).ref
  ptPipeRegistry := Ref.to fun i => if i = 0 then first else second
  zRegistryLength := 2
  zRegistryCapacity := 2

theorem flatPipeState_sound (full : Nat) (fits : full ≤ 2) : SoundPipes flatPipes (flatPipeState full).1 := by
  intro p _
  refine ⟨rfl, rfl, (noHandler Nat).quiet, .inl (show 0 < 2 by decide), ?_⟩
  cases p
  · exact fits
  · exact Nat.zero_le _

/-- A full pipe that is registered behind a free one does no harm. -/
theorem publish_fans_out_iff_flat :
    FansOut flatPipes 7 flatPipesVariable.toCell (flatPipeState 2)
      (Bus.entries (flatBroker true false).ptPipeRegistry.deref 2 0)
      (publish (flatMemory Nat).apis (flatBroker true false) 7 flatPipesVariable.toPointer
        (flatPipeState 2).1 (flatPipeState 2).2).2 := by
  refine (publish_fans_out_iff flatPipes (flatBroker true false) 7 flatPipesVariable.toCell
    (flatPipeState 2) (flatPipeState_sound 2 (Nat.le_refl 2))).1.2 ?_
  have goes : ¬Stops flatPipes 7 flatPipesVariable.toCell (flatPipeState 2) true := by
    unfold Stops
    decide
  rintro front p rest split -
  refine ⟨rfl, ?_⟩
  have entries : [true, false] = front ++ p :: rest := split
  cases front with
  | nil => trivial
  | cons q front =>
    obtain ⟨rfl, behind⟩ := List.cons.inj entries
    cases front with
    | nil => exact ⟨goes, trivial⟩
    | cons q' front =>
      have lengths := congrArg List.length behind
      simp at lengths

/-- A full pipe that is registered before a free one keeps the message from it. -/
theorem publish_starves :
    let r := publish (flatMemory Nat).apis (flatBroker false true) 7 flatPipesVariable.toPointer
      (flatPipeState 2).1 (flatPipeState 2).2
    ¬FansOut flatPipes 7 flatPipesVariable.toCell (flatPipeState 2)
        (Bus.entries (flatBroker false true).ptPipeRegistry.deref 2 0) r.2 ∧
      queueItems (flatPipes.array true) (r.2.1 true).tRoot r.2.2 = [] := by
  constructor
  · intro fans
    have appended := congrArg List.length (fans.appended true rfl)
    revert appended
    decide
  · decide

end Turns

end LibJuno.Sb
