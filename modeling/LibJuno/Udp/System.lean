import LibJuno.Udp.SenderThread

/-!
# The two threads of the UDP example

The threads run at once and share nothing but the network. A step is what one of them does next:
a publication, a print, a `send` or `recv`, or a dequeue. A turn of a thread is a run of its
steps (`thread1_turn`, `thread2_turn`), and the steps of the two threads interleave in any way.
Thread 2 loses nothing that it receives, so what the network keeps from one thread to the other
holds from end to end (`udp_end_to_end`).
-/

namespace LibJuno.Udp

open Ds Memory Sb

/-- What a thread does next: a turn begins, its first application prints a message or hands it
on (`Send` or `Publish`), its second application dequeues or prints what it has dequeued. -/
inductive Point where
  | turn
  | print (tMsg : UdpThreadMsg)
  | forward (tMsg : UdpThreadMsg)
  | drain
  | report (tMsg : UdpThreadMsg)

/-- A dequeue of the second application, from which the loop of `drain` is made. -/
def dequeue (L : Layout) (bus : Bus Unit MsgWorld) : Point × Bus Unit MsgWorld :=
  let r := queuePop msgMemory.apis (bus.pipes ()).tRoot (taker L).toPointer bus.world
  (if r.1 = .success then .report (msgMemory.item r.2.2 (taker L).pvAddr) else .turn,
    ⟨bus.broker, setRoot bus.pipes () r.2.1, r.2.2⟩)

/-- A step of thread 1. An error ends the turn. -/
def thread1Step (L : Layout) (iSent : Int) : Thread1 × Point → Thread1 × Point
  | (s, .turn) =>
    let uSeqNum := s.uSeqNum + 1
    let r := publishMsg L s.bus (numbered uSeqNum)
    ({ s with uSeqNum := uSeqNum, bus := r.2 },
      if r.1 ≠ .success then .turn else .print (numbered uSeqNum))
  | (s, .print tMsg) => ({ s with tx := s.tx ++ [tMsg.uSeqNum] }, .forward tMsg)
  | (s, .forward tMsg) =>
    if send iSent ≠ .success then (s, .turn) else ({ s with sent := s.sent ++ [tMsg] }, .drain)
  | (s, .drain) => ({ s with bus := (dequeue L s.bus).2 }, (dequeue L s.bus).1)
  | (s, .report tMsg) => ({ s with monitored := s.monitored ++ [tMsg.uSeqNum] }, .drain)

/-- A step of thread 2. -/
def thread2Step (L : Layout) (recv : Recv) : Thread2 × Point → Thread2 × Point
  | (s, .turn) =>
    if receive recv = .timeoutError then (s, .drain)
    else if receive recv ≠ .success then (s, .turn)
    else ({ s with received := s.received ++ [recv.tMsg] }, .print recv.tMsg)
  | (s, .print tMsg) => ({ s with rx := s.rx ++ [tMsg.uSeqNum] }, .forward tMsg)
  | (s, .forward tMsg) =>
    let r := publishMsg L s.bus tMsg
    ({ s with bus := r.2 }, if r.1 ≠ .success then .turn else .drain)
  | (s, .drain) => ({ s with bus := (dequeue L s.bus).2 }, (dequeue L s.bus).1)
  | (s, .report tMsg) => ({ s with processed := s.processed ++ [tMsg.uSeqNum] }, .drain)

/-- The two threads, each with what it does next. -/
structure System where
  thread1 : Thread1 × Point
  thread2 : Thread2 × Point

/-- A step of one of the threads, with what the network answers if it asks. -/
inductive Step where
  | thread1 (iSent : Int)
  | thread2 (recv : Recv)

/-- The threads with their memories. -/
structure Setup where
  layout1 : Layout
  layout2 : Layout
  memory1 : MsgWorld
  memory2 : MsgWorld

def Setup.start (c : Setup) : Option System :=
  (thread1Start c.layout1 c.memory1).bind fun thread1 =>
    (thread2Start c.layout2 c.memory2).map fun thread2 => ⟨(thread1, .turn), (thread2, .turn)⟩

def Setup.step (c : Setup) (s : System) : Step → System
  | .thread1 iSent => { s with thread1 := thread1Step c.layout1 iSent s.thread1 }
  | .thread2 recv => { s with thread2 := thread2Step c.layout2 recv s.thread2 }

/-- The steps in the order in which they were taken. -/
def Setup.run (c : Setup) (s : System) (steps : List Step) : System := steps.foldl c.step s

/-- What the second application is about to print: what it has dequeued, and what is in the pipe. -/
def awaited (L : Layout) (bus : Bus Unit MsgWorld) : Point → List UdpThreadMsg
  | .drain => held L bus
  | .report tMsg => tMsg :: held L bus
  | _ => []

/-- What is on its way through thread 2, from `recv` to the print of its second application. -/
def underway (L : Layout) (bus : Bus Unit MsgWorld) : Point → List UdpThreadMsg
  | .print tMsg => [tMsg]
  | .forward tMsg => [tMsg]
  | p => awaited L bus p

/-- The message that the second application has dequeued. -/
def Point.taken : Point → List UdpThreadMsg
  | .report tMsg => [tMsg]
  | _ => []

/-- The message that the first application has still to send. -/
def Point.unsent : Point → List UdpThreadMsg
  | .print tMsg => [tMsg]
  | .forward tMsg => [tMsg]
  | _ => []

section Turns

variable {L : Layout} {bus : Bus Unit MsgWorld}

theorem dequeue_spec (wired : Wired L bus) :
    Wired L (dequeue L bus).2 ∧
      ((∃ m, (dequeue L bus).1 = .report m ∧ held L bus = m :: held L (dequeue L bus).2) ∨
        (dequeue L bus).1 = .turn ∧ held L bus = [] ∧ held L (dequeue L bus).2 = []) := by
  obtain ⟨wired', done⟩ := take_spec wired
  refine ⟨wired', ?_⟩
  rcases done with ⟨ok, front⟩ | ⟨empty, none_held, none_left⟩
  · exact .inl ⟨_, if_pos ok, front⟩
  · refine .inr ⟨if_neg ?_, none_held, none_left⟩
    rw [empty]
    decide

/-- The steps of a second application from its first dequeue to the end of the turn are the loop. -/
theorem drain_iterate {σ : Type} (act : σ × Point → σ × Point) (put : Bus Unit MsgWorld → List UInt32 → σ)
    (drains : ∀ bus printed, act (put bus printed, .drain) = (put (dequeue L bus).2 printed, (dequeue L bus).1))
    (reports : ∀ bus printed m, act (put bus printed, .report m) = (put bus (printed ++ [m.uSeqNum]), .drain))
    (wired : Wired L bus) (printed : List UInt32) {n : Nat} (turns : (held L bus).length < n) :
    ∃ k, act^[k] (put bus printed, .drain) =
      (put (drain L n bus printed).2.1 (drain L n bus printed).2.2, .turn) := by
  induction n generalizing bus printed with
  | zero => omega
  | succ n ih =>
    obtain ⟨wired', done⟩ := take_spec wired
    have next := drains bus printed
    rw [drain]
    rcases done with ⟨ok, front⟩ | ⟨empty, -, -⟩
    · rw [ok, if_neg (by decide), if_neg (by decide)]
      rw [front, List.length_cons] at turns
      obtain ⟨k, rest⟩ := ih wired' (printed ++ [_]) (by omega)
      refine ⟨k + 2, ?_⟩
      rw [Function.iterate_succ_apply, Function.iterate_succ_apply, next, dequeue]
      dsimp only
      rw [if_pos ok, reports]
      exact rest
    · rw [if_pos empty]
      refine ⟨1, ?_⟩
      rw [Function.iterate_one, next, dequeue]
      dsimp only
      rw [if_neg (by rw [empty]; decide)]

/-- A turn of thread 1 is a run of its steps. -/
theorem thread1_turn {s : Thread1} (wired : Wired L s.bus) (iSent : Int) :
    ∃ k, (thread1Step L iSent)^[k] (s, .turn) = ((thread1Frame L iSent s).2, .turn) := by
  let m := numbered (s.uSeqNum + 1)
  let filed : Thread1 := { s with uSeqNum := s.uSeqNum + 1, bus := (publishMsg L s.bus m).2 }
  let printed : Thread1 := { filed with tx := s.tx ++ [m.uSeqNum] }
  obtain ⟨wired', -⟩ := publishMsg_spec wired m
  have publishes : thread1Step L iSent (s, .turn) =
      (filed, if (publishMsg L s.bus m).1 ≠ .success then .turn else .print m) := rfl
  have prints : thread1Step L iSent (filed, .print m) = (printed, .forward m) := rfl
  have sends : thread1Step L iSent (printed, .forward m) =
      if send iSent ≠ .success then (printed, .turn)
      else ({ printed with sent := s.sent ++ [m] }, .drain) := rfl
  have frame : (thread1Frame L iSent s).2 = if (publishMsg L s.bus m).1 ≠ .success then filed
      else if send iSent ≠ .success then printed
      else (monitorProcess L { printed with sent := s.sent ++ [m] }).2 := by
    rw [thread1Frame_eq, senderProcess]
    by_cases ok : (publishMsg L s.bus m).1 = .success
    · by_cases whole : send iSent = .success
      · simp only [m, ok, whole, ne_eq, not_true_eq_false, if_false]
        rfl
      · simp only [m, ok, whole, ne_eq, not_true_eq_false, not_false_eq_true, if_false, if_true]
        rfl
    · simp only [m, ok, ne_eq, not_false_eq_true, if_true]
      rfl
  rw [frame]
  split at publishes
  · exact ⟨1, by rw [Function.iterate_one, publishes, if_pos ‹_›]⟩
  · rw [if_neg ‹_›]
    split at sends
    · refine ⟨3, ?_⟩
      simp only [Function.iterate_succ_apply, Function.iterate_zero_apply, publishes, prints, sends]
      rw [if_pos ‹_›]
    · rw [if_neg ‹_›]
      obtain ⟨k, rest⟩ := drain_iterate (L := L) (thread1Step L iSent)
        (fun bus monitored => { printed with bus := bus, sent := s.sent ++ [m], monitored := monitored })
        (fun _ _ => rfl) (fun _ _ _ => rfl) wired' s.monitored (held_lt _)
      refine ⟨k + 3, ?_⟩
      rw [Function.iterate_succ_apply, Function.iterate_succ_apply, Function.iterate_succ_apply,
        publishes, prints, sends]
      exact rest

theorem thread2Frame_eq (L : Layout) (recv : Recv) (s : Thread2) : thread2Frame L recv s =
    if (bridgeProcess L recv s).1 ≠ .success then bridgeProcess L recv s
    else processorProcess L (bridgeProcess L recv s).2 := by
  unfold thread2Frame schExecute
  rw [schLoop]
  dsimp only [List.getElem?_cons_zero]
  split
  · rfl
  · rw [schLoop]
    dsimp only [List.getElem?_cons_succ, List.getElem?_cons_zero]
    split
    · rfl
    · rfl

/-- A turn of thread 2 is a run of its steps. -/
theorem thread2_turn {s : Thread2} (wired : Wired L s.bus) (recv : Recv) :
    ∃ k, (thread2Step L recv)^[k] (s, .turn) = ((thread2Frame L recv s).2, .turn) := by
  have drained (s : Thread2) (wired : Wired L s.bus) :
      ∃ k, (thread2Step L recv)^[k] (s, .drain) = ((processorProcess L s).2, .turn) :=
    drain_iterate (L := L) (thread2Step L recv)
      (fun bus processed => { s with bus := bus, processed := processed })
      (fun _ _ => rfl) (fun _ _ _ => rfl) wired s.processed (held_lt _)
  by_cases timeout : receive recv = .timeoutError
  · have frame : (thread2Frame L recv s).2 = (processorProcess L s).2 := by
      rw [thread2Frame_eq, bridgeProcess, if_pos timeout]
      rfl
    obtain ⟨k, rest⟩ := drained s wired
    refine ⟨k + 1, ?_⟩
    rw [Function.iterate_succ_apply, thread2Step, if_pos timeout, frame]
    exact rest
  · by_cases ok : receive recv = .success
    · let m := recv.tMsg
      let printed : Thread2 := { s with received := s.received ++ [m], rx := s.rx ++ [m.uSeqNum] }
      let filed : Thread2 := { printed with bus := (publishMsg L s.bus m).2 }
      obtain ⟨wired', -⟩ := publishMsg_spec wired m
      have receives : thread2Step L recv (s, .turn) = ({ s with received := s.received ++ [m] }, .print m) := by
        rw [thread2Step, if_neg timeout, if_neg (not_not.2 ok)]
      have prints : thread2Step L recv ({ s with received := s.received ++ [m] }, .print m) =
          (printed, .forward m) := rfl
      have publishes : thread2Step L recv (printed, .forward m) =
          (filed, if (publishMsg L s.bus m).1 ≠ .success then .turn else .drain) := rfl
      have frame : (thread2Frame L recv s).2 =
          if (publishMsg L s.bus m).1 ≠ .success then filed else (processorProcess L filed).2 := by
        rw [thread2Frame_eq, bridgeProcess, if_neg timeout, if_neg (not_not.2 ok)]
        split <;> rfl
      rw [frame]
      split at publishes
      · refine ⟨3, ?_⟩
        simp only [Function.iterate_succ_apply, Function.iterate_zero_apply, receives, prints, publishes]
        rw [if_pos ‹_›]
      · rw [if_neg ‹_›]
        obtain ⟨k, rest⟩ := drained filed wired'
        refine ⟨k + 3, ?_⟩
        rw [Function.iterate_succ_apply, Function.iterate_succ_apply, Function.iterate_succ_apply,
          receives, prints, publishes]
        exact rest
    · have frame : (thread2Frame L recv s).2 = s := by
        rw [thread2Frame_eq, bridgeProcess, if_neg timeout, if_pos ok, if_pos ok]
      refine ⟨1, ?_⟩
      rw [Function.iterate_one, thread2Step, if_neg timeout, if_pos ok, frame]

end Turns

section Threads

variable {L : Layout} {x : Thread1 × Point} {y : Thread2 × Point}

/-- Thread 1 at any point: it has begun `count` turns, and `n` messages have been in its pipe. -/
structure Sends (L : Layout) (count n : Nat) (x : Thread1 × Point) : Prop where
  wired : Wired L x.1.bus
  seq : x.1.uSeqNum = UInt32.ofNat count
  le : n ≤ count
  all : x.2 ≠ .turn ∨ (held L x.1.bus).length < udpthPipeCapacity → n = count
  unsent : x.2.unsent ⊆ held L x.1.bus
  filed : x.1.monitored ++ (x.2.taken ++ held L x.1.bus).map UdpThreadMsg.uSeqNum = seqNums n
  sent : (x.1.sent.map UdpThreadMsg.uSeqNum).Sublist
    (x.1.monitored ++ (awaited L x.1.bus x.2).map UdpThreadMsg.uSeqNum)

theorem seqNums_succ (n : Nat) : seqNums (n + 1) = seqNums n ++ [UInt32.ofNat (n + 1)] := by
  rw [seqNums, List.range_succ, List.map_append]
  rfl

/-- `SenderApp` publishes the next number, or the pipe is full. -/
theorem Sends.publishes {count n : Nat} {s : Thread1} (sends : Sends L count n (s, .turn)) (iSent : Int) :
    ∃ n', Sends L (count + 1) n' (thread1Step L iSent (s, .turn)) := by
  obtain ⟨wired, seq, le, all, -, filed, sent⟩ := sends
  have next : s.uSeqNum + 1 = UInt32.ofNat (count + 1) := by
    rw [show s.uSeqNum = _ from seq, UInt32.ofNat_add]
    rfl
  obtain ⟨wired', done⟩ := publishMsg_spec wired (numbered (s.uSeqNum + 1))
  rcases done with ⟨room, ok, grown⟩ | ⟨full, error, same⟩
  · obtain rfl : n = count := all (.inr room)
    refine ⟨n + 1, ?_⟩
    rw [thread1Step, if_neg (not_not.2 ok)]
    refine ⟨wired', next, Nat.le_refl _, fun _ => rfl, ?_, ?_, sent⟩
    · show [numbered (s.uSeqNum + 1)] ⊆ held L (publishMsg L s.bus (numbered (s.uSeqNum + 1))).2
      rw [grown]
      exact List.subset_append_right _ _
    · show s.monitored ++ (held L (publishMsg L s.bus (numbered (s.uSeqNum + 1))).2).map _ = _
      rw [grown, List.map_append, ← List.append_assoc, seqNums_succ, ← next]
      exact congrArg (· ++ _) filed
  · refine ⟨n, ?_⟩
    rw [thread1Step, if_pos error]
    refine ⟨wired', next, Nat.le_succ_of_le le, ?_, List.nil_subset _, ?_, sent⟩
    · rintro (elsewhere | room)
      · exact absurd rfl elsewhere
      · rw [same, show (held L s.bus).length = _ from full] at room
        exact absurd room (Nat.lt_irrefl _)
    · show s.monitored ++ (held L (publishMsg L s.bus (numbered (s.uSeqNum + 1))).2).map _ = _
      rw [same]
      exact filed

/-- The monitor dequeues the oldest message, or the turn ends. -/
theorem Sends.dequeues {count n : Nat} {s : Thread1} (sends : Sends L count n (s, .drain)) (iSent : Int) :
    Sends L count n (thread1Step L iSent (s, .drain)) := by
  obtain ⟨wired, seq, le, all, -, filed, sent⟩ := sends
  obtain ⟨wired', done⟩ := dequeue_spec wired
  rw [thread1Step]
  rcases done with ⟨m, taken, front⟩ | ⟨ended, empty, empty'⟩
  · rw [taken]
    refine ⟨wired', seq, le, fun _ => all (.inl nofun), List.nil_subset _, ?_, ?_⟩
    · show s.monitored ++ (m :: held L (dequeue L s.bus).2).map _ = _
      rw [← front]
      exact filed
    · show (s.sent.map _).Sublist (s.monitored ++ (m :: held L (dequeue L s.bus).2).map _)
      rw [← front]
      exact sent
  · rw [ended]
    refine ⟨wired', seq, le, fun _ => all (.inl nofun), List.nil_subset _, ?_, ?_⟩
    · show s.monitored ++ (held L (dequeue L s.bus).2).map _ = _
      rw [empty', ← show held L s.bus = [] from empty]
      exact filed
    · rw [awaited, show held L s.bus = [] from empty] at sent
      exact sent

theorem Sends.step {count n : Nat} (sends : Sends L count n x) (iSent : Int) :
    ∃ count' n', Sends L count' n' (thread1Step L iSent x) := by
  obtain ⟨s, p⟩ := x
  cases p with
  | turn =>
    obtain ⟨n', done⟩ := sends.publishes iSent
    exact ⟨count + 1, n', done⟩
  | print m =>
    obtain ⟨wired, seq, le, all, unsent, filed, sent⟩ := sends
    exact ⟨count, n, wired, seq, le, fun _ => all (.inl nofun), unsent, filed, sent⟩
  | forward m =>
    obtain ⟨wired, seq, le, all, unsent, filed, sent⟩ := sends
    refine ⟨count, n, ?_⟩
    rw [thread1Step]
    split
    · exact ⟨wired, seq, le, fun _ => all (.inl nofun), List.nil_subset _, filed, sent⟩
    · refine ⟨wired, seq, le, fun _ => all (.inl nofun), List.nil_subset _, filed, ?_⟩
      show ((s.sent ++ [m]).map _).Sublist (s.monitored ++ (held L s.bus).map _)
      have before : (s.sent.map UdpThreadMsg.uSeqNum).Sublist s.monitored := by
        simpa [awaited] using sent
      have here : m ∈ held L s.bus := unsent (List.mem_singleton_self m)
      rw [List.map_append]
      exact before.append (List.singleton_sublist.2 (List.mem_map_of_mem here))
  | drain => exact ⟨count, n, sends.dequeues iSent⟩
  | report m =>
    obtain ⟨wired, seq, le, all, -, filed, sent⟩ := sends
    refine ⟨count, n, wired, seq, le, fun _ => all (.inl nofun), List.nil_subset _, ?_, ?_⟩
    · show s.monitored ++ [m.uSeqNum] ++ (held L s.bus).map _ = _
      rw [List.append_assoc]
      exact filed
    · show (s.sent.map _).Sublist (s.monitored ++ [m.uSeqNum] ++ (held L s.bus).map _)
      rw [List.append_assoc]
      exact sent

/-- Thread 2 at any point: what it has received is printed, or it is underway. -/
structure Carries (L : Layout) (y : Thread2 × Point) : Prop where
  wired : Wired L y.1.bus
  clear : y.2 = .drain ∨ (∃ m, y.2 = .report m) ∨ held L y.1.bus = []
  carried : y.1.processed ++ (underway L y.1.bus y.2).map UdpThreadMsg.uSeqNum =
    y.1.received.map UdpThreadMsg.uSeqNum

theorem Carries.step (carries : Carries L y) (recv : Recv) : Carries L (thread2Step L recv y) := by
  obtain ⟨s, p⟩ := y
  obtain ⟨wired, clear, carried⟩ := carries
  dsimp only at wired clear carried
  cases p with
  | turn =>
    have empty : held L s.bus = [] := by simpa using clear
    rw [thread2Step]
    split
    · refine ⟨wired, .inl rfl, ?_⟩
      show s.processed ++ (held L s.bus).map _ = _
      rw [empty]
      exact carried
    · split
      · exact ⟨wired, .inr (.inr empty), carried⟩
      · refine ⟨wired, .inr (.inr empty), ?_⟩
        show s.processed ++ [recv.tMsg.uSeqNum] = (s.received ++ [recv.tMsg]).map _
        rw [List.map_append, ← carried]
        simp [underway, awaited]
  | print m =>
    have empty : held L s.bus = [] := by simpa using clear
    exact ⟨wired, .inr (.inr empty), carried⟩
  | forward m =>
    have empty : held L s.bus = [] := by simpa using clear
    obtain ⟨wired', done⟩ := publishMsg_spec wired m
    rw [empty] at done
    rcases done with ⟨-, ok, filed⟩ | ⟨full, -⟩
    · rw [thread2Step, if_neg (not_not.2 ok)]
      refine ⟨wired', .inl rfl, ?_⟩
      show s.processed ++ (held L (publishMsg L s.bus m).2).map _ = _
      rw [filed]
      exact carried
    · exact absurd full (by decide)
  | drain =>
    obtain ⟨wired', done⟩ := dequeue_spec wired
    rw [thread2Step]
    rcases done with ⟨m, taken, front⟩ | ⟨ended, empty, empty'⟩
    · rw [taken]
      refine ⟨wired', .inr (.inl ⟨m, rfl⟩), ?_⟩
      show s.processed ++ (m :: held L (dequeue L s.bus).2).map _ = _
      rw [← front]
      exact carried
    · rw [ended]
      refine ⟨wired', .inr (.inr empty'), ?_⟩
      rw [underway, awaited, empty] at carried
      · exact carried
      all_goals exact nofun
  | report m =>
    refine ⟨wired, .inl rfl, ?_⟩
    show s.processed ++ [m.uSeqNum] ++ (held L s.bus).map _ = _
    rw [List.append_assoc]
    exact carried

end Threads

section Both

variable {c : Setup} {s : System}

/-- Both threads at any point. -/
theorem run_spec {count n : Nat} (sends : Sends c.layout1 count n s.thread1)
    (carries : Carries c.layout2 s.thread2) (steps : List Step) :
    ∃ count' n', Sends c.layout1 count' n' (c.run s steps).thread1 ∧
      Carries c.layout2 (c.run s steps).thread2 := by
  induction steps generalizing s count n with
  | nil => exact ⟨count, n, sends, carries⟩
  | cons e steps ih =>
    cases e with
    | thread1 iSent =>
      obtain ⟨count', n', sends'⟩ := sends.step iSent
      exact ih (s := c.step s (.thread1 iSent)) sends' carries
    | thread2 recv => exact ih (s := c.step s (.thread2 recv)) sends (carries.step recv)

theorem run_thread1 (iSent : Int) (k : Nat) : c.run s (List.replicate k (.thread1 iSent)) =
    { s with thread1 := (thread1Step c.layout1 iSent)^[k] s.thread1 } := by
  induction k generalizing s with
  | zero => rfl
  | succ k ih => exact ih

theorem run_thread2 (recv : Recv) (k : Nat) : c.run s (List.replicate k (.thread2 recv)) =
    { s with thread2 := (thread2Step c.layout2 recv)^[k] s.thread2 } := by
  induction k generalizing s with
  | zero => rfl
  | succ k ih => exact ih

theorem start_spec (c : Setup) : ∃ s, c.start = some s ∧ Sends c.layout1 0 0 s.thread1 ∧
    Carries c.layout2 s.thread2 := by
  obtain ⟨thread1, start1, shows_⟩ := thread1Start_shows c.layout1 c.memory1
  obtain ⟨broker, subscriber, wired, empty⟩ := brokerStart_spec c.layout2 c.memory2
  have start2 : thread2Start c.layout2 c.memory2 =
      some ⟨(subscriberStart c.layout2 (brokerStart c.memory2).2).2, [], [], []⟩ := by
    unfold thread2Start
    dsimp only
    rw [if_neg (not_not.2 broker), if_neg (not_not.2 subscriber)]
  refine ⟨⟨(thread1, .turn), (_, .turn)⟩, by rw [Setup.start, start1, start2]; rfl, ?_, ?_⟩
  · have sent : thread1.sent = [] := shows_.sent
    have monitored : thread1.monitored = [] := shows_.seen
    refine ⟨shows_.wired, shows_.seq, Nat.le_refl 0, fun _ => rfl, List.nil_subset _, ?_, ?_⟩
    · show thread1.monitored ++ (held c.layout1 thread1.bus).map _ = _
      rw [monitored, show held c.layout1 thread1.bus = [] from shows_.held]
      rfl
    · rw [sent]
      exact List.nil_sublist _
  · exact ⟨wired, .inr (.inr empty), rfl⟩

end Both

theorem seqNums_lt {n : Nat} (few : n < UInt32.size) : (seqNums n).Pairwise (· < ·) := by
  unfold seqNums
  rw [List.pairwise_map]
  refine List.Pairwise.imp_of_mem ?_ List.pairwise_lt_range
  intro i j mem mem' less
  have below := List.mem_range.1 mem'
  rw [UInt32.lt_iff_toNat_lt, UInt32.toNat_ofNat_of_lt' (by omega), UInt32.toNat_ofNat_of_lt' (by omega)]
  omega

/-- The first numbers are the numbers from 1 on. -/
theorem eq_seqNums_of_append {xs ys : List UInt32} {n : Nat} (all : xs ++ ys = seqNums n) :
    xs = seqNums xs.length := by
  have len := congrArg List.length all
  rw [List.length_append, seqNums, List.length_map, List.length_range] at len
  have front : xs = (seqNums n).take xs.length := by
    rw [← all, List.take_left]
  rw [seqNums, ← List.map_take, List.take_range, Nat.min_eq_left (by omega)] at front
  exact front

/-- **From end to end.** Wherever the steps of the two threads have come to, and whatever the
network does, the processor has printed the numbers of the messages received in the order of
their receipt, once each, but those underway in its thread. What the network keeps is kept from
the monitor to the processor: if it invents nothing, if it also repeats nothing, and if it also
keeps the order. Here the monitor has `heard` what it has printed and what it is about to print
in its turn. It has printed the numbers from 1 on. The turns of the scheduler are runs of steps. -/
theorem udp_end_to_end (c : Setup) (steps : List Step) :
    ∃ s₀, c.start = some s₀ ∧
      let s := c.run s₀ steps
      let heard := s.thread1.1.monitored ++
        (awaited c.layout1 s.thread1.1.bus s.thread1.2).map UdpThreadMsg.uSeqNum
      s.thread2.1.processed ++
          (underway c.layout2 s.thread2.1.bus s.thread2.2).map UdpThreadMsg.uSeqNum =
        s.thread2.1.received.map UdpThreadMsg.uSeqNum ∧
      (s.thread2.1.received ⊆ s.thread1.1.sent → s.thread2.1.processed ⊆ heard) ∧
      (s.thread2.1.received.Subperm s.thread1.1.sent → s.thread2.1.processed.Subperm heard) ∧
      (s.thread2.1.received.Sublist s.thread1.1.sent → s.thread2.1.processed.Sublist heard) ∧
      s.thread1.1.monitored = seqNums s.thread1.1.monitored.length ∧
      (s.thread1.1.monitored.length < UInt32.size → s.thread1.1.monitored.Pairwise (· < ·)) ∧
      (s.thread1.2 = .turn → ∀ iSent, ∃ k, c.run s (List.replicate k (.thread1 iSent)) =
        { s with thread1 := ((thread1Frame c.layout1 iSent s.thread1.1).2, .turn) }) ∧
      (s.thread2.2 = .turn → ∀ recv, ∃ k, c.run s (List.replicate k (.thread2 recv)) =
        { s with thread2 := ((thread2Frame c.layout2 recv s.thread2.1).2, .turn) }) := by
  obtain ⟨s₀, start, sends₀, carries₀⟩ := start_spec c
  refine ⟨s₀, start, ?_⟩
  intro s heard
  obtain ⟨count, n, sends, carries⟩ := run_spec sends₀ carries₀ steps
  have carried : s.thread2.1.processed ++ _ = s.thread2.1.received.map UdpThreadMsg.uSeqNum := carries.carried
  have printed : s.thread2.1.processed.Sublist (s.thread2.1.received.map UdpThreadMsg.uSeqNum) := by
    rw [← carried]
    exact List.sublist_append_left _ _
  have sent : (s.thread1.1.sent.map UdpThreadMsg.uSeqNum).Sublist heard := sends.sent
  have numbers : s.thread1.1.monitored = seqNums s.thread1.1.monitored.length := by
    have filed := sends.filed
    exact eq_seqNums_of_append filed
  refine ⟨carried, ?_, ?_, ?_, numbers, ?_, ?_, ?_⟩
  · intro known
    have among : s.thread2.1.received.map UdpThreadMsg.uSeqNum ⊆ s.thread1.1.sent.map UdpThreadMsg.uSeqNum :=
      List.map_subset _ known
    exact List.Subset.trans printed.subset (List.Subset.trans among sent.subset)
  · rintro ⟨kept, perm, known⟩
    have same : (s.thread2.1.received.map UdpThreadMsg.uSeqNum).Subperm (kept.map UdpThreadMsg.uSeqNum) :=
      (perm.map _).symm.subperm
    exact (printed.subperm.trans same).trans ((known.map _).trans sent).subperm
  · exact fun known => printed.trans ((known.map _).trans sent)
  · intro few
    rw [numbers]
    exact seqNums_lt few
  · intro begins iSent
    obtain ⟨k, turn⟩ := thread1_turn sends.wired iSent
    refine ⟨k, ?_⟩
    rw [run_thread1, ← turn, ← begins]
  · intro begins recv
    obtain ⟨k, turn⟩ := thread2_turn carries.wired recv
    refine ⟨k, ?_⟩
    rw [run_thread2, ← turn, ← begins]

end LibJuno.Udp
