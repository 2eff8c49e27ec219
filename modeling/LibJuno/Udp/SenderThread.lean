import LibJuno.Udp.Apps
import LibJuno.Lib.Backlog

/-!
# The sender's thread of the UDP example

Each turn of a thread files a message in its pipe and drains the pipe. The monitor of thread 1
only runs after a successful transmission, so the pipe is a backlog that success clears
(`Backlog`): eight failed transmissions in a row fill it, and then the thread does nothing any
more (`sender_thread`).
-/

namespace LibJuno.Udp

open Ds Memory Sb

section Pipes

variable {L : Layout} {bus : Bus Unit MsgWorld}

/-- A thread after its start: its broker is set up and its pipe is the only subscriber. -/
structure Wired (L : Layout) (bus : Bus Unit MsgWorld) : Prop where
  inv : Bus.Inv (pipes L) bus
  broker : brokerVerify bus.broker = .success
  one : bus.broker.zRegistryLength = 1

/-- The messages in the pipe of a thread. -/
def held (L : Layout) (bus : Bus Unit MsgWorld) : List UdpThreadMsg := Bus.held (pipes L) bus ()

theorem capacity_pos : 0 < (msgArray L.atBuffer).zCapacity :=
  (by decide : 0 < udpthPipeCapacity)

theorem Wired.queue (wired : Wired L bus) : QueueInv (msgArray L.atBuffer) (bus.pipes ()).tRoot :=
  wired.inv.pipes.queue ()

theorem Wired.length (wired : Wired L bus) : (held L bus).length ≤ udpthPipeCapacity := by
  unfold held Bus.held
  rw [queueItems_length]
  exact wired.queue.length

/-- The loop of the second application has turns enough. -/
theorem held_lt (bus : Bus Unit MsgWorld) : (held L bus).length < (bus.pipes ()).tRoot.zLength + 1 := by
  unfold held Bus.held
  rw [queueItems_length]
  omega

/-- The publication of a message goes through the one pipe. -/
theorem publish_one (wired : Wired L bus) (c : Pointer) (w : MsgWorld) :
    let r := queuePush msgMemory.apis (bus.pipes ()).tRoot c w
    publish msgMemory.apis bus.broker udpthMsgMid c bus.pipes w =
      (r.1, setRoot bus.pipes () r.2.1, r.2.2) := by
  intro r
  have mid : (bus.pipes ()).iMsgId = udpthMsgMid := wired.inv.pipes.mid ()
  unfold publish
  dsimp only
  rw [if_neg (not_not.2 wired.broker), wired.one, publishLoop,
    if_neg (not_not.2 (wired.queue.verify capacity_pos)), if_pos mid]
  dsimp only
  split
  · rfl
  · next ok => rw [publishLoop, not_not.1 ok]

/-- A thread's publication files the message, or finds the pipe full. -/
theorem publishMsg_spec (wired : Wired L bus) (m : UdpThreadMsg) :
    Wired L (publishMsg L bus m).2 ∧
    ((held L bus).length < udpthPipeCapacity ∧ (publishMsg L bus m).1 = .success ∧
        held L (publishMsg L bus m).2 = held L bus ++ [m] ∨
      (held L bus).length = udpthPipeCapacity ∧ (publishMsg L bus m).1 ≠ .success ∧
        held L (publishMsg L bus m).2 = held L bus) := by
  have bound : (msgArray L.atBuffer).zCapacity ≤ sizeMax / 2 := (pipes L).bound ()
  have full := wired.length
  have before : queueItems (msgArray L.atBuffer) (bus.pipes ()).tRoot
      (msgMemory.store bus.world (publisher L).pvAddr m) = held L bus :=
    queueItems_outside wired.queue.length L.publishedOutside (msgMemory.item_store _ _ _)
  have fill : (held L bus).length = (bus.pipes ()).tRoot.zLength := queueItems_length _ _ _
  have value : msgMemory.item (msgMemory.store bus.world (publisher L).pvAddr m) (publisher L).pvAddr =
      m := Function.update_self _ _ _
  have served := queuePush_success_iff wired.queue bound (publisher L).toCell
    (msgMemory.store bus.world (publisher L).pvAddr m)
  obtain ⟨queue, done⟩ := queuePush_items wired.queue bound (publisher L).toCell
    (msgMemory.store bus.world (publisher L).pvAddr m)
  rw [before, value] at done
  unfold publishMsg
  dsimp only
  rw [publish_one wired]
  dsimp only
  refine ⟨⟨⟨Bus.PipesInv.setRoot (q := ()) wired.inv.pipes queue, wired.inv.handler, wired.inv.length⟩, wired.broker, wired.one⟩,
    ?_⟩
  unfold held Bus.held
  dsimp only
  rw [setRoot_self]
  rcases done with ⟨ok, room, grown, -⟩ | ⟨error, same, items⟩
  · exact .inl ⟨fill ▸ room, ok, grown⟩
  · have no_room : ¬(held L bus).length < udpthPipeCapacity :=
      fun room => error (served.2 ⟨fill ▸ room, setAt_success _ _ _ _⟩)
    refine .inr ⟨by unfold held Bus.held at *; omega, error, ?_⟩
    rw [same]
    exact (congrArg (queueItems (msgArray L.atBuffer) (bus.pipes ()).tRoot) items).trans before

/-- A dequeue takes the oldest message, or finds the pipe empty. -/
theorem take_spec (wired : Wired L bus) :
    let r := queuePop msgMemory.apis (bus.pipes ()).tRoot (taker L).toPointer bus.world
    let bus' : Bus Unit MsgWorld := ⟨bus.broker, setRoot bus.pipes () r.2.1, r.2.2⟩
    Wired L bus' ∧
      (r.1 = .success ∧ held L bus = msgMemory.item r.2.2 (taker L).pvAddr :: held L bus' ∨
        r.1 = .oobError ∧ held L bus = [] ∧ held L bus' = []) := by
  intro r bus'
  have bound : (msgArray L.atBuffer).zCapacity ≤ sizeMax / 2 := (pipes L).bound ()
  obtain ⟨queue, -, done⟩ := queuePop_items wired.queue bound (taker L) bus.world
  have spec := queuePop_spec wired.queue bound (taker L) bus.world
  have wired' : Wired L bus' := ⟨⟨Bus.PipesInv.setRoot (q := ()) wired.inv.pipes queue,
    wired.inv.handler, wired.inv.length⟩, wired.broker, wired.one⟩
  have after : held L bus' = queueItems (msgArray L.atBuffer) r.2.1 r.2.2 := by
    unfold held Bus.held
    rw [setRoot_self]
    rfl
  refine ⟨wired', ?_⟩
  rw [after]
  rcases done with ⟨ok, front⟩ | ⟨error, same⟩
  · exact .inl ⟨ok, front⟩
  · rcases spec with ⟨ok, -⟩ | ⟨-, -, -, smooth⟩
    · exact absurd ok error
    · have empty : (bus.pipes ()).tRoot.zLength = 0 := smooth (take_smooth _ _ L.takenOutside _)
      have none_held : held L bus = [] := by
        apply List.eq_nil_of_length_eq_zero
        exact (queueItems_length _ _ _).trans empty
      refine .inr ⟨?_, none_held, same.trans none_held⟩
      unfold r queuePop
      rw [if_neg (not_not.2 (wired.queue.verify capacity_pos)), if_neg (not_not.2 (taker L).verify),
        if_neg (by omega)]

/-- The loop of the second application empties the pipe and prints what was in it. -/
theorem drain_spec (wired : Wired L bus) (printed : List UInt32) {n : Nat}
    (turns : (held L bus).length < n) :
    (drain L n bus printed).1 = .success ∧ Wired L (drain L n bus printed).2.1 ∧
      held L (drain L n bus printed).2.1 = [] ∧
      (drain L n bus printed).2.2 = printed ++ (held L bus).map UdpThreadMsg.uSeqNum := by
  induction n generalizing bus printed with
  | zero => omega
  | succ n ih =>
    obtain ⟨wired', done⟩ := take_spec wired
    rw [drain]
    rcases done with ⟨ok, front⟩ | ⟨empty, none_held, none_left⟩
    · rw [ok, if_neg (by decide), if_neg (by decide)]
      rw [front, List.length_cons] at turns
      obtain ⟨success, wired'', left, all⟩ := ih wired' (printed ++ [_]) (by omega)
      refine ⟨success, wired'', left, ?_⟩
      rw [all, front, List.map_cons, List.append_assoc]
      rfl
    · rw [if_pos empty]
      exact ⟨rfl, wired', none_left, by rw [none_held, List.map_nil, List.append_nil]⟩

end Pipes

/-- The broker and the subscriber start, and the pipe is empty. -/
theorem brokerStart_spec (L : Layout) (w : MsgWorld) :
    (brokerStart w).1 = .success ∧ (subscriberStart L (brokerStart w).2).1 = .success ∧
      Wired L (subscriberStart L (brokerStart w).2).2 ∧
      held L (subscriberStart L (brokerStart w).2).2 = [] := by
  refine ⟨rfl, rfl, ⟨⟨⟨fun _ => ?_, fun _ => rfl⟩, fun _ _ _ => rfl,
    (by decide : 1 ≤ 2)⟩, rfl, rfl⟩, rfl⟩
  exact queueInit_inv (msgArray L.atBuffer) noHandler staticPipe.tRoot

section Sender

variable {L : Layout} {iSent : Int} {s : Thread1}

/-- The messages of `SenderApp` by number. -/
def message (k : Nat) : UdpThreadMsg := numbered (UInt32.ofNat (k + 1))

/-- Whether a transmission succeeds. -/
def transmits (iSent : Int) : Bool := iSent = msgSize

theorem send_eq_success : send iSent = .success ↔ transmits iSent = true := by
  unfold send transmits
  by_cases whole : iSent = msgSize <;> simp [whole]

/-- The state of thread 1 is that of a line: the pipe is the backlog, which the monitor consumes. -/
structure Shows (L : Layout) (line : Backlog.Line UdpThreadMsg) (s : Thread1) : Prop where
  wired : Wired L s.bus
  seq : s.uSeqNum = UInt32.ofNat line.count
  held : held L s.bus = line.held
  tx : s.tx = (line.seen ++ line.held).map UdpThreadMsg.uSeqNum
  seen : s.monitored = line.seen.map UdpThreadMsg.uSeqNum
  sent : s.sent = line.sent

theorem thread1Frame_eq (L : Layout) (iSent : Int) (s : Thread1) : thread1Frame L iSent s =
    if (senderProcess L iSent s).1 ≠ .success then senderProcess L iSent s
    else monitorProcess L (senderProcess L iSent s).2 := by
  unfold thread1Frame schExecute
  rw [schLoop]
  dsimp only [List.getElem?_cons_zero]
  split
  · rfl
  · rw [schLoop]
    dsimp only [List.getElem?_cons_succ, List.getElem?_cons_zero]
    split
    · rfl
    · rfl

/-- A turn of the sender: the message is filed and sent, filed only, or refused. -/
theorem senderProcess_cases (wired : Wired L s.bus) (iSent : Int) :
    let m := numbered (s.uSeqNum + 1)
    let r := senderProcess L iSent s
    Wired L r.2.bus ∧ r.2.uSeqNum = s.uSeqNum + 1 ∧ r.2.monitored = s.monitored ∧
      ((held L s.bus).length < udpthPipeCapacity ∧ transmits iSent = true ∧ r.1 = .success ∧
          held L r.2.bus = held L s.bus ++ [m] ∧ r.2.tx = s.tx ++ [s.uSeqNum + 1] ∧
          r.2.sent = s.sent ++ [m] ∨
        (held L s.bus).length < udpthPipeCapacity ∧ transmits iSent = false ∧ r.1 ≠ .success ∧
          held L r.2.bus = held L s.bus ++ [m] ∧ r.2.tx = s.tx ++ [s.uSeqNum + 1] ∧
          r.2.sent = s.sent ∨
        (held L s.bus).length = udpthPipeCapacity ∧ r.1 ≠ .success ∧
          held L r.2.bus = held L s.bus ∧ r.2.tx = s.tx ∧ r.2.sent = s.sent) := by
  intro m r
  obtain ⟨wired', done⟩ := publishMsg_spec wired m
  unfold r senderProcess
  dsimp only
  rcases done with ⟨room, ok, filed⟩ | ⟨full, error, same⟩
  · rw [if_neg (not_not.2 ok)]
    cases sends : transmits iSent with
    | true =>
      rw [if_neg (not_not.2 (send_eq_success.2 sends))]
      exact ⟨wired', rfl, rfl, .inl ⟨room, rfl, rfl, filed, rfl, rfl⟩⟩
    | false =>
      have failed : send iSent ≠ .success := by
        intro ok
        rw [send_eq_success, sends] at ok
        cases ok
      rw [if_pos failed]
      exact ⟨wired', rfl, rfl, .inr (.inl ⟨room, rfl, failed, filed, rfl, rfl⟩)⟩
  · rw [if_pos error]
    exact ⟨wired', rfl, rfl, .inr (.inr ⟨full, error, same, rfl, rfl⟩)⟩

/-- A frame of thread 1 is a turn of the line. -/
theorem Shows.frame {line : Backlog.Line UdpThreadMsg} (shows_ : Shows L line s) (iSent : Int) :
    Shows L (Backlog.step udpthPipeCapacity message line (transmits iSent))
      (thread1Frame L iSent s).2 := by
  have next : s.uSeqNum + 1 = UInt32.ofNat (line.count + 1) := by
    rw [shows_.seq, UInt32.ofNat_add]
    rfl
  obtain ⟨wired, seq, monitored, done⟩ := senderProcess_cases shows_.wired iSent
  rw [thread1Frame_eq]
  rw [shows_.held, shows_.tx, shows_.sent] at done
  rw [next] at done seq
  rw [shows_.seen] at monitored
  generalize senderProcess L iSent s = r at *
  unfold Backlog.step
  rcases done with ⟨room, ok, success, held, tx, sent⟩ | ⟨room, failed, error, held, tx, sent⟩ |
    ⟨full, error, held, tx, sent⟩
  · rw [if_neg (not_not.2 success), if_pos room, if_pos ok]
    obtain ⟨-, drained, empty, printed⟩ := drain_spec wired r.2.monitored (held_lt r.2.bus)
    refine ⟨drained, seq, empty, ?_, ?_, sent⟩
    · show r.2.tx = _
      rw [tx]
      simp [message, numbered]
    · refine printed.trans ?_
      rw [monitored, held]
      simp [message]
  · rw [if_pos error, if_pos room, failed]
    refine ⟨wired, seq, held, ?_, monitored, sent⟩
    rw [tx]
    simp [message, numbered]
  · rw [if_pos error, if_neg (by omega)]
    exact ⟨wired, seq, held, tx, monitored, sent⟩

/-- The turns of the loop of `Thread1Entry`, one for each result of `send`. -/
def frames1 (L : Layout) (s : Thread1) (iSents : List Int) : Thread1 :=
  iSents.foldl (fun s iSent => (thread1Frame L iSent s).2) s

theorem Shows.frames {line : Backlog.Line UdpThreadMsg} (shows_ : Shows L line s)
    (iSents : List Int) :
    Shows L (Backlog.run udpthPipeCapacity message line (iSents.map transmits))
      (frames1 L s iSents) := by
  induction iSents generalizing line s with
  | nil => exact shows_
  | cons iSent iSents ih => exact ih (shows_.frame iSent)

theorem thread1Start_shows (L : Layout) (w : MsgWorld) :
    ∃ s, thread1Start L w = some s ∧ Shows L .start s := by
  obtain ⟨broker, subscriber, wired, empty⟩ := brokerStart_spec L w
  unfold thread1Start
  dsimp only
  rw [if_neg (not_not.2 broker), if_neg (not_not.2 subscriber)]
  exact ⟨_, rfl, wired, rfl, empty, rfl, rfl, rfl⟩

/-- The sequence numbers of the first `n` messages. -/
def seqNums (n : Nat) : List UInt32 := (List.range n).map fun k => UInt32.ofNat (k + 1)

theorem map_items (n : Nat) :
    (Backlog.items message n).map UdpThreadMsg.uSeqNum = seqNums n := by
  rw [Backlog.items, List.map_map]
  rfl

/-- Where the messages are in a state that shows a line. -/
theorem Shows.placed {line : Backlog.Line UdpThreadMsg} (shows_ : Shows L line s)
    (placed : Backlog.Placed udpthPipeCapacity message line) :
    ∃ n ≤ line.count, s.tx = seqNums n ∧
      s.monitored ++ (Udp.held L s.bus).map UdpThreadMsg.uSeqNum = seqNums n ∧
      (line.held.length ≠ udpthPipeCapacity → n = line.count) ∧
      (s.sent.map UdpThreadMsg.uSeqNum).Sublist s.monitored := by
  obtain ⟨⟨n, le, filed, all⟩, sent, bound⟩ := placed
  refine ⟨n, le, ?_, ?_, fun room => all (by omega), ?_⟩
  · rw [shows_.tx, filed, map_items]
  · rw [shows_.seen, shows_.held, ← List.map_append, filed, map_items]
  · rw [shows_.sent, shows_.seen]
    exact sent.map _

end Sender

/-- **The sender's thread.** Whatever `send` returns in the turns of the thread, the sender has
printed the numbers from 1 on without a gap, the monitor has printed the same numbers but
those still in the pipe, and what has gone to the network the monitor has printed. As long as no
eight transmissions in a row have failed every turn has its number; after eight failures in a row
the thread never prints or sends anything again. -/
theorem sender_thread (L : Layout) (w : MsgWorld) (iSents : List Int) :
    ∃ s₀, thread1Start L w = some s₀ ∧
      let s := frames1 L s₀ iSents
      let jammed := List.replicate udpthPipeCapacity false <:+: iSents.map transmits
      ∃ n ≤ iSents.length, s.tx = seqNums n ∧
        s.monitored ++ (held L s.bus).map UdpThreadMsg.uSeqNum = seqNums n ∧
        (s.sent.map UdpThreadMsg.uSeqNum).Sublist s.monitored ∧
        (¬jammed → n = iSents.length) ∧
        (jammed → ∀ more, let s' := frames1 L s more
          s'.tx = s.tx ∧ s'.monitored = s.monitored ∧ s'.sent = s.sent) := by
  obtain ⟨s₀, start, shows₀⟩ := thread1Start_shows L w
  refine ⟨s₀, start, ?_⟩
  intro s jammed
  have line := shows₀.frames iSents
  have placed := (Backlog.placed_start udpthPipeCapacity message).run (iSents.map transmits)
  have full := Backlog.full_iff udpthPipeCapacity message (iSents.map transmits)
  have count := Backlog.run_count udpthPipeCapacity message .start (iSents.map transmits)
  rw [List.length_map] at count
  obtain ⟨n, le, tx, monitored, all, sent⟩ := line.placed placed
  refine ⟨n, by rw [count] at le; exact le.trans (by simp [Backlog.Line.start]), tx, monitored, sent, ?_, ?_⟩
  · intro smooth
    rw [all fun filled => smooth (full.1 filled), count]
    simp [Backlog.Line.start]
  · intro jam more
    have later := line.frames more
    rw [Backlog.run_full (full.2 jam).ge] at later
    exact ⟨later.tx.trans line.tx.symm, later.seen.trans line.seen.symm, later.sent.trans line.sent.symm⟩

end LibJuno.Udp
