import LibJuno.Udp.Message

/-!
# The applications of the UDP example

`sender_app.cpp`, `monitor_app.cpp`, `udp_bridge_app.cpp`, `processor_app.cpp` and the
scheduler of `main.cpp`. Each thread has a broker with one pipe. Its first application
publishes, its second one drains the pipe; a minor frame runs the two in this order and ends at
the first error. What `send` and `recv` return is given from outside.
-/

namespace LibJuno.Udp

open Ds Memory Sb

/-- Where a thread has its message array and the variables `tMsg` of its two applications. -/
structure Layout where
  atBuffer : Place
  tPublished : Place
  tTaken : Place
  publishedOutside : ∀ i < udpthPipeCapacity, tPublished.addr ≠ (atBuffer.index i).addr
  takenOutside : ∀ i < udpthPipeCapacity, tTaken.addr ≠ (atBuffer.index i).addr

/-- The failure handler of the example: NULL. -/
def noHandler : Handler msgMemory where
  ref := ⟨false, fun _ _ w => w⟩
  quiet _ _ _ := rfl

/-- The pipe of a thread. -/
def pipes (L : Layout) : Pipes msgMemory Unit where
  array _ := msgArray L.atBuffer
  mid _ := udpthMsgMid
  handler _ := noHandler
  bound _ := show 8 ≤ sizeMax / 2 by decide
  apart _ _ _ _ ne := absurd rfl ne

/-- The variable that a thread publishes from. -/
def publisher (L : Layout) : (pipes L).Client where
  toCell := makeMsgPointer L.tPublished
  outside _ := L.publishedOutside

/-- The variable that a thread dequeues into. -/
def taker (L : Layout) : (msgArray L.atBuffer).Client where
  toCell := makeMsgPointer L.tTaken
  outside := L.takenOutside

/-- `Send`, by what `send` returned. -/
def send (iSent : Int) : Status := if iSent ≠ msgSize then .err else .success

/-- What a `recv` does: its result, whether `errno` is `EAGAIN` or `EWOULDBLOCK`, and the buffer. -/
structure Recv where
  iRecv : Int
  again : Bool
  tMsg : UdpThreadMsg

/-- `Receive`. -/
def receive (r : Recv) : Status :=
  if r.iRecv < 0 then if r.again then .timeoutError else .err
  else if r.iRecv ≠ msgSize then .invalidDataError
  else .success

/-- `Publish` of the message that an application has built in its variable. -/
def publishMsg (L : Layout) (bus : Bus Unit MsgWorld) (tMsg : UdpThreadMsg) :
    Status × Bus Unit MsgWorld :=
  let r := publish msgMemory.apis bus.broker udpthMsgMid (publisher L).toPointer bus.pipes
    (msgMemory.store bus.world (publisher L).pvAddr tMsg)
  (r.1, ⟨bus.broker, r.2.1, r.2.2⟩)

/-- The loop of `MonitorApp` and of `ProcessorApp`, for at most so many turns: what is dequeued
is printed, and an empty pipe ends it. -/
def drain (L : Layout) : Nat → Bus Unit MsgWorld → List UInt32 →
    Status × Bus Unit MsgWorld × List UInt32
  | 0, bus, printed => (.err, bus, printed)
  | n + 1, bus, printed =>
    let r := queuePop msgMemory.apis (bus.pipes ()).tRoot (taker L).toPointer bus.world
    let bus : Bus Unit MsgWorld := ⟨bus.broker, setRoot bus.pipes () r.2.1, r.2.2⟩
    if r.1 = .oobError then (.success, bus, printed)
    else if r.1 ≠ .success then (r.1, bus, printed)
    else drain L n bus (printed ++ [(msgMemory.item r.2.2 (taker L).pvAddr).uSeqNum])

/-- `OnStart` of `MonitorApp` and of `ProcessorApp`. -/
def subscriberStart (L : Layout) (bus : Bus Unit MsgWorld) : Status × Bus Unit MsgWorld :=
  let r := pipeInit (bus.pipes ()) udpthMsgMid (Ref.to (msgArray L.atBuffer).root) noHandler.ref
  let bus := { bus with pipes := Function.update bus.pipes () r.2 }
  if r.1 ≠ .success then (r.1, bus)
  else
    let r := registerSubscriber bus.broker (Ref.to ()) bus.pipes bus.world
    (r.1, ⟨r.2.1, bus.pipes, r.2.2⟩)

/-- Thread 1: the last sequence number, what its applications have printed, and what has gone to
the network. -/
structure Thread1 where
  bus : Bus Unit MsgWorld
  uSeqNum : UInt32
  tx : List UInt32
  sent : List UdpThreadMsg
  monitored : List UInt32

/-- Thread 2: what has come from the network, and what its applications have printed. -/
structure Thread2 where
  bus : Bus Unit MsgWorld
  received : List UdpThreadMsg
  rx : List UInt32
  processed : List UInt32

/-- The message of `SenderApp` with the sequence number. -/
def numbered (uSeqNum : UInt32) : UdpThreadMsg := { UdpThreadMsg.zero with uSeqNum := uSeqNum }

/-- `OnProcess` of `SenderApp`. -/
def senderProcess (L : Layout) (iSent : Int) (s : Thread1) : Status × Thread1 :=
  let uSeqNum := s.uSeqNum + 1
  let r := publishMsg L s.bus (numbered uSeqNum)
  let s := { s with uSeqNum := uSeqNum, bus := r.2 }
  if r.1 ≠ .success then (r.1, s)
  else
    let s := { s with tx := s.tx ++ [uSeqNum] }
    if send iSent ≠ .success then (send iSent, s)
    else (.success, { s with sent := s.sent ++ [numbered uSeqNum] })

/-- `OnProcess` of `MonitorApp`. -/
def monitorProcess (L : Layout) (s : Thread1) : Status × Thread1 :=
  let r := drain L ((s.bus.pipes ()).tRoot.zLength + 1) s.bus s.monitored
  (r.1, { s with bus := r.2.1, monitored := r.2.2 })

/-- `OnProcess` of `UdpBridgeApp`. -/
def bridgeProcess (L : Layout) (recv : Recv) (s : Thread2) : Status × Thread2 :=
  let tStatus := receive recv
  if tStatus = .timeoutError then (.success, s)
  else if tStatus ≠ .success then (tStatus, s)
  else
    let r := publishMsg L s.bus recv.tMsg
    (r.1, { s with received := s.received ++ [recv.tMsg], rx := s.rx ++ [recv.tMsg.uSeqNum], bus := r.2 })

/-- `OnProcess` of `ProcessorApp`. -/
def processorProcess (L : Layout) (s : Thread2) : Status × Thread2 :=
  let r := drain L ((s.bus.pipes ()).tRoot.zLength + 1) s.bus s.processed
  (r.1, { s with bus := r.2.1, processed := r.2.2 })

/-- The loops of `SchExecute` over `n` entries of the table from `iIdx` on. -/
def schLoop {σ : Type} (ptArrSchTable : Nat → Option (σ → Status × σ)) :
    Nat → Nat → Status → σ → Status × σ
  | 0, _, tStatus, s => (tStatus, s)
  | n + 1, iIdx, tStatus, s =>
    match ptArrSchTable iIdx with
    | none => schLoop ptArrSchTable n (iIdx + 1) tStatus s
    | some onProcess =>
      let r := onProcess s
      if r.1 ≠ .success then r else schLoop ptArrSchTable n (iIdx + 1) r.1 r.2

/-- `SchExecute`. -/
def schExecute {σ : Type} (zNumMinorFrames zAppsPerMinorFrame : Nat)
    (ptArrSchTable : Nat → Option (σ → Status × σ)) (s : σ) : Status × σ :=
  schLoop ptArrSchTable (zNumMinorFrames * zAppsPerMinorFrame) 0 .success s

/-- One turn of the loop of `Thread1Entry`. -/
def thread1Frame (L : Layout) (iSent : Int) : Thread1 → Status × Thread1 :=
  schExecute 1 2 fun iIdx => [senderProcess L iSent, monitorProcess L][iIdx]?

/-- One turn of the loop of `Thread2Entry`. -/
def thread2Frame (L : Layout) (recv : Recv) : Thread2 → Status × Thread2 :=
  schExecute 1 2 fun iIdx => [bridgeProcess L recv, processorProcess L][iIdx]?

/-- A pipe of static storage: every pointer is NULL. -/
def staticPipe : Pipe MsgWorld where
  tRoot :=
    { ptApi := ⟨false, ⟨false, false, false⟩⟩
      failureHandler := noHandler.ref
      ptQueueArray := ⟨false, { (msgArray ⟨4, by decide, rfl⟩).root with zCapacity := 0 }⟩
      iStartIndex := 0
      zLength := 0 }
  iMsgId := 0

/-- The broker that `main` initialises over a registry of two entries. -/
def brokerStart (w : MsgWorld) : Status × Bus Unit MsgWorld :=
  let r := brokerInit (Ref.to fun _ => ()) 2 noHandler.ref
  (r.1, ⟨r.2, fun _ => staticPipe, w⟩)

/-- Thread 1 up to its loop; a failed start ends the program or the thread. -/
def thread1Start (L : Layout) (w : MsgWorld) : Option Thread1 :=
  let r := brokerStart w
  if r.1 ≠ .success then none
  else
    let r := subscriberStart L r.2
    if r.1 ≠ .success then none else some ⟨r.2, 0, [], [], []⟩

/-- Thread 2 up to its loop. -/
def thread2Start (L : Layout) (w : MsgWorld) : Option Thread2 :=
  let r := brokerStart w
  if r.1 ≠ .success then none
  else
    let r := subscriberStart L r.2
    if r.1 ≠ .success then none else some ⟨r.2, [], [], []⟩

end LibJuno.Udp
