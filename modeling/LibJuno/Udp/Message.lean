import LibJuno.Sb.Broker

/-!
# The messages of the UDP example

`udp_thread_msg.cpp`: the pointer API and the array API of `UDP_THREAD_MSG_T`. The copy checks
both descriptors for their type, size and alignment. They are an item memory and an array of
the containers (`msgMemory`, `msgArray`), and no copy of the example fails.
-/

namespace LibJuno.Udp

open Ds Memory

/-- `UDP_THREAD_MSG_T`; the payload has 64 bytes. -/
structure UdpThreadMsg where
  uSeqNum : UInt32
  uTimestampSec : UInt32
  uTimestampSubSec : UInt32
  arrPayload : List UInt8
  deriving DecidableEq, Inhabited

/-- A message after `memset` to 0. -/
def UdpThreadMsg.zero : UdpThreadMsg := ⟨0, 0, 0, List.replicate 64 0⟩

/-- `sizeof(UDP_THREAD_MSG_T)`. -/
def msgSize : Nat := 76

/-- `alignof(UDP_THREAD_MSG_T)`. -/
def msgAlignment : Nat := 4

/-- `&g_udpThreadMsgPointerApi`. -/
def udpThreadMsgPointerApi : Nat := 1

/-- `UDPTH_PIPE_CAPACITY`. -/
def udpthPipeCapacity : Nat := 8

/-- `UDPTH_MSG_MID`. -/
def udpthMsgMid : UInt32 := 1

/-- The messages in a thread's memory, by address. -/
abbrev MsgWorld := Nat → UdpThreadMsg

/-- `JunoMemory_PointerVerifyType`. -/
def pointerVerifyType {ω : Type} (apis : PointerApis ω) (pointer : Pointer)
    (size alignment tApi : Nat) : Status :=
  if pointerVerify apis pointer = .success ∧ pointer.ptApi = tApi ∧ pointer.zSize = size ∧
      pointer.zAlignment = alignment ∧ pointer.pvAddr % pointer.zAlignment = 0 then .success
  else .err

/-- `g_udpThreadMsgPointerApi` as `JunoMemory_PointerVerify` looks at it: both functions are there. -/
def msgFunctions : PointerApi Unit := ⟨Ref.to fun _ _ w => (.success, w), Ref.to fun _ w => (.success, w)⟩

/-- The check of a message descriptor. -/
def verifyMsg (tPointer : Pointer) : Status :=
  pointerVerifyType (fun _ => msgFunctions) tPointer msgSize msgAlignment udpThreadMsgPointerApi

/-- `UdpThreadMsg_Copy`. -/
def udpThreadMsgCopy (tDest tSrc : Pointer) (w : MsgWorld) : Status × MsgWorld :=
  if verifyMsg tDest ≠ .success then (verifyMsg tDest, w)
  else if verifyMsg tSrc ≠ .success then (verifyMsg tSrc, w)
  else (.success, Function.update w tDest.pvAddr (w tSrc.pvAddr))

/-- `UdpThreadMsg_Reset`. -/
def udpThreadMsgReset (tPointer : Pointer) (w : MsgWorld) : Status × MsgWorld :=
  if verifyMsg tPointer ≠ .success then (verifyMsg tPointer, w)
  else (.success, Function.update w tPointer.pvAddr .zero)

/-- `g_udpThreadMsgPointerApi`. -/
def msgApi : PointerApi MsgWorld := ⟨Ref.to udpThreadMsgCopy, Ref.to udpThreadMsgReset⟩

theorem udpThreadMsgCopy_item (tDest tSrc : Pointer) (w : MsgWorld) :
    (udpThreadMsgCopy tDest tSrc w).2 = if (udpThreadMsgCopy tDest tSrc w).1 = .success then
      Function.update w tDest.pvAddr (w tSrc.pvAddr) else w := by
  unfold udpThreadMsgCopy
  by_cases dest : verifyMsg tDest = .success
  · by_cases src : verifyMsg tSrc = .success
    · simp [dest, src]
    · simp [dest, src]
  · simp [dest]

/-- The memory of the messages. -/
def msgMemory : ItemMemory MsgWorld UdpThreadMsg where
  apis _ := msgApi
  ptApi := udpThreadMsgPointerApi
  item w := w
  store := Function.update
  verified := rfl
  item_store _ _ _ := rfl
  item_copy tDest tSrc w _ _ := udpThreadMsgCopy_item tDest tSrc w

/-- A place for a message: not NULL, and aligned. -/
structure Place where
  addr : Nat
  nonNull : addr ≠ 0
  aligned : addr % msgAlignment = 0

/-- `MakeMsgPointer`, and the descriptors that the applications build of their variables. -/
def makeMsgPointer (ptMsg : Place) : Cell msgMemory where
  ptApi := udpThreadMsgPointerApi
  pvAddr := ptMsg.addr
  zSize := msgSize
  zAlignment := msgAlignment
  typed := rfl
  nonNull := ptMsg.nonNull
  sized := by decide

theorem verifyMsg_makeMsgPointer (ptMsg : Place) :
    verifyMsg (makeMsgPointer ptMsg).toPointer = .success := by
  have verified : pointerVerify (fun _ => msgFunctions) (makeMsgPointer ptMsg).toPointer = .success :=
    pointerVerify_eq_success.2 ⟨(by decide : udpThreadMsgPointerApi ≠ 0), ptMsg.nonNull,
      (by decide : msgSize ≠ 0), rfl⟩
  exact if_pos ⟨verified, rfl, rfl, rfl, ptMsg.aligned⟩

/-- `&atBuffer[iIndex]`. -/
def Place.index (atBuffer : Place) (iIndex : Nat) : Place where
  addr := atBuffer.addr + msgSize * iIndex
  nonNull := by
    have := atBuffer.nonNull
    omega
  aligned := by
    have := atBuffer.aligned
    unfold msgAlignment at *
    unfold msgSize
    omega

/-- `UdpThreadMsgArray_SetAt`. -/
def udpThreadMsgArraySetAt (atBuffer : Place) (tItem : Pointer) (iIndex : Nat) (w : MsgWorld) :
    Status × MsgWorld :=
  udpThreadMsgCopy (makeMsgPointer (atBuffer.index iIndex)).toPointer tItem w

/-- `UdpThreadMsgArray_GetAt`. -/
def udpThreadMsgArrayGetAt (atBuffer : Place) (iIndex : Nat) (w : MsgWorld) :
    Result Pointer × MsgWorld :=
  (⟨.success, (makeMsgPointer (atBuffer.index iIndex)).toPointer⟩, w)

/-- `UdpThreadMsgArray_RemoveAt`. -/
def udpThreadMsgArrayRemoveAt (atBuffer : Place) (iIndex : Nat) (w : MsgWorld) : Status × MsgWorld :=
  udpThreadMsgReset (makeMsgPointer (atBuffer.index iIndex)).toPointer w

/-- A `UDPTH_MSG_ARRAY_T` after `UdpThreadMsgArray_Init`. -/
def msgArray (atBuffer : Place) : ItemArray msgMemory where
  root :=
    { ptApi := Ref.to
        { setAt := Ref.to (udpThreadMsgArraySetAt atBuffer)
          getAt := Ref.to (udpThreadMsgArrayGetAt atBuffer)
          removeAt := Ref.to (udpThreadMsgArrayRemoveAt atBuffer) }
      zCapacity := udpthPipeCapacity }
  slot i := makeMsgPointer (atBuffer.index i)
  verified := rfl
  distinct i j _ _ same := by
    have same : atBuffer.addr + msgSize * i = atBuffer.addr + msgSize * j := same
    unfold msgSize at same
    omega
  item_setAt c i w _ := udpThreadMsgCopy_item _ c.toPointer w
  getAt_slot _ _ _ := ⟨rfl, fun _ => rfl⟩
  item_removeAt i w _ := by
    refine ⟨.zero, ?_⟩
    have reset : udpThreadMsgArrayRemoveAt atBuffer i w =
        (.success, Function.update w (atBuffer.index i).addr .zero) :=
      if_neg (not_not.2 (verifyMsg_makeMsgPointer _))
    exact (congrArg Prod.snd reset).trans (if_pos (congrArg Prod.fst reset)).symm

theorem setAt_success (atBuffer ptMsg : Place) (i : Nat) (w : MsgWorld) :
    (udpThreadMsgArraySetAt atBuffer (makeMsgPointer ptMsg).toPointer i w).1 = .success := by
  unfold udpThreadMsgArraySetAt udpThreadMsgCopy
  rw [if_neg (not_not.2 (verifyMsg_makeMsgPointer _)), if_neg (not_not.2 (verifyMsg_makeMsgPointer _))]

/-- No callback of a dequeue into a variable of the client fails. -/
theorem take_smooth (atBuffer ptMsg : Place)
    (outside : ∀ i < udpthPipeCapacity, ptMsg.addr ≠ (atBuffer.index i).addr)
    (s : QueueRoot MsgWorld × MsgWorld) : QueueSmooth (msgArray atBuffer) s
      (.take ⟨makeMsgPointer ptMsg, outside⟩) := by
  intro _
  refine ⟨rfl, ?_, ?_⟩
  · have copy : ∀ w, (udpThreadMsgCopy (makeMsgPointer ptMsg).toPointer
        (makeMsgPointer (atBuffer.index s.1.iStartIndex)).toPointer w).1 = .success := by
      intro w
      unfold udpThreadMsgCopy
      rw [if_neg (not_not.2 (verifyMsg_makeMsgPointer _)),
        if_neg (not_not.2 (verifyMsg_makeMsgPointer _))]
    exact copy s.2
  · have reset : ∀ w, (udpThreadMsgReset
        (makeMsgPointer (atBuffer.index s.1.iStartIndex)).toPointer w).1 = .success := by
      intro w
      unfold udpThreadMsgReset
      rw [if_neg (not_not.2 (verifyMsg_makeMsgPointer _))]
    exact reset _

end LibJuno.Udp
