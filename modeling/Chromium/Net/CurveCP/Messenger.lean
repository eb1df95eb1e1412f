import Chromium.Lib.LittleEndian
import Chromium.Lib.MachineInt
import Chromium.Lib.TransSys
import Chromium.Net.CurveCP.CircularBuffer
import Chromium.Net.CurveCP.ReceivedBlockList
import Chromium.Net.CurveCP.SentBlockList

/-!
# The messenger

`net/curvecp/messenger.cc`.  The packetizer, the clock and the application are an `Environment`: what they do may depend
on all that was handed to them.  A packetizer that returns `ERR_IO_PENDING` gives no answer, and calls back later.

The state has logs of what crosses its borders: the messages that were handed to the packetizer, the bytes that
`Write` accepted, the blocks that were created and the bytes that the application was given.  The round trip times are
left out, as they only say when timers fire.
-/

namespace Chromium.Net.CurveCP

open Lib

/-- `sizeof(Message)`. -/
def sizeofMessage : ℕ := 64

def kMaxMessageLength : ℕ := 1088

def kSendBufferSize : ℕ := 128 * 1024

inductive Handed
  /-- a message with a block -/
  | message (messageId : ℕ) (position : ℤ) (data : List UInt8)
  /-- a message that acknowledges -/
  | ack (lastMessageReceived bytesReceived : ℕ)
  deriving DecidableEq

structure Environment where
  /-- what `Packetizer::SendMessage` returns, or `none` for `ERR_IO_PENDING` -/
  sendMessage : List Handed → Option ℤ
  /-- `Packetizer::max_message_payload` -/
  maxMessagePayload : List Handed → ℕ
  maxMessagePayload_pos : ∀ sent, 0 < maxMessagePayload sent
  /-- `TimeTicks::Now` -/
  now : List Handed → ℕ
  /-- what the application writes when its pending write is completed -/
  written : List UInt8 → List (List UInt8)

structure Messenger where
  sendBuffer : CircularBuffer
  /-- `pending_send_`, with its callback -/
  pendingSend : Option (List UInt8)
  /-- `pending_receive_length_`, with its callback -/
  pendingReceive : Option ℕ
  readQueue : List (List UInt8)
  receivedList : ReceivedBlockList
  sentList : SentBlockList
  sendMessageInProgress : Bool
  /-- `send_timeout_timer_` runs -/
  sendTimeoutTimer : Bool
  /-- `send_timer_` runs -/
  sendTimer : Bool
  /-- how many calls of the packetizer are pending -/
  outstanding : ℕ
  sent : List Handed
  accepted : List UInt8
  created : List (List UInt8)
  delivered : List UInt8

namespace Messenger

/-- `Messenger(Packetizer* packetizer)`. -/
def new (unset : ℤ → UInt8) : Messenger where
  sendBuffer := .new kSendBufferSize unset
  pendingSend := none
  pendingReceive := none
  readQueue := []
  receivedList := .new
  sentList := .new
  sendMessageInProgress := false
  sendTimeoutTimer := false
  sendTimer := false
  outstanding := 0
  sent := []
  accepted := []
  created := []
  delivered := []

variable (env : Environment) (s : Messenger)

/-! ## Receiving -/

/-- A number of a message, with the lowest byte first: `uint16_unpack` and its like. -/
def unpack (message : List UInt8) (offset size : ℕ) : Except MessengerError ℕ :=
  if offset + size ≤ message.length then .ok (leNat ((message.drop offset).take size)) else .error .outside

/-- `memcpy` out of a message. -/
def copy (message : List UInt8) (offset size : ℕ) : Except MessengerError (List UInt8) :=
  if offset + size ≤ message.length then .ok ((message.drop offset).take size) else .error .outside

/-- Where `gap_1` and `acknowledge_2` are, and so on. -/
def ackFields : List (ℕ × ℕ) := [(16, 20), (22, 24), (26, 28), (30, 32), (34, 36)]

def acknowledgeLoop (message : List UInt8) : List (ℕ × ℕ) → ℕ → SentBlockList → Except MessengerError SentBlockList
  | [], _, l => .ok l
  | (gap, acknowledge) :: fields, stopByte, l => do
    let gap ← unpack message gap 2
    let startByte := (stopByte + gap) % 18446744073709551616
    let acknowledge ← unpack message acknowledge 2
    let stopByte := (startByte + acknowledge) % 18446744073709551616
    let l ← l.acknowledgeBlocks (toInt64 startByte) (toInt64 stopByte)
    acknowledgeLoop message fields stopByte l

def acknowledge (message : List UInt8) (l : SentBlockList) : Except MessengerError SentBlockList := do
  let stopByte ← unpack message 8 8
  let l ← l.acknowledgeBlocks 0 (toInt64 stopByte)
  acknowledgeLoop message ackFields stopByte l

/-- `SendAck`: what the packetizer returns is not looked at, but it may call back. -/
def sendAck (lastMessageReceived : ℕ) : Messenger :=
  let sent := s.sent ++ [.ack lastMessageReceived (toInt32 s.receivedList.bytesReceived % 18446744073709551616).toNat]
  { s with sent, outstanding := s.outstanding + if (env.sendMessage sent).isNone then 1 else 0 }

def internalRead (bufferLength : ℕ) : Messenger :=
  let (bytes, receivedList) := s.receivedList.readBytes bufferLength
  { s with receivedList, delivered := s.delivered ++ bytes }

/-- A read that is pending is completed when there is data; what the application does then is a step of its own. -/
def completeRead : Messenger :=
  match s.pendingReceive with
  | none => s
  | some length => if s.receivedList.bytesAvailable = 0 then s else { s.internalRead length with pendingReceive := none }

def receiveBody (message : List UInt8) (bodyLength messageId : ℕ) : Except MessengerError Messenger :=
  if messageId = 0 then .ok s
  else do
    let position ← unpack message 40 8
    let buffer ← copy message sizeofMessage bodyLength
    return sendAck env { s with receivedList := s.receivedList.addBlock (toInt64 position) buffer } messageId

def handleMessage (message : List UInt8) (bodyLength : ℕ) : Except MessengerError Messenger := do
  let messageId ← unpack message 0 4
  let _ ← unpack message 4 4
  let sentList ← acknowledge message s.sentList
  let s ← receiveBody env { s with sentList } message bodyLength messageId
  return s.completeRead

def recvMessage : Except MessengerError Messenger :=
  match s.readQueue with
  | [] => .ok s
  | message :: readQueue => do
    let s := { s with readQueue }
    let bodyLength ← unpack message 38 2
    if kMaxMessageLength < bodyLength then return s
    else if message.length < bodyLength then return s
    else handleMessage env s message bodyLength

/-! ## Sending -/

/-- `Write`: how many bytes are accepted; with none the write is pending. -/
def write (data : List UInt8) : Messenger :=
  let (len, sendBuffer) := s.sendBuffer.write data
  let s := { s with sendBuffer, sendTimer := true, accepted := s.accepted ++ data.take len }
  if len ≠ 0 then s else { s with pendingSend := some data }

/-- What the application writes behind a write that was pending, up to one that is pending again. -/
def writeAll : List (List UInt8) → Messenger → Messenger
  | [], s => s
  | data :: rest, s => if s.pendingSend.isSome then s else writeAll rest (s.write data)

def completeWrite : Messenger :=
  match s.pendingSend with
  | none => s
  | some data =>
    let (len, sendBuffer) := s.sendBuffer.write data
    let s := { s with sendBuffer, accepted := s.accepted ++ data.take len }
    if len ≠ 0 then writeAll (env.written s.accepted) { s with pendingSend := none } else s

def createBufferFromSendQueue : Except MessengerError (List UInt8 × Messenger) :=
  let length := min (env.maxMessagePayload s.sent) s.sendBuffer.length
  match s.sendBuffer.read length with
  | none => .error .endless
  | some (bytes, sendBuffer) => .ok (bytes, completeWrite env { s with sendBuffer })

/-- `SendMessage`, with `OnSendMessageComplete`. -/
def sendMessage (onSendMessageComplete : Messenger → Except MessengerError Messenger) (position : ℤ) :
    Except MessengerError Messenger :=
  if s.sendMessageInProgress then .ok s
  else
    match s.sentList.findBlockByPosition position with
    | none => .error .null
    | some data =>
      let (id, sentList) := s.sentList.getNewMessageId
      let sentList := sentList.markBlockSent position id (env.now s.sent)
      let sent := s.sent ++ [.message (id % 4294967296).toNat position data]
      let s := { s with sentList, sent }
      match env.sendMessage sent with
      | none => .ok { s with sendMessageInProgress := true, outstanding := s.outstanding + 1 }
      | some _ => onSendMessageComplete s

/-- A block from the send buffer is created and sent, with `OnSendMessageComplete`. -/
def sendNewBlock (onSendMessageComplete : Messenger → Except MessengerError Messenger) :
    Except MessengerError Messenger :=
  if s.sentList.isFull then .ok s
  else do
    let (buffer, s) ← createBufferFromSendQueue env s
    let (position, sentList) := s.sentList.createBlock buffer
    sendMessage env { s with sentList, created := s.created ++ [buffer] } onSendMessageComplete position

/-- `OnSendTimer`, with `OnSendMessageComplete`. -/
def onSendTimer (onSendMessageComplete : Messenger → Except MessengerError Messenger) :
    Except MessengerError Messenger :=
  if s.sendBuffer.length = 0 then .ok s
  else do
    let s ← sendNewBlock env { s with sendTimer := true } onSendMessageComplete
    recvMessage env s

/-- `OnSendMessageComplete`, up to a depth of calls. -/
def onSendMessageComplete : ℕ → Messenger → Except MessengerError Messenger
  | 0, _ => .error .endless
  | calls + 1, s => do
    let s := { s with sendMessageInProgress := false }
    let s ← (if s.sendTimer then .ok s else onSendTimer env s (onSendMessageComplete calls))
    return { s with sendTimeoutTimer := true }

/-- How deep the calls of `OnSendMessageComplete` are at most. -/
def callDepth : ℕ := 2

def onTimeout : Except MessengerError Messenger := do
  let position := s.sentList.findPositionOfOldestSentBlock
  let s ← (if 0 ≤ position then sendMessage env s (onSendMessageComplete env callDepth) position else .ok s)
  recvMessage env s

def onMessage (message : List UInt8) : Except MessengerError Messenger :=
  if message.length < sizeofMessage then .ok s
  else if kMaxMessageLength < message.length then .ok s
  else recvMessage env { s with readQueue := s.readQueue ++ [message] }

def read (bufferLength : ℕ) : Messenger :=
  if s.receivedList.bytesAvailable = 0 then { s with pendingReceive := some bufferLength }
  else s.internalRead bufferLength

/-! ## Runs -/

inductive Event
  | read (bufferLength : ℕ)
  | write (data : List UInt8)
  | onMessage (message : List UInt8)
  /-- `send_timer_` fires -/
  | sendTimer
  /-- `send_timeout_timer_` fires -/
  | timeout
  /-- the packetizer calls back -/
  | complete
  deriving DecidableEq

/-- What may happen: a call is not made while one of its kind is pending, and a timer fires when it runs. -/
def May (s : Messenger) : Event → Prop
  | .read _ => s.pendingReceive = none
  | .write _ => s.pendingSend = none
  | .onMessage _ => True
  | .sendTimer => s.sendTimer = true
  | .timeout => s.sendTimeoutTimer = true
  | .complete => 0 < s.outstanding

def step (s : Messenger) : Event → Except MessengerError Messenger
  | .read bufferLength => .ok (s.read bufferLength)
  | .write data => .ok (s.write data)
  | .onMessage message => s.onMessage env message
  | .sendTimer => onSendTimer env { s with sendTimer := false } (onSendMessageComplete env callDepth)
  | .timeout => onTimeout env { s with sendTimeoutTimer := false }
  | .complete => onSendMessageComplete env callDepth { s with outstanding := s.outstanding - 1 }

instance (event : Event) : Decidable (s.May event) := by
  cases event <;> unfold May <;> infer_instance

def next (s : Messenger) (event : Event) : Option Messenger :=
  if s.May event then (s.step env event).toOption else none

def system : TransSys Messenger Event where
  init s := ∃ unset, s = new unset
  step s event s' := s.May event ∧ s.step env event = .ok s'

variable {env}

theorem step_of_next {event : Event} {s s' : Messenger} (h : next env s event = some s') :
    (system env).step s event s' := by
  unfold next at h
  split at h
  next hmay =>
    refine ⟨hmay, ?_⟩
    cases heq : s.step env event with
    | error e =>
      rw [heq] at h
      cases h
    | ok s'' =>
      rw [heq] at h
      rw [Option.some.inj h]
  next => cases h

theorem run_of_foldlM {events : List Event} {unset : ℤ → UInt8} {s : Messenger}
    (h : events.foldlM (next env) (new unset) = some s) : (system env).Run events s := by
  have hinit : (system env).Run [] (new unset) := .init ⟨unset, rfl⟩
  exact hinit.foldlM (fun _ _ _ => step_of_next) h

end Messenger

end Chromium.Net.CurveCP
