import Chromium.Net.Spdy.SpdyStream

/-!
# The frames of a session on their way to the socket

`net/spdy/spdy_session.cc`, from `QueueFrame` to `OnWriteComplete`: frames of all streams wait in one queue,
the one that is being written is in flight, and when it is written as a whole the stream that was queued with
it is told.  Flow control is on.

The streams are those of `SpdyStream.lean`, and their frames go to the queue of the session.  A stream is known
by its place in the list, as the source has a pointer to it; that an id may be given again while its stream is
active is left out, and so are streams that the server pushes.
-/

namespace Chromium.Net.Spdy

open Lib

inductive FrameType
  | data
  | control (type : SpdyControlType)
  deriving DecidableEq

open SpdyControlType

/-- `IsCompressible`, for the frames that a client sends. -/
def FrameType.isCompressible : FrameType → Bool
  | control SYN_STREAM => true
  | control SYN_REPLY => true
  | control HEADERS => true
  | _ => false

/-- `SpdyIOBuffer`, with the length of its frame behind the header. -/
structure SpdyIOBuffer where
  type : FrameType
  length : ℕ
  priority : ℕ
  position : ℕ
  stream : Option ℕ
  deriving DecidableEq

/-- `in_flight_write_` with its `DrainableIOBuffer`. -/
structure InFlightWrite where
  buffer : SpdyIOBuffer
  size : ℕ
  used : ℕ
  deriving DecidableEq

def InFlightWrite.bytesRemaining (w : InFlightWrite) : ℕ := w.size - w.used

/-- `SpdySession::State`. -/
inductive SessionState
  | IDLE
  | CONNECTED
  | CLOSED
  deriving DecidableEq

/-- A stream, with its priority, the length of its `SYN_STREAM`, its window for what it receives, and the
bytes that its owner has not read yet. -/
structure WriterStream where
  stream : SpdyStream
  cancelled : Bool
  priority : ℕ
  synLength : ℕ
  recvWindowSize : ℤ
  unread : ℕ

/-- What happened to a frame or a stream. -/
inductive WriteEntry
  /-- a frame was written as a whole, with these bytes behind its header; whether its stream was cancelled or
  closed then -/
  | written (frame : SpdyIOBuffer) (payload : ℕ) (cancelled closed : Bool)
  /-- `OnWriteComplete` of a stream was called on account of a frame -/
  | completed (frame : SpdyIOBuffer) (stream bytes : ℕ)
  /-- `OnSendBodyComplete` or `OnDataSent` of the delegate of a stream was called -/
  | sent (stream bytes : ℕ)
  deriving DecidableEq

/-- `SpdySession`, as far as it writes, and what happened so far. -/
structure WriterSession where
  state : SessionState
  streams : List WriterStream
  queue : List SpdyIOBuffer
  inFlightWrite : Option InFlightWrite
  writePending : Bool
  order : ℕ
  log : List WriteEntry

namespace WriterSession

def new : WriterSession where
  state := .IDLE
  streams := []
  queue := []
  inFlightWrite := none
  writePending := false
  order := 0
  log := []

variable (s : WriterSession)

def record (e : WriteEntry) : WriterSession := { s with log := s.log ++ [e] }

/-- `QueueFrame`: `SpdyIOBuffer::operator<` lets the lower priority be first, and of one priority the lower
position. -/
def queueFrame (type : FrameType) (length priority : ℕ) (stream : Option ℕ) : WriterSession :=
  { s with
    queue := s.queue.orderedInsert (fun a b => a.priority < b.priority)
      { type, length, priority, position := s.order + 1, stream }
    order := s.order + 1 }

def setStream (i : ℕ) (w : WriterStream) : WriterSession := { s with streams := s.streams.set i w }

def queueOutFrame (i : ℕ) (w : WriterStream) : OutFrame → WriterSession
  | .syn _ => s.queueFrame (.control SYN_STREAM) w.synLength w.priority (some i)
  | .data payload _ => s.queueFrame .data payload.length w.priority (some i)

def takeOutFrames (i : ℕ) (w : WriterStream) (stream : SpdyStream) : WriterSession :=
  stream.outFrames.foldl (fun s frame => s.queueOutFrame i w frame)
    (s.setStream i { w with stream := { stream with outFrames := [] } })

/-- `ResetStream` of an active stream: the frame goes without a stream. -/
def resetStream (i : ℕ) (w : WriterStream) : WriterSession :=
  (s.queueFrame (.control RST_STREAM) 8 w.priority none).setStream i { w with stream := w.stream.close }

def closeSessionOnError : WriterSession :=
  if s.state = .CLOSED then s
  else
    { s with
      state := .CLOSED
      streams := s.streams.map fun w =>
        if w.stream.isActive then { w with stream := w.stream.close } else w
      queue := [] }

/-! ### The streams -/

/-- What a turn of `DoLoop` hands to the delegate: the bytes of `OnSendBodyComplete` or `OnDataSent`. -/
def bytesSent (stream : SpdyStream) (result : ℤ) : Option ℕ :=
  match stream.ioState with
  | .STATE_SEND_BODY_COMPLETE =>
    if 0 ≤ result ∧ stream.delegate.isSome then some result.toNat else none
  | .STATE_OPEN => if stream.delegate.isSome then some result.toNat else none
  | _ => none

/-- A stream goes on by itself; its frames go to the queue, also the `RST_STREAM` for a window update that it
does not take. -/
def streamEvent (i : ℕ) (w : WriterStream) : SpdyStream.Event → Option WriterSession
  | .frameWritten _ => none
  | .turn =>
    w.stream.loop.map fun result =>
      let s := match bytesSent w.stream result with
        | some bytes => s.record (.sent i bytes)
        | none => s
      s.takeOutFrames i w (w.stream.turn result)
  | .onWindowUpdate delta =>
    (w.stream.step (.onWindowUpdate delta)).map fun stream =>
      if w.stream.isActive ∧ stream.isActive = false then s.resetStream i w
      else s.takeOutFrames i w stream
  | e => (w.stream.step e).map fun stream => s.takeOutFrames i w stream

def cancel (i : ℕ) (w : WriterStream) : WriterSession :=
  if w.cancelled then s
  else if w.stream.isActive then s.resetStream i { w with cancelled := true }
  else s.setStream i { w with cancelled := true }

/-- `OnStreamFrameData` of the session and `OnDataReceived` of the stream: without a response the stream is
closed, and so it is by an empty frame; what is over the window resets it. -/
def onDataReceived (i : ℕ) (w : WriterStream) (length : ℕ) : WriterSession :=
  if ¬ w.stream.isActive then s
  else if w.stream.ioState ≠ .STATE_OPEN ∨ length = 0 then s.setStream i { w with stream := w.stream.close }
  else
    let w := { w with recvWindowSize := w.recvWindowSize - length }
    if w.recvWindowSize < 0 then s.resetStream i w
    else s.setStream i { w with unread := w.unread + length }

/-- The owner reads, with `IncreaseRecvWindowSize` and `SendWindowUpdate`. -/
def readData (i : ℕ) (w : WriterStream) (length : ℕ) : WriterSession :=
  let w := { w with unread := w.unread - length }
  if w.stream.isActive then
    (s.queueFrame (.control WINDOW_UPDATE) 8 w.priority (some i)).setStream i
      { w with recvWindowSize := w.recvWindowSize + length }
  else s.setStream i w

/-! ### Writing -/

/-- A turn of the loop of `WriteSocket`, up to `Write` of the socket; `compressed` is the length of the frame
once it is compressed, if it is. -/
def writeSocket (compressed : Option ℕ) : Option WriterSession :=
  match s.inFlightWrite, s.queue with
  | some _, _ => some { s with writePending := true }
  | none, [] => none
  | none, frame :: queue =>
    let s := { s with queue }
    if frame.type.isCompressible then
      match compressed with
      | none => some s.closeSessionOnError
      | some length =>
        some { s with
          inFlightWrite := some ⟨frame, length + SpdyFrame.size, 0⟩
          writePending := true }
    else
      some { s with
        inFlightWrite := some ⟨frame, frame.length + SpdyFrame.size, 0⟩
        writePending := true }

def notifyStream (w : InFlightWrite) (result : ℕ) : WriterSession :=
  match w.buffer.stream with
  | none => s.record (.written w.buffer (w.size - SpdyFrame.size) false false)
  | some i =>
    match s.streams[i]? with
    | none => s
    | some ws =>
      let s := s.record
        (.written w.buffer (w.size - SpdyFrame.size) ws.cancelled (ws.stream.ioState = .STATE_DONE))
      let result := if 0 < result then w.size - SpdyFrame.size else result
      if ws.cancelled then s
      else
        (s.record (.completed w.buffer i result)).setStream i
          { ws with stream := ws.stream.onWriteComplete result }

/-- `OnWriteComplete`, with what the socket has written. -/
def onWriteComplete (w : InFlightWrite) (result : ℤ) : WriterSession :=
  let s := { s with writePending := false }
  if 0 ≤ result then
    let w := { w with used := w.used + result.toNat }
    if w.bytesRemaining = 0 then { s.notifyStream w result.toNat with inFlightWrite := none }
    else { s with inFlightWrite := some w }
  else { s with inFlightWrite := none }.closeSessionOnError

/-! ### Steps -/

inductive Event
  | initializeWithSocket
  | sendSettings (entries : ℕ)
  | writePingFrame
  | createStream (priority synLength : ℕ) (initialSendWindowSize initialRecvWindowSize : Fin (2 ^ 31))
      (delegate : Delegate)
  | streamEvent (stream : ℕ) (event : SpdyStream.Event)
  | cancel (stream : ℕ)
  | resetStream (stream : ℕ)
  | onDataReceived (stream length : ℕ)
  | readData (stream length : ℕ)
  | writeSocket (compressed : Option ℕ)
  | onWriteComplete (result : ℤ)
  | closeSession

/-- No stream is in its `DoLoop`. -/
def IsQuiet : Prop := ∀ w ∈ s.streams, w.stream.loop = none

instance : Decidable s.IsQuiet := inferInstanceAs (Decidable (∀ _ ∈ _, _))

/-- A step while no stream is in its `DoLoop`.  The owner reads no more than was received, and a socket writes
no more than it was given. -/
def quietStep : Event → Option WriterSession
  | .initializeWithSocket => if s.state = .IDLE then some { s with state := .CONNECTED } else none
  | .sendSettings entries => some (s.queueFrame (.control SETTINGS) (4 + 8 * entries) 0 none)
  | .writePingFrame => some (s.queueFrame (.control PING) 4 0 none)
  | .createStream priority synLength initialSendWindowSize initialRecvWindowSize delegate =>
    some { s with
      streams := s.streams ++
        [{ stream := .new initialSendWindowSize delegate
           cancelled := false
           priority
           synLength
           recvWindowSize := initialRecvWindowSize.val
           unread := 0 }] }
  | .streamEvent i e => s.streams[i]?.bind fun w => s.streamEvent i w e
  | .cancel i => s.streams[i]?.map fun w => s.cancel i w
  | .resetStream i =>
    s.streams[i]?.bind fun w => if w.stream.isActive then some (s.resetStream i w) else none
  | .onDataReceived i length => s.streams[i]?.map fun w => s.onDataReceived i w length
  | .readData i length =>
    s.streams[i]?.bind fun w =>
      if 0 < length ∧ length ≤ w.unread then some (s.readData i w length) else none
  | .writeSocket compressed =>
    if s.state = .CONNECTED ∧ s.writePending = false then s.writeSocket compressed else none
  | .onWriteComplete result =>
    s.inFlightWrite.bind fun w =>
      if s.writePending ∧ result ≤ w.bytesRemaining then some (s.onWriteComplete w result) else none
  | .closeSession => some s.closeSessionOnError

/-- A step of the session: while a stream is in its `DoLoop` only this goes on. -/
def step : Event → Option WriterSession
  | .streamEvent i .turn => s.streams[i]?.bind fun w => s.streamEvent i w .turn
  | e => if s.IsQuiet then s.quietStep e else none

end WriterSession

def writeSystem : TransSys WriterSession WriterSession.Event where
  init s := s = .new
  step s e s' := s.step e = some s'

end Chromium.Net.Spdy
