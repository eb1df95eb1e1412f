import Chromium.Lib.MachineInt
import Chromium.Lib.TransSys
import Chromium.Net.Base.UploadDataStream
import Chromium.Net.Spdy.SpdyProtocol

/-!
# A stream that sends

`net/spdy/spdy_stream.cc` and `spdy_http_stream.cc`, with `WriteStreamData` and `OnWindowUpdate` of
the session: a stream sends its headers and its body, as far as the server's window allows, and takes
the server's window updates.  Flow control is on.

`DoLoop` goes in small steps: `loop` is the result with which its next turn is made, and while it
runs nothing else happens.  Left out are the data that is received, and frames for the stream that
carry none of its data.
-/

namespace Chromium.Net.Spdy

open Lib

inductive State
  | STATE_NONE
  | STATE_SEND_HEADERS
  | STATE_SEND_HEADERS_COMPLETE
  | STATE_SEND_BODY
  | STATE_SEND_BODY_COMPLETE
  | STATE_WAITING_FOR_RESPONSE
  | STATE_OPEN
  | STATE_DONE
  deriving DecidableEq

open State

def OK : ℤ := 0

def ERR_IO_PENDING : ℤ := -1

def ERR_UNEXPECTED : ℤ := -9

def ERR_INVALID_SPDY_STREAM : ℤ := -335

def kMss : ℕ := 1430

def kMaxSpdyFrameChunkSize : ℕ := 2 * kMss - SpdyFrame.size

/-- Who sends: a `SpdyHttpStream` with its `request_body_stream_`, or one that writes when the stream
is open, as `SpdyProxyClientSocket` does. -/
inductive Delegate
  | http (requestBodyStream : Option UploadDataStream)
  | socket
  deriving DecidableEq

/-- A frame of the stream that is not written yet. -/
inductive OutFrame
  | syn (fin : Bool)
  | data (payload : List UInt8) (fin : Bool)
  deriving DecidableEq

inductive FlowEntry
  /-- a window update was received while the stream sends -/
  | received (delta : ℤ)
  /-- the payload of a frame was queued, with the window that is left -/
  | queued (payload : List UInt8) (sendWindowSize : ℤ)
  /-- the stream waits for the window -/
  | stalled
  /-- the stream goes on, with this window -/
  | resumed (sendWindowSize : ℤ)
  deriving DecidableEq

/-- `SpdyStream`, with whether the session has it, its frames that are not written yet, and what
happened to the window. -/
structure SpdyStream where
  ioState : State
  sendWindowSize : ℤ
  stalledByFlowControl : Bool
  hasUploadData : Bool
  delegate : Option Delegate
  isActive : Bool
  outFrames : List OutFrame
  loop : Option ℤ
  log : List FlowEntry

namespace SpdyStream

/-- A stream as `CreateStreamImpl` makes it, with `initial_send_window_size_`, and its delegate. -/
def new (initialSendWindowSize : Fin (2 ^ 31)) (delegate : Delegate) : SpdyStream where
  ioState := STATE_NONE
  sendWindowSize := initialSendWindowSize.val
  stalledByFlowControl := false
  hasUploadData := false
  delegate := some delegate
  isActive := true
  outFrames := []
  loop := none
  log := []

variable (s : SpdyStream)

def record (e : FlowEntry) : SpdyStream := { s with log := s.log ++ [e] }

/-- `DeleteStream` and `OnClose`. -/
def close : SpdyStream := { s with ioState := STATE_DONE, delegate := none, isActive := false }

/-! ### Writing -/

def decreaseSendWindowSize (deltaWindowSize : ℕ) : SpdyStream :=
  { s with sendWindowSize := s.sendWindowSize - deltaWindowSize }

def writeStreamData (data : List UInt8) (fin : Bool) : SpdyStream :=
  let len := min data.length kMaxSpdyFrameChunkSize
  if s.sendWindowSize ≤ 0 then
    { s with stalledByFlowControl := true }.record .stalled
  else
    let newLen := min len s.sendWindowSize.toNat
    let payload := data.take newLen
    let s' := s.decreaseSendWindowSize newLen
    { s' with
      outFrames := s.outFrames ++ [OutFrame.data payload (fin && newLen = data.length)]
      log := s.log ++ [.queued payload s'.sendWindowSize] }

def doSendHeaders : SpdyStream × ℤ :=
  if s.isActive then
    ({ s with
      outFrames := s.outFrames ++ [.syn !s.hasUploadData]
      ioState := STATE_SEND_HEADERS_COMPLETE }, ERR_IO_PENDING)
  else (s, ERR_INVALID_SPDY_STREAM)

/-- `DoSendHeadersComplete`, with `OnSendHeadersComplete` of the delegate. -/
def doSendHeadersComplete (result : ℤ) : SpdyStream × ℤ :=
  if result < 0 then (s, result)
  else
    match s.delegate with
    | none => (s, ERR_UNEXPECTED)
    | some (.http (some _)) => ({ s with ioState := STATE_SEND_BODY }, OK)
    | some _ => ({ s with ioState := STATE_WAITING_FOR_RESPONSE }, OK)

/-- `OnSendBody` of a `SpdyHttpStream`. -/
def onSendBody (body : UploadDataStream) : SpdyStream × ℤ :=
  if body.buf = [] then (s, OK)
  else (s.writeStreamData body.buf (!body.isChunked || body.isOnLastChunk), ERR_IO_PENDING)

def doSendBody : SpdyStream × ℤ :=
  let s' := { s with ioState := STATE_SEND_BODY_COMPLETE }
  match s.delegate with
  | some (.http (some body)) => s'.onSendBody body
  | _ => (s', ERR_UNEXPECTED)

/-- `DoSendBodyComplete`, with `OnSendBodyComplete` of a `SpdyHttpStream`. -/
def doSendBodyComplete (result : ℤ) : SpdyStream × ℤ :=
  if result < 0 then (s, result)
  else
    match s.delegate with
    | some (.http (some body)) =>
      let body' := body.markConsumedAndFillBuffer result.toNat
      ({ s with
        delegate := some (.http (some body'))
        ioState := if body'.eof then STATE_WAITING_FOR_RESPONSE else STATE_SEND_BODY },
        if ¬ body'.eof ∧ body'.isChunked ∧ body'.buf = [] then ERR_IO_PENDING else OK)
    | _ => (s, ERR_UNEXPECTED)

/-- The state of `DoLoop` behind its switch, and the result. -/
def doState (result : ℤ) : SpdyStream × ℤ :=
  let s' := { s with ioState := STATE_NONE }
  match s.ioState with
  | STATE_SEND_HEADERS => s'.doSendHeaders
  | STATE_SEND_HEADERS_COMPLETE => s'.doSendHeadersComplete result
  | STATE_SEND_BODY => s'.doSendBody
  | STATE_SEND_BODY_COMPLETE => s'.doSendBodyComplete result
  | STATE_WAITING_FOR_RESPONSE =>
    ({ s with ioState := STATE_WAITING_FOR_RESPONSE }, ERR_IO_PENDING)
  | STATE_OPEN => ({ s with ioState := STATE_OPEN }, result)
  | STATE_DONE => (s', result)
  | STATE_NONE => (s', result)

/-- A turn of `DoLoop`. -/
def turn (result : ℤ) : SpdyStream :=
  let (s', result') := s.doState result
  { s' with
    loop :=
      if result' ≠ ERR_IO_PENDING ∧ s'.ioState ≠ STATE_NONE ∧ s'.ioState ≠ STATE_OPEN then
        some result'
      else none }

/-! ### Events -/

def doLoop (result : ℤ) : SpdyStream := { s with loop := some result }

/-- `SendRequest` of a stream that is not pushed. -/
def sendRequest (hasUploadData : Bool) : SpdyStream :=
  { s with hasUploadData := hasUploadData, ioState := STATE_SEND_HEADERS }.doLoop OK

def onWriteComplete (bytes : ℕ) : SpdyStream :=
  if s.ioState = STATE_DONE then s else s.doLoop bytes

/-- `OnWriteComplete` of the session for the first frame of the stream; `synSize` is the size of a
`SYN_STREAM` once it is compressed, without the frame header. -/
def frameWritten (synSize : ℕ) : SpdyStream :=
  match s.outFrames with
  | [] => s
  | .syn _ :: outFrames => { s with outFrames := outFrames }.onWriteComplete synSize
  | .data payload _ :: outFrames => { s with outFrames := outFrames }.onWriteComplete payload.length

def onChunkAvailable : SpdyStream :=
  if s.ioState = STATE_SEND_BODY then s.onWriteComplete 0 else s

def appendChunk (data : List UInt8) (isLastChunk : Bool) : SpdyStream :=
  match s.delegate with
  | some (.http (some body)) =>
    { s with delegate := some (.http (some (body.appendChunk data isLastChunk))) }.onChunkAvailable
  | _ => s

/-- The stream is between its `SYN_STREAM` and its last byte. -/
def IsSending : Prop :=
  match s.ioState with
  | STATE_SEND_HEADERS_COMPLETE => True
  | STATE_SEND_BODY => True
  | STATE_SEND_BODY_COMPLETE => True
  | STATE_WAITING_FOR_RESPONSE => s.delegate = some .socket
  | STATE_OPEN => s.delegate = some .socket
  | _ => False

instance : Decidable s.IsSending := by
  unfold IsSending
  split <;> infer_instance

def increaseSendWindowSize (deltaWindowSize : ℤ) : SpdyStream :=
  let newWindowSize := toInt32 (s.sendWindowSize + deltaWindowSize)
  if s.ioState ≠ STATE_SEND_BODY_COMPLETE then s
  else if 0 < s.sendWindowSize ∧ newWindowSize < 0 then s.close
  else
    let s' := { s with sendWindowSize := newWindowSize }
    if s.stalledByFlowControl then
      ({ s' with stalledByFlowControl := false, ioState := STATE_SEND_BODY }.record
        (.resumed newWindowSize)).doLoop OK
    else s'

def onWindowUpdate (deltaWindowSize : UInt32) : SpdyStream :=
  let delta := int32OfUInt32 deltaWindowSize
  if ¬ s.isActive then s
  else if delta < 1 then s.close
  else
    (if s.IsSending then s.record (.received delta) else s).increaseSendWindowSize delta

/-- `OnResponseReceived`, with `Respond` of the session. -/
def onResponseReceived : SpdyStream :=
  if s.ioState = STATE_WAITING_FOR_RESPONSE then { s with ioState := STATE_OPEN } else s.close

/-! ### Steps -/

inductive Event
  | sendRequest (hasUploadData : Bool)
  | turn
  | frameWritten (synSize : ℕ)
  | appendChunk (data : List UInt8) (isLastChunk : Bool)
  | onWindowUpdate (deltaWindowSize : UInt32)
  | writeStreamData (data : List UInt8) (fin : Bool)
  | onResponseReceived
  | close

/-- A step of the stream.  A request is sent once; a delegate other than a `SpdyHttpStream` writes
when the stream is open. -/
def step : Event → Option SpdyStream
  | .turn => s.loop.map s.turn
  | .sendRequest hasUploadData =>
    if s.loop = none ∧ s.ioState = STATE_NONE then some (s.sendRequest hasUploadData) else none
  | .frameWritten synSize => if s.loop = none then some (s.frameWritten synSize) else none
  | .appendChunk data isLastChunk =>
    if s.loop = none then some (s.appendChunk data isLastChunk) else none
  | .onWindowUpdate delta => if s.loop = none then some (s.onWindowUpdate delta) else none
  | .writeStreamData data fin =>
    if s.loop = none ∧ s.ioState = STATE_OPEN ∧ s.delegate = some .socket then
      some (s.writeStreamData data fin)
    else none
  | .onResponseReceived => if s.loop = none then some s.onResponseReceived else none
  | .close => if s.loop = none then some s.close else none

end SpdyStream

/-- A stream, with `initial_send_window_size_`. -/
def flowSystem (initialSendWindowSize : Fin (2 ^ 31)) : TransSys SpdyStream SpdyStream.Event where
  init s := ∃ delegate, s = .new initialSendWindowSize delegate
  step s e s' := s.step e = some s'

end Chromium.Net.Spdy
