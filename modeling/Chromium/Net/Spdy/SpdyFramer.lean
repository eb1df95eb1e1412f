import Chromium.Lib.Feed
import Chromium.Net.Spdy.SpdyProtocol

/-!
# Reading frames

`net/spdy/spdy_framer.cc`: `ProcessInput` is given the bytes of a connection as they arrive, keeps
the header of the current frame (of a control frame also its payload) in a buffer, and calls the
visitor with control frames, with pieces of data and with errors.

The two states for header blocks that are given out in parts are left out: nothing enters them.
-/

namespace Chromium.Net.Spdy

open Lib

inductive SpdyState
  | SPDY_ERROR
  | SPDY_DONE
  | SPDY_RESET
  | SPDY_AUTO_RESET
  | SPDY_READING_COMMON_HEADER
  | SPDY_INTERPRET_CONTROL_FRAME_COMMON_HEADER
  | SPDY_CONTROL_FRAME_PAYLOAD
  | SPDY_IGNORE_REMAINING_PAYLOAD
  | SPDY_FORWARD_STREAM_FRAME
  deriving DecidableEq

inductive SpdyError
  | SPDY_NO_ERROR
  | SPDY_INVALID_CONTROL_FRAME
  | SPDY_CONTROL_PAYLOAD_TOO_LARGE
  | SPDY_ZLIB_INIT_FAILURE
  | SPDY_UNSUPPORTED_VERSION
  | SPDY_DECOMPRESS_FAILURE
  | SPDY_COMPRESS_FAILURE
  deriving DecidableEq

/-- What `inflate` leaves behind: whether it returned `Z_OK`, its output, and `avail_in`. -/
structure Inflated (Stream : Type) where
  ok : Bool
  stream : Stream
  out : List UInt8
  availIn : ℕ

/-- What the framer does not have itself: `spdy_version_`, and zlib, which starts a stream or fails,
and reads bytes with room for so many. -/
structure FramerEnv where
  spdyVersion : ℕ
  Stream : Type
  inflateInit : Option Stream
  inflate : Stream → List UInt8 → ℕ → Inflated Stream

def copyEnv : FramerEnv where
  spdyVersion := kSpdyProtocolVersion
  Stream := Unit
  inflateInit := some ()
  inflate _ data room := ⟨true, (), data.take room, data.length - room⟩

def kControlFrameBufferInitialSize : ℕ := 32 * 1024

def kControlFrameBufferMaxSize : ℕ := 64 * 1024

/-- `SpdyFramer`; of the buffer, the `current_frame_len_` bytes that were read. -/
@[ext]
structure SpdyFramer (env : FramerEnv) where
  state : SpdyState
  errorCode : SpdyError
  remainingData : ℕ
  remainingControlPayload : ℕ
  currentFrameBuffer : SpdyFrame
  currentFrameCapacity : ℕ
  streamDecompressors : ℕ → Option env.Stream

/-- The calls that `ProcessInput` makes: those of the visitor, and two of the framer's own. -/
inductive Call
  | OnError (errorCode : SpdyError)
  | OnControl (frame : SpdyFrame)
  | OnStreamFrameData (streamId : ℕ) (data : List UInt8)
  | Reset
  | GetStreamDecompressor (streamId : ℕ)
  deriving DecidableEq

def Call.isVisitorCall : Call → Bool
  | Reset => false
  | GetStreamDecompressor _ => false
  | _ => true

/-- The size checks of `ProcessControlFrameHeader` on a frame of the type with this length. -/
def hasWrongSize : SpdyControlType → ℕ → Bool
  | .SYN_STREAM, length => length < SpdyControlType.SYN_STREAM.size - SpdyFrame.size
  | .SYN_REPLY, length => length < SpdyControlType.SYN_REPLY.size - SpdyFrame.size
  | .RST_STREAM, length => length ≠ SpdyControlType.RST_STREAM.size - SpdyFrame.size
  | .SETTINGS, length => length < SpdyControlType.SETTINGS.size - SpdyFrame.size
  | .NOOP, _ => false
  | .GOAWAY, length => length ≠ SpdyControlType.GOAWAY.size - SpdyFrame.size
  | .HEADERS, length => length < SpdyControlType.HEADERS.size - SpdyFrame.size
  | .WINDOW_UPDATE, length => length ≠ SpdyControlType.WINDOW_UPDATE.size - SpdyFrame.size
  | .PING, length => length ≠ SpdyControlType.PING.size - SpdyFrame.size

namespace SpdyFramer

variable {env : FramerEnv} (s : SpdyFramer env)

/-- What a function that reads bytes does. -/
abbrev Processed (env : FramerEnv) := Turn (SpdyFramer env) UInt8 Call

def new (env : FramerEnv) : SpdyFramer env where
  state := .SPDY_RESET
  errorCode := .SPDY_NO_ERROR
  remainingData := 0
  remainingControlPayload := 0
  currentFrameBuffer := []
  currentFrameCapacity := 0
  streamDecompressors _ := none

def changeState (state : SpdyState) : SpdyFramer env := { s with state := state }

def setError (error : SpdyError) : SpdyFramer env × List Call :=
  ({ s with errorCode := error, state := .SPDY_ERROR }, [.OnError error])

def expandControlFrameBuffer (size : ℕ) : SpdyFramer env :=
  let allocSize := size + SpdyFrame.size
  if allocSize ≤ s.currentFrameCapacity then s else { s with currentFrameCapacity := allocSize }

def reset : SpdyFramer env :=
  let s' := { s with
    state := .SPDY_RESET
    errorCode := .SPDY_NO_ERROR
    remainingData := 0
    remainingControlPayload := 0
    currentFrameBuffer := [] }
  if s'.currentFrameCapacity ≠ kControlFrameBufferInitialSize then
    { s' with currentFrameCapacity := 0 }.expandControlFrameBuffer kControlFrameBufferInitialSize
  else s'

/-- `UpdateCurrentFrameBuffer` on the bytes that it reads. -/
def updateCurrentFrameBuffer (bytes : List UInt8) : SpdyFramer env :=
  { s with currentFrameBuffer := s.currentFrameBuffer ++ bytes }

def getStreamDecompressor (streamId : ℕ) : Option env.Stream × SpdyFramer env :=
  match s.streamDecompressors streamId with
  | some stream => (some stream, s)
  | none =>
    match env.inflateInit with
    | none => (none, s)
    | some stream =>
      (some stream, { s with
          streamDecompressors := Function.update s.streamDecompressors streamId (some stream) })

def cleanupDecompressorForStream (streamId : ℕ) : SpdyFramer env :=
  { s with streamDecompressors := Function.update s.streamDecompressors streamId none }

def processCommonHeader (data : List UInt8) : Processed env :=
  if s.currentFrameBuffer.length < SpdyFrame.size then
    let bytesDesired := SpdyFrame.size - s.currentFrameBuffer.length
    let s' := s.updateCurrentFrameBuffer (data.take bytesDesired)
    let frame := s'.currentFrameBuffer
    -- an empty data frame
    if frame.length = SpdyFrame.size ∧ ¬ frame.isControlFrame ∧ frame.payloadLength = 0 then
      ⟨s'.changeState .SPDY_AUTO_RESET, data.drop bytesDesired,
        if frame.flags &&& CONTROL_FLAG_FIN ≠ 0 then [.OnStreamFrameData frame.dataStreamId []]
        else []⟩
    else ⟨s', data.drop bytesDesired, []⟩
  else
    let s' := { s with remainingData := s.currentFrameBuffer.payloadLength }
    if ¬ s.currentFrameBuffer.isControlFrame then
      ⟨s'.changeState .SPDY_FORWARD_STREAM_FRAME, data, []⟩
    else ⟨s'.changeState .SPDY_INTERPRET_CONTROL_FRAME_COMMON_HEADER, data, []⟩

/-- The `switch` of `ProcessControlFrameHeader` on a type other than `NOOP`. -/
def checkControlFrameSize : SpdyFramer env × List Call :=
  match s.currentFrameBuffer.type with
  | some type =>
    if hasWrongSize type s.currentFrameBuffer.payloadLength then
      s.setError .SPDY_INVALID_CONTROL_FRAME
    else (s, [])
  | none => s.setError .SPDY_INVALID_CONTROL_FRAME

/-- `ProcessControlFrameHeader` behind the `switch`, which only a `NOOP` does not reach. -/
def startControlFramePayload : SpdyFramer env × List Call :=
  let s' := { s with remainingControlPayload := s.currentFrameBuffer.payloadLength }
  if kControlFrameBufferMaxSize < s'.remainingControlPayload then
    s'.setError .SPDY_CONTROL_PAYLOAD_TOO_LARGE
  else
    ((s'.expandControlFrameBuffer s'.remainingControlPayload).changeState
      .SPDY_CONTROL_FRAME_PAYLOAD, [])

def processControlFrameHeader : SpdyFramer env × List Call :=
  if s.currentFrameBuffer.version ≠ env.spdyVersion then s.setError .SPDY_UNSUPPORTED_VERSION
  else if ¬ s.currentFrameBuffer.appearsToBeAValidControlFrame then
    s.setError .SPDY_INVALID_CONTROL_FRAME
  else if s.currentFrameBuffer.type = some .NOOP then (s.changeState .SPDY_AUTO_RESET, [])
  else
    let r := s.checkControlFrameSize
    let r' := r.1.startControlFramePayload
    (r'.1, r.2 ++ r'.2)

def controlFrameCalls (frame : SpdyFrame) : List Call :=
  .OnControl frame :: if frame.type = some .SYN_REPLY ∧ frame.flags &&& CONTROL_FLAG_FIN ≠ 0 then
      [.OnStreamFrameData frame.streamId []]
    else []

def processControlFramePayload (data : List UInt8) : Processed env :=
  let bytesRead := min s.remainingControlPayload data.length
  let s' : SpdyFramer env := { s.updateCurrentFrameBuffer (data.take bytesRead) with
    remainingControlPayload := s.remainingControlPayload - bytesRead
    remainingData := s.remainingData - bytesRead }
  if s'.remainingControlPayload ≠ 0 then ⟨s', data.drop bytesRead, []⟩
  else
    ⟨s'.changeState .SPDY_IGNORE_REMAINING_PAYLOAD, data.drop bytesRead, controlFrameCalls s'.currentFrameBuffer⟩

/-- `ProcessDataFramePayload` once bytes of the frame are forwarded. -/
def forwarded (amount : ℕ) (data : List UInt8) (calls : List Call) : Processed env :=
  let s' := { s with remainingData := s.remainingData - amount }
  let frame := s.currentFrameBuffer
  if s'.remainingData = 0 ∧ frame.flags &&& DATA_FLAG_FIN ≠ 0 then
    ⟨s'.cleanupDecompressorForStream frame.dataStreamId, data.drop amount,
      calls ++ [.OnStreamFrameData frame.dataStreamId []]⟩
  else ⟨s', data.drop amount, calls⟩

/-- `ProcessDataFramePayload` on a compressed frame. -/
def forwardCompressed (amountToForward : ℕ) (data : List UInt8) : Processed env :=
  let streamId := s.currentFrameBuffer.dataStreamId
  let r := s.getStreamDecompressor streamId
  match r.1 with
  | none => ⟨r.2, data, [.GetStreamDecompressor streamId]⟩
  | some stream =>
    let inflated := env.inflate stream (data.take amountToForward) (amountToForward * 100)
    let s' := { r.2 with
      streamDecompressors :=
        Function.update r.2.streamDecompressors streamId (some inflated.stream) }
    if !inflated.ok then
      let e := s'.setError .SPDY_DECOMPRESS_FAILURE
      ⟨e.1, data, .GetStreamDecompressor streamId :: e.2⟩
    else
      s'.forwarded (amountToForward - inflated.availIn) data
        (.GetStreamDecompressor streamId ::
          if inflated.out = [] then [] else [.OnStreamFrameData streamId inflated.out])

def processDataFramePayload (data : List UInt8) : Processed env :=
  if s.remainingData ≠ 0 then
    let amountToForward := min s.remainingData data.length
    if amountToForward ≠ 0 ∧ s.state ≠ .SPDY_IGNORE_REMAINING_PAYLOAD then
      if s.currentFrameBuffer.flags &&& DATA_FLAG_COMPRESSED ≠ 0 then
        s.forwardCompressed amountToForward data
      else
        s.forwarded amountToForward data
          [.OnStreamFrameData s.currentFrameBuffer.dataStreamId (data.take amountToForward)]
    else s.forwarded amountToForward data []
  else ⟨s.changeState .SPDY_AUTO_RESET, data, []⟩

/-- The loop of `ProcessInput`: one run of its `switch`, or `none` for `goto bottom`. -/
def turn (data : List UInt8) : Option (Processed env) :=
  match s.state with
  | .SPDY_ERROR => none
  | .SPDY_DONE => none
  | .SPDY_AUTO_RESET => some ⟨s.reset.changeState .SPDY_READING_COMMON_HEADER, data, [.Reset]⟩
  | .SPDY_RESET => some ⟨s.reset.changeState .SPDY_READING_COMMON_HEADER, data, [.Reset]⟩
  | .SPDY_READING_COMMON_HEADER => some (s.processCommonHeader data)
  | .SPDY_INTERPRET_CONTROL_FRAME_COMMON_HEADER =>
    some ⟨s.processControlFrameHeader.1, data, s.processControlFrameHeader.2⟩
  | .SPDY_CONTROL_FRAME_PAYLOAD =>
    let t := s.processControlFramePayload data
    some ((t.state.processDataFramePayload t.rest).after t.calls)
  | .SPDY_IGNORE_REMAINING_PAYLOAD => some (s.processDataFramePayload data)
  | .SPDY_FORWARD_STREAM_FRAME => some (s.processDataFramePayload data)

/-- `ProcessInput`.  The bound on the turns is never met, unless zlib gives no decompressor: then
the loop of the source is not left. -/
def processInput (data : List UInt8) : Processed env := loop turn (5 * data.length + 5) s data

end SpdyFramer

end Chromium.Net.Spdy
