import Chromium.Net.Spdy.SpdyFrameBuilder
import Chromium.Net.Spdy.SpdyFramer

/-!
# Building frames

`net/spdy/spdy_framer.cc`: `CreateSynStream` and the other functions that build a frame, the accessors
of `net/spdy/spdy_protocol.h` for the fields of each type, and the functions that parse the headers and
the settings of a frame (`ParseHeaderBlock`, `ParseHeaderBlockInBuffer`, `ParseSettings`).

The framer does not compress; what is compressed is left out.
-/

namespace Chromium.Net.Spdy

open Lib

inductive SpdyStatusCodes
  | INVALID
  | PROTOCOL_ERROR
  | INVALID_STREAM
  | REFUSED_STREAM
  | UNSUPPORTED_VERSION
  | CANCEL
  | INTERNAL_ERROR
  | FLOW_CONTROL_ERROR
  | INVALID_ASSOCIATED_STREAM
  deriving DecidableEq

namespace SpdyStatusCodes

def toNat : SpdyStatusCodes → ℕ
  | INVALID => 0
  | PROTOCOL_ERROR => 1
  | INVALID_STREAM => 2
  | REFUSED_STREAM => 3
  | UNSUPPORTED_VERSION => 4
  | CANCEL => 5
  | INTERNAL_ERROR => 6
  | FLOW_CONTROL_ERROR => 7
  | INVALID_ASSOCIATED_STREAM => 8

/-- The status with a number, `INVALID` if there is none. -/
def ofNumber : ℕ → SpdyStatusCodes
  | 1 => PROTOCOL_ERROR
  | 2 => INVALID_STREAM
  | 3 => REFUSED_STREAM
  | 4 => UNSUPPORTED_VERSION
  | 5 => CANCEL
  | 6 => INTERNAL_ERROR
  | 7 => FLOW_CONTROL_ERROR
  | 8 => INVALID_ASSOCIATED_STREAM
  | _ => INVALID

theorem ofNumber_toNat (status : SpdyStatusCodes) : ofNumber status.toNat = status := by
  cases status <;> rfl

theorem toNat_lt (status : SpdyStatusCodes) : status.toNat < 9 := by
  cases status <;> decide

end SpdyStatusCodes

/-- `SpdySettings`: of each setting its flags and id as they are sent, and its value. -/
abbrev SpdySettings := List (UInt32 × UInt32)

/-! ### Building -/

/-- The bytes of `FlagsAndLength`: the flags stand in the first byte of the length. -/
def flagsAndLength (flags length : ℕ) : List UInt8 := UInt8.ofNat flags :: (toBe 4 length).tail

/-- `ntohs`, on a machine that keeps the lowest byte first. -/
def ntohs (value : ℕ) : ℕ := value % 256 * 256 + value / 256 % 256

/-- The frames with headers: the length is written when the frame is complete. -/
def createHeaderFrame (version : ℕ) (type : SpdyControlType) (fields : List UInt8) (flags : ℕ)
    (headers : SpdyHeaderBlock) : SpdyFrame :=
  let frame := writeUInt16 (kControlFlagMask ||| version) ++ writeUInt16 type.toNat ++
    writeUInt32 0 ++ fields ++ writeHeaderBlock headers
  writeBytesToOffset frame 4 (flagsAndLength flags (frame.length - SpdyFrame.size))

def createSynStream (version streamId associatedStreamId priority flags : ℕ)
    (headers : SpdyHeaderBlock) : SpdyFrame :=
  createHeaderFrame version .SYN_STREAM
    (writeUInt32 streamId ++ writeUInt32 associatedStreamId ++ writeUInt16 (ntohs priority <<< 6))
    flags headers

def createSynReply (version streamId flags : ℕ) (headers : SpdyHeaderBlock) : SpdyFrame :=
  createHeaderFrame version .SYN_REPLY (writeUInt32 streamId ++ writeUInt16 0) flags headers

/-- `CreateHeaders`: the version is that of the protocol, not that of the framer. -/
def createHeaders (streamId flags : ℕ) (headers : SpdyHeaderBlock) : SpdyFrame :=
  createHeaderFrame kSpdyProtocolVersion .HEADERS (writeUInt32 streamId ++ writeUInt16 0) flags
    headers

/-- The control frames without headers: `length` is what the function computes. -/
def createControlFrame (version : ℕ) (type : SpdyControlType) (length : ℕ) (fields : List UInt8) :
    SpdyFrame :=
  writeUInt16 (kControlFlagMask ||| version) ++ writeUInt16 type.toNat ++ writeUInt32 length ++ fields

def createRstStream (version streamId : ℕ) (status : SpdyStatusCodes) : SpdyFrame :=
  createControlFrame version .RST_STREAM 8 (writeUInt32 streamId ++ writeUInt32 status.toNat)

def createSettings (version : ℕ) (values : SpdySettings) : SpdyFrame :=
  createControlFrame version .SETTINGS
    (SpdyControlType.SETTINGS.size - SpdyFrame.size + 8 * values.length)
    (writeUInt32 values.length ++ values.flatMap fun value => writeUInt32 value.1.toNat ++ writeUInt32 value.2.toNat)

/-- `CreatePingFrame`: the version is that of the protocol, not that of the framer. -/
def createPingFrame (uniqueId : UInt32) : SpdyFrame :=
  createControlFrame kSpdyProtocolVersion .PING (SpdyControlType.PING.size - SpdyFrame.size)
    (writeUInt32 uniqueId.toNat)

def createGoAway (version lastAcceptedStreamId : ℕ) : SpdyFrame :=
  createControlFrame version .GOAWAY (SpdyControlType.GOAWAY.size - SpdyFrame.size)
    (writeUInt32 lastAcceptedStreamId)

def createWindowUpdate (version streamId : ℕ) (deltaWindowSize : UInt32) : SpdyFrame :=
  createControlFrame version .WINDOW_UPDATE
    (SpdyControlType.WINDOW_UPDATE.size - SpdyFrame.size)
    (writeUInt32 streamId ++ writeUInt32 deltaWindowSize.toNat)

def createDataFrame (streamId : ℕ) (data : List UInt8) (flags : ℕ) : SpdyFrame :=
  writeUInt32 streamId ++ writeBytes (flagsAndLength flags data.length) ++ writeBytes data

/-! ### Reading -/

namespace SpdyFrame

variable (frame : SpdyFrame)

def associatedStreamId : ℕ := field frame 12 4 &&& kStreamIdMask

def priority : ℕ := (field frame 16 1 &&& kPriorityMask) >>> 6

def status : SpdyStatusCodes := .ofNumber (field frame 12 4)

def numEntries : ℕ := field frame 8 4

def uniqueId : UInt32 := UInt32.ofNat (field frame 8 4)

def lastAcceptedStreamId : ℕ := field frame 8 4 &&& kStreamIdMask

def deltaWindowSize : UInt32 := UInt32.ofNat (field frame 12 4)

/-- `header_block()` and `header_block_len()` of a frame of the type. -/
def headerBlock (type : SpdyControlType) : List UInt8 :=
  (frame.drop type.size).take (frame.payloadLength - (type.size - size))

end SpdyFrame

def duplicateFrame (frame : SpdyFrame) : SpdyFrame :=
  frame.take (SpdyFrame.size + frame.payloadLength)

/-- `DecompressFrame` on a control frame: without a decompressor there is no frame, though the frame is
copied. -/
def decompressFrame (env : FramerEnv) (headerDecompressor : Option env.Stream) (frame : SpdyFrame) :
    Option SpdyFrame :=
  match headerDecompressor <|> env.inflateInit with
  | none => none
  | some _ => some (duplicateFrame frame)

/-- `ParseHeaderBlock`, with its result and the block. -/
def parseHeaderBlock (env : FramerEnv) (headerDecompressor : Option env.Stream) (frame : SpdyFrame)
    (block : SpdyHeaderBlock) : Bool × SpdyHeaderBlock :=
  match frame.type with
  | none => (false, block)
  | some type =>
    if type ≠ .SYN_STREAM ∧ type ≠ .SYN_REPLY ∧ type ≠ .HEADERS then (false, block)
    else
      match decompressFrame env headerDecompressor frame with
      | none => (false, block)
      | some frame =>
        match readUInt16 (frame.headerBlock type) with
        | none => (false, block)
        | some (numHeaders, iter) =>
          let r := parseHeaders false numHeaders iter block
          (r.1 = some [], r.2)

/-- `ParseHeaderBlockInBuffer`, with its result and the block. -/
def parseHeaderBlockInBuffer (headerData : List UInt8) (block : SpdyHeaderBlock) :
    Bool × SpdyHeaderBlock :=
  match readUInt16 headerData with
  | none => (false, block)
  | some (numHeaders, iter) =>
    let r := parseHeaders true numHeaders iter block
    (r.1.isSome, r.2)

/-- The loop of `ParseSettings`. -/
def parseSettingsFrom : ℕ → List UInt8 → SpdySettings → Bool × SpdySettings
  | 0, _, settings => (true, settings)
  | n + 1, iter, settings =>
    match readUInt32 iter with
    | none => (false, settings)
    | some (id, iter) =>
      match readUInt32 iter with
      | none => (false, settings)
      | some (value, iter) =>
        parseSettingsFrom n iter (settings ++ [(UInt32.ofNat id, UInt32.ofNat value)])

/-- `ParseSettings`, with its result and the settings. -/
def parseSettings (frame : SpdyFrame) (settings : SpdySettings) : Bool × SpdySettings :=
  parseSettingsFrom frame.numEntries (frame.headerBlock .SETTINGS) settings

end Chromium.Net.Spdy
