import Chromium.Lib.BigEndian
import Mathlib.Tactic.IntervalCases

/-!
# Frames on the wire

`net/spdy/spdy_protocol.h`: a frame is a block of bytes in network order, which starts with a
header of eight bytes.  The accessors read its fields; the fields of a control frame behind the
header stand where the block of its type has them.
-/

namespace Chromium.Net.Spdy

open Lib

def kSpdyProtocolVersion : ℕ := 2

def kStreamIdMask : ℕ := 0x7fffffff

def kControlFlagMask : ℕ := 0x8000

def kPriorityMask : ℕ := 0xc0

def kLengthMask : ℕ := 0xffffff

inductive SpdyControlType
  | SYN_STREAM
  | SYN_REPLY
  | RST_STREAM
  | SETTINGS
  | NOOP
  | PING
  | GOAWAY
  | HEADERS
  | WINDOW_UPDATE
  deriving DecidableEq

namespace SpdyControlType

def toNat : SpdyControlType → ℕ
  | SYN_STREAM => 1
  | SYN_REPLY => 2
  | RST_STREAM => 3
  | SETTINGS => 4
  | NOOP => 5
  | PING => 6
  | GOAWAY => 7
  | HEADERS => 8
  | WINDOW_UPDATE => 9

def ofNat? : ℕ → Option SpdyControlType
  | 1 => some SYN_STREAM
  | 2 => some SYN_REPLY
  | 3 => some RST_STREAM
  | 4 => some SETTINGS
  | 5 => some NOOP
  | 6 => some PING
  | 7 => some GOAWAY
  | 8 => some HEADERS
  | 9 => some WINDOW_UPDATE
  | _ => none

theorem ofNat?_toNat (t : SpdyControlType) : ofNat? t.toNat = some t := by
  cases t <;> rfl

theorem toNat_of_ofNat? {n : ℕ} {t : SpdyControlType} (h : ofNat? n = some t) : t.toNat = n := by
  unfold ofNat? at h
  split at h <;> cases h <;> rfl

theorem one_le_toNat (t : SpdyControlType) : 1 ≤ t.toNat := by
  cases t <;> decide

theorem exists_ofNat? {n : ℕ} (h : 1 ≤ n) (h' : n < 10) : ∃ t, ofNat? n = some t := by
  interval_cases n <;> exact ⟨_, rfl⟩

theorem toNat_lt (t : SpdyControlType) : t.toNat < 10 := by
  cases t <;> decide

/-- `size()` of the class of frames of a type: what the packed block has room for. -/
def size : SpdyControlType → ℕ
  | SYN_STREAM => 18
  | SYN_REPLY => 14
  | RST_STREAM => 16
  | SETTINGS => 12
  | NOOP => 8
  | PING => 12
  | GOAWAY => 12
  | HEADERS => 14
  | WINDOW_UPDATE => 16

end SpdyControlType

def NUM_CONTROL_FRAME_TYPES : ℕ := 10

def DATA_FLAG_FIN : ℕ := 1

def DATA_FLAG_COMPRESSED : ℕ := 2

def CONTROL_FLAG_FIN : ℕ := 1

/-- `SpdyFrame`: its bytes.  What an accessor would read behind them is left out. -/
abbrev SpdyFrame := List UInt8

namespace SpdyFrame

def size : ℕ := 8

variable (frame : SpdyFrame)

def flags : ℕ := field frame 4 1

/-- `SpdyFrame::length`. -/
def payloadLength : ℕ := field frame 4 4 &&& kLengthMask

def isControlFrame : Bool := field frame 0 2 &&& kControlFlagMask = kControlFlagMask

/-- `SpdyDataFrame::stream_id`. -/
def dataStreamId : ℕ := field frame 0 4 &&& kStreamIdMask

def version : ℕ := field frame 0 2 &&& 0x7fff

def appearsToBeAValidControlFrame : Bool :=
  SpdyControlType.SYN_STREAM.toNat ≤ field frame 2 2 ∧ field frame 2 2 < NUM_CONTROL_FRAME_TYPES

def type : Option SpdyControlType := SpdyControlType.ofNat? (field frame 2 2)

/-- `stream_id()` of a control frame that has one. -/
def streamId : ℕ := field frame 8 4 &&& kStreamIdMask

variable {frame} {bytes : List UInt8}

theorem payloadLength_append (h : size ≤ frame.length) :
    payloadLength (frame ++ bytes) = payloadLength frame := by
  rw [payloadLength, field_append (by rw [size] at h; omega), payloadLength]

theorem isControlFrame_append (h : size ≤ frame.length) :
    isControlFrame (frame ++ bytes) = isControlFrame frame := by
  rw [isControlFrame, field_append (by rw [size] at h; omega), isControlFrame]

theorem version_append (h : size ≤ frame.length) : version (frame ++ bytes) = version frame := by
  rw [version, field_append (by rw [size] at h; omega), version]

theorem appearsToBeAValidControlFrame_iff :
    appearsToBeAValidControlFrame frame = true ↔ ∃ type, frame.type = some type := by
  refine decide_eq_true_iff.trans ⟨fun ⟨h1, h2⟩ => SpdyControlType.exists_ofNat? h1 h2, ?_⟩
  rintro ⟨type, htype⟩
  rw [← SpdyControlType.toNat_of_ofNat? htype]
  exact ⟨type.one_le_toNat, type.toNat_lt⟩

theorem type_append (h : size ≤ frame.length) : type (frame ++ bytes) = type frame := by
  rw [type, field_append (by rw [size] at h; omega), type]

end SpdyFrame

end Chromium.Net.Spdy
