import Chromium.Net.Spdy.SpdyFrames
import Mathlib.Data.Nat.Bitwise

/-!
# The layout of frames

Whatever function builds it, a control frame is a header of eight bytes and its payload
(`controlFrame`), and so is a data frame (`dataFrame`).  The accessors read the header
(`version_controlFrame` and the others), and the fields behind it are fields of the payload
(`field_controlFrame`).
-/

namespace Chromium.Net.Spdy

open Lib
open List (append_assoc length_append)

def controlFrame (version : ℕ) (type : SpdyControlType) (flags : ℕ) (payload : List UInt8) :
    SpdyFrame :=
  toBe 2 (kControlFlagMask ||| version) ++ (toBe 2 type.toNat ++ (flagsAndLength flags payload.length ++ payload))

def dataFrame (streamId flags : ℕ) (payload : List UInt8) : SpdyFrame :=
  toBe 4 streamId ++ (flagsAndLength flags payload.length ++ payload)

variable {version streamId flags n offset w : ℕ} {type : SpdyControlType} {payload : List UInt8}

/-! ### Numbers -/

theorem and_kStreamIdMask (h : n < 2147483648) : n &&& kStreamIdMask = n :=
  (Nat.and_two_pow_sub_one_eq_mod n 31).trans (Nat.mod_eq_of_lt h)

theorem kControlFlagMask_or (h : version < 32768) : kControlFlagMask ||| version = 32768 + version :=
  (Nat.two_pow_add_eq_or_of_lt (i := 15) h 1).symm

theorem add_and_kControlFlagMask (h : version < 32768) :
    (32768 + version) &&& kControlFlagMask = kControlFlagMask := by
  have hbit : (2 ^ 15 + version).testBit 15 = true := by
    rw [Nat.testBit_two_pow_add_eq, Nat.testBit_lt_two_pow h]
    rfl
  have hand := Nat.and_two_pow (2 ^ 15 + version) 15
  rw [hbit] at hand
  exact hand

theorem and_kControlFlagMask (h : n < 32768) : n &&& kControlFlagMask = 0 := by
  have hand := Nat.and_two_pow n 15
  rw [Nat.testBit_lt_two_pow h] at hand
  exact hand

@[simp]
theorem length_flagsAndLength (flags n : ℕ) : (flagsAndLength flags n).length = 4 := by
  simp [flagsAndLength]

theorem flagsAndLength_eq (flags n : ℕ) : flagsAndLength flags n = UInt8.ofNat flags :: toBe 3 n := by
  rw [flagsAndLength, toBe_succ_eq_cons, List.tail_cons]

theorem flagsAndLength_zero (h : n < 16777216) : flagsAndLength 0 n = toBe 4 n := by
  rw [flagsAndLength_eq, toBe_succ_eq_cons 3, Nat.div_eq_of_lt (show n < 256 ^ 3 from h)]

theorem beNat_flags (h : flags < 256) : beNat [UInt8.ofNat flags] = flags := by
  have hbyte := beNat_toBe_of_lt (w := 1) h
  rwa [toBe_succ_eq_cons, pow_zero, Nat.div_one, toBe] at hbyte

theorem beNat_flagsAndLength (hflags : flags < 256) (hn : n < 16777216) :
    beNat (flagsAndLength flags n) = flags * 16777216 + n := by
  rw [flagsAndLength_eq, ← List.singleton_append, beNat_append, beNat_flags hflags, length_toBe,
    beNat_toBe_of_lt hn, show (256 : ℕ) ^ 3 = 16777216 from rfl]

/-! ### Frames -/

theorem createControlFrame_eq {length : ℕ} (hlength : payload.length = length)
    (h : length < 16777216) :
    createControlFrame version type length payload = controlFrame version type 0 payload := by
  rw [createControlFrame, controlFrame, hlength, flagsAndLength_zero h]
  simp only [writeUInt16, writeUInt32, append_assoc]

theorem createHeaderFrame_eq (fields : List UInt8) (headers : SpdyHeaderBlock) :
    createHeaderFrame version type fields flags headers =
      controlFrame version type flags (fields ++ writeHeaderBlock headers) := by
  have hhead : (writeUInt16 (kControlFlagMask ||| version) ++ writeUInt16 type.toNat).length = 4 := by
    rw [length_append, writeUInt16, writeUInt16, length_toBe, length_toBe]
  have hplace : (writeUInt16 (kControlFlagMask ||| version) ++ writeUInt16 type.toNat ++
      writeUInt32 0).length = 8 := by
    rw [length_append, hhead, writeUInt32, length_toBe]
  dsimp only [createHeaderFrame]
  rw [append_assoc _ fields]
  generalize fields ++ writeHeaderBlock headers = payload
  have hlength : (writeUInt16 (kControlFlagMask ||| version) ++ writeUInt16 type.toNat ++
      writeUInt32 0 ++ payload).length - SpdyFrame.size = payload.length := by
    rw [length_append, hplace, SpdyFrame.size]
    omega
  rw [hlength, writeBytesToOffset, length_flagsAndLength,
    if_neg (by rw [length_append, hplace]; omega), List.drop_left' hplace,
    append_assoc _ (writeUInt32 0), List.take_left' hhead, controlFrame, writeUInt16, writeUInt16]
  simp only [append_assoc]

theorem createDataFrame_eq (h : payload.length < 65536) :
    createDataFrame streamId payload flags = dataFrame streamId flags payload := by
  rw [createDataFrame, dataFrame, writeBytes_of_lt h,
    writeBytes_of_lt (by rw [length_flagsAndLength]; omega), writeUInt32, append_assoc]

@[simp]
theorem length_controlFrame : (controlFrame version type flags payload).length = 8 + payload.length := by
  simp only [controlFrame, length_append, length_toBe, length_flagsAndLength]
  omega

theorem field_controlFrame (offset w : ℕ) :
    field (controlFrame version type flags payload) (8 + offset) w = field payload offset w := by
  have hhead : (toBe 2 (kControlFlagMask ||| version) ++ (toBe 2 type.toNat ++
      flagsAndLength flags payload.length)).length = 8 := by
    simp only [length_append, length_toBe, length_flagsAndLength]
  rw [controlFrame, ← append_assoc (toBe 2 type.toNat), ← append_assoc,
    field_append_right (by omega), hhead, Nat.add_sub_cancel_left]

theorem drop_controlFrame (n : ℕ) :
    (controlFrame version type flags payload).drop (8 + n) = payload.drop n := by
  have hhead : (toBe 2 (kControlFlagMask ||| version) ++ (toBe 2 type.toNat ++
      flagsAndLength flags payload.length)).length = 8 := by
    simp only [length_append, length_toBe, length_flagsAndLength]
  rw [controlFrame, ← append_assoc (toBe 2 type.toNat), ← append_assoc, ← List.drop_drop,
    List.drop_left' hhead]

theorem field_version (h : version < 32768) :
    field (controlFrame version type flags payload) 0 2 = 32768 + version := by
  rw [controlFrame, field_zero (length_toBe 2 _), kControlFlagMask_or h, beNat_toBe_of_lt (by omega)]

theorem isControlFrame_controlFrame (h : version < 32768) :
    SpdyFrame.isControlFrame (controlFrame version type flags payload) = true := by
  rw [SpdyFrame.isControlFrame, field_version h, add_and_kControlFlagMask h, decide_eq_true rfl]

theorem version_controlFrame (h : version < 32768) :
    SpdyFrame.version (controlFrame version type flags payload) = version := by
  rw [SpdyFrame.version, field_version h]
  refine (Nat.and_two_pow_sub_one_eq_mod _ 15).trans ?_
  rw [Nat.add_mod_left, Nat.mod_eq_of_lt h]

theorem type_controlFrame : SpdyFrame.type (controlFrame version type flags payload) = some type := by
  have htype := type.toNat_lt
  rw [SpdyFrame.type, controlFrame, field_append_right (by simp), length_toBe, Nat.sub_self,
    field_zero (length_toBe 2 _), beNat_toBe_of_lt (by omega), SpdyControlType.ofNat?_toNat]

/-- **The flags and the length** of a frame with four bytes in front of them. -/
theorem flags_append_flagsAndLength {bytes : List UInt8} (hbytes : bytes.length = 4)
    (h : flags < 256) : SpdyFrame.flags (bytes ++ (flagsAndLength flags n ++ payload)) = flags := by
  rw [SpdyFrame.flags, field_append_right hbytes.le, hbytes, Nat.sub_self, flagsAndLength_eq,
    ← List.singleton_append, append_assoc, field_zero List.length_singleton, beNat_flags h]

theorem payloadLength_append_flagsAndLength {bytes : List UInt8} (hbytes : bytes.length = 4)
    (h : flags < 256) (hn : n < 16777216) :
    SpdyFrame.payloadLength (bytes ++ (flagsAndLength flags n ++ payload)) = n := by
  rw [SpdyFrame.payloadLength, field_append_right hbytes.le, hbytes, Nat.sub_self,
    field_zero (length_flagsAndLength _ _), beNat_flagsAndLength h hn]
  refine (Nat.and_two_pow_sub_one_eq_mod _ 24).trans ?_
  rw [Nat.mul_add_mod_of_lt hn]

theorem flags_controlFrame (h : flags < 256) :
    SpdyFrame.flags (controlFrame version type flags payload) = flags := by
  rw [controlFrame, ← append_assoc]
  exact flags_append_flagsAndLength (by simp) h

theorem payloadLength_controlFrame (h : flags < 256) (hlen : payload.length < 16777216) :
    SpdyFrame.payloadLength (controlFrame version type flags payload) = payload.length := by
  rw [controlFrame, ← append_assoc]
  exact payloadLength_append_flagsAndLength (by simp) h hlen

theorem dataStreamId_toBe (h : streamId < 2147483648) (bytes : List UInt8) :
    SpdyFrame.dataStreamId (toBe 4 streamId ++ bytes) = streamId := by
  rw [SpdyFrame.dataStreamId, field_zero (length_toBe 4 _), beNat_toBe_of_lt (by omega), and_kStreamIdMask h]

theorem isControlFrame_toBe (h : streamId < 2147483648) (bytes : List UInt8) :
    SpdyFrame.isControlFrame (toBe 4 streamId ++ bytes) = false := by
  have hhigh : toBe 4 streamId = toBe 2 (streamId / 65536) ++ toBe 2 streamId := by
    simp only [toBe, append_assoc, List.nil_append, Nat.div_div_eq_div_mul]
  have hlt : streamId / 65536 < 32768 := by omega
  rw [SpdyFrame.isControlFrame, hhigh, append_assoc, field_zero (length_toBe 2 _),
    beNat_toBe_of_lt (by omega), and_kControlFlagMask hlt]
  rfl

end Chromium.Net.Spdy
