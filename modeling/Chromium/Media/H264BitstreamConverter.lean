import Chromium.Lib.BigEndian

/-!
# From length fields to start codes

`media/base/h264_bitstream_converter.cc`: a packet of NAL units, each behind its length, becomes a byte stream in which
each is behind a start code.  One function computes how long that stream is and the other writes it.  A result is
`none` where a function reads outside the input or writes outside the output.  The pointers are not null, and sizes are
`uint32`.
-/

namespace Chromium.Media

open Lib

def kStartCodePrefix : List UInt8 := [0, 0, 1]

def isAccessUnitBoundaryNal (nalUnitType : ℕ) : Bool :=
  nalUnitType = 6 || nalUnitType = 7 || nalUnitType = 8 || nalUnitType = 9 || (14 ≤ nalUnitType && nalUnitType ≤ 18)

def nalUnitType (nalUnit : List UInt8) : ℕ := (nalUnit.headD 0 &&& 0x1F).toNat

structure H264BitstreamConverter where
  configurationProcessed : Bool
  firstNalUnitInAccessUnit : Bool
  nalUnitLengthFieldWidth : ℕ
  deriving DecidableEq

/-- What `ConvertNalUnitStreamToByteStream` leaves: its result, `*output_size`, the bytes at `output` and the
converter. -/
structure ConvertResult where
  ok : Bool
  outputSize : ℕ
  output : List UInt8
  converter : H264BitstreamConverter
  deriving DecidableEq

def put (outputSize : ℕ) (output bytes : List UInt8) : Option (List UInt8) :=
  if output.length + bytes.length ≤ outputSize then some (output ++ bytes) else none

namespace H264BitstreamConverter

def Configured (c : H264BitstreamConverter) : Prop :=
  c.nalUnitLengthFieldWidth = 1 ∨ c.nalUnitLengthFieldWidth = 2 ∨ c.nalUnitLengthFieldWidth = 4

instance decidableConfigured (c : H264BitstreamConverter) : Decidable c.Configured :=
  inferInstanceAs (Decidable (_ ∨ _ ∨ _))

/-- The loop of `CalculateNeededOutputBufferSize`, which takes a length field from the data without looking how much
is left.  There are as many turns as bytes. -/
def calculateLoop (width : ℕ) : (turns : ℕ) → (first : Bool) → (outputSize : ℕ) → (data : List UInt8) → Option ℕ
  | 0, _, outputSize, data => if data = [] then some outputSize else none
  | turns + 1, first, outputSize, data =>
    if data = [] then some outputSize
    else if data.length < width then none
    else
      let nalUnitLength := beNat (data.take width)
      let data := data.drop width
      if nalUnitLength = 0 then some outputSize
      else if nalUnitLength > data.length then some 0
      else
        let zeroByte := if first || isAccessUnitBoundaryNal (nalUnitType data) then 1 else 0
        calculateLoop width turns false
          ((outputSize + zeroByte + kStartCodePrefix.length + nalUnitLength) % 4294967296) (data.drop nalUnitLength)

def calculateNeededOutputBufferSize (c : H264BitstreamConverter) (input : List UInt8) : Option ℕ :=
  if input = [] then some 0
  else if ¬ c.configurationProcessed then some 0
  else if c.Configured then
    calculateLoop c.nalUnitLengthFieldWidth input.length c.firstNalUnitInAccessUnit 0 input
  else none

/-- The loop of `ConvertNalUnitStreamToByteStream`: whether it succeeds, the flag, and the output.  The length field
ends with the data, and the check of the space comes before the flag is set. -/
def convertLoop (width outputSize : ℕ) : (turns : ℕ) → (first : Bool) → (output data : List UInt8) →
    Option (Bool × Bool × List UInt8)
  | 0, first, output, data => if data = [] then some (true, first, output) else none
  | turns + 1, first, output, data =>
    if data = [] then some (true, first, output)
    else
      let nalUnitLength := beNat (data.take width)
      let data := data.drop width
      if nalUnitLength = 0 then some (true, first, output)
      else if nalUnitLength > data.length then some (false, first, output)
      else
        let startCodeLen := if first then kStartCodePrefix.length + 1 else kStartCodePrefix.length
        if (output.length + startCodeLen + nalUnitLength) % 4294967296 > outputSize then some (false, first, output)
        else do
          let first := first || isAccessUnitBoundaryNal (nalUnitType data)
          let output ← put outputSize output (if first then [0] else [])
          let output ← put outputSize output kStartCodePrefix
          let output ← put outputSize output (data.take nalUnitLength)
          convertLoop width outputSize turns false output (data.drop nalUnitLength)

/-- `ConvertNalUnitStreamToByteStream`, with an output of `outputSize` bytes. -/
def convertNalUnitStreamToByteStream (c : H264BitstreamConverter) (input : List UInt8) (outputSize : ℕ) :
    Option ConvertResult :=
  if input = [] ∨ outputSize = 0 then some ⟨false, 0, [], c⟩
  else if c.Configured then do
    let (ok, first, output) ←
      convertLoop c.nalUnitLengthFieldWidth outputSize input.length c.firstNalUnitInAccessUnit [] input
    some ⟨ok, if ok then output.length % 4294967296 else 0, output, { c with firstNalUnitInAccessUnit := first }⟩
  else none

end H264BitstreamConverter

end Chromium.Media
