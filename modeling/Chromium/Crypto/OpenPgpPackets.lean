import Chromium.Lib.Gives
import Mathlib.Algebra.Group.Nat.Defs

/-!
# OpenPGP packets

The reader and the packets of `crypto/openpgp_symmetric_encryption.cc`.  A piece is the bytes it has.  An access that is
neither in the input nor in a buffer that was allocated is an error of its own, and so is a loop that does not end.
`size_t` has 64 bits, and it is a parameter whether `char` is signed.
-/

namespace Chromium.Crypto.OpenPgp

inductive Result
  | ok | unknownCipher | unknownHash | notSymmetricallyEncrypted | compressed | parseError | internalError
  deriving DecidableEq, Repr

/-- Why there is no plaintext.  Only the first is an answer of the source. -/
inductive Stop
  | refused (result : Result)
  | outside
  | endless
  deriving DecidableEq, Repr

/-- Where a function returns false, `Decrypt` returns `PARSE_ERROR`. -/
def fail {α : Type} : Except Stop α := .error (.refused .parseError)

/-! ## Reader -/

namespace Reader

def u8 : (data : List UInt8) → Except Stop (UInt8 × List UInt8)
  | [] => fail
  | b :: data => .ok (b, data)

/-- `static_cast<uint32>` of a `char`. -/
def charToUint32 (charIsSigned : Bool) (b : UInt8) : ℕ :=
  if charIsSigned ∧ 128 ≤ b.toNat then 4294967296 - 256 + b.toNat else b.toNat

/-- The four bytes as `U32` puts them together. -/
def ofBytes (charIsSigned : Bool) (b₀ b₁ b₂ b₃ : UInt8) : ℕ :=
  charToUint32 charIsSigned b₀ <<< 24 % 4294967296 ||| charToUint32 charIsSigned b₁ <<< 16 % 4294967296 |||
    charToUint32 charIsSigned b₂ <<< 8 % 4294967296 ||| charToUint32 charIsSigned b₃

def u32 (charIsSigned : Bool) : (data : List UInt8) → Except Stop (ℕ × List UInt8)
  | b₀ :: b₁ :: b₂ :: b₃ :: data => .ok (ofBytes charIsSigned b₀ b₁ b₂ b₃, data)
  | _ => fail

/-- `Prefix`. -/
def takePrefix (n : ℕ) (data : List UInt8) : Except Stop (List UInt8 × List UInt8) :=
  if data.length < n then fail else .ok (data.take n, data.drop n)

def skip (n : ℕ) (data : List UInt8) : Except Stop (List UInt8) :=
  if data.length < n then fail else .ok (data.drop n)

end Reader

/-! ## Packets that are read -/

/-- `ParseLength`: the length, and whether it is that of a part. -/
def parseLength (charIsSigned : Bool) (data : List UInt8) : Except Stop ((ℕ × Bool) × List UInt8) := do
  let (lengthSpec, data) ← Reader.u8 data
  if lengthSpec.toNat < 192 then return ((lengthSpec.toNat, false), data)
  else if lengthSpec.toNat < 224 then
    let (nextByte, data) ← Reader.u8 data
    return (((lengthSpec.toNat - 192) * 256 + nextByte.toNat, false), data)
  else if lengthSpec.toNat < 255 then return ((2 ^ (lengthSpec.toNat % 32), true), data)
  else
    let (length32, data) ← Reader.u32 charIsSigned data
    return ((length32, false), data)

/-- The first loop of `ParseStreamContents`, which adds up the length of the stream. -/
def measureChunks (charIsSigned : Bool) : (turns length : ℕ) → (data : List UInt8) → Except Stop ℕ
  | 0, _, _ => .error .endless
  | turns + 1, length, data => do
    let ((chunkLength, isPartial), data) ← parseLength charIsSigned data
    if (length + chunkLength) % 18446744073709551616 < length then fail
    else
      let data ← Reader.skip chunkLength data
      if isPartial then measureChunks charIsSigned turns (length + chunkLength) data else return length + chunkLength

def copyChunks (charIsSigned : Bool) (length : ℕ) : (turns : ℕ) → (buf data : List UInt8) →
    Except Stop (List UInt8 × List UInt8)
  | 0, _, _ => .error .endless
  | turns + 1, buf, data => do
    let ((chunkLength, isPartial), data) ← parseLength charIsSigned data
    let (chunk, data) ← Reader.takePrefix chunkLength data
    if length < buf.length + chunk.length then .error .outside
    else if isPartial then copyChunks charIsSigned length turns (buf ++ chunk) data
    else return (buf ++ chunk, data)

/-- `ParseStreamContents`.  The result is all of the buffer. -/
def parseStreamContents (charIsSigned : Bool) (firstChunkLength : ℕ) (data : List UInt8) :
    Except Stop (List UInt8 × List UInt8) := do
  let behind ← Reader.skip firstChunkLength data
  let length ← measureChunks charIsSigned (behind.length + 1) firstChunkLength behind
  let (firstChunk, data) ← Reader.takePrefix firstChunkLength data
  if length < firstChunk.length then .error .outside
  else
    let (buf, data) ← copyChunks charIsSigned length (behind.length + 1) firstChunk data
    if buf.length = length then return (buf, data) else .error .outside

def oldLength : (lengthBytes length : ℕ) → (data : List UInt8) → Except Stop (ℕ × List UInt8)
  | 0, length, data => .ok (length, data)
  | lengthBytes + 1, length, data => do
    let (lengthByte, data) ← Reader.u8 data
    oldLength lengthBytes (length * 256 + lengthByte.toNat) data

/-- `ParsePacket`: the tag, the contents, and what is behind the packet. -/
def parsePacket (charIsSigned : Bool) (data : List UInt8) : Except Stop ((ℕ × List UInt8) × List UInt8) := do
  let (header, data) ← Reader.u8 data
  if header &&& 0x80 = 0 then fail
  else if header &&& 0x40 = 0 then
    let tag := (header &&& 0x3f).toNat / 4
    let lengthType := (header &&& 3).toNat
    if lengthType = 3 then return ((tag, data), [])
    else
      let (length, data) ← oldLength (2 ^ lengthType) 0 data
      let (contents, data) ← Reader.takePrefix length data
      return ((tag, contents), data)
  else
    let tag := (header &&& 0x3f).toNat
    let ((length, isPartial), data) ← parseLength charIsSigned data
    let (contents, data) ← if isPartial then parseStreamContents charIsSigned length data else Reader.takePrefix length data
    return ((tag, contents), data)

/-! ## Packets that are written -/

/-- The length that `MakePacket` writes. -/
def lengthHeader (size : ℕ) : List UInt8 :=
  if size < 192 then [UInt8.ofNat size]
  else if size < 8384 then [UInt8.ofNat (192 + (size - 192) / 256), UInt8.ofNat ((size - 192) % 256)]
  else [255, UInt8.ofNat (size / 16777216), UInt8.ofNat (size / 65536), UInt8.ofNat (size / 256), UInt8.ofNat size]

def makePacket (tag : ℕ) (contents : List UInt8) : List UInt8 :=
  UInt8.ofNat (0xc0 ||| tag) :: (lengthHeader contents.length ++ contents)

end Chromium.Crypto.OpenPgp
