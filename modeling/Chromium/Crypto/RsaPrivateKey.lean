import Chromium.Lib.Der
import Chromium.Lib.MachineInt

/-!
# RSA private keys

`PrivateKeyInfoCodec` of `crypto/rsa_private_key.cc`: the integers of a key, which `Export` writes in DER and `Import`
reads.  `Export` puts each part in front of those behind it.  A result of `Import` is `none` where it reads outside the
input, or counts a negative number of padding bytes down.  `work` is how many bytes it looked at, copied, reversed or
filled in.
-/

namespace Chromium.Crypto

open Lib

def kIntegerTag : UInt8 := 0x02
def kOctetStringTag : UInt8 := 0x04
def kSequenceTag : UInt8 := 0x30

def kRsaAlgorithmIdentifier : List UInt8 :=
  [0x30, 0x0D, 0x06, 0x09, 0x2A, 0x86, 0x48, 0x86, 0xF7, 0x0D, 0x01, 0x01, 0x01, 0x05, 0x00]

inductive Component
  | modulus | publicExponent | privateExponent | prime1 | prime2 | exponent1 | exponent2 | coefficient
  deriving DecidableEq, Repr

structure PrivateKeyInfoCodec where
  bigEndian : Bool
  integers : Component → List UInt8

namespace PrivateKeyInfoCodec

def new (bigEndian : Bool) : PrivateKeyInfoCodec := ⟨bigEndian, fun _ => []⟩

def set (c : PrivateKeyInfoCodec) (name : Component) (value : List UInt8) : PrivateKeyInfoCodec :=
  { c with integers := Function.update c.integers name value }

/-! ## Export -/

/-- The loop that skips zeros: `start` goes up and `num_bytes` down. -/
def skipZeros (val : List UInt8) : (turns : ℕ) → (start numBytes : ℕ) → ℕ × ℕ
  | 0, start, numBytes => (start, numBytes)
  | turns + 1, start, numBytes =>
    if start + 1 < numBytes ∧ val.getD start 0 = 0 then skipZeros val turns (start + 1) (numBytes - 1)
    else (start, numBytes)

/-- A `uint32` in front of the data. -/
def prependLength (size : ℕ) (data : List UInt8) : List UInt8 :=
  if size < 0x80 then UInt8.ofNat size :: data
  else (0x80 ||| UInt8.ofNat (minimalBytes size).length) :: (minimalBytes size ++ data)

def prependTypeHeaderAndLength (type : UInt8) (length : ℕ) (data : List UInt8) : List UInt8 :=
  type :: prependLength (length % 4294967296) data

def prependIntegerImpl (val data : List UInt8) (bigEndian : Bool) : List UInt8 :=
  let val := if bigEndian then val else val.reverse
  let (start, numBytes) := skipZeros val val.length 0 val.length
  let data := (val.drop start).take numBytes ++ data
  if data.headD 0 &&& 0x80 ≠ 0 then prependTypeHeaderAndLength kIntegerTag (numBytes + 1) (0 :: data)
  else prependTypeHeaderAndLength kIntegerTag numBytes data

def prependInteger (c : PrivateKeyInfoCodec) (val data : List UInt8) : List UInt8 :=
  prependIntegerImpl val data c.bigEndian

/-- `Export`, which always succeeds. -/
def exportKey (c : PrivateKeyInfoCodec) : List UInt8 :=
  let content := c.prependInteger (c.integers .coefficient) []
  let content := c.prependInteger (c.integers .exponent2) content
  let content := c.prependInteger (c.integers .exponent1) content
  let content := c.prependInteger (c.integers .prime2) content
  let content := c.prependInteger (c.integers .prime1) content
  let content := c.prependInteger (c.integers .privateExponent) content
  let content := c.prependInteger (c.integers .publicExponent) content
  let content := c.prependInteger (c.integers .modulus) content
  let content := c.prependInteger [0] content
  let content := prependTypeHeaderAndLength kSequenceTag content.length content
  let content := prependTypeHeaderAndLength kOctetStringTag content.length content
  let content := kRsaAlgorithmIdentifier ++ content
  let content := c.prependInteger [0] content
  prependTypeHeaderAndLength kSequenceTag content.length content

end PrivateKeyInfoCodec

/-! ## Import -/

/-- The length is an `int` while it is compared with what is left, and a `uint32` behind that. -/
def readLength : List UInt8 → Option (ℕ × List UInt8)
  | [] => none
  | b :: data =>
    if b &&& 0x80 = 0 then if b.toNat ≤ data.length then some (b.toNat, data) else none
    else
      let lengthOfLength := (b &&& 0x7F).toNat
      if lengthOfLength ≤ 4 ∧ lengthOfLength < data.length then
        let length := beNat (data.take lengthOfLength)
        let data := data.drop lengthOfLength
        if toInt32 length ≤ data.length then some (length, data) else none
      else none

def readTypeHeaderAndLength (expectedTag : UInt8) : List UInt8 → Option (ℕ × List UInt8)
  | [] => none
  | b :: data => if b = expectedTag then readLength data else none

/-- The data from `src` to `end`, and what is done so far. -/
structure ImportState where
  data : List UInt8
  work : ℕ
  codec : PrivateKeyInfoCodec

/-- The result of a part of `Import`. -/
abbrev Step := ImportState → Option (Bool × ImportState)

def headerWork (data rest : List UInt8) : ℕ := data.length - rest.length

/-- A header without its length, as in `ReadSequence`. -/
def readHeaderOnly (expectedTag : UInt8) : Step := fun s =>
  match readTypeHeaderAndLength expectedTag s.data with
  | none => some (false, s)
  | some (_, data) => some (true, { s with data := data, work := s.work + headerWork s.data data })

/-- The loop of `ReadVersion`. -/
def readZeros : ℕ → List UInt8 → Option (Bool × List UInt8)
  | 0, data => some (true, data)
  | _ + 1, [] => none
  | length + 1, b :: data => if b = 0 then readZeros length data else some (false, b :: data)

def readVersion : Step := fun s =>
  match readTypeHeaderAndLength kIntegerTag s.data with
  | none => some (false, s)
  | some (length, data) =>
    (readZeros length data).map fun read => (read.1, { s with data := read.2, work := s.work + headerWork s.data read.2 })

def readAlgorithmIdentifier : Step := fun s =>
  if kRsaAlgorithmIdentifier.length < s.data.length ∧
      s.data.take kRsaAlgorithmIdentifier.length = kRsaAlgorithmIdentifier then
    some (true, { s with
      data := s.data.drop kRsaAlgorithmIdentifier.length
      work := s.work + kRsaAlgorithmIdentifier.length })
  else some (false, s)

/-- `ReadIntegerImpl`: what is behind `out` then, and the data; `none` inside is its failure. -/
def readIntegerImpl (data out : List UInt8) (bigEndian : Bool) : Option (Option (List UInt8 × List UInt8)) :=
  match readTypeHeaderAndLength kIntegerTag data with
  | none => some none
  | some (length, data) =>
    if length = 0 then some none
    else
      match data with
      | [] => none
      | b :: rest =>
        let (length, data) := if b = 0 then (length - 1, rest) else (length, b :: rest)
        if data.length < length then none
        else
          let out := out ++ data.take length
          some (some (if bigEndian then out else out.reverse, data.drop length))

def readInteger (name : Component) : Step := fun s =>
  (readIntegerImpl s.data (s.codec.integers name) s.codec.bigEndian).map fun
    | none => (false, s)
    | some (out, data) =>
      (true, {
        data := data
        work := s.work + headerWork s.data data + out.length
        codec := s.codec.set name out })

def fill (s : ImportState) (name : Component) (pad : ℤ) (temp data : List UInt8) : Option (Bool × ImportState) :=
  if pad < 0 then none
  else
    let out := s.codec.integers name ++ List.replicate pad.toNat 0 ++ temp
    some (true, {
      data := data
      work := s.work + headerWork s.data data + pad.toNat + temp.length + out.length
      codec := s.codec.set name (if s.codec.bigEndian then out else out.reverse) })

/-- `ReadIntegerWithExpectedSize`; a size is a `size_t`. -/
def readIntegerWithExpectedSize (name : Component) (expectedSize : ℕ) : Step := fun s =>
  (readIntegerImpl s.data [] true).bind fun
    | none => some (false, s)
    | some (temp, data) =>
      let out := s.codec.integers name
      let pad := toInt32 (expectedSize - temp.length)
      if out.length = (expectedSize + 1) % 18446744073709551616 then
        if out = [] then none
        else if out.headD 0 = 0 then fill s name (pad + 1) temp data
        else some (false, s)
      else if out.length ≤ expectedSize then fill s name pad temp data
      else some (false, s)

/-- A part of what `Import` reads: a header of which only the tag is used, a version, the algorithm, an integer of any
size or of an expected one, and the end. -/
inductive Part
  | header (tag : UInt8)
  | version
  | algorithmIdentifier
  | integer (name : Component)
  | integerWithExpectedSize (name : Component) (expectedSize : ℕ)
  | atEnd

def Part.read : Part → Step
  | header tag => readHeaderOnly tag
  | version => readVersion
  | algorithmIdentifier => readAlgorithmIdentifier
  | integer name => readInteger name
  | integerWithExpectedSize name expectedSize => readIntegerWithExpectedSize name expectedSize
  | atEnd => fun s => some (decide (s.data = []), s)

def readAll : List Part → Step
  | [], s => some (true, s)
  | part :: parts, s => (part.read s).bind fun read => if read.1 then readAll parts read.2 else some read

/-- What `Import` reads up to the modulus. -/
def modulusParts : List Part :=
  [.header kSequenceTag, .version, .algorithmIdentifier, .header kOctetStringTag, .header kSequenceTag, .version,
    .integer .modulus]

def modSize (c : PrivateKeyInfoCodec) : ℤ := toInt32 (c.integers .modulus).length

/-- An `int` as a `size_t`. -/
def sizeOfInt (size : ℤ) : ℕ := (size % 18446744073709551616).toNat

def componentParts (modSize : ℤ) : List Part :=
  [.integerWithExpectedSize .publicExponent 4, .integerWithExpectedSize .privateExponent (sizeOfInt modSize),
    .integerWithExpectedSize .prime1 (sizeOfInt (modSize.tdiv 2)),
    .integerWithExpectedSize .prime2 (sizeOfInt (modSize.tdiv 2)),
    .integerWithExpectedSize .exponent1 (sizeOfInt (modSize.tdiv 2)),
    .integerWithExpectedSize .exponent2 (sizeOfInt (modSize.tdiv 2)),
    .integerWithExpectedSize .coefficient (sizeOfInt (modSize.tdiv 2)), .atEnd]

def ImportState.new (c : PrivateKeyInfoCodec) (input : List UInt8) : ImportState := ⟨input, 0, c⟩

/-- `Import`. -/
def importKey (c : PrivateKeyInfoCodec) (input : List UInt8) : Option (Bool × ImportState) :=
  if input = [] then some (false, .new c input)
  else
    (readAll modulusParts (.new c input)).bind fun read =>
      if read.1 then
        if (modSize read.2.codec).tmod 2 ≠ 0 then some (false, read.2)
        else readAll (componentParts (modSize read.2.codec)) read.2
      else some read

end Chromium.Crypto
