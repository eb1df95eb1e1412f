import Chromium.Lib.LittleEndian
import Chromium.Lib.MachineInt
import Chromium.Lib.Padding

/-!
# Pickles

`base/pickle.cc`: values are written behind a header, each at a multiple of four, and the header tells how
long they are.  `Pickle` is what the writer holds, `PickleReader` what the constructor over given bytes makes
of them.  The bytes behind the last value are padding that the payload does not count.

The writer starts each value at a multiple of four; the reader moves to one behind each value.  An iterator is
an offset from the payload, `none` before the first read.  A pickle whose header is dropped has no payload.
-/

namespace Chromium.Base

open Lib

/-- The sizes of types that a platform chooses. -/
structure Abi where
  sizeOfSize : ℕ
  sizeOfWchar : ℕ
  sizeOfSize_pos : 0 < sizeOfSize
  sizeOfWchar_pos : 0 < sizeOfWchar

def alignInt (i alignment : ℕ) : ℕ := roundUp alignment i

def kPayloadUnit : ℕ := 64

/-- A value, as it is written and read. -/
inductive Item (abi : Abi)
  | bool (value : Bool)
  | int (value : Int32)
  | int64 (value : Int64)
  | uint16 (value : UInt16)
  | uint32 (value : UInt32)
  | size (value : Fin (256 ^ abi.sizeOfSize))
  | string (value : List UInt8)
  | string16 (value : List UInt16)
  | wstring (value : List (Fin (256 ^ abi.sizeOfWchar)))
  | data (value : List UInt8)
  deriving DecidableEq

inductive Kind
  | bool
  | int
  | int64
  | uint16
  | uint32
  | size
  | string
  | string16
  | wstring
  | data
  deriving DecidableEq

def Item.kind {abi : Abi} : Item abi → Kind
  | bool _ => .bool
  | int _ => .int
  | int64 _ => .int64
  | uint16 _ => .uint16
  | uint32 _ => .uint32
  | size _ => .size
  | string _ => .string
  | string16 _ => .string16
  | wstring _ => .wstring
  | data _ => .data

/-! ## The writer -/

/-- A `Pickle` that is written: the header is the payload size and what users of the class keep
behind it, `buffer` the memory behind the header as far as it was written. -/
structure Pickle where
  headerSize : ℕ
  headerRest : List UInt8
  payloadSize : ℕ
  capacity : ℕ
  buffer : List UInt8
  deriving DecidableEq, Repr

namespace Pickle

variable {abi : Abi} (realloc : ℕ → Bool)

def resize (p : Pickle) (newCapacity : ℕ) : Option Pickle :=
  let newCapacity := alignInt newCapacity kPayloadUnit
  if realloc newCapacity then some { p with capacity := newCapacity } else none

/-- `Pickle(int header_size)`: what stands behind the payload size is not set.  Without memory the
payload size has no place. -/
def create (headerSize : ℕ) (unset : ℕ → UInt8) : Option Pickle :=
  let headerSize := alignInt headerSize 4
  resize realloc
    { headerSize, headerRest := (List.range (headerSize - 4)).map unset, payloadSize := 0, capacity := 0, buffer := [] }
    kPayloadUnit

def beginWrite (p : Pickle) (length : ℕ) : Option (ℕ × Pickle) :=
  let offset := alignInt p.payloadSize 4
  let newSize := offset + length
  let neededSize := p.headerSize + newSize
  let grown := if p.capacity < neededSize then resize realloc p (max (p.capacity * 2) neededSize) else some p
  grown.map fun p => (offset, { p with payloadSize := newSize % 4294967296 })

/-- The zeros that `EndWrite` puts behind the value. -/
def endWrite (length : ℕ) : List UInt8 :=
  if length % 4 ≠ 0 then List.replicate (4 - length % 4) 0 else []

/-- `WriteBytes`.  No block has room for a negative length. -/
def writeBytes (p : Pickle) (data : List UInt8) : ℤ → Option Pickle
  | .ofNat length =>
    (beginWrite realloc p length).map fun (dest, p) =>
      { p with buffer := p.buffer.take dest ++ data.take length ++ endWrite length }
  | .negSucc _ => none

def writeInt (p : Pickle) (value : Int32) : Option Pickle :=
  writeBytes realloc p (toLe 4 value.toUInt32.toNat) 4

/-- A size written as an `int`: `static_cast<int>(value.size())`. -/
def writeSizeAsInt (p : Pickle) (size : ℕ) : Option Pickle := writeInt realloc p (UInt32.ofNat size).toInt32

def writeBool (p : Pickle) (value : Bool) : Option Pickle := writeInt realloc p (if value then 1 else 0)

def writeInt64 (p : Pickle) (value : Int64) : Option Pickle :=
  writeBytes realloc p (toLe 8 value.toUInt64.toNat) 8

def writeUInt16 (p : Pickle) (value : UInt16) : Option Pickle :=
  writeBytes realloc p (toLe 2 value.toNat) 2

def writeUInt32 (p : Pickle) (value : UInt32) : Option Pickle :=
  writeBytes realloc p (toLe 4 value.toNat) 4

def writeSize (p : Pickle) (value : Fin (256 ^ abi.sizeOfSize)) : Option Pickle :=
  writeBytes realloc p (toLe abi.sizeOfSize value) abi.sizeOfSize

def writeString (p : Pickle) (value : List UInt8) : Option Pickle :=
  (writeSizeAsInt realloc p value.length).bind fun p => writeBytes realloc p value (toInt32 value.length)

/-- `WriteString16`: the product is unsigned before it becomes an `int` again. -/
def writeString16 (p : Pickle) (value : List UInt16) : Option Pickle :=
  (writeSizeAsInt realloc p value.length).bind fun p =>
    writeBytes realloc p (arrayBytes 2 (value.map UInt16.toNat)) (toInt32 (toInt32 value.length * 2))

def writeWString (p : Pickle) (value : List (Fin (256 ^ abi.sizeOfWchar))) : Option Pickle :=
  (writeSizeAsInt realloc p value.length).bind fun p =>
    writeBytes realloc p (arrayBytes abi.sizeOfWchar (value.map Fin.val))
      (toInt32 (value.length * abi.sizeOfWchar))

/-- `WriteData`: the length is an `int`. -/
def writeData (p : Pickle) (value : List UInt8) : Option Pickle :=
  let length := toInt32 value.length
  if 0 ≤ length then
    (writeSizeAsInt realloc p value.length).bind fun p => writeBytes realloc p value length
  else none

def write (p : Pickle) : Item abi → Option Pickle
  | .bool value => writeBool realloc p value
  | .int value => writeInt realloc p value
  | .int64 value => writeInt64 realloc p value
  | .uint16 value => writeUInt16 realloc p value
  | .uint32 value => writeUInt32 realloc p value
  | .size value => writeSize realloc p value
  | .string value => writeString realloc p value
  | .string16 value => writeString16 realloc p value
  | .wstring value => writeWString realloc p value
  | .data value => writeData realloc p value

/-- A sequence of writes, each of which returns `true`. -/
def writeAll (p : Pickle) : List (Item abi) → Option Pickle
  | [] => some p
  | item :: items => (write realloc p item).bind fun p => writeAll p items

/-- The `size()` bytes at `data()`. -/
def data (p : Pickle) : List UInt8 := toLe 4 p.payloadSize ++ p.headerRest ++ p.buffer.take p.payloadSize

end Pickle

/-! ## The reader -/

/-- `Pickle(const char* data, int data_len)`. -/
structure PickleReader where
  bytes : List UInt8
  headerSize : ℕ
  deriving DecidableEq, Repr

namespace PickleReader

def ofData (bytes : List UInt8) : PickleReader :=
  let payloadSize := leNat (bytes.take 4)
  let headerSize := if 4 ≤ bytes.length then (bytes.length + 4294967296 - payloadSize) % 4294967296 else 0
  let headerSize := if bytes.length < headerSize then 0 else headerSize
  let headerSize := if headerSize ≠ alignInt headerSize 4 then 0 else headerSize
  { bytes, headerSize }

/-- From `payload()` to `end_of_payload()`. -/
def payload (r : PickleReader) : List UInt8 :=
  if r.headerSize = 0 then [] else (r.bytes.drop r.headerSize).take (leNat (r.bytes.take 4))

variable (abi : Abi) (r : PickleReader)

def iteratorHasRoomFor (iter : ℕ) (len : ℤ) : Bool :=
  0 ≤ len && iter ≤ r.payload.length && iter + len ≤ r.payload.length

def updateIter (iter bytes : ℕ) : ℕ := iter + alignInt bytes 4

/-- `ReadBytes`: the bytes, and where the iterator stands then. -/
def readBytes (iter : Option ℕ) (length : ℤ) : Option (List UInt8 × Option ℕ) :=
  let pos := iter.getD 0
  if r.iteratorHasRoomFor pos length then
    some ((r.payload.drop pos).take length.toNat, some (updateIter pos length.toNat))
  else none

/-- A number of `w` bytes: `ReadInt`, `ReadSize` and their like differ in the type only. -/
def readNumber (iter : Option ℕ) (w : ℕ) : Option (ℕ × Option ℕ) :=
  (r.readBytes iter w).map fun (bytes, iter) => (leNat bytes, iter)

def readInt (iter : Option ℕ) : Option (Int32 × Option ℕ) :=
  (r.readNumber iter 4).map fun (n, iter) => ((UInt32.ofNat n).toInt32, iter)

def readBool (iter : Option ℕ) : Option (Bool × Option ℕ) :=
  (r.readInt iter).map fun (tmp, iter) => (tmp != 0, iter)

def readInt64 (iter : Option ℕ) : Option (Int64 × Option ℕ) :=
  (r.readNumber iter 8).map fun (n, iter) => ((UInt64.ofNat n).toInt64, iter)

def readUInt16 (iter : Option ℕ) : Option (UInt16 × Option ℕ) :=
  (r.readNumber iter 2).map fun (n, iter) => (UInt16.ofNat n, iter)

def readUInt32 (iter : Option ℕ) : Option (UInt32 × Option ℕ) :=
  (r.readNumber iter 4).map fun (n, iter) => (UInt32.ofNat n, iter)

/-- A number read as one of `w` bytes. -/
def finOfNat (w n : ℕ) : Fin (256 ^ w) := ⟨n % 256 ^ w, Nat.mod_lt _ (Nat.pow_pos (by decide))⟩

def readSize (iter : Option ℕ) : Option (Fin (256 ^ abi.sizeOfSize) × Option ℕ) :=
  (r.readNumber iter abi.sizeOfSize).map fun (n, iter) => (finOfNat _ n, iter)

def readLength (iter : Option ℕ) : Option (ℕ × Option ℕ) :=
  (r.readInt iter).bind fun (result, iter) =>
    if 0 ≤ result.toInt then some (result.toInt.toNat, iter) else none

def readString (iter : Option ℕ) : Option (List UInt8 × Option ℕ) :=
  (r.readLength iter).bind fun (len, iter) => r.readBytes iter len

/-- `ReadWString`: the first test is there to avoid an overflow. -/
def readWString (iter : Option ℕ) : Option (List (Fin (256 ^ abi.sizeOfWchar)) × Option ℕ) :=
  (r.readLength iter).bind fun (len, iter) =>
    if 2147483647 / abi.sizeOfWchar < len then none
    else (r.readBytes iter (toInt32 (len * abi.sizeOfWchar))).map fun (bytes, iter) =>
      ((readArray abi.sizeOfWchar len bytes).map (finOfNat _), iter)

def readString16 (iter : Option ℕ) : Option (List UInt16 × Option ℕ) :=
  (r.readLength iter).bind fun (len, iter) =>
    (r.readBytes iter (toInt32 (len * 2))).map fun (bytes, iter) =>
      ((readArray 2 len bytes).map UInt16.ofNat, iter)

def readData (iter : Option ℕ) : Option (List UInt8 × Option ℕ) :=
  (r.readLength iter).bind fun (len, iter) => r.readBytes iter len

def read (iter : Option ℕ) : Kind → Option (Item abi × Option ℕ)
  | .bool => (r.readBool iter).map fun (value, iter) => (.bool value, iter)
  | .int => (r.readInt iter).map fun (value, iter) => (.int value, iter)
  | .int64 => (r.readInt64 iter).map fun (value, iter) => (.int64 value, iter)
  | .uint16 => (r.readUInt16 iter).map fun (value, iter) => (.uint16 value, iter)
  | .uint32 => (r.readUInt32 iter).map fun (value, iter) => (.uint32 value, iter)
  | .size => (r.readSize abi iter).map fun (value, iter) => (.size value, iter)
  | .string => (r.readString iter).map fun (value, iter) => (.string value, iter)
  | .string16 => (r.readString16 iter).map fun (value, iter) => (.string16 value, iter)
  | .wstring => (r.readWString abi iter).map fun (value, iter) => (.wstring value, iter)
  | .data => (r.readData iter).map fun (value, iter) => (.data value, iter)

def readAll (iter : Option ℕ) : List Kind → Option (List (Item abi) × Option ℕ)
  | [] => some ([], iter)
  | kind :: kinds =>
    (r.read abi iter kind).bind fun (item, iter) =>
      (readAll iter kinds).map fun (items, iter) => (item :: items, iter)

end PickleReader

end Chromium.Base
