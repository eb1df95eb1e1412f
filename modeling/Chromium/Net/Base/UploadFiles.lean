import Chromium.Lib.MachineInt
import Mathlib.Algebra.BigOperators.Group.List.Basic

/-!
# An upload of bytes and files

`net/base/upload_data.cc` and `upload_data_stream.cc` for a body that is not chunked: its elements go through a buffer,
and a file is read piece by piece.  How much a read gives is up to the file system: the `i`-th read gives `source i`
bytes, or as many as there are if these are fewer, and at least one before the end of the file.
-/

namespace Chromium.Net.Upload

open Lib

/-- An element that is a file.  `content` is none where the file cannot be opened, `fileSize` and `lastModified` where the
file system does not say. -/
structure UploadFile where
  content : Option (List UInt8)
  fileSize : Option ℕ
  lastModified : Option ℤ
  fileRangeOffset : ℕ
  fileRangeLength : ℕ
  expectedFileModificationTime : Option ℤ
  overrideContentLength : Option ℕ

namespace UploadFile

/-- `NewFileStreamForReading`: what the stream gives from its position on.  A position is an `int64`. -/
def newFileStreamForReading (f : UploadFile) : Option (List UInt8) :=
  if 9223372036854775808 ≤ f.fileRangeOffset then none else f.content.map (List.drop f.fileRangeOffset)

def getContentLength (f : UploadFile) : ℕ :=
  match f.overrideContentLength with
  | some length => length
  | none =>
    if f.newFileStreamForReading = none then 0
    else
      match f.fileSize with
      | none => 0
      | some length => if length ≤ f.fileRangeOffset then 0 else min (length - f.fileRangeOffset) f.fileRangeLength

def isChanged (f : UploadFile) : Bool :=
  match f.expectedFileModificationTime, f.lastModified with
  | some expected, some lastModified => expected != lastModified
  | _, _ => false

end UploadFile

inductive Element
  | bytes (data : List UInt8)
  | file (f : UploadFile)

def Element.getContentLength : Element → ℕ
  | bytes data => data.length
  | file f => f.getContentLength

def kBufSize : ℕ := 16384

structure UploadDataStream where
  elements : List Element
  buf : List UInt8
  nextElement : ℕ
  nextElementOffset : ℕ
  nextElementStream : Option (List UInt8)
  nextElementRemaining : ℕ
  totalSize : ℕ
  currentPosition : ℕ
  eof : Bool
  /-- How many reads there were. -/
  reads : ℕ

namespace UploadDataStream

def new (elements : List Element) : UploadDataStream where
  elements := elements
  buf := []
  nextElement := 0
  nextElementOffset := 0
  nextElementStream := none
  nextElementRemaining := 0
  totalSize := (elements.map Element.getContentLength).sum % 18446744073709551616
  currentPosition := 0
  eof := false
  reads := 0

variable (source : ℕ → ℕ) (u : UploadDataStream)

def readSize (count available : ℕ) : ℕ := min available (min count (max 1 (source u.reads)))

def advance : UploadDataStream :=
  { u with
    nextElement := u.nextElement + 1
    nextElementOffset := 0
    nextElementRemaining := 0
    nextElementStream := none }

def openFile (f : UploadFile) : UploadDataStream :=
  if u.nextElementRemaining = 0 then
    { u with nextElementRemaining := f.getContentLength, nextElementStream := f.newFileStreamForReading }
  else u

/-- What a read of `count` bytes gives. -/
def readBytes (count : ℕ) : List UInt8 :=
  let available := u.nextElementStream.getD []
  available.take (readSize source u count available.length)

def readFile (count : ℕ) : UploadDataStream × ℕ :=
  if count = 0 then (u, 0)
  else
    let bytes := u.readBytes source count
    let filled := if bytes = [] then List.replicate count 0 else bytes
    ({ u with
      buf := u.buf ++ filled
      nextElementStream := u.nextElementStream.map (List.drop bytes.length)
      reads := u.reads + 1 }, filled.length)

def copyBytes (data : List UInt8) : UploadDataStream :=
  let count := data.length - u.nextElementOffset
  let bytesCopied := min count (kBufSize - u.buf.length)
  let u' := { u with buf := u.buf ++ (data.drop u.nextElementOffset).take bytesCopied }
  if bytesCopied = count then u'.advance else { u' with nextElementOffset := u.nextElementOffset + bytesCopied }

/-- The part of a file that is left, or that has room.  The part that is left is compared as an `int`. -/
def copyFile (f : UploadFile) : UploadDataStream :=
  let u' := u.openFile f
  let (u'', rv) := u'.readFile source (min u'.nextElementRemaining (kBufSize - u'.buf.length))
  if toInt32 u''.nextElementRemaining = rv then u''.advance
  else { u'' with nextElementRemaining := u''.nextElementRemaining - rv }

def HasTurn : Prop := u.buf.length < kBufSize ∧ u.nextElement < u.elements.length

instance decidableHasTurn : Decidable u.HasTurn := inferInstanceAs (Decidable (_ ∧ _))

/-- A turn of the loop of `FillBuf`, which is refused for a file that was changed. -/
def fillTurn : Option UploadDataStream :=
  match u.elements[u.nextElement]? with
  | none => some u
  | some (.bytes data) => some (u.copyBytes data)
  | some (.file f) => if u.nextElementRemaining = 0 ∧ f.isChanged then none else some (u.copyFile source f)

/-- The loop of `FillBuf`. -/
def fillLoop : ℕ → UploadDataStream → Bool × UploadDataStream
  | 0, u => (true, u)
  | turns + 1, u =>
    if u.HasTurn then
      match u.fillTurn source with
      | none => (false, u)
      | some u' => fillLoop turns u'
    else (true, u)

def turns : ℕ := (kBufSize - u.buf.length) + (u.elements.length - u.nextElement)

def fillBuf : Bool × UploadDataStream :=
  let (ok, u') := fillLoop source u.turns u
  (ok, { u' with eof := u'.eof ∨ (ok ∧ u'.nextElement = u'.elements.length ∧ u'.buf = []) })

def create (elements : List Element) : Option UploadDataStream :=
  let (ok, u) := (new elements).fillBuf source
  if ok then some u else none

def markConsumedAndFillBuffer (numBytes : ℕ) : UploadDataStream :=
  let u' := ({ u with buf := u.buf.drop numBytes }.fillBuf source).2
  { u' with currentPosition := (u'.currentPosition + numBytes) % 18446744073709551616 }

end UploadDataStream

end Chromium.Net.Upload
