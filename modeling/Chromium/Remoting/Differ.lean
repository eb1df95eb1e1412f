import Chromium.Lib.Grid

/-!
# The dirty blocks of a screen

`remoting/host/differ.cc`.  A frame buffer is a list of bytes, and a pointer into it an offset; a read outside of a
buffer, or outside of `diff_info_`, is `none`.  The sizes are numbers without a bound: no `int` overflows.

`BlockDifference` is a parameter that compares a block of pixels (`ComparesBlocks`).
-/

namespace Chromium.Remoting

open Lib

def kBlockSize : ℕ := 32

structure SkIRect where
  left : ℕ
  top : ℕ
  width : ℕ
  height : ℕ
  deriving DecidableEq

structure Differ where
  width : ℕ
  height : ℕ
  bytesPerPixel : ℕ
  bytesPerRow : ℕ

/-- `BlockDifference`, of two blocks at the same offset of two buffers. -/
abbrev BlockDifference : Type := (prev curr : List UInt8) → (offset stride : ℕ) → Option Bool

def memcmp (prev curr : List UInt8) (offset n : ℕ) : Option Bool :=
  if offset + n ≤ prev.length ∧ offset + n ≤ curr.length then
    some (decide ((prev.drop offset).take n ≠ (curr.drop offset).take n))
  else none

namespace Differ

variable (differ : Differ)

def diffInfoWidth : ℕ := (differ.width + kBlockSize - 1) / kBlockSize + 1

def diffInfoHeight : ℕ := (differ.height + kBlockSize - 1) / kBlockSize + 1

/-- The rows of `DiffPartialBlock`. -/
def diffRows (stride widthBytes : ℕ) (prev curr : List UInt8) : (offset height : ℕ) → Option Bool
  | _, 0 => some false
  | offset, height + 1 =>
    match memcmp prev curr offset widthBytes with
    | none => none
    | some true => some true
    | some false => diffRows stride widthBytes prev curr (offset + stride) height

def diffPartialBlock (prev curr : List UInt8) (offset width height : ℕ) : Option Bool :=
  diffRows differ.bytesPerRow (width * differ.bytesPerPixel) prev curr offset height

/-- A loop over `count` blocks of a row of blocks: the offset, the index into `diff_info_`, and `diff_info_`. -/
def markBlocks (block : ℕ → Option Bool) (blockXOffset : ℕ) :
    (count offset index : ℕ) → List Bool → Option (ℕ × ℕ × List Bool)
  | 0, offset, index, diffInfo => some (offset, index, diffInfo)
  | count + 1, offset, index, diffInfo =>
    (block offset).bind fun b => (storeBit diffInfo index b).bind fun diffInfo =>
      markBlocks block blockXOffset count (offset + blockXOffset) (index + 1) diffInfo

def markRow (full part : ℕ → Option Bool) (rowStart diffInfoRowStart : ℕ) (diffInfo : List Bool) :
    Option (List Bool) :=
  let xFullBlocks := differ.width / kBlockSize
  let partialColumnWidth := differ.width - xFullBlocks * kBlockSize
  (markBlocks full (differ.bytesPerPixel * kBlockSize) xFullBlocks rowStart diffInfoRowStart diffInfo).bind fun
    (offset, index, diffInfo) =>
      if partialColumnWidth ≠ 0 then (part offset).bind fun b => storeBit diffInfo index b else some diffInfo

/-- The loop over the rows of full blocks: where the row after them starts, and `diff_info_`. -/
def markRows (full part : ℕ → Option Bool) :
    (count rowStart diffInfoRowStart : ℕ) → List Bool → Option (ℕ × ℕ × List Bool)
  | 0, rowStart, diffInfoRowStart, diffInfo => some (rowStart, diffInfoRowStart, diffInfo)
  | count + 1, rowStart, diffInfoRowStart, diffInfo =>
    (differ.markRow full part rowStart diffInfoRowStart diffInfo).bind fun diffInfo =>
      markRows full part count (rowStart + differ.width * differ.bytesPerPixel * kBlockSize)
        (diffInfoRowStart + differ.diffInfoWidth) diffInfo

def markDirtyBlocks (blockDifference : BlockDifference) (prev curr : List UInt8) : Option (List Bool) :=
  let diffInfo := List.replicate (differ.diffInfoWidth * differ.diffInfoHeight) false
  let yFullBlocks := differ.height / kBlockSize
  let partialColumnWidth := differ.width - differ.width / kBlockSize * kBlockSize
  let partialRowHeight := differ.height - yFullBlocks * kBlockSize
  (differ.markRows (fun offset => blockDifference prev curr offset differ.bytesPerRow)
      (fun offset => differ.diffPartialBlock prev curr offset partialColumnWidth kBlockSize) yFullBlocks 0 0
      diffInfo).bind fun (rowStart, diffInfoRowStart, diffInfo) =>
    if partialRowHeight ≠ 0 then
      differ.markRow (fun offset => differ.diffPartialBlock prev curr offset kBlockSize partialRowHeight)
        (fun offset => differ.diffPartialBlock prev curr offset partialColumnWidth partialRowHeight) rowStart
        diffInfoRowStart diffInfo
    else some diffInfo

/-! ### Merging blocks -/

/-- The loop that groups with blocks to the right: `diff_info_` and the width. -/
def eraseRight : (fuel : ℕ) → List Bool → (right width : ℕ) → Option (List Bool × ℕ)
  | 0, _, _, _ => none
  | fuel + 1, diffInfo, right, width =>
    match diffInfo[right]? with
    | none => none
    | some false => some (diffInfo, width)
    | some true => (storeBit diffInfo right false).bind fun diffInfo => eraseRight fuel diffInfo (right + 1) (width + 1)

/-- `found_new_row`: all `width` blocks of a row are marked. -/
def foundNewRow (diffInfo : List Bool) : (width right : ℕ) → (found : Bool) → Option Bool
  | 0, _, found => some found
  | width + 1, right, found =>
    diffInfo[right]?.bind fun b => foundNewRow diffInfo width (right + 1) (if b then found else false)

def eraseRow : (width : ℕ) → List Bool → (right : ℕ) → Option (List Bool)
  | 0, diffInfo, _ => some diffInfo
  | width + 1, diffInfo, right =>
    (storeBit diffInfo right false).bind fun diffInfo => eraseRow width diffInfo (right + 1)

/-- The loop that groups with blocks below: `diff_info_` and the height. -/
def eraseBelow (stride width : ℕ) : (fuel : ℕ) → List Bool → (bottom height : ℕ) → Option (List Bool × ℕ)
  | 0, _, _, _ => none
  | fuel + 1, diffInfo, bottom, height =>
    (foundNewRow diffInfo width (bottom + stride) true).bind fun found =>
      if found then
        (eraseRow width diffInfo (bottom + stride)).bind fun diffInfo =>
          eraseBelow stride width fuel diffInfo (bottom + stride) (height + 1)
      else some (diffInfo, height)

def blockRect (x y width height : ℕ) : SkIRect where
  left := x * kBlockSize
  top := y * kBlockSize
  width :=
    if x * kBlockSize + width * kBlockSize > differ.width then differ.width - x * kBlockSize else width * kBlockSize
  height :=
    if y * kBlockSize + height * kBlockSize > differ.height then differ.height - y * kBlockSize
    else height * kBlockSize

/-- The body of the loop of `MergeBlocks`, for the block `(x, y)` with its index. -/
def mergeBlock (x y index : ℕ) (diffInfo : List Bool) (region : List SkIRect) :
    Option (List Bool × List SkIRect) :=
  match diffInfo[index]? with
  | none => none
  | some false => some (diffInfo, region)
  | some true =>
    (storeBit diffInfo index false).bind fun diffInfo =>
      (eraseRight (diffInfo.length + 1) diffInfo (index + 1) 1).bind fun (diffInfo, width) =>
        (eraseBelow differ.diffInfoWidth width (diffInfo.length + 1) diffInfo index 1).map fun (diffInfo, height) =>
          (diffInfo, region ++ [differ.blockRect x y width height])

def mergeRow (y : ℕ) : (count x index : ℕ) → List Bool → List SkIRect → Option (List Bool × List SkIRect)
  | 0, _, _, diffInfo, region => some (diffInfo, region)
  | count + 1, x, index, diffInfo, region =>
    (differ.mergeBlock x y index diffInfo region).bind fun (diffInfo, region) =>
      mergeRow y count (x + 1) (index + 1) diffInfo region

def mergeRows : (count y rowStart : ℕ) → List Bool → List SkIRect → Option (List Bool × List SkIRect)
  | 0, _, _, diffInfo, region => some (diffInfo, region)
  | count + 1, y, rowStart, diffInfo, region =>
    (differ.mergeRow y differ.diffInfoWidth 0 rowStart diffInfo region).bind fun (diffInfo, region) =>
      mergeRows count (y + 1) (rowStart + differ.diffInfoWidth) diffInfo region

def mergeBlocks (diffInfo : List Bool) : Option (List SkIRect) :=
  (differ.mergeRows differ.diffInfoHeight 0 0 diffInfo []).map Prod.snd

def calcDirtyRegion (blockDifference : BlockDifference) (prev curr : List UInt8) : Option (List SkIRect) :=
  (differ.markDirtyBlocks blockDifference prev curr).bind differ.mergeBlocks

end Differ

end Chromium.Remoting
