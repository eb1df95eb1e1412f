import Chromium.Lib.MachineInt
import Chromium.Lib.Stream

/-!
# Sparse entries

`net/disk_cache/sparse_control.cc`: a sparse entry keeps each megabyte of its data in a child
entry of its own.  The child's data tell which blocks of 1 KB are there, by a bitmap and by the
length of the block that was written last; a block at the end of the child's stream counts as
filled up to there.  An operation goes from child to child.

* `SparseData.Fits.verifyReadRange_eq_some`, `SparseData.Fits.findAvailable_eq_some`: the ranges
  that a read and `GetAvailableRange` take are there, in terms of `SparseData.Has`;
* `SparseData.Fits.updateRange`: a write keeps the data of a child fitting its stream.
-/

namespace Chromium.Net.DiskCache

open Lib (toInt64 writeAt readAt)

def ERR_INVALID_ARGUMENT : ℤ := -4

def ERR_CACHE_READ_FAILURE : ℤ := -401

def ERR_CACHE_OPERATION_NOT_SUPPORTED : ℤ := -403

def kIndexMagic : ℕ := 0xC103CAC3

/-- `kMaxEntrySize`: the bytes that a child can store. -/
def kMaxEntrySize : ℕ := 0x100000

def kBlockSize : ℕ := 1024

/-! ### Bitmaps -/

def findNextBit (map : ℕ → Bool) (index limit : ℕ) (value : Bool) : Option ℕ :=
  (List.range' index (limit - index)).find? fun i => map i = value

/-- `Bitmap::FindBits`: the first bit that is found and the number of bits. -/
def findBits (map : ℕ → Bool) (index limit : ℕ) (value : Bool) : ℕ × ℕ :=
  match findNextBit map index limit value with
  | none => (index, 0)
  | some i =>
    match findNextBit map i limit (!value) with
    | none => (i, limit - i)
    | some last => (i, last - i)

def setRange (map : ℕ → Bool) (first last : ℕ) (value : Bool) : ℕ → Bool := fun i =>
  if first ≤ i ∧ i < last then value else map i

/-! ### The data of a child -/

structure SparseHeader where
  signature : ℤ
  magic : ℕ
  parentKeyLen : ℤ
  lastBlock : ℤ
  lastBlockLen : ℤ

structure SparseData where
  header : SparseHeader
  bitmap : ℕ → Bool

/-- A child entry: its flag `CHILD_ENTRY`, what its stream `kSparseIndex` holds when that is long
enough, and its stream `kSparseData`. -/
structure ChildEntry where
  childFlag : Bool
  sparseIndex : Option SparseData
  sparseData : List UInt8

/-- `PartialBlockLength` for a child with so many bytes of data. -/
def partialBlockLength (childData : SparseData) (entryLen blockIndex : ℕ) : ℕ :=
  if childData.header.lastBlock = blockIndex then childData.header.lastBlockLen.toNat
  else if blockIndex = entryLen / 1024 then entryLen % kBlockSize
  else 0

/-- The range that `VerifyRange` leaves of a read: its length in the child and what is left of the
buffer. -/
def verifyReadRange (childData : SparseData) (entryLen childOffset childLen bufLen : ℕ) :
    Option (ℕ × ℕ) :=
  let lastBit := (childOffset + childLen + 1023) / 1024
  match findNextBit childData.bitmap (childOffset / 1024) lastBit false with
  | none => some (childLen, bufLen)
  | some start =>
    let partialBlockLen := partialBlockLength childData entryLen start
    if start = childOffset / 1024 ∧ partialBlockLen ≤ childOffset % kBlockSize then none
    else
      let childLen :=
        if partialBlockLen ≠ 0 then min (start * 1024 + partialBlockLen - childOffset) bufLen
        else start * 1024 - childOffset
      some (childLen, childLen)

def updateRange (childData : SparseData) (childOffset result : ℕ) : SparseData :=
  let firstBit := childOffset / 1024
  let blockOffset := childOffset % kBlockSize
  let firstBit :=
    if blockOffset ≠ 0 ∧ (childData.header.lastBlock ≠ firstBit ∨
        childData.header.lastBlockLen < blockOffset) then firstBit + 1
    else firstBit
  let lastBit := (childOffset + result) / 1024
  let blockOffset := (childOffset + result) % kBlockSize
  if lastBit < firstBit then childData
  else
    { header :=
        if blockOffset ≠ 0 ∧ childData.bitmap lastBit = false then
          { childData.header with lastBlock := lastBit, lastBlockLen := blockOffset }
        else { childData.header with lastBlock := -1 }
      bitmap := setRange childData.bitmap firstBit lastBit true }

/-- What `DoGetAvailableRange` finds in a child: the bytes that are empty before what it finds, and
the bytes of that. -/
def findAvailable (childData : SparseData) (entryLen childOffset childLen : ℕ) : Option (ℕ × ℕ) :=
  let lastBit := (childOffset + childLen + 1023) / 1024
  let start := childOffset / 1024
  let partialStartBytes := partialBlockLength childData entryLen start
  let (found, bitsFound) := findBits childData.bitmap start lastBit true
  let blockOffset := childOffset % kBlockSize
  if bitsFound = 0 ∧ partialStartBytes ≤ blockOffset then none
  else if bitsFound = 0 then some (0, min (partialStartBytes - blockOffset) childLen)
  else
    let emptyStart := found * 1024 - childOffset
    let bytesFound := bitsFound * 1024 + partialBlockLength childData entryLen (found + bitsFound)
    let bytesFound := if start = found then bytesFound - blockOffset else bytesFound
    some (emptyStart, min bytesFound (childLen - emptyStart))

/-! ### The entry -/

inductive SparseOperation
  | kNoOperation
  | kReadOperation
  | kWriteOperation
  | kGetRangeOperation
  deriving DecidableEq

/-- `SparseControl`, and the child entries that the backend stores under the name and the signature
of the entry.  `userBuf` is what is still to be written, `dataRead` what was read so far. -/
structure SparseControl where
  sparseHeader : SparseHeader
  childrenMap : ℕ → Bool
  backend : ℕ → Option ChildEntry
  child : Option ℕ
  childData : SparseData
  operation : SparseOperation
  offset : ℕ
  userBuf : List UInt8
  dataRead : List UInt8
  bufLen : ℕ
  childOffset : ℕ
  childLen : ℕ
  result : ℤ
  rangeFound : Bool

namespace SparseControl

def createSparseEntry (signature parentKeyLen : ℤ) : SparseControl where
  sparseHeader := ⟨signature, kIndexMagic, parentKeyLen, 0, 0⟩
  childrenMap _ := false
  backend _ := none
  child := none
  childData := ⟨⟨0, 0, 0, 0, 0⟩, fun _ => false⟩
  operation := .kNoOperation
  offset := 0
  userBuf := []
  dataRead := []
  bufLen := 0
  childOffset := 0
  childLen := 0
  result := 0
  rangeFound := false

variable (c : SparseControl)

def childId : ℕ := c.offset / 1048576

def closeChild : SparseControl :=
  match c.child with
  | none => c
  | some id =>
    { c with
      backend := Function.update c.backend id
        ((c.backend id).map fun e => { e with sparseIndex := some c.childData })
      child := none }

def setChildBit (value : Bool) : SparseControl :=
  { c with childrenMap := Function.update c.childrenMap c.childId value }

def initChildData : SparseControl :=
  let childData := ⟨c.sparseHeader, fun _ => false⟩
  setChildBit { c with
    childData := childData
    backend := Function.update c.backend c.childId
      ((c.backend c.childId).map fun e =>
        { e with childFlag := true, sparseIndex := some childData }) } true

/-- `ContinueWithoutChild`; a child can be created when the backend has none under its key. -/
def continueWithoutChild : SparseControl × Bool :=
  match c.operation with
  | .kReadOperation => (c, false)
  | .kGetRangeOperation => (c, true)
  | _ =>
    match c.backend c.childId with
    | some _ => ({ c with result := ERR_CACHE_READ_FAILURE }, false)
    | none =>
      (initChildData { c with
        child := some c.childId
        backend := Function.update c.backend c.childId (some ⟨false, none, []⟩) }, true)

def killChildAndContinue : SparseControl × Bool :=
  continueWithoutChild (setChildBit { c with
    child := none
    backend := Function.update c.backend c.childId none } false)

def checkLastBlock (childData : SparseData) : SparseData :=
  if childData.header.lastBlockLen < 0 ∨ kBlockSize < childData.header.lastBlockLen then
    { childData with header := { childData.header with lastBlock := -1, lastBlockLen := 0 } }
  else childData

def openChild : SparseControl × Bool :=
  if c.child = some c.childId then (c, true)
  else
    let c := c.closeChild
    if c.childrenMap c.childId = false then c.continueWithoutChild
    else
      match c.backend c.childId with
      | none => c.continueWithoutChild
      | some ⟨true, some childData, _⟩ =>
        if childData.header.signature ≠ c.sparseHeader.signature ∨
            childData.header.magic ≠ kIndexMagic then c.killChildAndContinue
        else ({ c with child := some c.childId, childData := checkLastBlock childData }, true)
      | some _ => c.killChildAndContinue

/-- The stream `kSparseData` of the open child. -/
def childStream : List UInt8 :=
  match c.child with
  | none => []
  | some id => ((c.backend id).map ChildEntry.sparseData).getD []

def verifyRange : SparseControl × Bool :=
  let childOffset := c.offset % kMaxEntrySize
  let childLen := min c.bufLen (kMaxEntrySize - childOffset)
  let c := { c with childOffset := childOffset, childLen := childLen }
  match c.operation with
  | .kReadOperation =>
    match verifyReadRange c.childData c.childStream.length childOffset childLen c.bufLen with
    | none => (c, false)
    | some (childLen, bufLen) => ({ c with childLen := childLen, bufLen := bufLen }, true)
  | _ => (c, true)

def doGetAvailableRange : SparseControl × ℕ :=
  match c.child with
  | none => (c, c.childLen)
  | some _ =>
    match findAvailable c.childData c.childStream.length c.childOffset c.childLen with
    | none => (c, c.childLen)
    | some (emptyStart, bytesFound) =>
      ({ c with
          rangeFound := true
          result := bytesFound
          offset := c.offset + emptyStart
          bufLen := 0 }, 0)

def doChildIoCompleted (result : ℕ) : SparseControl :=
  { c with
    childData :=
      if c.operation = .kWriteOperation then updateRange c.childData c.childOffset result
      else c.childData
    result := c.result + result
    offset := c.offset + result
    bufLen := c.bufLen - result
    userBuf := c.userBuf.drop result }

/-- `ReadDataImpl` of the open child. -/
def readChild : SparseControl × ℕ :=
  let data := readAt c.childStream c.childOffset c.childLen
  ({ c with dataRead := c.dataRead ++ data }, data.length)

/-- `WriteDataImpl` of the open child. -/
def writeChild : SparseControl × ℕ :=
  match c.child with
  | none => (c, 0)
  | some id =>
    ({ c with
        backend := Function.update c.backend id ((c.backend id).map fun e =>
          { e with
            sparseData := writeAt 0 e.sparseData c.childOffset (c.userBuf.take c.childLen) }) },
      c.childLen)

/-- The operation of `DoChildIO` on the open child. -/
def childOperation : SparseControl × ℕ :=
  match c.operation with
  | .kReadOperation => c.readChild
  | .kWriteOperation => c.writeChild
  | .kGetRangeOperation => c.doGetAvailableRange
  | .kNoOperation => (c, 0)

def doChildIo : SparseControl × Bool :=
  if c.bufLen = 0 ∨ c.result < 0 then (c, false)
  else
    let opened := c.openChild
    if opened.2 = false then opened
    else
      let verified := opened.1.verifyRange
      if verified.2 = false then verified
      else
        let r := verified.1.childOperation
        if r.2 = 0 then (r.1, false) else (r.1.doChildIoCompleted r.2, true)

/-- `DoChildrenIO`; every round but the last one shortens the buffer. -/
def doChildrenIo : ℕ → SparseControl → SparseControl
  | 0, c => c
  | n + 1, c =>
    let r := c.doChildIo
    if r.2 then doChildrenIo n r.1 else r.1

/-- `StartIO`: the operation is carried out, or it is refused with an error. -/
def startIo (operation : SparseOperation) (offset : ℤ) (buf : List UInt8) (bufLen : ℤ) :
    SparseControl × ℤ :=
  if c.operation ≠ .kNoOperation then (c, ERR_CACHE_OPERATION_NOT_SUPPORTED)
  else if offset < 0 ∨ bufLen < 0 then (c, ERR_INVALID_ARGUMENT)
  else if 0x1000000000 ≤ toInt64 (offset + bufLen) ∨ toInt64 (offset + bufLen) < 0 then
    (c, ERR_CACHE_OPERATION_NOT_SUPPORTED)
  else
    let c := doChildrenIo bufLen.toNat { c with
      operation := operation
      offset := offset.toNat
      userBuf := buf
      dataRead := []
      bufLen := bufLen.toNat
      result := 0 }
    ({ c with operation := .kNoOperation, userBuf := [] }, c.result)

/-- `ReadSparseData`: the entry, the result and the data that were read. -/
def readSparseData (offset len : ℤ) : SparseControl × ℤ × List UInt8 :=
  let r := { c with dataRead := [] }.startIo .kReadOperation offset [] len
  (r.1, r.2, r.1.dataRead)

def writeSparseData (offset : ℤ) (buf : List UInt8) : SparseControl × ℤ :=
  c.startIo .kWriteOperation offset buf buf.length

/-- `GetAvailableRange`: the entry, the result and the start of the range. -/
def getAvailableRange (offset len : ℤ) : SparseControl × ℤ × ℤ :=
  if c.operation ≠ .kNoOperation then (c, ERR_CACHE_OPERATION_NOT_SUPPORTED, offset)
  else
    let r := { c with rangeFound := false }.startIo .kGetRangeOperation offset [] len
    if r.1.rangeFound then (r.1, r.2, r.1.offset)
    else (r.1, if r.2 < 0 then r.2 else 0, offset)

def reopen : SparseControl := { c.closeChild with operation := .kNoOperation }

end SparseControl

/-! ### The blocks of a child -/

variable {map : ℕ → Bool} {index limit first last i : ℕ} {value : Bool}

theorem findNextBit_eq_none (h : findNextBit map index limit value = none) (h1 : index ≤ i)
    (h2 : i < limit) : map i = !value := by
  rw [findNextBit, List.find?_eq_none] at h
  have hi := h i (List.mem_range'_1.2 (by omega))
  rw [decide_eq_true_eq] at hi
  exact Bool.eq_not_of_ne hi

theorem findNextBit_eq_some {j : ℕ} (h : findNextBit map index limit value = some j) :
    index ≤ j ∧ j < limit ∧ map j = value ∧ ∀ i, index ≤ i → i < j → map i = !value := by
  rw [findNextBit, List.find?_range'_eq_some] at h
  obtain ⟨hj, hmem, hbefore⟩ := h
  rw [List.mem_range'_1] at hmem
  refine ⟨hmem.1, by omega, of_decide_eq_true hj, fun i h1 h2 => ?_⟩
  have hi := hbefore i h1 h2
  rw [Bool.not_eq_true', decide_eq_false_iff_not] at hi
  exact Bool.eq_not_of_ne hi

theorem findBits_spec {found n : ℕ} (h : findBits map index limit true = (found, n)) :
    (n = 0 ∧ found = index ∧ ∀ i, index ≤ i → i < limit → map i = false) ∨
      (0 < n ∧ index ≤ found ∧ found + n ≤ limit ∧ (∀ i, found ≤ i → i < found + n → map i = true) ∧
        ∀ i, index ≤ i → i < found → map i = false) := by
  unfold findBits at h
  cases hfirst : findNextBit map index limit true with
  | none =>
    rw [hfirst] at h
    cases h
    exact .inl ⟨rfl, rfl, fun i h1 h2 => findNextBit_eq_none hfirst h1 h2⟩
  | some j =>
    obtain ⟨h1, h2, hj, hbefore⟩ := findNextBit_eq_some hfirst
    rw [hfirst] at h
    dsimp only at h
    cases hend : findNextBit map j limit (!true) with
    | none =>
      rw [hend] at h
      cases h
      exact .inr ⟨by omega, h1, by omega, fun i h3 h4 => findNextBit_eq_none hend h3 (by omega), hbefore⟩
    | some e =>
      obtain ⟨h3, h4, he, hset⟩ := findNextBit_eq_some hend
      rw [hend] at h
      obtain ⟨rfl, rfl⟩ := Prod.mk.inj h
      have hne : e ≠ j := by
        rintro rfl
        rw [hj] at he
        cases he
      exact .inr ⟨by omega, h1, by omega, fun i h5 h6 => hset i h5 (by omega), hbefore⟩

variable {data : SparseData} {len b o n bufLen childLen : ℕ}

structure SparseData.Fits (data : SparseData) (len : ℕ) : Prop where
  bits : ∀ b, data.bitmap b = true → 1024 * (b + 1) ≤ len
  last : ∀ b : ℕ, data.header.lastBlock = b → data.bitmap b = false ∧ 1024 * b + data.header.lastBlockLen.toNat ≤ len
  lastLen : 0 ≤ data.header.lastBlockLen ∧ data.header.lastBlockLen < 1024
  le : len ≤ 1048576

/-- The data of a child with a stream of some length tell that a byte is there. -/
def SparseData.Has (data : SparseData) (len i : ℕ) : Prop :=
  data.bitmap (i / 1024) = true ∨ i % 1024 < partialBlockLength data len (i / 1024)

theorem SparseData.Fits.partialBlockLength_lt (h : data.Fits len) (b : ℕ) :
    partialBlockLength data len b < 1024 := by
  have hlen := h.lastLen
  unfold partialBlockLength kBlockSize
  split_ifs <;> omega

theorem SparseData.Fits.add_partialBlockLength_le (h : data.Fits len)
    (hne : partialBlockLength data len b ≠ 0) : 1024 * b + partialBlockLength data len b ≤ len := by
  unfold partialBlockLength kBlockSize at hne ⊢
  split_ifs at hne ⊢ with h1 h2
  · exact (h.last b h1).2
  · omega
  · exact absurd rfl hne

theorem SparseData.Fits.lt_of_has (h : data.Fits len) (hi : data.Has len i) : i < len := by
  rcases hi with hbit | hpartial
  · have := h.bits _ hbit
    omega
  · have := h.add_partialBlockLength_le (b := i / 1024) (by omega)
    omega

/-- **A range that a read may read is there**, and it is as long as it can be. -/
theorem SparseData.Fits.verifyReadRange_eq_some (h : data.Fits len) {left : ℕ} (hpos : 0 < childLen)
    (hle : childLen ≤ bufLen) (hin : o + childLen ≤ 1048576)
    (hv : verifyReadRange data len o childLen bufLen = some (n, left)) :
    0 < n ∧ n ≤ bufLen ∧ (∀ i, o ≤ i → i < o + n → data.Has len i) ∧ ((n = childLen ∧ left = bufLen) ∨
        (left = n ∧ (n < bufLen → o + n < 1048576 ∧ ¬ data.Has len (o + n)))) := by
  dsimp only [verifyReadRange] at hv
  cases hfind : findNextBit data.bitmap (o / 1024) ((o + childLen + 1023) / 1024) false with
  | none =>
    rw [hfind] at hv
    cases hv
    refine ⟨hpos, hle, fun i h1 h2 => .inl ?_, .inl ⟨rfl, rfl⟩⟩
    exact findNextBit_eq_none hfind (by omega) (by omega)
  | some start =>
    obtain ⟨h1, h2, hclear, hset⟩ := findNextBit_eq_some hfind
    rw [hfind] at hv
    dsimp only at hv
    unfold kBlockSize at hv
    have hlt := h.partialBlockLength_lt start
    obtain ⟨p, hp⟩ : ∃ p, p = partialBlockLength data len start := ⟨_, rfl⟩
    rw [← hp] at hv hlt
    by_cases hnone : start = o / 1024 ∧ p ≤ o % 1024
    · rw [if_pos hnone] at hv
      cases hv
    · rw [if_neg hnone] at hv
      obtain ⟨rfl, hleft⟩ := Prod.mk.inj (Option.some.inj hv)
      have hn : (if p ≠ 0 then min (start * 1024 + p - o) bufLen else start * 1024 - o) =
          min (start * 1024 + p - o) bufLen := by
        split_ifs <;> omega
      rw [hn] at hleft ⊢
      have hhas (i : ℕ) (h3 : o ≤ i) (h4 : i < start * 1024 + p) : data.Has len i := by
        rcases Nat.lt_or_ge (i / 1024) start with hi | hi
        · exact .inl (hset _ (by omega) hi)
        · obtain rfl : start = i / 1024 := by omega
          exact .inr (by omega)
      refine ⟨by omega, by omega, fun i h3 h4 => hhas i h3 (by omega), .inr ⟨hleft.symm, ?_⟩⟩
      intro hshort
      refine ⟨by omega, ?_⟩
      rintro (hbit | hpart)
      · rw [show (o + min (start * 1024 + p - o) bufLen) / 1024 = start by omega, hclear] at hbit
        cases hbit
      · rw [show (o + min (start * 1024 + p - o) bufLen) / 1024 = start by omega, ← hp] at hpart
        omega

theorem SparseData.Fits.verifyReadRange_eq_none
    (hv : verifyReadRange data len o childLen bufLen = none) : ¬ data.Has len o := by
  dsimp only [verifyReadRange] at hv
  cases hfind : findNextBit data.bitmap (o / 1024) ((o + childLen + 1023) / 1024) false with
  | none =>
    rw [hfind] at hv
    cases hv
  | some start =>
    obtain ⟨h1, h2, hclear, hset⟩ := findNextBit_eq_some hfind
    rw [hfind] at hv
    dsimp only at hv
    by_cases hnone : start = o / 1024 ∧ partialBlockLength data len start ≤ o % kBlockSize
    · obtain ⟨rfl, hle⟩ := hnone
      unfold kBlockSize at hle
      rintro (hbit | hpart)
      · rw [hclear] at hbit
        cases hbit
      · omega
    · rw [if_neg hnone] at hv
      cases hv

/-- **What `DoGetAvailableRange` finds is there.** -/
theorem SparseData.Fits.findAvailable_eq_some (h : data.Fits len) {empty : ℕ} (hpos : 0 < childLen)
    (hf : findAvailable data len o childLen = some (empty, n)) :
    0 < n ∧ empty + n ≤ childLen ∧ ∀ i, o + empty ≤ i → i < o + empty + n → data.Has len i := by
  unfold findAvailable kBlockSize at hf
  dsimp only at hf
  cases hbits : findBits data.bitmap (o / 1024) ((o + childLen + 1023) / 1024) true with
  | mk found bitsFound =>
    rw [hbits] at hf
    dsimp only at hf
    rcases findBits_spec hbits with ⟨rfl, rfl, hclear⟩ | ⟨hn, h1, h2, hset, hclear⟩
    · obtain ⟨p, hp⟩ : ∃ p, p = partialBlockLength data len (o / 1024) := ⟨_, rfl⟩
      rw [← hp] at hf
      by_cases hle : p ≤ o % 1024
      · rw [if_pos ⟨rfl, hle⟩] at hf
        cases hf
      · rw [if_neg fun hc => hle hc.2, if_pos rfl] at hf
        cases hf
        have hlt := h.partialBlockLength_lt (o / 1024)
        refine ⟨by omega, by omega, fun i h3 h4 => .inr ?_⟩
        rw [show i / 1024 = o / 1024 by omega, ← hp]
        omega
    · rw [if_neg fun hc => absurd hc.1 hn.ne', if_neg hn.ne'] at hf
      obtain ⟨rfl, hbytes⟩ := Prod.mk.inj (Option.some.inj hf)
      obtain ⟨p, hp⟩ : ∃ p, p = partialBlockLength data len (found + bitsFound) := ⟨_, rfl⟩
      rw [← hp] at hbytes
      have hlt := h.partialBlockLength_lt (found + bitsFound)
      have hend : o + (found * 1024 - o) + n ≤ (found + bitsFound) * 1024 + p := by
        split_ifs at hbytes <;> omega
      refine ⟨by split_ifs at hbytes <;> omega, by split_ifs at hbytes <;> omega, fun i h3 h4 => ?_⟩
      rcases Nat.lt_or_ge (i / 1024) (found + bitsFound) with hi | hi
      · exact .inl (hset _ (by omega) hi)
      · have hi' : found + bitsFound = i / 1024 := by omega
        refine .inr ?_
        rw [← hi', ← hp]
        omega

theorem SparseData.Fits.findAvailable_eq_none (hpos : 0 < childLen)
    (hf : findAvailable data len o childLen = none) : ¬ data.Has len o := by
  unfold findAvailable kBlockSize at hf
  dsimp only at hf
  cases hbits : findBits data.bitmap (o / 1024) ((o + childLen + 1023) / 1024) true with
  | mk found bitsFound =>
    rw [hbits] at hf
    dsimp only at hf
    rcases findBits_spec hbits with ⟨rfl, rfl, hclear⟩ | ⟨hn, -⟩
    · by_cases hle : partialBlockLength data len (o / 1024) ≤ o % 1024
      · rintro (hbit | hpart)
        · rw [hclear _ le_rfl (by omega)] at hbit
          cases hbit
        · omega
      · rw [if_neg fun hc => hle hc.2, if_pos rfl] at hf
        cases hf
    · rw [if_neg fun hc => absurd hc.1 hn.ne', if_neg hn.ne'] at hf
      cases hf

theorem SparseData.Fits.updateRange (h : data.Fits len) (hle : o + n ≤ 1048576) :
    (updateRange data o n).Fits (max len (o + n)) := by
  have hlen := h.lastLen
  have hfits : data.Fits (max len (o + n)) := by
    refine ⟨fun b hb => ?_, fun b hb => ?_, h.lastLen, by have := h.le; omega⟩
    · have := h.bits b hb
      omega
    · obtain ⟨h1, h2⟩ := h.last b hb
      exact ⟨h1, by omega⟩
  unfold DiskCache.updateRange kBlockSize
  dsimp only
  obtain ⟨first, hfirst⟩ : ∃ first, first = if o % 1024 ≠ 0 ∧
      (data.header.lastBlock ≠ ((o / 1024 : ℕ) : ℤ) ∨
        data.header.lastBlockLen < ((o % 1024 : ℕ) : ℤ)) then o / 1024 + 1 else o / 1024 := ⟨_, rfl⟩
  rw [← hfirst]
  by_cases hlt : (o + n) / 1024 < first
  · rw [if_pos hlt]
    exact hfits
  · rw [if_neg hlt]
    refine ⟨fun b hb => ?_, fun b hb => ?_, ?_, hfits.le⟩
    · dsimp only [setRange] at hb
      split_ifs at hb with hr
      · omega
      · exact hfits.bits b hb
    · split_ifs at hb ⊢ with hc
      · dsimp only at hb ⊢
        have hb' : b = (o + n) / 1024 := by omega
        subst hb'
        refine ⟨?_, by omega⟩
        dsimp only [setRange]
        rw [if_neg (by omega)]
        exact hc.2
      · dsimp only at hb
        omega
    · split_ifs
      · dsimp only
        omega
      · exact hlen

end Chromium.Net.DiskCache
