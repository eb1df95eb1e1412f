import Chromium.Lib.BitMap
import Chromium.Lib.Tally
import Chromium.Lib.Tiling
import Chromium.Lib.TransSys

/-!
# Block files

`net/disk_cache/block_files.cc`: the header of a file whose blocks are allocated to records of
one to four blocks.  Four bits of the allocation map form a nibble, which no record crosses; the
header counts the nibbles by the number of blocks that are free at their end.

* `createMapBlock_spec`, `deleteMapBlock_spec`: what the functions do to the map and the counters;
* `header_consistent`: **the counters agree with the map in every reachable state**.
-/

namespace Chromium.Net.DiskCache

open Lib (BitMap bit byteAt setByte orMask lowMask bump Apart)
open Function (update update_of_ne update_self)

def kMaxNumBlocks : ℕ := 4

def kBlockHeaderSize : ℤ := 8192

def kMaxBlocks : ℕ := 64896

def sTypes : List ℕ := [4, 3, 2, 2, 1, 1, 1, 1, 0, 0, 0, 0, 0, 0, 0, 0]

def getMapBlockType (value : BitVec 8) : ℕ := sTypes.getD (value &&& 15#8).toNat 0

structure BlockFileHeader where
  nextFile : ℤ
  entrySize : ℤ
  numEntries : ℤ
  maxEntries : ℕ
  empty : ℕ → ℤ
  hints : ℕ → ℕ
  updating : ℤ
  allocationMap : BitMap

/-- The header that `CreateBlockFile` writes. -/
def BlockFileHeader.new (entrySize : ℤ) : BlockFileHeader :=
  ⟨0, entrySize, 0, 0, fun _ => 0, fun _ => 0, 0, fun _ => 0⟩

def typeAt (map : BitMap) (n : ℕ) : ℕ := getMapBlockType ((map (n / 8) >>> (4 * (n % 8))).setWidth 8)

def fixAllocationCounters (header : BlockFileHeader) : BlockFileHeader :=
  { header with
    hints := fun _ => 0
    empty := (List.range (header.maxEntries / 32)).foldl
      (fun empty i => (List.range 8).foldl
        (fun empty j => bump empty
          (getMapBlockType ((header.allocationMap i >>> (4 * j)).setWidth 8))) empty)
      fun _ => 0 }

/-- The loop of `CreateMapBlock`: the word and the nibble of the new record. -/
def findMapBlock (header : BlockFileHeader) (target : ℕ) : ℕ → ℕ → Option (ℕ × ℕ)
  | 0, _ => none
  | n + 1, current =>
    let current := if current = header.maxEntries / 32 then 0 else current
    match (List.range 8).find? fun j =>
      getMapBlockType ((header.allocationMap current >>> (4 * j)).setWidth 8) = target with
    | some j => some (current, j)
    | none => findMapBlock header target n (current + 1)

def createMapBlock (target size : ℕ) (header : BlockFileHeader) : BlockFileHeader × Option ℕ :=
  if target = 0 ∨ kMaxNumBlocks < target ∨ size = 0 ∨ kMaxNumBlocks < size then (header, none)
  else
    match findMapBlock header target (header.maxEntries / 32) (header.hints (target - 1)) with
    | none => (fixAllocationCounters header, none)
    | some (current, j) =>
      let indexOffset := j * 4 + 4 - target
      let index := current * 32 + indexOffset
      let empty := Function.update header.empty (target - 1) (header.empty (target - 1) - 1)
      ({ header with
          allocationMap := orMask header.allocationMap current size indexOffset
          hints := Function.update header.hints (target - 1) current
          empty :=
            if target ≠ size then
              Function.update empty (target - size - 1) (empty (target - size - 1) + 1)
            else empty
          numEntries := header.numEntries + 1 },
        some index)

def deleteMapBlock (index size : ℕ) (header : BlockFileHeader) : BlockFileHeader :=
  if kMaxNumBlocks < size then header
  else
    let byteIndex := index / 8
    let byte := byteAt header.allocationMap byteIndex
    let mapBlock := if 4 ≤ index % 8 then byte >>> 4 else byte
    let bitsAtEnd := 4 - size - index % 4
    let endMask := (15#8 <<< (4 - bitsAtEnd)) &&& 15#8
    let updateCounters : Bool := mapBlock &&& endMask = 0
    let newValue := mapBlock &&& ~~~(lowMask 8 size <<< (index % 4))
    let newType := getMapBlockType newValue
    let toClear := lowMask 8 size <<< (index % 8)
    let empty :=
      if updateCounters then
        let empty :=
          if bitsAtEnd ≠ 0 then
            Function.update header.empty (bitsAtEnd - 1) (header.empty (bitsAtEnd - 1) - 1)
          else header.empty
        Function.update empty (newType - 1) (empty (newType - 1) + 1)
      else header.empty
    { header with
      allocationMap := setByte header.allocationMap byteIndex (byte &&& ~~~toClear)
      empty := empty
      numEntries := header.numEntries - 1 }

def needToGrowBlockFile (header : BlockFileHeader) (blockCount : ℕ) : Bool :=
  let haveSpace := (List.range 4).any fun i => blockCount - 1 ≤ i ∧ header.empty i ≠ 0
  let emptyBlocks := (List.range 4).foldl (fun n i => n + header.empty i * (i + 1)) 0
  if header.nextFile ≠ 0 ∧ emptyBlocks < kMaxBlocks / 10 then true else !haveSpace

structure BlockFile where
  header : BlockFileHeader
  length : ℤ

def fixBlockFileHeader (file : BlockFile) : BlockFileHeader × Bool :=
  let header := file.header
  if file.length < kBlockHeaderSize then (header, false)
  else
    let expected := header.entrySize * header.maxEntries + kBlockHeaderSize
    if file.length ≠ expected then
      let maxExpected := header.entrySize * kMaxBlocks + kBlockHeaderSize
      if file.length < expected ∨ header.empty 3 ≠ 0 ∨ maxExpected < file.length then (header, false)
      else
        let numEntries := (file.length - kBlockHeaderSize) / header.entrySize
        let header := { header with maxEntries := numEntries.toNat }
        ({ fixAllocationCounters header with updating := 0 }, true)
    else ({ fixAllocationCounters header with updating := 0 }, true)

/-- `BlockFiles::GrowBlockFile`; `setLength` tells whether the length of the file can be set.
The lock on the header is held. -/
def growBlockFile (file : BlockFile) (setLength : Bool) : BlockFile × Bool :=
  let header := file.header
  if header.maxEntries = kMaxBlocks then (file, false)
  else
    let newSize := min (header.maxEntries + 1024) kMaxBlocks
    let newSizeBytes := newSize * header.entrySize + kBlockHeaderSize
    let header := { header with updating := header.updating + 1 }
    if !setLength then
      if header.updating < 10 then
        let r := fixBlockFileHeader { file with header := header }
        if !r.2 then
          ({ file with header := { r.1 with updating := 100 - 1 } }, false)
        else
          ({ file with header := { r.1 with updating := r.1.updating - 1 } }, newSize ≤ r.1.maxEntries)
      else
        ({ file with header := { header with updating := header.updating - 1 } }, newSize ≤ header.maxEntries)
    else
      ({ header := { header with
            empty := Function.update header.empty 3 ((newSize - header.maxEntries : ℕ) / 4)
            maxEntries := newSize
            updating := header.updating - 1 }
         length := newSizeBytes }, true)

/-- `BlockFiles::FileForNewBlock` on a file, which is grown where this is needed; it fails where
another file has to be used, or where the file cannot grow. -/
def fileForNewBlock (file : BlockFile) (blockCount : ℕ) (setLength : Bool) : BlockFile × Bool :=
  if needToGrowBlockFile file.header blockCount then
    if file.header.maxEntries = kMaxBlocks then (file, false) else growBlockFile file setLength
  else (file, true)

/-- The type of nibble that `CreateBlock` selects. -/
def selectTarget (header : BlockFileHeader) (blockCount : ℕ) : Option ℕ :=
  ((List.range 5).drop blockCount).find? fun i => header.empty (i - 1) ≠ 0

def createBlock (file : BlockFile) (blockCount : ℕ) (setLength : Bool) : BlockFile × Option ℕ :=
  if blockCount < 1 ∨ 4 < blockCount then (file, none)
  else
    let r := fileForNewBlock file blockCount setLength
    if !r.2 then (r.1, none)
    else
      match selectTarget r.1.header blockCount with
      | none => (r.1, none)
      | some target =>
        let created := createMapBlock target blockCount r.1.header
        ({ r.1 with header := created.1 }, created.2)

/-! ### The type of a nibble -/

/-- The type of a nibble with some bits: the number of the bits that are free at its end. -/
def typeOfBits (b0 b1 b2 b3 : Bool) : ℕ :=
  if b3 then 0 else if b2 then 1 else if b1 then 2 else if b0 then 3 else 4

variable {map : BitMap} {n i index size target : ℕ} {header : BlockFileHeader}

theorem getMapBlockType_eq (v : BitVec 8) : getMapBlockType v =
      typeOfBits (v.getLsbD 0) (v.getLsbD 1) (v.getLsbD 2) (v.getLsbD 3) := by
  have h : ∀ n < 256, getMapBlockType (BitVec.ofNat 8 n) =
      typeOfBits (n.testBit 0) (n.testBit 1) (n.testBit 2) (n.testBit 3) := by decide +kernel
  have hv := h v.toNat v.isLt
  rw [BitVec.ofNat_toNat, BitVec.setWidth_eq] at hv
  exact hv

theorem typeAt_eq (map : BitMap) (n : ℕ) : typeAt map n =
      typeOfBits (bit map (4 * n)) (bit map (4 * n + 1)) (bit map (4 * n + 2))
        (bit map (4 * n + 3)) := by
  have hbit (k : ℕ) (hk : k < 4) :
      ((map (n / 8) >>> (4 * (n % 8))).setWidth 8).getLsbD k = bit map (4 * n + k) := by
    unfold bit
    rw [BitVec.getLsbD_setWidth, BitVec.getLsbD_ushiftRight, decide_eq_true (by omega), Bool.true_and]
    congr 1
    · congr 1
      omega
    · omega
  unfold typeAt
  rw [getMapBlockType_eq, hbit 0 (by omega), hbit 1 (by omega), hbit 2 (by omega), hbit 3 (by omega)]
  rfl

theorem typeAt_congr {map' : BitMap} (h : ∀ k < 4, bit map' (4 * n + k) = bit map (4 * n + k)) :
    typeAt map' n = typeAt map n := by
  rw [typeAt_eq, typeAt_eq, h 1 (by omega), h 2 (by omega), h 3 (by omega)]
  have h0 := h 0 (by omega)
  rw [Nat.add_zero] at h0
  rw [h0]

theorem typeAt_le (map : BitMap) (n : ℕ) : typeAt map n ≤ 4 := by
  rw [typeAt_eq]
  unfold typeOfBits
  split_ifs <;> omega

theorem bit_of_typeAt {k : ℕ} (hk : k < 4) (h : 4 ≤ typeAt map n + k) : bit map (4 * n + k) = false := by
  rw [typeAt_eq] at h
  unfold typeOfBits at h
  split_ifs at h with h3 h2 h1 h0
  · omega
  · obtain rfl : k = 3 := by omega
    exact Bool.eq_false_iff.2 h3
  · obtain rfl | rfl : k = 2 ∨ k = 3 := by omega
    · exact Bool.eq_false_iff.2 h2
    · exact Bool.eq_false_iff.2 h3
  · obtain rfl | rfl | rfl : k = 1 ∨ k = 2 ∨ k = 3 := by omega
    · exact Bool.eq_false_iff.2 h1
    · exact Bool.eq_false_iff.2 h2
    · exact Bool.eq_false_iff.2 h3
  · obtain rfl | rfl | rfl | rfl : k = 0 ∨ k = 1 ∨ k = 2 ∨ k = 3 := by omega
    · exact Bool.eq_false_iff.2 h0
    · exact Bool.eq_false_iff.2 h1
    · exact Bool.eq_false_iff.2 h2
    · exact Bool.eq_false_iff.2 h3


/-! ### A record is created -/

theorem typeOfBits_or : ∀ b0 b1 b2 b3 : Bool, ∀ target < 5, ∀ size < 5, 0 < size → size ≤ target →
    typeOfBits b0 b1 b2 b3 = target →
      typeOfBits (b0 || (decide (4 - target ≤ 0) && decide (0 < 4 - target + size)))
        (b1 || (decide (4 - target ≤ 1) && decide (1 < 4 - target + size)))
        (b2 || (decide (4 - target ≤ 2) && decide (2 < 4 - target + size)))
        (b3 || (decide (4 - target ≤ 3) && decide (3 < 4 - target + size))) = target - size := by
  decide

variable {map' : BitMap} {start : ℕ}

theorem typeAt_or (hsize : 0 < size) (hle : size ≤ target) (htype : typeAt map n = target)
    (hbits : ∀ i, bit map' i = (bit map i || (4 * n + (4 - target) ≤ i && i < 4 * n + (4 - target) + size))) :
    typeAt map' n = target - size := by
  have ht : target ≤ 4 := htype ▸ typeAt_le map n
  have hbit (k : ℕ) : bit map' (4 * n + k) =
      (bit map (4 * n + k) || (decide (4 - target ≤ k) && decide (k < 4 - target + size))) := by
    rw [hbits]
    congr 2
    · rw [decide_eq_decide]
      omega
    · rw [decide_eq_decide]
      omega
  have h0 := hbit 0
  rw [Nat.add_zero] at h0
  rw [typeAt_eq] at htype ⊢
  rw [h0, hbit 1, hbit 2, hbit 3]
  exact typeOfBits_or _ _ _ _ target (by omega) size (by omega) hsize hle htype

theorem typeAt_or_of_ne {n' : ℕ} (hne : n' ≠ n) (hle : size ≤ target) (ht : target ≤ 4)
    (hbits : ∀ i, bit map' i = (bit map i || (4 * n + (4 - target) ≤ i && i < 4 * n + (4 - target) + size))) :
    typeAt map' n' = typeAt map n' := by
  refine typeAt_congr fun k hk => ?_
  have hout : (4 * n + (4 - target) ≤ 4 * n' + k && 4 * n' + k < 4 * n + (4 - target) + size) =
      false := by
    rw [Bool.and_eq_false_imp]
    simp only [decide_eq_true_eq, decide_eq_false_iff_not]
    omega
  rw [hbits, hout, Bool.or_false]

/-! ### A record is deleted -/

/-- What `DeleteMapBlock` finds out about the nibble of a record: where only free blocks are
behind the record, it was of the type of these, and otherwise its type stays. -/
def DeleteType (v : BitVec 8) (o size : ℕ) : Prop :=
  (v &&& ((15#8 <<< (4 - (4 - size - o))) &&& 15#8) = 0 →
    getMapBlockType v = 4 - size - o ∧ 0 < getMapBlockType (v &&& ~~~(lowMask 8 size <<< o))) ∧
    (¬ v &&& ((15#8 <<< (4 - (4 - size - o))) &&& 15#8) = 0 →
      getMapBlockType (v &&& ~~~(lowMask 8 size <<< o)) = getMapBlockType v)

instance (v : BitVec 8) (o size : ℕ) : Decidable (DeleteType v o size) :=
  inferInstanceAs (Decidable (_ ∧ _))

def RecordBits (v : BitVec 8) (o size : ℕ) : Prop :=
  0 < size ∧ o + size ≤ 4 ∧ ∀ k < 4, o ≤ k → k < o + size → v.getLsbD k = true

instance (v : BitVec 8) (o size : ℕ) : Decidable (RecordBits v o size) :=
  inferInstanceAs (Decidable (_ ∧ _ ∧ _))

theorem deleteType_of_lt : ∀ v < 256, ∀ o < 4, ∀ size < 5, RecordBits (BitVec.ofNat 8 v) o size →
    DeleteType (BitVec.ofNat 8 v) o size := by
  decide +kernel

theorem deleteType {v : BitVec 8} {o size : ℕ} (h : RecordBits v o size) : DeleteType v o size := by
  have hsize := h.2.1
  have hpos := h.1
  have hv := deleteType_of_lt v.toNat v.isLt o (by omega) size (by omega)
  rw [BitVec.ofNat_toNat, BitVec.setWidth_eq] at hv
  exact hv h

theorem bit_deleteMapBlock (header : BlockFileHeader) (i : ℕ) (hsize : size ≤ 4)
    (hin : index % 4 + size ≤ 4) :
    bit (deleteMapBlock index size header).allocationMap i =
      (bit header.allocationMap i && !(index ≤ i && i < index + size)) := by
  rw [deleteMapBlock, if_neg (by unfold kMaxNumBlocks; omega)]
  dsimp only
  rw [Lib.bit_setByte]
  by_cases hb : i / 8 = index / 8
  · rw [if_pos hb, BitVec.getLsbD_and, BitVec.getLsbD_not, BitVec.getLsbD_shiftLeft,
      Lib.getLsbD_lowMask (by omega), Lib.getLsbD_byteAt (by omega),
      show 8 * (index / 8) + i % 8 = i by omega]
    congr 1
    rw [Bool.eq_iff_iff]
    simp only [Bool.and_eq_true, Bool.not_eq_true', decide_eq_true_eq, decide_eq_false_iff_not, Bool.and_eq_false_imp]
    omega
  · have hout : (index ≤ i && i < index + size) = false := by
      rw [Bool.and_eq_false_imp]
      simp only [decide_eq_true_eq, decide_eq_false_iff_not]
      omega
    rw [if_neg hb, hout, Bool.not_false, Bool.and_true]

theorem update_add (e : ℕ → ℤ) (a : ℕ) (d : ℤ) (k : ℕ) :
    update e a (e a + d) k = e k + (if a = k then d else 0) := by
  by_cases h : a = k
  · rw [← h, update_self, if_pos rfl]
  · rw [update_of_ne (fun he => h he.symm), if_neg h, Int.add_zero]

def moveCount (empty : ℕ → ℤ) (t t' k : ℕ) : ℤ :=
  empty k - (if t = k + 1 then 1 else 0) + (if t' = k + 1 then 1 else 0)

/-- **What `DeleteMapBlock` does to the counters** of a record whose bits are set. -/
theorem empty_deleteMapBlock (hpos : 0 < size) (hin : index % 4 + size ≤ 4)
    (hset : ∀ i, index ≤ i → i < index + size → bit header.allocationMap i = true) (k : ℕ) :
    (deleteMapBlock index size header).empty k =
      moveCount header.empty (typeAt header.allocationMap (index / 4))
        (typeAt (deleteMapBlock index size header).allocationMap (index / 4)) k := by
  have hbits (k : ℕ) : bit (deleteMapBlock index size header).allocationMap (4 * (index / 4) + k) =
      (bit header.allocationMap (4 * (index / 4) + k) &&
        !(index ≤ 4 * (index / 4) + k && 4 * (index / 4) + k < index + size)) :=
    bit_deleteMapBlock header _ (by omega) hin
  -- the nibble of the record, in the low bits of a byte
  obtain ⟨block, hblock⟩ : ∃ v, v = if 4 ≤ index % 8 then
      byteAt header.allocationMap (index / 8) >>> 4 else byteAt header.allocationMap (index / 8) :=
    ⟨_, rfl⟩
  have hget (k : ℕ) (hk : k < 4) : block.getLsbD k = bit header.allocationMap (4 * (index / 4) + k) := by
    rw [hblock]
    split_ifs with h4
    · rw [BitVec.getLsbD_ushiftRight, Lib.getLsbD_byteAt (by omega)]
      congr 1
      omega
    · rw [Lib.getLsbD_byteAt (by omega)]
      congr 1
      omega
  have hold : typeAt header.allocationMap (index / 4) = getMapBlockType block := by
    rw [typeAt_eq, getMapBlockType_eq, hget 0 (by omega), hget 1 (by omega), hget 2 (by omega), hget 3 (by omega)]
    rfl
  have hnew : typeAt (deleteMapBlock index size header).allocationMap (index / 4) =
      getMapBlockType (block &&& ~~~(lowMask 8 size <<< (index % 4))) := by
    have hcut (k : ℕ) (hk : k < 4) : (block &&& ~~~(lowMask 8 size <<< (index % 4))).getLsbD k =
        bit (deleteMapBlock index size header).allocationMap (4 * (index / 4) + k) := by
      rw [hbits, BitVec.getLsbD_and, hget k hk, BitVec.getLsbD_not, BitVec.getLsbD_shiftLeft,
        Lib.getLsbD_lowMask (by omega)]
      congr 1
      rw [Bool.eq_iff_iff]
      simp only [Bool.and_eq_true, Bool.not_eq_true', decide_eq_true_eq, decide_eq_false_iff_not, Bool.and_eq_false_imp]
      omega
    rw [typeAt_eq, getMapBlockType_eq, hcut 0 (by omega), hcut 1 (by omega), hcut 2 (by omega), hcut 3 (by omega)]
    rfl
  have htype : DeleteType block (index % 4) size := by
    refine deleteType ⟨hpos, hin, fun k hk h1 h2 => ?_⟩
    rw [hget k hk]
    exact hset _ (by omega) (by omega)
  obtain ⟨hfree, hkeep⟩ := htype
  rw [hold, hnew]
  unfold deleteMapBlock moveCount
  rw [if_neg (by unfold kMaxNumBlocks; omega)]
  dsimp only
  rw [← hblock]
  by_cases hupd : block &&& ((15#8 <<< (4 - (4 - size - index % 4))) &&& 15#8) = 0
  · obtain ⟨h1, h2⟩ := hfree hupd
    rw [decide_eq_true hupd, if_pos rfl, h1]
    generalize getMapBlockType (block &&& ~~~(lowMask 8 size <<< (index % 4))) = t' at h2
    have hless : (if 4 - size - index % 4 ≠ 0 then
        update header.empty (4 - size - index % 4 - 1)
          (header.empty (4 - size - index % 4 - 1) - 1)
      else header.empty) = fun k =>
        header.empty k - (if 4 - size - index % 4 = k + 1 then 1 else 0) := by
      funext k
      have hsub := update_add header.empty (4 - size - index % 4 - 1) (-1) k
      rw [← Int.sub_eq_add_neg] at hsub
      split_ifs with h0 h1 h1
      · rw [hsub, if_pos (by omega)]
        omega
      · rw [hsub, if_neg (by omega)]
        omega
      · omega
      · omega
    rw [hless, update_add]
    congr 1
    refine if_congr ?_ rfl rfl
    omega
  · rw [decide_eq_false hupd, if_neg (by simp), hkeep hupd]
    omega

/-! ### The search for a nibble -/

variable {c j current : ℕ}

theorem typeAt_word (map : BitMap) (c : ℕ) (hj : j < 8) :
    typeAt map (8 * c + j) = getMapBlockType ((map c >>> (4 * j)).setWidth 8) := by
  rw [typeAt, show (8 * c + j) / 8 = c by omega, show (8 * c + j) % 8 = j by omega]

theorem findMapBlock_some {n : ℕ} (hn : 0 < header.maxEntries / 32)
    (hcur : current ≤ header.maxEntries / 32)
    (h : findMapBlock header target n current = some (c, j)) :
    c < header.maxEntries / 32 ∧ j < 8 ∧ typeAt header.allocationMap (8 * c + j) = target := by
  induction n generalizing current with
  | zero => cases h
  | succ n ih =>
    have hlt : (if current = header.maxEntries / 32 then 0 else current) < header.maxEntries / 32 := by
      split_ifs <;> omega
    rw [findMapBlock] at h
    generalize (if current = header.maxEntries / 32 then 0 else current) = cur at h hlt
    split at h
    · next k hk =>
      obtain ⟨rfl, rfl⟩ := Prod.mk.inj (Option.some.inj h)
      have hk8 : k < 8 := List.mem_range.1 (List.mem_of_find?_eq_some hk)
      refine ⟨hlt, hk8, ?_⟩
      rw [typeAt_word _ _ hk8]
      simpa using List.find?_some hk
    · exact ih (by omega) h

/-- **Where the search finds nothing**, none of the nibbles it looks at is of the type. -/
theorem findMapBlock_none {n d : ℕ} (hn : 0 < header.maxEntries / 32)
    (hcur : current ≤ header.maxEntries / 32) (h : findMapBlock header target n current = none)
    (hd : d < n) (hj : j < 8) :
    typeAt header.allocationMap (8 * ((current + d) % (header.maxEntries / 32)) + j) ≠ target := by
  induction n generalizing current d with
  | zero => omega
  | succ n ih =>
    have hwrap : (if current = header.maxEntries / 32 then 0 else current) =
        current % (header.maxEntries / 32) := by
      split_ifs with heq
      · rw [heq, Nat.mod_self]
      · rw [Nat.mod_eq_of_lt (by omega)]
    have hlt : current % (header.maxEntries / 32) < header.maxEntries / 32 := Nat.mod_lt _ hn
    rw [findMapBlock, hwrap] at h
    split at h
    · cases h
    · next hnone =>
      cases d with
      | zero =>
        have hj' := List.find?_eq_none.1 hnone j (List.mem_range.2 hj)
        rw [Nat.add_zero, typeAt_word _ _ hj]
        simpa using hj'
      | succ d =>
        have hnext : current % (header.maxEntries / 32) + 1 ≤ header.maxEntries / 32 := by omega
        have hrest := ih hnext h (d := d) (by omega)
        rwa [Nat.add_assoc, Nat.mod_add_mod, Nat.add_comm 1 d] at hrest

theorem exists_findMapBlock {n₀ : ℕ} (hdvd : 32 ∣ header.maxEntries)
    (hcur : current ≤ header.maxEntries / 32) (hlt : n₀ < header.maxEntries / 4)
    (htype : typeAt header.allocationMap n₀ = target) :
    ∃ r, findMapBlock header target (header.maxEntries / 32) current = some r := by
  have hn : 0 < header.maxEntries / 32 := by omega
  cases h : findMapBlock header target (header.maxEntries / 32) current with
  | some r => exact ⟨r, rfl⟩
  | none =>
    exfalso
    have hmod : current % (header.maxEntries / 32) < header.maxEntries / 32 := Nat.mod_lt _ hn
    -- how far the word is from the first one
    have hnot (d : ℕ) (hd : d < header.maxEntries / 32) :=
      findMapBlock_none (j := n₀ % 8) hn hcur h hd (by omega)
    refine hnot ((n₀ / 8 + header.maxEntries / 32 - current % (header.maxEntries / 32)) %
      (header.maxEntries / 32)) (Nat.mod_lt _ hn) ?_
    rw [Nat.add_mod_mod, ← Nat.mod_add_mod, show current % (header.maxEntries / 32) +
      (n₀ / 8 + header.maxEntries / 32 - current % (header.maxEntries / 32)) =
        n₀ / 8 + header.maxEntries / 32 by omega, Nat.add_mod_right, Nat.mod_eq_of_lt (by omega),
      Nat.div_add_mod]
    exact htype


/-! ### The header of a file -/

/-- The records that are live agree with the map and with the counters of a header. -/
structure Consistent (header : BlockFileHeader) (live : List (ℕ × ℕ)) : Prop where
  apart : live.Pairwise fun r s => Apart r.1 r.2 s.1 s.2
  record : ∀ r ∈ live, 0 < r.2 ∧ r.1 % 4 + r.2 ≤ 4 ∧ r.1 + r.2 ≤ header.maxEntries
  bits : ∀ i, bit header.allocationMap i = true ↔ ∃ r ∈ live, r.1 ≤ i ∧ i < r.1 + r.2
  empty : ∀ k < 4, header.empty k =
    (Nat.count (fun n => typeAt header.allocationMap n = k + 1) (header.maxEntries / 4) : ℕ)
  entries : header.numEntries = live.length
  hints : ∀ k, header.hints k ≤ header.maxEntries / 32
  dvd : 32 ∣ header.maxEntries
  le : header.maxEntries ≤ kMaxBlocks
  next : header.nextFile ≠ 0 → header.maxEntries = kMaxBlocks

variable {live : List (ℕ × ℕ)} {r : ℕ × ℕ} {header' : BlockFileHeader}

theorem count_moveCount {map map' : BitMap} {n₀ N : ℕ} {e : ℕ → ℤ} {k : ℕ} (hlt : n₀ < N)
    (h : ∀ n ≠ n₀, typeAt map' n = typeAt map n)
    (he : e k = (Nat.count (fun n => typeAt map n = k + 1) N : ℕ)) :
    moveCount e (typeAt map n₀) (typeAt map' n₀) k =
      (Nat.count (fun n => typeAt map' n = k + 1) N : ℕ) := by
  have hcount := Lib.count_of_agree (p := fun n => typeAt map n = k + 1)
    (q := fun n => typeAt map' n = k + 1) hlt fun n hn => by rw [h n hn]
  rw [moveCount, he]
  split_ifs at hcount ⊢ <;> omega

/-- **`FixAllocationCounters` finds the counters it restores.** -/
theorem empty_fixAllocationCounters (h : Consistent header live) {k : ℕ} (hk : k < 4) :
    (fixAllocationCounters header).empty k = header.empty k := by
  obtain ⟨N, hN⟩ := h.dvd
  have hloop : (fixAllocationCounters header).empty =
      (List.range N).foldl (fun e i => (List.range 8).foldl
        (fun e j => bump e (typeAt header.allocationMap (8 * i + j))) e) fun _ => 0 := by
    dsimp only [fixAllocationCounters]
    rw [hN, Nat.mul_div_cancel_left _ (by decide)]
    refine List.foldl_ext _ _ _ fun e i _ => List.foldl_ext _ _ _ fun e j hj => ?_
    rw [typeAt_word _ _ (List.mem_range.1 hj)]
  rw [hloop, Lib.foldl_chunks (typeAt header.allocationMap), h.empty k hk, hN,
    show 32 * N / 4 = 8 * N by omega, Int.zero_add]

theorem Consistent.fixAllocationCounters (h : Consistent header live) :
    Consistent (fixAllocationCounters header) live :=
  ⟨h.apart, h.record, h.bits, fun k hk => (empty_fixAllocationCounters h hk).trans (h.empty k hk),
    h.entries, fun _ => Nat.zero_le _, h.dvd, h.le, h.next⟩

/-- **What `CreateMapBlock` does**: it takes blocks at the free end of a nibble of the type. -/
theorem createMapBlock_spec (h : Consistent header live) (hpos : 0 < size) (hle : size ≤ target)
    (ht : target ≤ 4) (hc : createMapBlock target size header = (header', some index)) :
    ∃ n < header.maxEntries / 4, typeAt header.allocationMap n = target ∧ index = 4 * n + (4 - target) ∧
      (∀ i, bit header'.allocationMap i = (bit header.allocationMap i || (index ≤ i && i < index + size))) ∧
      (∀ k, header'.empty k = moveCount header.empty target (target - size) k) ∧
      header'.numEntries = header.numEntries + 1 ∧ header'.maxEntries = header.maxEntries ∧
      header'.nextFile = header.nextFile ∧
      ∀ k, header'.hints k ≤ header.maxEntries / 32 := by
  rw [createMapBlock, if_neg (by unfold kMaxNumBlocks; omega)] at hc
  cases hfind : findMapBlock header target (header.maxEntries / 32)
      (header.hints (target - 1)) with
  | none =>
    rw [hfind] at hc
    cases (Prod.mk.inj hc).2
  | some r =>
    obtain ⟨c, j⟩ := r
    have hn : 0 < header.maxEntries / 32 := by
      by_contra h0
      rw [Nat.eq_zero_of_not_pos h0] at hfind
      cases hfind
    obtain ⟨hclt, hj, htype⟩ := findMapBlock_some hn (h.hints _) hfind
    rw [hfind] at hc
    obtain ⟨rfl, hindex⟩ := Prod.mk.inj hc
    cases hindex
    refine ⟨8 * c + j, by omega, htype, by omega, fun i => ?_, fun k => ?_, rfl, rfl, rfl, fun k => ?_⟩
    · rw [Lib.bit_orMask (by omega) (by omega)]
      congr 2
      all_goals rw [decide_eq_decide]
      · omega
      · omega
    · have hsub := update_add header.empty (target - 1) (-1) k
      rw [← Int.sub_eq_add_neg] at hsub
      dsimp only [moveCount]
      by_cases hne : target ≠ size
      · rw [if_pos hne, update_add, hsub]
        split_ifs <;> omega
      · rw [if_neg hne, hsub]
        split_ifs <;> omega
    · dsimp only
      by_cases hk : k = target - 1
      · rw [hk, update_self]
        omega
      · rw [update_of_ne hk]
        exact h.hints k

theorem apart_of_disjoint {o n o' n' : ℕ} (hn : 0 < n) (hn' : 0 < n')
    (h : ∀ i, o ≤ i → i < o + n → o' ≤ i → i < o' + n' → False) : Apart o n o' n' := by
  by_contra hne
  unfold Apart at hne
  exact h (max o o') (by omega) (by omega) (by omega) (by omega)

theorem Consistent.createMapBlock (h : Consistent header live) (hpos : 0 < size)
    (hle : size ≤ target) (ht : target ≤ 4)
    (hc : createMapBlock target size header = (header', some index)) :
    Consistent header' ((index, size) :: live) := by
  obtain ⟨n, hn, htype, hindex, hbits, hempty, hentries, hmax, hnext, hhints⟩ :=
    createMapBlock_spec h hpos hle ht hc
  obtain ⟨N, hN⟩ := h.dvd
  have hfree (i : ℕ) (h1 : index ≤ i) (h2 : i < index + size) : bit header.allocationMap i = false := by
    have htype' : 4 ≤ typeAt header.allocationMap n + (i - 4 * n) := by omega
    have hk := bit_of_typeAt (by omega) htype'
    rwa [show 4 * n + (i - 4 * n) = i by omega] at hk
  have hbits' : ∀ i, bit header'.allocationMap i = (bit header.allocationMap i ||
      (4 * n + (4 - target) ≤ i && i < 4 * n + (4 - target) + size)) := by
    intro i
    rw [hbits, hindex]
  refine ⟨List.pairwise_cons.2 ⟨fun r hr => ?_, h.apart⟩, fun r hr => ?_, fun i => ?_,
    fun k hk => ?_, ?_, fun k => ?_, ?_, ?_, ?_⟩
  · refine apart_of_disjoint hpos (h.record r hr).1 fun i h1 h2 h3 h4 => ?_
    have hset := (h.bits i).2 ⟨r, hr, h3, h4⟩
    rw [hfree i h1 h2] at hset
    cases hset
  · rw [hmax]
    rcases List.mem_cons.1 hr with rfl | hr
    · dsimp only
      omega
    · exact h.record r hr
  · rw [hbits, Bool.or_eq_true, h.bits]
    simp only [Bool.and_eq_true, decide_eq_true_eq, List.mem_cons]
    constructor
    · rintro (⟨r, hr, hi⟩ | hi)
      · exact ⟨r, .inr hr, hi⟩
      · exact ⟨_, .inl rfl, hi⟩
    · rintro ⟨r, rfl | hr, hi⟩
      · exact .inr hi
      · exact .inl ⟨r, hr, hi⟩
  · rw [hempty, hmax, ← typeAt_or hpos hle htype hbits']
    nth_rewrite 1 [← htype]
    exact count_moveCount hn (fun n' hne => typeAt_or_of_ne hne hle ht hbits') (h.empty k hk)
  · rw [hentries, h.entries, List.length_cons]
    omega
  · rw [hmax]
    exact hhints k
  · rw [hmax]
    exact h.dvd
  · rw [hmax]
    exact h.le
  · rw [hmax, hnext]
    exact h.next

/-- **`CreateMapBlock` succeeds** when the counter of the type says so. -/
theorem exists_createMapBlock (h : Consistent header live) (hpos : 0 < size) (hsize : size ≤ 4)
    (htpos : 0 < target) (ht : target ≤ 4) (hempty : 0 < header.empty (target - 1)) :
    ∃ index, (DiskCache.createMapBlock target size header).2 = some index := by
  rw [h.empty _ (by omega), Nat.sub_add_cancel htpos] at hempty
  obtain ⟨n, hn, htype⟩ : ∃ n < header.maxEntries / 4, typeAt header.allocationMap n = target := by
    by_contra hnone
    have hzero : Nat.count (fun n => typeAt header.allocationMap n = target)
        (header.maxEntries / 4) = 0 :=
      Nat.count_of_forall_not fun n hn htype => hnone ⟨n, hn, htype⟩
    omega
  obtain ⟨r, hr⟩ := exists_findMapBlock h.dvd (h.hints (target - 1)) hn htype
  rw [DiskCache.createMapBlock, if_neg (by unfold kMaxNumBlocks; omega), hr]
  exact ⟨_, rfl⟩

theorem Consistent.apart_of_mem_erase (h : Consistent header live) (hr : r ∈ live) :
    (live.erase r).Pairwise (fun r s => Apart r.1 r.2 s.1 s.2) ∧
      ∀ s ∈ live.erase r, Apart r.1 r.2 s.1 s.2 := by
  have hperm := (List.perm_cons_erase hr).pairwise_iff
    (R := fun r s : ℕ × ℕ => Apart r.1 r.2 s.1 s.2) fun hab => hab.symm
  obtain ⟨h1, h2⟩ := List.pairwise_cons.1 (hperm.1 h.apart)
  exact ⟨h2, h1⟩

theorem Consistent.deleteMapBlock (h : Consistent header live) (hr : r ∈ live) :
    Consistent (deleteMapBlock r.1 r.2 header) (live.erase r) := by
  obtain ⟨hpos, hin, hmax⟩ := h.record r hr
  obtain ⟨happart, hothers⟩ := h.apart_of_mem_erase hr
  have hset (i : ℕ) (h1 : r.1 ≤ i) (h2 : i < r.1 + r.2) : bit header.allocationMap i = true :=
    (h.bits i).2 ⟨r, hr, h1, h2⟩
  have hbits (i : ℕ) := bit_deleteMapBlock header i (by omega) hin
  have hsame : (DiskCache.deleteMapBlock r.1 r.2 header).maxEntries = header.maxEntries ∧
      (DiskCache.deleteMapBlock r.1 r.2 header).numEntries = header.numEntries - 1 ∧
      (DiskCache.deleteMapBlock r.1 r.2 header).hints = header.hints ∧
      (DiskCache.deleteMapBlock r.1 r.2 header).nextFile = header.nextFile := by
    rw [DiskCache.deleteMapBlock, if_neg (by unfold kMaxNumBlocks; omega)]
    exact ⟨rfl, rfl, rfl, rfl⟩
  obtain ⟨hsmax, hentries, hhints, hnext⟩ := hsame
  refine ⟨happart, fun s hs => ?_, fun i => ?_, fun k hk => ?_, ?_, fun k => ?_, ?_, ?_, ?_⟩
  · rw [hsmax]
    exact h.record s (List.mem_of_mem_erase hs)
  · rw [hbits, Bool.and_eq_true, h.bits]
    simp only [Bool.not_eq_true', Bool.and_eq_false_imp, decide_eq_true_eq, decide_eq_false_iff_not]
    constructor
    · rintro ⟨⟨s, hs, h1, h2⟩, hout⟩
      refine ⟨s, (List.mem_erase_of_ne ?_).2 hs, h1, h2⟩
      rintro rfl
      exact hout h1 h2
    · rintro ⟨s, hs, h1, h2⟩
      have := hothers s hs
      unfold Apart at this
      exact ⟨⟨s, List.mem_of_mem_erase hs, h1, h2⟩, fun h3 => by omega⟩
  · have hdvd := h.dvd
    rw [empty_deleteMapBlock hpos hin hset, hsmax]
    refine count_moveCount (by omega) (fun n hne => typeAt_congr fun k hk => ?_) (h.empty k hk)
    have hout : (r.1 ≤ 4 * n + k && 4 * n + k < r.1 + r.2) = false := by
      rw [Bool.and_eq_false_imp]
      simp only [decide_eq_true_eq, decide_eq_false_iff_not]
      omega
    rw [hbits, hout, Bool.not_false, Bool.and_true]
  · have hlen := List.length_pos_of_mem hr
    rw [hentries, h.entries, List.length_erase_of_mem hr]
    omega
  · rw [hsmax, hhints]
    exact h.hints k
  · rw [hsmax]
    exact h.dvd
  · rw [hsmax]
    exact h.le
  · rw [hsmax, hnext]
    exact h.next

theorem Consistent.grow (h : Consistent header live) {newSize : ℕ} {updating : ℤ}
    (hfull : header.empty 3 = 0) (hle : header.maxEntries ≤ newSize) (hnew : newSize ≤ kMaxBlocks)
    (hdvd : 32 ∣ newSize) (hlt : header.maxEntries ≠ kMaxBlocks) :
    Consistent { header with
      empty := update header.empty 3 (((newSize - header.maxEntries : ℕ) / 4 : ℤ))
      maxEntries := newSize
      updating := updating } live := by
  have hfree (n : ℕ) (hn : header.maxEntries / 4 ≤ n) : typeAt header.allocationMap n = 4 := by
    have hbit (k : ℕ) : bit header.allocationMap (4 * n + k) = false := by
      by_contra hset
      rw [Bool.not_eq_false, h.bits] at hset
      obtain ⟨r, hr, h1, h2⟩ := hset
      have hmax := (h.record r hr).2.2
      have := h.dvd
      omega
    have h0 := hbit 0
    rw [Nat.add_zero] at h0
    rw [typeAt_eq, h0, hbit 1, hbit 2, hbit 3]
    rfl
  refine ⟨h.apart, fun r hr => ?_, h.bits, fun k hk => ?_, h.entries, fun k => ?_, hdvd, hnew,
    fun hne => absurd (h.next hne) hlt⟩
  · obtain ⟨h1, h2, h3⟩ := h.record r hr
    exact ⟨h1, h2, h3.trans hle⟩
  · dsimp only
    have hold := h.empty k hk
    have hdvd' := h.dvd
    obtain ⟨d, hd⟩ : ∃ d, newSize / 4 = header.maxEntries / 4 + d :=
      ⟨newSize / 4 - header.maxEntries / 4, by omega⟩
    rw [hd, Nat.count_add]
    by_cases hk3 : k = 3
    · subst hk3
      rw [update_self, Nat.count_of_forall fun n _ => hfree _ (Nat.le_add_right _ n)]
      omega
    · have hnone : Nat.count (fun n => typeAt header.allocationMap (header.maxEntries / 4 + n) =
          k + 1) d = 0 := by
        refine Nat.count_of_forall_not fun n _ hn => ?_
        rw [hfree _ (Nat.le_add_right _ n)] at hn
        omega
      rw [update_of_ne hk3, hold, hnone]
      rfl
  · have := h.hints k
    dsimp only
    omega


/-! ### Every run -/

/-- A file as long as its header says, whose header is not locked. -/
structure FileConsistent (file : BlockFile) (live : List (ℕ × ℕ)) : Prop where
  header : Consistent file.header live
  length : file.length = file.header.entrySize * file.header.maxEntries + kBlockHeaderSize
  entrySize : 0 < file.header.entrySize
  updating : file.header.updating ≤ 0

variable {file file' : BlockFile} {setLength ok : Bool} {blockCount : ℕ}

theorem Consistent.setUpdating (h : Consistent header live) (updating : ℤ) :
    Consistent { header with updating := updating } live :=
  ⟨h.apart, h.record, h.bits, h.empty, h.entries, h.hints, h.dvd, h.le, h.next⟩

theorem fixBlockFileHeader_eq (file : BlockFile)
    (hlen : file.length = file.header.entrySize * file.header.maxEntries + kBlockHeaderSize)
    (hsize : 0 < file.header.entrySize) :
    fixBlockFileHeader file = ({ fixAllocationCounters file.header with updating := 0 }, true) := by
  have hnonneg : 0 ≤ file.header.entrySize * file.header.maxEntries :=
    Int.mul_nonneg hsize.le (Int.natCast_nonneg _)
  dsimp only [fixBlockFileHeader]
  rw [if_neg (by omega), if_neg (not_not.2 hlen)]

/-- **`GrowBlockFile`**, on a file without free nibbles. -/
theorem FileConsistent.growBlockFile (h : FileConsistent file live)
    (hfull : file.header.empty 3 = 0) (hg : growBlockFile file setLength = (file', ok)) :
    FileConsistent file' live ∧ (ok = true → 0 < file'.header.empty 3) := by
  have hk : kMaxBlocks = 64896 := rfl
  have hdvd := h.header.dvd
  have hle := h.header.le
  dsimp only [DiskCache.growBlockFile] at hg
  by_cases hmax : file.header.maxEntries = kMaxBlocks
  · rw [if_pos hmax] at hg
    cases hg
    exact ⟨h, fun he => by cases he⟩
  · rw [if_neg hmax] at hg
    obtain ⟨newSize, hnew⟩ : ∃ newSize, newSize = min (file.header.maxEntries + 1024) kMaxBlocks :=
      ⟨_, rfl⟩
    rw [← hnew] at hg
    cases setLength with
    | false =>
      -- the length stays, and the header is found to be in order
      have hfix := fixBlockFileHeader_eq { file with
        header := { file.header with updating := file.header.updating + 1 } } h.length h.entrySize
      have hup := h.updating
      rw [if_pos (by rfl), if_pos (by omega), hfix] at hg
      dsimp only at hg
      rw [if_neg (by simp)] at hg
      cases hg
      refine ⟨⟨(h.header.setUpdating _).fixAllocationCounters.setUpdating _, h.length, h.entrySize,
        by dsimp only; omega⟩, fun he => ?_⟩
      have : newSize ≤ file.header.maxEntries := of_decide_eq_true he
      omega
    | true =>
      rw [if_neg (by simp)] at hg
      cases hg
      refine ⟨⟨h.header.grow hfull (by omega) (by omega) (by omega) hmax, ?_, h.entrySize, ?_⟩, fun _ => ?_⟩
      · dsimp only
        rw [Int.mul_comm]
      · have hup := h.updating
        dsimp only
        omega
      · dsimp only
        rw [update_self]
        omega

theorem FileConsistent.fileForNewBlock (h : FileConsistent file live) (hcount : blockCount ≤ 4)
    (hf : fileForNewBlock file blockCount setLength = (file', ok)) : FileConsistent file' live := by
  unfold DiskCache.fileForNewBlock at hf
  by_cases hneed : needToGrowBlockFile file.header blockCount = true
  · rw [if_pos hneed] at hf
    by_cases hmax : file.header.maxEntries = kMaxBlocks
    · rw [if_pos hmax] at hf
      obtain ⟨rfl, -⟩ := Prod.mk.inj hf
      exact h
    · rw [if_neg hmax] at hf
      refine (h.growBlockFile ?_ hf).1
      -- there is no space for the record, so there is no free nibble
      dsimp only [needToGrowBlockFile] at hneed
      rw [if_neg fun hnext => hmax (h.header.next hnext.1), Bool.not_eq_true', List.any_eq_false]
        at hneed
      have h3 := hneed 3 (by simp)
      simp only [decide_eq_true_eq, not_and, not_not] at h3
      exact h3 (by omega)
  · rw [if_neg hneed] at hf
    obtain ⟨rfl, -⟩ := Prod.mk.inj hf
    exact h

theorem selectTarget_spec (h : selectTarget header blockCount = some target) :
    blockCount ≤ target ∧ target ≤ 4 ∧ header.empty (target - 1) ≠ 0 := by
  have hmem := List.mem_of_find?_eq_some h
  have hempty := List.find?_some h
  obtain ⟨i, hi, heq⟩ := List.mem_drop_iff_getElem.1 hmem
  rw [List.getElem_range] at heq
  rw [List.length_range] at hi
  exact ⟨by omega, by omega, by simpa using hempty⟩

theorem createMapBlock_frame (target size : ℕ) (header : BlockFileHeader) :
    (createMapBlock target size header).1.maxEntries = header.maxEntries ∧
      (createMapBlock target size header).1.entrySize = header.entrySize ∧
      (createMapBlock target size header).1.updating = header.updating := by
  unfold createMapBlock
  by_cases hbad : target = 0 ∨ kMaxNumBlocks < target ∨ size = 0 ∨ kMaxNumBlocks < size
  · rw [if_pos hbad]
    exact ⟨rfl, rfl, rfl⟩
  · rw [if_neg hbad]
    cases findMapBlock header target (header.maxEntries / 32) (header.hints (target - 1)) with
    | none | some found => exact ⟨rfl, rfl, rfl⟩

theorem deleteMapBlock_frame (index size : ℕ) (header : BlockFileHeader) :
    (deleteMapBlock index size header).maxEntries = header.maxEntries ∧
      (deleteMapBlock index size header).entrySize = header.entrySize ∧
      (deleteMapBlock index size header).updating = header.updating := by
  unfold deleteMapBlock
  split_ifs <;> exact ⟨rfl, rfl, rfl⟩

theorem Consistent.createMapBlock_none (h : Consistent header live)
    (hc : DiskCache.createMapBlock target size header = (header', none)) :
    Consistent header' live := by
  unfold DiskCache.createMapBlock at hc
  by_cases hbad : target = 0 ∨ kMaxNumBlocks < target ∨ size = 0 ∨ kMaxNumBlocks < size
  · rw [if_pos hbad] at hc
    obtain ⟨rfl, -⟩ := Prod.mk.inj hc
    exact h
  · rw [if_neg hbad] at hc
    cases hfind : findMapBlock header target (header.maxEntries / 32)
        (header.hints (target - 1)) with
    | none =>
      rw [hfind] at hc
      obtain ⟨rfl, -⟩ := Prod.mk.inj hc
      exact h.fixAllocationCounters
    | some found =>
      rw [hfind] at hc
      cases (Prod.mk.inj hc).2

/-- **`CreateBlock`** creates one record, or none. -/
theorem FileConsistent.createBlock {r : Option ℕ} (h : FileConsistent file live)
    (hc : createBlock file blockCount setLength = (file', r)) :
    FileConsistent file' ((r.map fun index => (index, blockCount)).toList ++ live) := by
  unfold DiskCache.createBlock at hc
  by_cases hcount : blockCount < 1 ∨ 4 < blockCount
  · rw [if_pos hcount] at hc
    cases hc
    exact h
  · rw [if_neg hcount] at hc
    cases hf : DiskCache.fileForNewBlock file blockCount setLength with
    | mk f ok =>
      have hfc := h.fileForNewBlock (by omega) hf
      rw [hf] at hc
      dsimp only at hc
      cases ok with
      | false =>
        cases hc
        exact hfc
      | true =>
        rw [if_neg (by simp)] at hc
        cases ht : selectTarget f.header blockCount with
        | none =>
          rw [ht] at hc
          cases hc
          exact hfc
        | some target =>
          rw [ht] at hc
          dsimp only at hc
          obtain ⟨hle, htarget, -⟩ := selectTarget_spec ht
          cases hc
          obtain ⟨hmax, hsize, hupd⟩ := createMapBlock_frame target blockCount f.header
          refine ⟨?_, ?_, ?_, ?_⟩
          · cases hcm : createMapBlock target blockCount f.header with
            | mk header r =>
              cases r with
              | none => exact hfc.header.createMapBlock_none hcm
              | some index => exact hfc.header.createMapBlock (by omega) hle htarget hcm
          all_goals dsimp only
          · rw [hmax, hsize]
            exact hfc.length
          · rw [hsize]
            exact hfc.entrySize
          · rw [hupd]
            exact hfc.updating

/-- The file and the records that are live. -/
structure FileState where
  file : BlockFile
  live : List (ℕ × ℕ)

inductive FileAction
  | createBlock (blockCount : ℕ) (setLength : Bool)
  | deleteBlock (record : ℕ × ℕ)
  | growBlockFile (setLength : Bool)
  | setNextFile (nextFile : ℤ)

/-- The steps on a file.  A file grows when it has no free nibble, and it gets a next file, or
another one when that is removed, when it cannot grow. -/
inductive FileStep : FileState → FileAction → FileState → Prop
  | createBlock {file file' : BlockFile} {live : List (ℕ × ℕ)} {blockCount : ℕ} {setLength : Bool}
      {r : Option ℕ} : createBlock file blockCount setLength = (file', r) →
      FileStep ⟨file, live⟩ (.createBlock blockCount setLength)
        ⟨file', (r.map fun index => (index, blockCount)).toList ++ live⟩
  | deleteBlock {file : BlockFile} {live : List (ℕ × ℕ)} {record : ℕ × ℕ} : record ∈ live →
      FileStep ⟨file, live⟩ (.deleteBlock record)
        ⟨{ file with header := deleteMapBlock record.1 record.2 file.header }, live.erase record⟩
  | growBlockFile {file : BlockFile} {live : List (ℕ × ℕ)} {setLength : Bool} :
      file.header.empty 3 = 0 →
      FileStep ⟨file, live⟩ (.growBlockFile setLength) ⟨(growBlockFile file setLength).1, live⟩
  | setNextFile {file : BlockFile} {live : List (ℕ × ℕ)} {nextFile : ℤ} :
      file.header.maxEntries = kMaxBlocks →
      FileStep ⟨file, live⟩ (.setNextFile nextFile)
        ⟨{ file with header := { file.header with nextFile := nextFile } }, live⟩

def fileSystem (entrySize : ℤ) : Lib.TransSys FileState FileAction where
  init s := s = ⟨⟨.new entrySize, kBlockHeaderSize⟩, []⟩
  step := FileStep

variable {entrySize : ℤ} {tr : List FileAction} {st : FileState}

theorem FileConsistent.step {st' : FileState} {action : FileAction}
    (h : FileConsistent st.file st.live) (hstep : FileStep st action st') :
    FileConsistent st'.file st'.live := by
  cases hstep with
  | createBlock hc => exact h.createBlock hc
  | @deleteBlock file live record hr =>
    obtain ⟨hmax, hsize, hupd⟩ := deleteMapBlock_frame record.1 record.2 file.header
    refine ⟨h.header.deleteMapBlock hr, ?_, ?_, ?_⟩
    all_goals dsimp only
    · rw [hmax, hsize]
      exact h.length
    · rw [hsize]
      exact h.entrySize
    · rw [hupd]
      exact h.updating
  | growBlockFile hfull => exact (h.growBlockFile hfull rfl).1
  | setNextFile hmax =>
    have hc := h.header
    exact ⟨⟨hc.apart, hc.record, hc.bits, hc.empty, hc.entries, hc.hints, hc.dvd, hc.le,
      fun _ => hmax⟩, h.length, h.entrySize, h.updating⟩

theorem FileConsistent.new (h : 0 < entrySize) :
    FileConsistent ⟨.new entrySize, kBlockHeaderSize⟩ [] := by
  refine ⟨⟨List.Pairwise.nil, by simp, fun i => ?_, fun k _ => ?_, rfl, fun k => Nat.zero_le _,
    Nat.dvd_zero 32, Nat.zero_le _, fun hne => absurd rfl hne⟩, ?_, h, le_rfl⟩
  · simp [BlockFileHeader.new, bit]
  · simp [BlockFileHeader.new]
  · simp [BlockFileHeader.new]

/-- **The header of a block file in every run**: the live records are disjoint, cross no nibble
and lie below the number of entries, the counters agree with the map and with the records, a
record can be created where the counters say so, and fixing the counters leaves them. -/
theorem header_consistent (hsize : 0 < entrySize) (hrun : (fileSystem entrySize).Run tr st) :
    Consistent st.file.header st.live ∧
      (∀ target size, 0 < size → size ≤ 4 → 0 < target → target ≤ 4 → 0 < st.file.header.empty (target - 1) →
        ∃ index, (createMapBlock target size st.file.header).2 = some index) ∧
      (∀ k < 4, (fixAllocationCounters st.file.header).empty k = st.file.header.empty k) ∧
      (fixAllocationCounters st.file.header).numEntries = st.file.header.numEntries := by
  have h : FileConsistent st.file st.live := by
    refine hrun.invariant (I := fun st => FileConsistent st.file st.live) ?_ ?_
    · rintro st rfl
      exact FileConsistent.new hsize
    · exact fun st action st' hst hstep => hst.step hstep
  exact ⟨h.header, fun target size h1 h2 h3 h4 h5 => exists_createMapBlock h.header h1 h2 h3 h4 h5,
    fun k hk => empty_fixAllocationCounters h.header hk, rfl⟩

/-- A record of two blocks is created in a new file and deleted again. -/
theorem header_consistent_record : Consistent (deleteMapBlock 0 2
        (createBlock ⟨.new 256, kBlockHeaderSize⟩ 2 true).1.header) [] ∧
      ∃ index, (createMapBlock 4 3 (deleteMapBlock 0 2
        (createBlock ⟨.new 256, kBlockHeaderSize⟩ 2 true).1.header)).2 = some index := by
  have hcreate : FileStep ⟨⟨.new 256, kBlockHeaderSize⟩, []⟩ (.createBlock 2 true)
      ⟨(createBlock ⟨.new 256, kBlockHeaderSize⟩ 2 true).1, [(0, 2)]⟩ :=
    .createBlock (r := some 0) (Prod.ext rfl (by decide +kernel))
  have h := header_consistent (by decide) (.step (.step (.init rfl) hcreate)
    (.deleteBlock (List.mem_singleton_self (0, 2))))
  exact ⟨h.1, h.2.1 4 3 (by decide) (by decide) (by decide) (by decide) (by decide +kernel)⟩

end Chromium.Net.DiskCache
