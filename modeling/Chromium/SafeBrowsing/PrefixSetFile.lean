import Chromium.Lib.LittleEndian
import Chromium.SafeBrowsing.PrefixSet

/-!
# The file of a set of prefixes

`WriteFile`, `LoadFile` and `CheckChecksum` of `chrome/browser/safe_browsing/prefix_set.cc`, where a `size_t` has eight
bytes and a pair of the index four bytes of padding.  The set that is loaded has no checksum.
-/

namespace Chromium.SafeBrowsing

open Lib
open List (append_assoc drop_left' length_append take_left')

def kMagic : ℕ := 0x864088dd

def kVersion : ℕ := 1

abbrev MD5Digest : Type := Fin 16 → UInt8

namespace PrefixSet

def fileHeader (indexSize deltasSize : ℕ) : List UInt8 :=
  toLe 4 kMagic ++ toLe 4 kVersion ++ toLe 4 indexSize ++ toLe 4 deltasSize

/-- `index_` in memory; the padding of a pair can be any bytes. -/
def indexBytes (padding : ℕ → Fin 4 → UInt8) : List (SBPrefix × ℕ) → List UInt8
  | [] => []
  | (first, start) :: index =>
    toLe 4 first.toUInt32.toNat ++ List.ofFn (padding index.length) ++ toLe 8 start ++ indexBytes padding index

def readIndex : ℕ → List UInt8 → List (SBPrefix × ℕ)
  | 0, _ => []
  | count + 1, bytes =>
    ((UInt32.ofNat (leNat (bytes.take 4))).toInt32, leNat ((bytes.drop 8).take 8)) :: readIndex count (bytes.drop 16)

section File

variable (md5 : List UInt8 → MD5Digest)

def writeFile (padding : ℕ → Fin 4 → UInt8) (s : PrefixSet) : Option (List UInt8) :=
  if s.index.length < 4294967296 ∧ s.deltas.length < 4294967296 then
    let payload := fileHeader s.index.length s.deltas.length ++
      (indexBytes padding s.index ++ arrayBytes 2 (s.deltas.map UInt16.toNat))
    some (payload ++ List.ofFn (md5 payload))
  else none

/-- `LoadFile`; the reads succeed, since the sizes are those of the file. -/
def loadFile (file : List UInt8) : Option PrefixSet :=
  if file.length < 16 + 16 then none
  else
    let header := file.take 16
    if leNat (header.take 4) ≠ kMagic ∨ leNat ((header.drop 4).take 4) ≠ kVersion then none
    else
      let indexSize := leNat ((header.drop 8).take 4)
      let deltasSize := leNat (header.drop 12)
      let indexBytes := 16 * indexSize
      let deltasBytes := 2 * deltasSize
      if 16 + indexBytes + deltasBytes + 16 ≠ file.length then none
      else
        let index := (file.drop 16).take indexBytes
        let deltas := (file.drop (16 + indexBytes)).take deltasBytes
        let fileDigest := file.drop (16 + indexBytes + deltasBytes)
        if fileDigest ≠ List.ofFn (md5 (header ++ index ++ deltas)) then none
        else some ⟨readIndex indexSize index, (readArray 2 deltasSize deltas).map UInt16.ofNat, 0⟩

end File

/-- The checksum of what a set has. -/
def xorAll (index : List (SBPrefix × ℕ)) (deltas : List UInt16) : UInt32 :=
  deltas.foldl (fun checksum delta => checksum ^^^ delta.toUInt32)
    (index.foldl (fun checksum entry => checksum ^^^ entry.1.toUInt32 ^^^ UInt32.ofNat entry.2) 0)

def checkChecksum (s : PrefixSet) : Bool := xorAll s.index s.deltas = s.checksum

/-- **A file whose digest is not that of its payload is not loaded.** -/
theorem loadFile_eq_none {md5 : List UInt8 → MD5Digest} {file : List UInt8}
    (h : file.drop (file.length - 16) ≠ List.ofFn (md5 (file.take (file.length - 16)))) : loadFile md5 file = none := by
  dsimp only [loadFile]
  split_ifs with _ _ hsize hdigest
  · rfl
  · rfl
  · rfl
  · rfl
  · rw [not_not] at hsize hdigest
    rw [← hsize, Nat.add_sub_cancel, List.take_add, List.take_add] at h
    exact absurd hdigest h

theorem length_indexBytes (padding : ℕ → Fin 4 → UInt8) (index : List (SBPrefix × ℕ)) :
    (indexBytes padding index).length = 16 * index.length := by
  induction index with
  | nil => rfl
  | cons entry index ih =>
    rw [indexBytes, length_append, ih]
    simp only [length_append, length_toLe, List.length_ofFn, List.length_cons]
    omega

theorem readIndex_indexBytes (padding : ℕ → Fin 4 → UInt8) {index : List (SBPrefix × ℕ)}
    (h : ∀ entry ∈ index, entry.2 < 256 ^ 8) : readIndex index.length (indexBytes padding index) = index := by
  induction index with
  | nil => rfl
  | cons entry index ih =>
    obtain ⟨first, start⟩ := entry
    have hstart : start < 256 ^ 8 := h _ List.mem_cons_self
    have hfirst : first.toUInt32.toNat < 256 ^ 4 := first.toUInt32.toNat_lt
    have hfour : (toLe 4 first.toUInt32.toNat ++ List.ofFn (padding index.length)).length = 8 := by simp
    have hsixteen : (toLe 4 first.toUInt32.toNat ++ List.ofFn (padding index.length) ++ toLe 8 start).length = 16 := by
      simp
    rw [indexBytes, List.length_cons, readIndex, drop_left' hsixteen, ih fun e he => h e (List.mem_cons_of_mem _ he)]
    simp only [append_assoc] at hfour ⊢
    rw [take_left' (length_toLe 4 _), leNat_toLe hfirst, UInt32.ofNat_toNat, Int32.toInt32_toUInt32,
      ← append_assoc, drop_left' hfour, take_left' (length_toLe 8 _), leNat_toLe hstart]

/-- What the constructor keeps: its checksum is that of what it has, and the index leads into the deltas. -/
structure Checked (index : List (SBPrefix × ℕ)) (deltas : List UInt16) (checksum : UInt32) : Prop where
  checksum : xorAll index deltas = checksum
  start : ∀ entry ∈ index, entry.2 ≤ deltas.length

theorem foldl_xor (deltas : List UInt16) (c x : UInt32) :
    deltas.foldl (fun checksum delta => checksum ^^^ delta.toUInt32) (c ^^^ x) =
      deltas.foldl (fun checksum delta => checksum ^^^ delta.toUInt32) c ^^^ x := by
  induction deltas generalizing c with
  | nil => rfl
  | cons delta deltas ih =>
    rw [List.foldl_cons, List.foldl_cons, UInt32.xor_assoc, UInt32.xor_comm x, ← UInt32.xor_assoc, ih]

theorem xorAll_concat_index (index : List (SBPrefix × ℕ)) (deltas : List UInt16) (entry : SBPrefix × ℕ) :
    xorAll (index ++ [entry]) deltas = xorAll index deltas ^^^ entry.1.toUInt32 ^^^ UInt32.ofNat entry.2 := by
  rw [xorAll, List.foldl_concat, UInt32.xor_assoc, foldl_xor, ← UInt32.xor_assoc]
  rfl

theorem checked_push {s : PrefixSetBuilder} (h : Checked s.index s.deltas s.checksum) (p : SBPrefix) :
    Checked (s.push p).index (s.push p).deltas (s.push p).checksum := by
  unfold PrefixSetBuilder.push
  split
  · exact h
  · dsimp only
    split
    · refine ⟨?_, fun entry hentry => ?_⟩
      · rw [xorAll_concat_index, h.checksum]
      · rcases List.mem_append.1 hentry with hentry | hentry
        · exact h.start entry hentry
        · rw [List.mem_singleton.1 hentry]
    · refine ⟨?_, fun entry hentry => ?_⟩
      · rw [← h.checksum, xorAll, List.foldl_concat]
        rfl
      · rw [length_append]
        exact Nat.le_add_right_of_le (h.start entry hentry)

theorem checked_new (ps : List SBPrefix) : Checked (new ps).index (new ps).deltas (new ps).checksum := by
  cases ps with
  | nil => exact ⟨rfl, fun entry hentry => nomatch hentry⟩
  | cons p ps =>
    have hstart : Checked (PrefixSetBuilder.start p).index (PrefixSetBuilder.start p).deltas
        (PrefixSetBuilder.start p).checksum := by
      refine ⟨?_, fun entry hentry => ?_⟩
      · simp [xorAll, PrefixSetBuilder.start]
      · rw [List.mem_singleton.1 hentry]
        exact Nat.zero_le _
    have hfold (s : PrefixSetBuilder) (hs : Checked s.index s.deltas s.checksum) :
        Checked (ps.foldl PrefixSetBuilder.push s).index (ps.foldl PrefixSetBuilder.push s).deltas
          (ps.foldl PrefixSetBuilder.push s).checksum := by
      induction ps generalizing s with
      | nil => exact hs
      | cons q ps ih => exact ih _ (checked_push hs q)
    exact hfold _ hstart

/-- What is read of the header. -/
theorem fileHeader_fields {indexSize deltasSize : ℕ} (hindex : indexSize < 4294967296)
    (hdeltas : deltasSize < 4294967296) :
    (fileHeader indexSize deltasSize).length = 16 ∧ leNat ((fileHeader indexSize deltasSize).take 4) = kMagic ∧
      leNat (((fileHeader indexSize deltasSize).drop 4).take 4) = kVersion ∧
      leNat (((fileHeader indexSize deltasSize).drop 8).take 4) = indexSize ∧
      leNat ((fileHeader indexSize deltasSize).drop 12) = deltasSize := by
  have hmagic : leNat (toLe 4 kMagic) = kMagic := leNat_toLe (by decide)
  have hversion : leNat (toLe 4 kVersion) = kVersion := leNat_toLe (by decide)
  have hsize : leNat (toLe 4 indexSize) = indexSize := leNat_toLe hindex
  have hsize' : leNat (toLe 4 deltasSize) = deltasSize := leNat_toLe hdeltas
  unfold fileHeader
  refine ⟨?_, ?_, ?_, ?_, ?_⟩ <;> simp [List.drop_append, List.drop_eq_nil_of_le, *]

/-- **The file that is written is loaded**, without its checksum. -/
theorem loadFile_writeFile {md5 : List UInt8 → MD5Digest} {padding : ℕ → Fin 4 → UInt8} {s : PrefixSet}
    {file : List UInt8} (hstart : ∀ entry ∈ s.index, entry.2 ≤ s.deltas.length)
    (h : writeFile md5 padding s = some file) : loadFile md5 file = some ⟨s.index, s.deltas, 0⟩ := by
  unfold writeFile at h
  split_ifs at h with hsize
  cases h
  obtain ⟨hheader, hmagic, hversion, hindexSize, hdeltasSize⟩ := fileHeader_fields hsize.1 hsize.2
  have hindex := length_indexBytes padding s.index
  have hdeltas : (arrayBytes 2 (s.deltas.map UInt16.toNat)).length = 2 * s.deltas.length := by
    rw [length_arrayBytes, List.length_map, Nat.mul_comm]
  generalize hdigest : List.ofFn (md5 _) = digest
  have hdigestLength : digest.length = 16 := hdigest ▸ List.length_ofFn
  have hread : readIndex s.index.length (indexBytes padding s.index) = s.index :=
    readIndex_indexBytes padding fun entry hentry => by
      have := hstart entry hentry
      omega
  have hreadDeltas : (readArray 2 s.deltas.length (arrayBytes 2 (s.deltas.map UInt16.toNat))).map UInt16.ofNat =
      s.deltas := by
    have hall : ∀ n ∈ s.deltas.map UInt16.toNat, n < 256 ^ 2 := fun n hn => by
      obtain ⟨delta, -, rfl⟩ := List.mem_map.1 hn
      exact delta.toNat_lt
    have harray := readArray_arrayBytes hall
    rw [List.length_map] at harray
    rw [harray, List.map_map]
    exact List.map_id'' (fun delta => UInt16.ofNat_toNat) _
  have hlength : (fileHeader s.index.length s.deltas.length ++ (indexBytes padding s.index ++
      arrayBytes 2 (s.deltas.map UInt16.toNat)) ++ digest).length =
        16 + 16 * s.index.length + 2 * s.deltas.length + 16 := by
    simp only [length_append, hheader, hindex, hdeltas, hdigestLength]
    omega
  rw [loadFile, hlength, if_neg (by omega), append_assoc, append_assoc, take_left' hheader]
  dsimp only
  rw [hmagic, hversion, hindexSize, hdeltasSize, if_neg (by simp), if_neg (not_not.2 rfl), ← List.drop_drop,
    ← List.drop_drop, drop_left' hheader, take_left' hindex, drop_left' hindex, take_left' hdeltas,
    drop_left' hdeltas, append_assoc, hdigest, if_neg (not_not.2 rfl), hread, hreadDeltas]

/-- **The set that is loaded has the same prefixes, but a right checksum only where that of the set written is zero.** -/
theorem loadFile_iff {md5 : List UInt8 → MD5Digest} {padding : ℕ → Fin 4 → UInt8} {ps : List SBPrefix}
    {file : List UInt8} (h : writeFile md5 padding (new ps) = some file) :
    ((∃ t, loadFile md5 file = some t ∧ (∀ p, t.existsPrefix p = (new ps).existsPrefix p) ∧
        t.getPrefixes = (new ps).getPrefixes ∧ t.checkChecksum = true) ∧
      ∀ file', file'.drop (file'.length - 16) ≠ List.ofFn (md5 (file'.take (file'.length - 16))) →
        loadFile md5 file' = none) ↔ (new ps).checksum = 0 := by
  have hchecked := checked_new ps
  have hload := loadFile_writeFile hchecked.start h
  constructor
  · rintro ⟨⟨t, ht, -, -, hsum⟩, -⟩
    obtain rfl := Option.some.inj (hload.symm.trans ht)
    exact hchecked.checksum.symm.trans (of_decide_eq_true hsum)
  · intro hzero
    exact ⟨⟨_, hload, fun p => rfl, rfl, decide_eq_true (hchecked.checksum.trans hzero)⟩, fun file' => loadFile_eq_none⟩

theorem loadFile_iff_zero : ∃ file t, writeFile (fun _ _ => 0) (fun _ _ => 0) (new [0]) = some file ∧
    loadFile (fun _ _ => 0) file = some t ∧ t.checkChecksum = true := by
  have hwrite : writeFile (fun _ _ => 0) (fun _ _ => 0) (new [0]) = some _ := rfl
  obtain ⟨⟨t, ht, -, -, hsum⟩, -⟩ := (loadFile_iff hwrite).mpr rfl
  exact ⟨_, t, hwrite, ht, hsum⟩

/-- The set of the prefix 1 is written and loaded. -/
theorem checkChecksum_loadFile_one : ∃ file t, writeFile (fun _ _ => 0) (fun _ _ => 0) (new [1]) = some file ∧
    loadFile (fun _ _ => 0) file = some t ∧ t.checkChecksum = false :=
  ⟨_, _, rfl, loadFile_writeFile (checked_new [1]).start rfl, rfl⟩

end PrefixSet

end Chromium.SafeBrowsing
