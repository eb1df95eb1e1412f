import Chromium.SafeBrowsing.ProtocolParser

/-!
# Chunks are read as they were written

A chunk is a line `<type>:<number>:<hash length>:<length>` and the hosts: of each the key, the number of
its prefixes and the prefixes, in a sub chunk each behind the number of its add chunk; where there is
no prefix, a sub chunk has the number alone.  A chunk of `kBinHashList` has prefixes only.

`ParseChunk` reads chunks that are written one behind the other, and nothing else
(`parseChunk_writeChunks`).
-/

namespace Chromium.SafeBrowsing

open Base Lib
open List (append_assoc flatMap_cons length_append length_cons length_singleton mem_cons
  mem_cons_of_mem mem_cons_self)

/-! ### Writing -/

def storePrefix (p : SBPrefix) : List UInt8 := (toBe 4 p.toUInt32.toNat).reverse

def storeHash : SBHash → List UInt8
  | .sbPrefix p => storePrefix p
  | .fullHash h => h.fullHash.toList

def storeChunkId (chunkId : Int32) : List UInt8 := toBe 4 chunkId.toUInt32.toNat

def writeItem (type : SBEntryType) (item : EntryItem) : List UInt8 :=
  (if type.isSub then storeChunkId item.addChunk else []) ++ storeHash item.hash

def writeItems (type : SBEntryType) (items : List EntryItem) : List UInt8 :=
  items.flatMap (writeItem type)

def writeHost (type : SBEntryType) (h : SBChunkHost) : List UInt8 :=
  storePrefix h.host ++ [UInt8.ofNat h.entry.items.length] ++
    if type.isSub ∧ h.entry.items = [] then storeChunkId h.entry.chunkId
    else writeItems type h.entry.items

def writeHosts (listName : List UInt8) (type : SBEntryType) (hosts : List SBChunkHost) : List UInt8 :=
  if listName = kBinHashList then hosts.flatMap fun h => writeItems type h.entry.items
  else hosts.flatMap (writeHost type)

structure ItemFits (type : SBEntryType) (item : EntryItem) : Prop where
  hash : type.isPrefix = true ↔ ∃ p, item.hash = .sbPrefix p
  addChunk : type.isSub = false → item.addChunk = 0

structure EntryFits (type : SBEntryType) (entry : SBEntry) : Prop where
  type_eq : entry.type = type
  items : ∀ item ∈ entry.items, ItemFits type item

/-- A host that can be written: its count has one byte, and it has the number of an add chunk where
there is no prefix. -/
structure HostFits (type : SBEntryType) (h : SBChunkHost) : Prop where
  entry : EntryFits type h.entry
  count_lt : h.entry.items.length < 256
  chunkId : h.entry.chunkId = 0 ∨ type.isSub = true ∧ h.entry.items = []

/-- The one host of a chunk of `kBinHashList`. -/
structure BinHashFits (type : SBEntryType) (h : SBChunkHost) : Prop where
  entry : EntryFits type h.entry
  host : h.host = 0
  chunkId : h.entry.chunkId = 0

/-- A chunk of a list, as the server writes it. -/
structure WrittenChunk (listName : List UInt8) where
  chunkNumber : Int32
  type : SBEntryType
  hosts : List SBChunkHost
  fits : if listName = kBinHashList then ∃ h, hosts = [h] ∧ BinHashFits type h
    else ∀ h ∈ hosts, HostFits type h

namespace WrittenChunk

variable {listName : List UInt8} (w : WrittenChunk listName)

def chunk : SBChunk := ⟨w.chunkNumber.toInt, !w.type.isSub, w.hosts⟩

def body : List UInt8 := writeHosts listName w.type w.hosts

def parts : List (List UInt8) :=
  [if w.type.isSub then word "s" else word "a", decimalInt w.chunkNumber.toInt,
    decimalInt w.type.hashLen, decimalInt w.body.length]

def header : List UInt8 := [58].intercalate w.parts

def write : List UInt8 := w.header ++ 10 :: w.body

end WrittenChunk

def writeChunks {listName : List UInt8} (chunks : List (WrittenChunk listName)) : List UInt8 :=
  chunks.flatMap WrittenChunk.write

/-! ### Numbers and hashes -/

variable {type : SBEntryType} {rest : List UInt8} {remaining : ℤ}

variable {h : SBChunkHost} {items : List EntryItem} {item : EntryItem}

@[simp]
theorem length_storePrefix (p : SBPrefix) : (storePrefix p).length = 4 := by
  simp [storePrefix]

@[simp]
theorem length_storeChunkId (chunkId : Int32) : (storeChunkId chunkId).length = 4 := length_toBe 4 _

theorem beNat_toBe_toUInt32 (x : Int32) :
    (UInt32.ofNat (beNat (toBe 4 x.toUInt32.toNat))).toInt32 = x := by
  rw [beNat_toBe_of_lt (by simpa using x.toUInt32.toNat_lt), UInt32.ofNat_toNat, Int32.toInt32_toUInt32]

theorem loadPrefix_storePrefix (p : SBPrefix) : loadPrefix (storePrefix p) = p := by
  rw [loadPrefix, storePrefix, List.reverse_reverse, beNat_toBe_toUInt32]

theorem loadFullHash_toList (h : SBFullHash) : loadFullHash h.fullHash.toList = h := by
  have hbytes : (Vector.ofFn fun i : Fin 32 => h.fullHash.toList.getD i 0) = h.fullHash := by
    refine Vector.ext fun i hi => ?_
    rw [Vector.getElem_ofFn, List.getD_eq_getElem?_getD, Vector.getElem?_toList,
      Vector.getElem?_eq_getElem hi, Option.getD_some]
  rw [loadFullHash, hbytes]

theorem ItemFits.isPrefix_cases (h : ItemFits type item) :
    (type.isPrefix = true ∧ ∃ p, item.hash = .sbPrefix p) ∨
      (type.isPrefix = false ∧ ∃ hash, item.hash = .fullHash hash) := by
  cases htype : type.isPrefix with
  | true => exact .inl ⟨rfl, h.hash.1 htype⟩
  | false =>
    cases hhash : item.hash with
    | sbPrefix p => exact absurd (h.hash.2 ⟨p, hhash⟩) (by simp [htype])
    | fullHash hash => exact .inr ⟨rfl, hash, rfl⟩

theorem length_storeHash (h : ItemFits type item) : (storeHash item.hash).length = type.hashLen := by
  rcases h.isPrefix_cases with ⟨htype, p, hp⟩ | ⟨htype, hash, hhash⟩
  · rw [hp, SBEntryType.hashLen, if_pos htype]
    exact length_storePrefix p
  · rw [hhash, SBEntryType.hashLen, if_neg (by simp [htype])]
    exact hash.fullHash.length_toList

theorem loadHash_storeHash (h : ItemFits type item) :
    loadHash type (storeHash item.hash) = item.hash := by
  rcases h.isPrefix_cases with ⟨htype, p, hp⟩ | ⟨htype, hash, hhash⟩
  · rw [hp, loadHash, if_pos htype]
    exact congrArg SBHash.sbPrefix (loadPrefix_storePrefix p)
  · rw [hhash, loadHash, if_neg (by simp [htype])]
    exact congrArg SBHash.fullHash (loadFullHash_toList hash)

/-! ### Reading -/

theorem Cursor.read_append (bytes rest : List UInt8) (hremaining : (bytes.length : ℤ) ≤ remaining) :
    Cursor.read ⟨bytes ++ rest, remaining⟩ bytes.length =
      .ok (bytes, ⟨rest, remaining - bytes.length⟩) := by
  rw [Cursor.read, if_neg (by simp), if_neg (by dsimp only; omega)]
  simp

theorem Cursor.readChunkId_append (chunkId : Int32) (rest : List UInt8) (hremaining : 4 ≤ remaining) :
    Cursor.readChunkId ⟨storeChunkId chunkId ++ rest, remaining⟩ =
      .ok (chunkId, ⟨rest, remaining - 4⟩) := by
  have hread := @Cursor.read_append remaining (storeChunkId chunkId) rest
    (by rw [length_storeChunkId]; exact hremaining)
  rw [length_storeChunkId] at hread
  rw [Cursor.readChunkId, hread]
  show Except.ok ((UInt32.ofNat (beNat (storeChunkId chunkId))).toInt32, _) = _
  rw [storeChunkId, beNat_toBe_toUInt32]
  rfl

theorem modify_length {α : Type} (l : List α) (a : α) (l' : List α) (f : α → α) :
    (l ++ a :: l').modify l.length f = l ++ f a :: l' := by
  induction l with
  | nil => rfl
  | cons x l ih => simpa using ih

theorem length_writeItem (h : ItemFits type item) : (writeItem type item).length = type.prefixSize := by
  rw [writeItem, length_append, length_storeHash h, SBEntryType.prefixSize]
  split
  · rw [length_storeChunkId]
  · simp

theorem setChunkIdAtPrefix_length (type : SBEntryType) (chunkId addChunk : Int32)
    (done pad : List EntryItem) (item : EntryItem) :
    SBEntry.setChunkIdAtPrefix ⟨type, chunkId, done ++ item :: pad⟩ done.length addChunk =
      ⟨type, chunkId, done ++ ⟨addChunk, item.hash⟩ :: pad⟩ := by
  rw [SBEntry.setChunkIdAtPrefix, modify_length]

theorem setHashAt_length (type : SBEntryType) (chunkId : Int32) (done pad : List EntryItem)
    (item : EntryItem) (hash : SBHash) :
    SBEntry.setHashAt ⟨type, chunkId, done ++ item :: pad⟩ done.length hash =
      ⟨type, chunkId, done ++ ⟨item.addChunk, hash⟩ :: pad⟩ := by
  rw [SBEntry.setHashAt, modify_length]

theorem hashLen_pos (type : SBEntryType) : 0 < type.hashLen := by
  cases type <;> decide

theorem readPrefixAt_writeItem (h : ItemFits type item) (chunkId : Int32)
    (done pad : List EntryItem) (hash : SBHash)
    (hremaining : (type.prefixSize : ℤ) ≤ remaining) :
    readPrefixAt ⟨type, chunkId, done ++ ⟨0, hash⟩ :: pad⟩ done.length
        ⟨writeItem type item ++ rest, remaining⟩ =
      .ok (true, ⟨type, chunkId, done ++ item :: pad⟩, ⟨rest, remaining - type.prefixSize⟩) := by
  have hpos := hashLen_pos type
  have hread : ∀ remaining : ℤ, (type.hashLen : ℤ) ≤ remaining →
      Cursor.read ⟨storeHash item.hash ++ rest, remaining⟩ type.hashLen =
        .ok (storeHash item.hash, ⟨rest, remaining - type.hashLen⟩) := by
    intro remaining hremaining
    have hread := @Cursor.read_append remaining (storeHash item.hash) rest
    rw [length_storeHash h] at hread
    exact hread hremaining
  unfold readPrefixAt writeItem
  unfold SBEntryType.prefixSize at hremaining ⊢
  cases hsub : type.isSub with
  | true =>
    rw [hsub, if_pos rfl] at hremaining
    have hmore : ¬ remaining ≤ 4 := by omega
    have hid := Cursor.readChunkId_append item.addChunk (storeHash item.hash ++ rest)
      (show 4 ≤ remaining by omega)
    simp [hid, setChunkIdAtPrefix_length, setHashAt_length,
      loadHash_storeHash h, hsub, hread (remaining - 4) (by omega), hmore]
    omega
  | false =>
    rw [hsub, if_neg (by simp)] at hremaining
    have hitem : (⟨0, item.hash⟩ : EntryItem) = item := by rw [← h.addChunk hsub]
    simp [setHashAt_length, loadHash_storeHash h, hsub, hread remaining (by omega), hitem, hremaining]

theorem length_writeItems (h : ∀ item ∈ items, ItemFits type item) :
    (writeItems type items).length = items.length * type.prefixSize := by
  induction items with
  | nil => simp [writeItems]
  | cons item items ih =>
    have hitem := length_writeItem (h item mem_cons_self)
    have ih := ih fun item' hitem' => h item' (mem_cons_of_mem _ hitem')
    rw [writeItems] at ih ⊢
    rw [flatMap_cons, length_append, hitem, ih, length_cons, Nat.succ_mul, Nat.add_comm]

theorem readPrefixesFrom_writeItems
    (h : ∀ item ∈ items, ItemFits type item) (chunkId : Int32) (done : List EntryItem)
    (hash : SBHash) (hremaining : ((writeItems type items).length : ℤ) ≤ remaining) :
    readPrefixesFrom done.length items.length
        ⟨type, chunkId, done ++ List.replicate items.length ⟨0, hash⟩⟩
        ⟨writeItems type items ++ rest, remaining⟩ =
      .ok (true, ⟨type, chunkId, done ++ items⟩, ⟨rest, remaining - (writeItems type items).length⟩) := by
  induction items generalizing done remaining with
  | nil => simp [readPrefixesFrom, writeItems]
  | cons item items ih =>
    have hitem := h item mem_cons_self
    have hitems : ∀ item ∈ items, ItemFits type item := fun item' hitem' =>
      h item' (mem_cons_of_mem _ hitem')
    have hwrite : writeItems type (item :: items) = writeItem type item ++ writeItems type items :=
      flatMap_cons
    have hsize := length_writeItem hitem
    rw [hwrite, length_append, hsize] at hremaining
    rw [hwrite, append_assoc, length_append, hsize, length_cons, List.replicate_succ, readPrefixesFrom,
      readPrefixAt_writeItem hitem chunkId done _ hash (by omega)]
    have hmore : ((writeItems type items).length : ℤ) ≤ remaining - type.prefixSize := by omega
    simpa [Int.sub_sub] using ih hitems (done ++ [item]) hmore

theorem create_of_lt {prefixCount : ℕ} (h : 16 + prefixCount * type.prefixSize < 2147483648) :
    SBEntry.create type prefixCount =
      .ok ⟨type, 0, List.replicate prefixCount ⟨0, loadHash type []⟩⟩ := by
  rw [SBEntry.create, if_pos ⟨Int.natCast_nonneg _, by exact_mod_cast h⟩, Int.toNat_natCast]

theorem prefixSize_le (type : SBEntryType) : type.prefixSize ≤ 36 := by
  cases type <;> decide

theorem create_of_count_lt {prefixCount : ℕ} (h : prefixCount < 256) : SBEntry.create type prefixCount =
      .ok ⟨type, 0, List.replicate prefixCount ⟨0, loadHash type []⟩⟩ := by
  refine create_of_lt ?_
  have hsize := Nat.mul_le_mul h.le (prefixSize_le type)
  omega

theorem readPrefixes_writeItems (h : ∀ item ∈ items, ItemFits type item)
    (hash : SBHash) (hremaining : ((writeItems type items).length : ℤ) ≤ remaining) :
    readPrefixes ⟨type, 0, List.replicate items.length ⟨0, hash⟩⟩ items.length
        ⟨writeItems type items ++ rest, remaining⟩ =
      .ok (true, ⟨type, 0, items⟩, ⟨rest, remaining - (writeItems type items).length⟩) := by
  simpa [readPrefixes] using
    @readPrefixesFrom_writeItems type rest remaining items h 0 [] hash hremaining

theorem Cursor.readHostAndPrefixCount_append (host : SBPrefix) {count : ℕ} (hcount : count < 256)
    (rest : List UInt8) (hremaining : 5 ≤ remaining) :
    Cursor.readHostAndPrefixCount
        ⟨storePrefix host ++ [UInt8.ofNat count] ++ rest, remaining⟩ =
      .ok ((host, count), ⟨rest, remaining - 5⟩) := by
  have hhost := @Cursor.read_append remaining (storePrefix host) ([UInt8.ofNat count] ++ rest)
    (by rw [length_storePrefix]; omega)
  have hbyte := @Cursor.read_append (remaining - 4) [UInt8.ofNat count] rest
    (by rw [length_singleton]; omega)
  rw [length_storePrefix] at hhost
  have hvalue : beNat [UInt8.ofNat count] = count := by
    show 0 * 256 + (UInt8.ofNat count).toNat = count
    rw [UInt8.toNat_ofNat']
    omega
  rw [Cursor.readHostAndPrefixCount, append_assoc, hhost]
  simp only [ok_bind]
  rw [show remaining - (4 : ℕ) = remaining - 4 from rfl, show 1 = [UInt8.ofNat count].length from rfl, hbyte]
  simp [loadPrefix_storePrefix, hvalue]
  omega

/-- A host has its key and its count at least, and in a sub chunk the number of an add chunk. -/
theorem minSize_le_length_writeHost (hfits : HostFits type h) :
    minSize type ≤ (writeHost type h).length := by
  have hpos := hashLen_pos type
  rw [writeHost, length_append, length_append, length_storePrefix, length_singleton, minSize]
  split
  · rename_i hsub
    split
    · rw [length_storeChunkId]
      omega
    · rename_i hitems
      have hne : h.entry.items ≠ [] := fun hnil => hitems ⟨hsub, hnil⟩
      have hcount := List.length_pos_iff.2 hne
      rw [length_writeItems hfits.entry.items, SBEntryType.prefixSize, if_pos hsub]
      have hle := Nat.le_mul_of_pos_left (4 + type.hashLen) hcount
      omega
  · omega

theorem parseHost_writeHost (hfits : HostFits type h) (hosts : List SBChunkHost)
    (hremaining : ((writeHost type h).length : ℤ) ≤ remaining) :
    parseHost type hosts ⟨writeHost type h ++ rest, remaining⟩ =
      .ok (true, hosts ++ [h], ⟨rest, remaining - (writeHost type h).length⟩) := by
  obtain ⟨host, ⟨entryType, chunkId, items⟩⟩ := h
  obtain ⟨⟨rfl, hitems⟩, hcount, hchunkId⟩ := hfits
  have hcreate := @create_of_count_lt entryType _ hcount
  dsimp only at hitems hcount hchunkId
  unfold parseHost writeHost
  unfold writeHost at hremaining
  dsimp only at hremaining ⊢
  have hfive : 5 ≤ remaining := by
    rw [length_append, length_append, length_storePrefix, length_singleton] at hremaining
    omega
  rw [append_assoc, Cursor.readHostAndPrefixCount_append host hcount _ hfive, ok_bind]
  dsimp only
  rw [hcreate, ok_bind]
  by_cases hnone : entryType.isSub = true ∧ items = []
  · -- the number of an add chunk alone
    obtain ⟨hsub, rfl⟩ := hnone
    rw [if_pos ⟨hsub, rfl⟩, length_append, length_append, length_storePrefix,
      length_singleton, length_storeChunkId] at hremaining
    have hid := Cursor.readChunkId_append chunkId rest (show 4 ≤ remaining - 5 by omega)
    simp [hsub, hid]
    omega
  · have hnone' : ¬ (entryType.isSub = true ∧ items.length = 0) := by
      simpa [List.length_eq_zero_iff] using hnone
    obtain rfl : chunkId = 0 := hchunkId.resolve_right hnone
    rw [if_neg hnone, length_append, length_append, length_storePrefix, length_singleton] at hremaining
    rw [if_neg hnone, if_neg hnone', readPrefixes_writeItems hitems _ (by omega)]
    simp
    omega

theorem length_le_length_flatMap {hosts : List SBChunkHost} (hfits : ∀ h ∈ hosts, HostFits type h) :
    hosts.length ≤ (hosts.flatMap (writeHost type)).length := by
  induction hosts with
  | nil => exact le_rfl
  | cons h hosts ih =>
    have hmin := minSize_le_length_writeHost (hfits h mem_cons_self)
    have ih := ih fun h' hh' => hfits h' (mem_cons_of_mem _ hh')
    have hsize : 1 ≤ minSize type := by
      unfold minSize
      split <;> omega
    rw [flatMap_cons, length_append, length_cons]
    omega

theorem parseHosts_writeHost {hosts : List SBChunkHost} (hfits : ∀ h ∈ hosts, HostFits type h)
    {turns : ℕ} (hturns : hosts.length < turns) (done : List SBChunkHost) :
    parseHosts type turns done
        ⟨hosts.flatMap (writeHost type) ++ rest, (hosts.flatMap (writeHost type)).length⟩ =
      .ok (true, done ++ hosts) := by
  induction hosts generalizing turns done with
  | nil =>
    obtain ⟨turns, rfl⟩ := Nat.exists_eq_succ_of_ne_zero (by omega : turns ≠ 0)
    have hsize : ¬ minSize type ≤ 0 := by
      unfold minSize
      split <;> omega
    simp [parseHosts, hsize]
  | cons h hosts ih =>
    obtain ⟨turns, rfl⟩ := Nat.exists_eq_succ_of_ne_zero (by omega : turns ≠ 0)
    have hhost := hfits h mem_cons_self
    have hmin := minSize_le_length_writeHost hhost
    have hsize : minSize type ≤
        ((writeHost type h).length + (hosts.flatMap (writeHost type)).length : ℕ) := by
      omega
    have hremaining : ((writeHost type h).length : ℤ) ≤
        ((writeHost type h).length + (hosts.flatMap (writeHost type)).length : ℕ) := by
      omega
    have hturns' : hosts.length < turns := by
      rw [length_cons] at hturns
      omega
    have ih := ih (fun h' hh' => hfits h' (mem_cons_of_mem _ hh')) hturns' (done ++ [h])
    rw [flatMap_cons, length_append, append_assoc, parseHosts, if_pos hsize,
      parseHost_writeHost hhost done hremaining]
    simpa using ih

theorem prefixSize_eq_hashLen (hsub : type.isSub = false) : type.prefixSize = type.hashLen := by
  rw [SBEntryType.prefixSize, hsub, if_neg (by simp)]

theorem binHashCount_mul {count : ℕ} (h : count * type.prefixSize < 2147483648) :
    binHashCount type (count * type.prefixSize : ℕ) = count := by
  have hpos := hashLen_pos type
  unfold binHashCount
  split
  · rename_i hsub
    have hsize : 0 < type.prefixSize := by
      rw [SBEntryType.prefixSize, if_pos hsub]
      omega
    rw [Int.emod_eq_of_lt (Int.natCast_nonneg _) (by omega), Nat.cast_mul]
    exact Int.mul_ediv_cancel _ (by omega)
  · rename_i hsub
    rw [prefixSize_eq_hashLen (by simpa using hsub), Nat.cast_mul]
    exact Int.mul_tdiv_cancel _ (by omega)

/-- **A chunk of `kBinHashList` is read.** -/
theorem parseBinHashChunk_writeItems (hfits : BinHashFits type h)
    (hlt : 16 + (writeItems type h.entry.items).length < 2147483648) :
    parseBinHashChunk type ⟨writeItems type h.entry.items ++ rest,
      (writeItems type h.entry.items).length⟩ = .ok (true, [h]) := by
  obtain ⟨host, ⟨entryType, chunkId, items⟩⟩ := h
  obtain ⟨⟨rfl, hitems⟩, rfl, rfl⟩ := hfits
  dsimp only at hlt hitems ⊢
  have hlength := length_writeItems hitems
  have hcreate := @create_of_lt entryType items.length (by omega)
  dsimp only [parseBinHashChunk]
  have hcount : binHashCount entryType (writeItems entryType items).length = items.length := by
    rw [hlength]
    exact binHashCount_mul (by omega)
  rw [hcount, hcreate, ok_bind, Int.toNat_natCast, readPrefixes_writeItems hitems _ le_rfl, ok_bind]
  simp
  rfl

theorem getLine_append {line : List UInt8} (hline : 10 ∉ line) (rest : List UInt8) {inputLen : ℤ}
    (hlen : line.length < inputLen) : getLine (line ++ 10 :: rest) inputLen = .ok (some line) := by
  induction line generalizing inputLen with
  | nil =>
    rw [List.length_nil] at hlen
    rw [List.nil_append, getLine, if_neg (by omega), if_pos rfl]
  | cons c line ih =>
    obtain ⟨hc, hline⟩ := not_or.1 (mem_cons.not.1 hline)
    rw [length_cons] at hlen
    rw [List.cons_append, getLine, if_neg (by omega), if_neg (Ne.symm hc), ih hline (by omega)]
    rfl

namespace WrittenChunk

variable {listName : List UInt8} (w : WrittenChunk listName)

theorem of_mem_parts {part : List UInt8} (hpart : part ∈ w.parts) {c : UInt8} (hc : c ∈ part) :
    c = 97 ∨ c = 115 ∨ c = 45 ∨ isDecimalDigit c = true := by
  simp only [parts, mem_cons, List.not_mem_nil, or_false] at hpart
  rcases hpart with rfl | rfl | rfl | rfl
  · split at hc
    · exact .inr (.inl (List.mem_singleton.1 hc))
    · exact .inl (List.mem_singleton.1 hc)
  · exact .inr (.inr (of_mem_decimalInt hc))
  · exact .inr (.inr (of_mem_decimalInt hc))
  · exact .inr (.inr (of_mem_decimalInt hc))

theorem parts_of_ne {x : UInt8} (hx : x ≠ 97) (hx' : x ≠ 115) (hx'' : x ≠ 45)
    (hdigit : isDecimalDigit x = false) {part : List UInt8} (hpart : part ∈ w.parts) : x ∉ part := by
  intro hmem
  rcases w.of_mem_parts hpart hmem with h | h | h | h
  · exact hx h
  · exact hx' h
  · exact hx'' h
  · rw [hdigit] at h
    cases h

theorem not_isSpace_of_mem_parts {part : List UInt8} (hpart : part ∈ w.parts) {c : UInt8}
    (hc : c ∈ part) : isSpace c = false := by
  rcases w.of_mem_parts hpart hc with rfl | rfl | rfl | h
  · rfl
  · rfl
  · rfl
  · exact not_isSpace_of_isDecimalDigit h

theorem splitString_header : splitString w.header 58 = w.parts :=
  splitString_intercalate (List.cons_ne_nil _ _)
    (fun _ hpart => w.parts_of_ne (by decide) (by decide) (by decide) (by decide) hpart)
    fun _ hpart _ hc => w.not_isSpace_of_mem_parts hpart hc

theorem header_eq : w.header = (if w.type.isSub then word "s" else word "a") ++ 58 ::
    (decimalInt w.chunkNumber.toInt ++ 58 ::
      (decimalInt w.type.hashLen ++ 58 :: decimalInt w.body.length)) := by
  simp [header, parts, List.intercalate]

theorem notMem_header : 10 ∉ w.header := by
  have hparts : ∀ part ∈ w.parts, 10 ∉ part := fun _ hpart =>
    w.parts_of_ne (by decide) (by decide) (by decide) (by decide) hpart
  rw [header_eq]
  simp only [parts, List.forall_mem_cons] at hparts
  simp [hparts.1, hparts.2.1, hparts.2.2.1, hparts.2.2.2.1]

theorem length_write : w.write.length = w.header.length + 1 + w.body.length := by
  rw [write, length_append, length_cons]
  omega

/-- **The line of a long chunk is long**, so that its entries are not too large. -/
theorem length_body_lt (hlt : w.write.length < 2147483648) : 16 + w.body.length < 2147483648 := by
  by_cases hlong : w.body.length < 10 ^ 9
  · omega
  · have hdigits : 9 < (decimal w.body.length).length := by
      by_contra hle
      have hpow := Nat.pow_le_pow_right (show 0 < 10 by omega) (not_lt.1 hle)
      exact hlong ((lt_pow_length_decimal _).trans_le hpow)
    have hnumber := List.length_pos_iff.2 (decimalInt_ne_nil w.chunkNumber.toInt)
    have hhash := List.length_pos_iff.2 (decimalInt_ne_nil w.type.hashLen)
    have hheader : w.header.length = 1 + (1 + ((decimalInt w.chunkNumber.toInt).length +
        (1 + ((decimalInt w.type.hashLen).length + (1 + (decimal w.body.length).length))))) := by
      rw [header_eq, decimalInt_natCast w.body.length]
      have hword : (if w.type.isSub then word "s" else word "a").length = 1 := by split <;> rfl
      simp only [length_append, length_cons, hword]
      omega
    rw [length_write] at hlt
    omega

theorem parseChunkHosts_body (rest : List UInt8) (hlt : 16 + w.body.length < 2147483648) :
    parseChunkHosts listName w.type (w.body ++ rest) w.body.length = .ok (true, w.hosts) := by
  have hfits := w.fits
  unfold parseChunkHosts body writeHosts
  unfold body writeHosts at hlt
  split
  · rename_i hbin
    rw [if_pos hbin] at hfits hlt
    obtain ⟨h, hhosts, hh⟩ := hfits
    rw [hhosts] at hlt ⊢
    rw [List.flatMap_singleton] at hlt ⊢
    exact parseBinHashChunk_writeItems hh hlt
  · rename_i hbin
    rw [if_neg hbin] at hfits
    refine parseHosts_writeHost hfits ?_ []
    have hcount := length_le_length_flatMap hfits
    rw [Int.toNat_natCast]
    omega

theorem atoi_chunkNumber : atoi (decimalInt w.chunkNumber.toInt) = w.chunkNumber.toInt :=
  atoi_decimalInt w.chunkNumber.le_toInt w.chunkNumber.toInt_lt

theorem hashLen_eq (type : SBEntryType) : type.hashLen = 4 ∨ type.hashLen = 32 := by
  unfold SBEntryType.hashLen
  split
  · exact .inl rfl
  · exact .inr rfl

theorem atoi_hashLen (type : SBEntryType) : atoi (decimalInt type.hashLen) = type.hashLen := by
  rcases hashLen_eq type with h | h <;> exact atoi_decimalInt (by omega) (by omega)

theorem parseAddChunk_body (rest : List UInt8) (hlt : 16 + w.body.length < 2147483648)
    (hsub : w.type.isSub = false) :
    parseAddChunk listName (w.body ++ rest) w.body.length w.type.hashLen = .ok (true, w.hosts) := by
  have htype : (if (w.type.hashLen : ℤ) = 4 then SBEntryType.ADD_PREFIX else .ADD_FULL_HASH) =
      w.type := by
    generalize w.type = type at hsub ⊢
    cases type with
    | ADD_PREFIX | ADD_FULL_HASH => rfl
    | SUB_PREFIX | SUB_FULL_HASH => cases hsub
  rw [parseAddChunk, htype, w.parseChunkHosts_body rest hlt]

theorem parseSubChunk_body (rest : List UInt8) (hlt : 16 + w.body.length < 2147483648)
    (hsub : w.type.isSub = true) :
    parseSubChunk listName (w.body ++ rest) w.body.length w.type.hashLen = .ok (true, w.hosts) := by
  have htype : (if (w.type.hashLen : ℤ) = 4 then SBEntryType.SUB_PREFIX else .SUB_FULL_HASH) =
      w.type := by
    generalize w.type = type at hsub ⊢
    cases type with
    | SUB_PREFIX | SUB_FULL_HASH => rfl
    | ADD_PREFIX | ADD_FULL_HASH => cases hsub
  rw [parseSubChunk, htype, w.parseChunkHosts_body rest hlt]

theorem parseChunkTurn_write (rest : List UInt8) {length : ℤ} (hlength : w.write.length ≤ length)
    (hlt : w.write.length < 2147483648) (hremaining : (w.write.length : ℤ) ≤ remaining)
    (reKey : Bool) (chunks : List SBChunk) :
    parseChunkTurn listName length ⟨w.write ++ rest, remaining⟩ reKey chunks =
      .ok (.ok (⟨rest, remaining - w.write.length⟩, reKey, chunks ++ [w.chunk])) := by
  have hwrite := w.length_write
  have hbody := w.length_body_lt hlt
  have hline : getLine (w.write ++ rest) length = .ok (some w.header) := by
    rw [write, append_assoc, List.cons_append]
    exact getLine_append w.notMem_header _ (by omega)
  have hdrop : (w.write ++ rest).drop (w.header.length + 1) = w.body ++ rest := by
    rw [write, append_assoc, ← List.drop_drop, List.drop_left]
    rfl
  have hlen : atoi (decimalInt w.body.length) = w.body.length := atoi_decimalInt (by omega) (by omega)
  have hhash : ¬ ((w.type.hashLen : ℤ) ≠ 4 ∧ (w.type.hashLen : ℤ) ≠ 32) := by
    have := hashLen_eq w.type
    omega
  have hleft : ¬ remaining - (w.header.length + 1 : ℕ) < w.body.length := by omega
  dsimp only [parseChunkTurn]
  rw [hline, ok_bind]
  dsimp only
  rw [hdrop, splitString_header, parts]
  dsimp only
  rw [atoi_chunkNumber, atoi_hashLen, hlen, if_neg hhash, if_neg hleft]
  have hrest : (w.body ++ rest).drop (w.body.length : ℤ).toNat = rest := by
    rw [Int.toNat_natCast, List.drop_left]
  have hcount : remaining - (w.header.length + 1 : ℕ) - w.body.length = remaining - w.write.length := by
    omega
  cases hsub : w.type.isSub with
  | true =>
    rw [if_pos rfl, if_neg (by decide), if_pos rfl, w.parseSubChunk_body rest hbody hsub, ok_bind]
    dsimp only
    rw [if_pos rfl, hrest, hcount, chunk, hsub]
    rfl
  | false =>
    rw [if_neg (by decide : ¬ false = true), if_pos rfl, w.parseAddChunk_body rest hbody hsub, ok_bind]
    dsimp only
    rw [if_pos rfl, hrest, hcount, chunk, hsub]
    rfl

theorem length_write_pos : 0 < w.write.length := by
  rw [length_write]
  omega

end WrittenChunk

variable {listName : List UInt8}

theorem length_writeChunks_cons (w : WrittenChunk listName) (chunks : List (WrittenChunk listName)) :
    (writeChunks (w :: chunks)).length = w.write.length + (writeChunks chunks).length := by
  rw [writeChunks, flatMap_cons, length_append, writeChunks]

theorem parseChunkLoop_writeChunks (chunks : List (WrittenChunk listName)) {length : ℤ} {turns : ℕ}
    (hlength : (writeChunks chunks).length ≤ length) (hlt : (writeChunks chunks).length < 2147483648)
    (hturns : (writeChunks chunks).length < turns) (done : List SBChunk) :
    parseChunkLoop listName length turns ⟨writeChunks chunks, (writeChunks chunks).length⟩ false
      done = .ok ⟨true, false, done ++ chunks.map WrittenChunk.chunk⟩ := by
  induction chunks generalizing turns done with
  | nil =>
    obtain ⟨turns, rfl⟩ := Nat.exists_eq_succ_of_ne_zero (by omega : turns ≠ 0)
    simp [parseChunkLoop, writeChunks]
  | cons w chunks ih =>
    obtain ⟨turns, rfl⟩ := Nat.exists_eq_succ_of_ne_zero (by omega : turns ≠ 0)
    have hpos := w.length_write_pos
    have hcons := length_writeChunks_cons w chunks
    have hleft : ((writeChunks (w :: chunks)).length : ℤ) - w.write.length =
        (writeChunks chunks).length := by
      omega
    have hdata : w.write ++ writeChunks chunks = writeChunks (w :: chunks) := by
      rw [writeChunks, writeChunks, flatMap_cons]
    have hturn : parseChunkTurn listName length
        ⟨writeChunks (w :: chunks), (writeChunks (w :: chunks)).length⟩ false done =
          .ok (.ok (⟨writeChunks chunks, (writeChunks chunks).length⟩, false, done ++ [w.chunk])) := by
      rw [← hleft, ← hdata]
      exact w.parseChunkTurn_write (writeChunks chunks) (by omega) (by omega)
        (by rw [length_append]; omega) false done
    rw [parseChunkLoop, if_pos (by dsimp only; omega), hturn, ok_bind]
    dsimp only
    rw [ih (by omega) (by omega) (by omega), append_assoc]
    rfl

/-- **`ParseChunk` gives the chunks that were written**, all of them and in their order.  The length
of a buffer is an `int`. -/
theorem parseChunk_writeChunks (chunks : List (WrittenChunk listName))
    (hlt : (writeChunks chunks).length < 2147483648) :
    parseChunk listName (writeChunks chunks) true =
      .ok ⟨true, false, chunks.map WrittenChunk.chunk⟩ := by
  rw [parseChunk, if_pos rfl]
  exact parseChunkLoop_writeChunks chunks le_rfl hlt (Nat.lt_succ_self _) []

def twoHosts : WrittenChunk (word "goog-malware-shavar") where
  chunkNumber := -7
  type := .SUB_PREFIX
  hosts := [⟨1, ⟨.SUB_PREFIX, 9, []⟩⟩, ⟨2, ⟨.SUB_PREFIX, 0, [⟨-3, .sbPrefix 10⟩]⟩⟩]
  fits := by
    rw [if_neg (by decide)]
    intro h hh
    simp only [List.mem_cons, List.not_mem_nil, or_false] at hh
    rcases hh with rfl | rfl
    · exact ⟨⟨rfl, by simp⟩, by decide, .inr ⟨rfl, rfl⟩⟩
    · refine ⟨⟨rfl, ?_⟩, by decide, .inl rfl⟩
      intro item hitem
      rw [List.mem_singleton.1 hitem]
      exact ⟨⟨fun _ => ⟨10, rfl⟩, fun _ => rfl⟩, fun hsub => by cases hsub⟩

theorem parseChunk_writeChunks_twoHosts : (writeChunks [twoHosts, twoHosts]).length < 2147483648 ∧
      parseChunk (word "goog-malware-shavar") (writeChunks [twoHosts, twoHosts]) true =
        .ok ⟨true, false, [⟨-7, false, twoHosts.hosts⟩, ⟨-7, false, twoHosts.hosts⟩]⟩ :=
  have hlt : (writeChunks [twoHosts, twoHosts]).length < 2147483648 := by decide +kernel
  ⟨hlt, parseChunk_writeChunks [twoHosts, twoHosts] hlt⟩

end Chromium.SafeBrowsing
