import Chromium.Base.Pickle

/-!
# A pickle is read as it was written

Every value is one or two pieces of memory: its bytes, or its length and its bytes.  A pickle that was
written holds the pieces as `layout` puts them (`Pickle.Holds`), and an iterator of a reader has some of
them before it (`PickleReader.At`).  Writing adds a piece at the end, reading takes one from the front.
-/

namespace Chromium.Base

open Lib
open Option (bind_some getD_some map_none map_some)
open List (length_append length_map)

variable {abi : Abi}

def Item.pieces : Item abi → List (List UInt8)
  | bool value => [toLe 4 (if value then 1 else 0)]
  | int value => [toLe 4 value.toUInt32.toNat]
  | int64 value => [toLe 8 value.toUInt64.toNat]
  | uint16 value => [toLe 2 value.toNat]
  | uint32 value => [toLe 4 value.toNat]
  | size value => [toLe abi.sizeOfSize value]
  | string value => [toLe 4 value.length, value]
  | string16 value => [toLe 4 value.length, arrayBytes 2 (value.map UInt16.toNat)]
  | wstring value => [toLe 4 value.length, arrayBytes abi.sizeOfWchar (value.map Fin.val)]
  | data value => [toLe 4 value.length, value]

def totalSize (headerSize : ℕ) (items : List (Item abi)) : ℕ :=
  alignInt headerSize 4 + (layout 4 0 (items.flatMap Item.pieces)).length

theorem toInt32_natCast {n : ℕ} (h : n < 2147483648) : toInt32 n = n :=
  toInt32_of_mem (by omega) (by omega)

theorem toNat_ofNat_uint32 {n : ℕ} (h : n < 2147483648) : (UInt32.ofNat n).toNat = n := by
  rw [UInt32.toNat_ofNat', Nat.mod_eq_of_lt (by omega)]

namespace Pickle

variable {realloc : ℕ → Bool} {p p' : Pickle} {headerSize : ℕ} {cs : List (List UInt8)}

def writePieces (realloc : ℕ → Bool) (p : Pickle) : List (List UInt8) → Option Pickle
  | [] => some p
  | c :: cs => (writeBytes realloc p c c.length).bind fun p => writePieces realloc p cs

theorem writeSizeAsInt_eq {n : ℕ} (h : n < 2147483648) :
    writeSizeAsInt realloc p n = writeBytes realloc p (toLe 4 n) (toLe 4 n).length := by
  rw [writeSizeAsInt, writeInt, UInt32.toUInt32_toInt32, toNat_ofNat_uint32 h, length_toLe]
  rfl

theorem writePieces_singleton (c : List UInt8) :
    writePieces realloc p [c] = writeBytes realloc p c c.length := by
  rw [writePieces]
  exact Option.bind_fun_some _

theorem writeSizeAsInt_bind {n : ℕ} {bytes : List UInt8} {dataLen : ℤ} (hn : n < 2147483648)
    (hlen : dataLen = bytes.length) :
    ((writeSizeAsInt realloc p n).bind fun p => writeBytes realloc p bytes dataLen) =
      writePieces realloc p [toLe 4 n, bytes] := by
  rw [writeSizeAsInt_eq hn, hlen, writePieces]
  simp only [writePieces_singleton]

/-- **Every method writes the pieces of its value**, if none of them is too long for an `int`. -/
theorem write_eq (item : Item abi) (h : ∀ c ∈ item.pieces, c.length < 2147483648) :
    write realloc p item = writePieces realloc p item.pieces := by
  cases item with
  | bool value =>
    rw [Item.pieces, writePieces_singleton, length_toLe]
    cases value <;> rfl
  | int value | int64 value | uint16 value | uint32 value | size value =>
    rw [Item.pieces, writePieces_singleton, length_toLe]; rfl
  | string value =>
    have hlen : value.length < 2147483648 := h value (by simp [Item.pieces])
    exact writeSizeAsInt_bind hlen (toInt32_natCast hlen)
  | string16 value =>
    have hbytes := h (arrayBytes 2 (value.map UInt16.toNat)) (by simp [Item.pieces])
    rw [length_arrayBytes, length_map] at hbytes
    have hlen : toInt32 value.length = value.length := toInt32_natCast (by omega)
    refine writeSizeAsInt_bind (by omega) ?_
    rw [hlen, length_arrayBytes, length_map, toInt32_of_mem (by omega) (by omega)]
    push_cast
    rfl
  | wstring value =>
    have hbytes := h (arrayBytes abi.sizeOfWchar (value.map Fin.val)) (by simp [Item.pieces])
    rw [length_arrayBytes, length_map] at hbytes
    have hle : value.length ≤ value.length * abi.sizeOfWchar := Nat.le_mul_of_pos_right _ abi.sizeOfWchar_pos
    refine writeSizeAsInt_bind (by omega) ?_
    rw [length_arrayBytes, length_map, ← Nat.cast_mul, toInt32_natCast hbytes]
  | data value =>
    have hlen : value.length < 2147483648 := h value (by simp [Item.pieces])
    rw [write, writeData, toInt32_natCast hlen, if_pos (Int.natCast_nonneg _)]
    exact writeSizeAsInt_bind hlen rfl

/-- The pickle was written with the header and the pieces. -/
structure Holds (p : Pickle) (headerSize : ℕ) (cs : List (List UInt8)) : Prop where
  headerSize_eq : p.headerSize = headerSize
  length_headerRest : 4 + p.headerRest.length = headerSize
  payloadSize_eq : p.payloadSize = (layout 4 0 cs).length
  buffer_eq : p.buffer = blocks 4 0 cs

theorem resize_eq {newCapacity : ℕ} (h : resize realloc p newCapacity = some p') :
    p' = { p with capacity := p'.capacity } := by
  dsimp only [resize] at h
  split at h
  · cases h
    rfl
  · cases h

theorem beginWrite_eq {length dest : ℕ} (h : beginWrite realloc p length = some (dest, p')) :
    dest = alignInt p.payloadSize 4 ∧
      p' = { p with capacity := p'.capacity, payloadSize := (dest + length) % 4294967296 } := by
  obtain ⟨grown, hgrown, hp'⟩ := Option.map_eq_some_iff.1 h
  have hcap : grown = { p with capacity := grown.capacity } := by
    split at hgrown
    · exact resize_eq hgrown
    · cases hgrown
      rfl
  cases hp'
  rw [hcap]
  exact ⟨rfl, rfl⟩

theorem endWrite_eq (length : ℕ) : endWrite length = List.replicate (roundUp 4 length - length) 0 := by
  unfold endWrite roundUp
  split
  · congr 1
    omega
  · have hzero : length + (4 - length % 4) % 4 - length = 0 := by omega
    rw [hzero]
    rfl

theorem Holds.writeBytes {c : List UInt8} (h : p.Holds headerSize cs)
    (hsize : (layout 4 0 (cs ++ [c])).length < 4294967296)
    (hp' : writeBytes realloc p c c.length = some p') : p'.Holds headerSize (cs ++ [c]) := by
  obtain ⟨⟨dest, q⟩, hbegin, rfl⟩ := Option.map_eq_some_iff.1 hp'
  obtain ⟨hdest, hq⟩ := beginWrite_eq hbegin
  have hend : dest = (blocks 4 0 cs).length := by
    rw [hdest, h.payloadSize_eq, alignInt, roundUp_length_layout (by decide)]
  refine ⟨?_, ?_, ?_, ?_⟩
  · rw [hq]
    exact h.headerSize_eq
  · rw [hq]
    exact h.length_headerRest
  · rw [hq]
    rw [layout_concat, length_append] at hsize ⊢
    rw [← hend] at hsize ⊢
    exact Nat.mod_eq_of_lt hsize
  · have hbuffer : q.buffer = blocks 4 0 cs := by
      rw [hq]
      exact h.buffer_eq
    dsimp only
    rw [hbuffer, hend, List.take_length, List.take_length, endWrite_eq, blocks_concat, padded, List.append_assoc]

theorem Holds.writePieces {ds : List (List UInt8)} (h : p.Holds headerSize cs)
    (hsize : (layout 4 0 (cs ++ ds)).length < 4294967296) (hp' : writePieces realloc p ds = some p') :
    p'.Holds headerSize (cs ++ ds) := by
  induction ds generalizing p cs with
  | nil =>
    cases hp'
    rwa [List.append_nil]
  | cons d ds ih =>
    obtain ⟨q, hq, hp'⟩ := Option.bind_eq_some_iff.1 hp'
    rw [List.append_cons] at hsize ⊢
    have hle : (layout 4 0 (cs ++ [d])).length ≤ (layout 4 0 (cs ++ [d] ++ ds)).length :=
      length_layout_append_le (by decide) _ _
    exact ih (h.writeBytes (by omega) hq) hsize hp'

theorem Holds.writeAll {items : List (Item abi)} (h : p.Holds headerSize cs)
    (hsize : (layout 4 0 (cs ++ items.flatMap Item.pieces)).length < 2147483648)
    (hp' : writeAll realloc p items = some p') : p'.Holds headerSize (cs ++ items.flatMap Item.pieces) := by
  induction items generalizing p cs with
  | nil =>
    cases hp'
    rwa [List.flatMap_nil, List.append_nil]
  | cons item items ih =>
    obtain ⟨q, hq, hp'⟩ := Option.bind_eq_some_iff.1 hp'
    rw [List.flatMap_cons, ← List.append_assoc] at hsize ⊢
    have hle : (layout 4 0 (cs ++ item.pieces)).length ≤
        (layout 4 0 (cs ++ item.pieces ++ items.flatMap Item.pieces)).length :=
      length_layout_append_le (by decide) _ _
    rw [write_eq] at hq
    · exact ih (h.writePieces (by omega) hq) hsize hp'
    · intro c hc
      have hpiece : c.length ≤ (layout 4 0 (cs ++ item.pieces)).length :=
        length_le_layout_of_mem (List.mem_append_right cs hc)
      omega

theorem holds_create {unset : ℕ → UInt8} (hheader : 4 ≤ headerSize)
    (h : create realloc headerSize unset = some p) : p.Holds (alignInt headerSize 4) [] := by
  rw [resize_eq h]
  have hle : headerSize ≤ alignInt headerSize 4 := le_roundUp
  refine ⟨rfl, ?_, rfl, rfl⟩
  rw [length_map, List.length_range]
  omega

theorem Holds.data_eq (h : p.Holds headerSize cs) :
    p.data = toLe 4 (layout 4 0 cs).length ++ p.headerRest ++ layout 4 0 cs := by
  rw [data, h.payloadSize_eq, h.buffer_eq, take_blocks]

theorem Holds.length_data (h : p.Holds headerSize cs) :
    p.data.length = headerSize + (layout 4 0 cs).length := by
  rw [h.data_eq, length_append, length_append, length_toLe, h.length_headerRest]

end Pickle

namespace PickleReader

variable {r : PickleReader} {iter : Option ℕ} {c : List UInt8} {cs : List (List UInt8)}

/-- The iterator has the pieces before it. -/
structure At (r : PickleReader) (iter : Option ℕ) (cs : List (List UInt8)) : Prop where
  drop_eq : r.payload.drop (iter.getD 0) = layout 4 0 cs
  le_length : cs ≠ [] → iter.getD 0 ≤ r.payload.length

theorem At.length_le (h : r.At iter cs) (hc : c ∈ cs) : c.length ≤ r.payload.length := by
  have hlayout : c.length ≤ (layout 4 0 cs).length := length_le_layout_of_mem hc
  rw [← h.drop_eq, List.length_drop] at hlayout
  omega

theorem At.readBytes (h : r.At iter (c :: cs)) :
    ∃ iter', r.readBytes iter c.length = some (c, iter') ∧ r.At iter' cs := by
  have hle := h.le_length (List.cons_ne_nil c cs)
  have hlayout : c.length ≤ (layout 4 0 (c :: cs)).length := length_le_layout c cs
  rw [← h.drop_eq, List.length_drop] at hlayout
  refine ⟨some (updateIter (iter.getD 0) c.length), ?_, ?_, ?_⟩
  · have hroom : r.iteratorHasRoomFor (iter.getD 0) c.length = true := by
      simp only [iteratorHasRoomFor, Bool.and_eq_true, decide_eq_true_eq]
      omega
    dsimp only [PickleReader.readBytes]
    rw [if_pos hroom, h.drop_eq, Int.toNat_natCast, take_layout]
  · rw [getD_some, updateIter, ← List.drop_drop, h.drop_eq]
    exact drop_layout c cs
  · intro hne
    cases cs with
    | nil => exact absurd rfl hne
    | cons d cs =>
      have hpad : roundUp 4 c.length ≤ (layout 4 0 (c :: d :: cs)).length := roundUp_le_layout c d cs
      rw [← h.drop_eq, List.length_drop] at hpad
      rw [getD_some, updateIter, alignInt]
      omega

theorem At.readNumber {w n : ℕ} (h : r.At iter (toLe w n :: cs)) (hn : n < 256 ^ w) :
    ∃ iter', r.readNumber iter w = some (n, iter') ∧ r.At iter' cs := by
  obtain ⟨iter', hread, hat⟩ := h.readBytes
  rw [length_toLe] at hread
  refine ⟨iter', ?_, hat⟩
  rw [PickleReader.readNumber, hread, map_some]
  dsimp only
  rw [leNat_toLe hn]

theorem At.readLength {n : ℕ} (h : r.At iter (toLe 4 n :: cs)) (hn : n < 2147483648) :
    ∃ iter', r.readLength iter = some (n, iter') ∧ r.At iter' cs := by
  obtain ⟨iter', hread, hat⟩ := h.readNumber (by omega)
  have hvalue : (UInt32.ofNat n).toInt32.toInt = n := by
    have hnat := toNat_ofNat_uint32 hn
    have hsigned : (UInt32.ofNat n).toInt32.toInt = (UInt32.ofNat n).toNat :=
      BitVec.toInt_eq_toNat_of_lt (by change 2 * (UInt32.ofNat n).toNat < _; omega)
    rw [hsigned, hnat]
  refine ⟨iter', ?_, hat⟩
  rw [PickleReader.readLength, readInt, hread, map_some, bind_some]
  dsimp only
  rw [hvalue, if_pos (Int.natCast_nonneg n), Int.toNat_natCast]

theorem At.readString {value : List UInt8} (h : r.At iter (toLe 4 value.length :: value :: cs))
    (hlen : value.length < 2147483648) :
    ∃ iter', r.readString iter = some (value, iter') ∧ r.At iter' cs := by
  obtain ⟨iter₁, hread₁, hat₁⟩ := h.readLength hlen
  obtain ⟨iter₂, hread₂, hat₂⟩ := hat₁.readBytes
  refine ⟨iter₂, ?_, hat₂⟩
  rw [PickleReader.readString, hread₁, bind_some]
  exact hread₂

theorem At.readChars {α : Type} {toNat : α → ℕ} {ofNat : ℕ → α} {size : ℕ} {value : List α}
    (h : r.At iter (arrayBytes size (value.map toNat) :: cs)) (hlt : ∀ c, toNat c < 256 ^ size)
    (hid : ∀ c, ofNat (toNat c) = c) :
    ∃ iter', (r.readBytes iter (value.length * size : ℕ)).map (fun (bytes, iter) =>
        ((readArray size value.length bytes).map ofNat, iter)) = some (value, iter') ∧ r.At iter' cs := by
  obtain ⟨iter', hread, hat⟩ := h.readBytes
  have harray : readArray size value.length (arrayBytes size (value.map toNat)) = value.map toNat := by
    rw [← length_map (f := toNat)]
    refine readArray_arrayBytes fun n hn => ?_
    obtain ⟨c, -, rfl⟩ := List.mem_map.1 hn
    exact hlt c
  have hchars : (value.map toNat).map ofNat = value := by
    rw [List.map_map]
    exact (List.map_congr_left fun c _ => hid c).trans (List.map_id value)
  refine ⟨iter', ?_, hat⟩
  rw [length_arrayBytes, length_map] at hread
  rw [hread, map_some]
  dsimp only
  rw [harray, hchars]

theorem At.readString16 {value : List UInt16}
    (h : r.At iter (toLe 4 value.length :: arrayBytes 2 (value.map UInt16.toNat) :: cs))
    (hlen : value.length * 2 < 2147483648) :
    ∃ iter', r.readString16 iter = some (value, iter') ∧ r.At iter' cs := by
  obtain ⟨iter₁, hread₁, hat₁⟩ := h.readLength (by omega)
  have hbytes : toInt32 (value.length * 2) = ((value.length * 2 : ℕ) : ℤ) := by
    rw [← toInt32_natCast hlen, Nat.cast_mul]
    rfl
  rw [PickleReader.readString16, hread₁, bind_some]
  dsimp only
  rw [hbytes]
  exact hat₁.readChars UInt16.toNat_lt fun _ => UInt16.ofNat_toNat

theorem finOfNat_val {w : ℕ} (n : Fin (256 ^ w)) : finOfNat w n = n := Fin.ext (Nat.mod_eq_of_lt n.isLt)

theorem At.readWString {value : List (Fin (256 ^ abi.sizeOfWchar))}
    (h : r.At iter (toLe 4 value.length :: arrayBytes abi.sizeOfWchar (value.map Fin.val) :: cs))
    (hlen : value.length * abi.sizeOfWchar < 2147483648) :
    ∃ iter', r.readWString abi iter = some (value, iter') ∧ r.At iter' cs := by
  have hle : value.length ≤ value.length * abi.sizeOfWchar := Nat.le_mul_of_pos_right _ abi.sizeOfWchar_pos
  obtain ⟨iter₁, hread₁, hat₁⟩ := h.readLength (by omega)
  have hmax : value.length ≤ 2147483647 / abi.sizeOfWchar :=
    (Nat.le_div_iff_mul_le abi.sizeOfWchar_pos).2 (by omega)
  have hbytes : toInt32 (value.length * abi.sizeOfWchar) = ((value.length * abi.sizeOfWchar : ℕ) : ℤ) := by
    rw [← toInt32_natCast hlen, Nat.cast_mul]
  rw [PickleReader.readWString, hread₁, bind_some]
  dsimp only
  rw [if_neg (by omega), hbytes]
  exact hat₁.readChars Fin.isLt finOfNat_val

theorem At.read {item : Item abi} (h : r.At iter (item.pieces ++ cs))
    (hsize : r.payload.length < 2147483648) :
    ∃ iter', r.read abi iter item.kind = some (item, iter') ∧ r.At iter' cs := by
  cases item with
  | bool value =>
    obtain ⟨iter', hread, hat⟩ := At.readNumber (w := 4) h (by cases value <;> decide)
    refine ⟨iter', ?_, hat⟩
    rw [Item.kind, PickleReader.read, readBool, readInt, hread]
    cases value <;> rfl
  | int value =>
    obtain ⟨iter', hread, hat⟩ := At.readNumber (w := 4) h value.toUInt32.toNat_lt
    refine ⟨iter', ?_, hat⟩
    rw [Item.kind, PickleReader.read, readInt, hread, map_some, map_some]
    dsimp only
    rw [UInt32.ofNat_toNat, Int32.toInt32_toUInt32]
  | int64 value =>
    obtain ⟨iter', hread, hat⟩ := At.readNumber (w := 8) h value.toUInt64.toNat_lt
    refine ⟨iter', ?_, hat⟩
    rw [Item.kind, PickleReader.read, readInt64, hread, map_some, map_some]
    dsimp only
    rw [UInt64.ofNat_toNat, Int64.toInt64_toUInt64]
  | uint16 value =>
    obtain ⟨iter', hread, hat⟩ := At.readNumber (w := 2) h value.toNat_lt
    refine ⟨iter', ?_, hat⟩
    rw [Item.kind, PickleReader.read, readUInt16, hread, map_some, map_some]
    dsimp only
    rw [UInt16.ofNat_toNat]
  | uint32 value =>
    obtain ⟨iter', hread, hat⟩ := At.readNumber (w := 4) h value.toNat_lt
    refine ⟨iter', ?_, hat⟩
    rw [Item.kind, PickleReader.read, readUInt32, hread, map_some, map_some]
    dsimp only
    rw [UInt32.ofNat_toNat]
  | size value =>
    obtain ⟨iter', hread, hat⟩ := At.readNumber (w := abi.sizeOfSize) h value.isLt
    refine ⟨iter', ?_, hat⟩
    rw [Item.kind, PickleReader.read, readSize, hread, map_some, map_some]
    dsimp only
    rw [finOfNat_val]
  | string value =>
    have hle : value.length ≤ r.payload.length := h.length_le (by simp [Item.pieces])
    obtain ⟨iter', hread, hat⟩ := At.readString h (by omega)
    refine ⟨iter', ?_, hat⟩
    rw [Item.kind, PickleReader.read, hread, map_some]
  | string16 value =>
    have hle : (arrayBytes 2 (value.map UInt16.toNat)).length ≤ r.payload.length :=
      h.length_le (by simp [Item.pieces])
    rw [length_arrayBytes, length_map] at hle
    obtain ⟨iter', hread, hat⟩ := At.readString16 h (by omega)
    refine ⟨iter', ?_, hat⟩
    rw [Item.kind, PickleReader.read, hread, map_some]
  | wstring value =>
    have hle : (arrayBytes abi.sizeOfWchar (value.map Fin.val)).length ≤ r.payload.length :=
      h.length_le (by simp [Item.pieces])
    rw [length_arrayBytes, length_map] at hle
    obtain ⟨iter', hread, hat⟩ := At.readWString h (by omega)
    refine ⟨iter', ?_, hat⟩
    rw [Item.kind, PickleReader.read, hread, map_some]
  | data value =>
    have hle : value.length ≤ r.payload.length := h.length_le (by simp [Item.pieces])
    obtain ⟨iter', hread, hat⟩ := At.readString h (by omega)
    refine ⟨iter', ?_, hat⟩
    rw [PickleReader.readString] at hread
    rw [Item.kind, PickleReader.read, readData, hread, map_some]

theorem At.readAll {items : List (Item abi)} (h : r.At iter (items.flatMap Item.pieces))
    (hsize : r.payload.length < 2147483648) :
    ∃ iter', r.readAll abi iter (items.map Item.kind) = some (items, iter') ∧ r.At iter' [] := by
  induction items generalizing iter with
  | nil => exact ⟨iter, rfl, h⟩
  | cons item items ih =>
    rw [List.flatMap_cons] at h
    obtain ⟨iter₁, hread₁, hat₁⟩ := h.read hsize
    obtain ⟨iter₂, hread₂, hat₂⟩ := ih hat₁
    refine ⟨iter₂, ?_, hat₂⟩
    rw [List.map_cons, PickleReader.readAll, hread₁, bind_some]
    dsimp only
    rw [hread₂, map_some]

theorem At.readNumber_end {w : ℕ} (h : r.At iter []) (hw : 0 < w) : r.readNumber iter w = none := by
  have hend : r.payload.length ≤ iter.getD 0 := List.drop_eq_nil_iff.1 h.drop_eq
  have hroom : ¬ r.iteratorHasRoomFor (iter.getD 0) w = true := by
    simp only [iteratorHasRoomFor, Bool.and_eq_true, decide_eq_true_eq]
    omega
  rw [PickleReader.readNumber, PickleReader.readBytes, if_neg hroom, map_none]

theorem At.read_end (h : r.At iter []) (kind : Kind) : r.read abi iter kind = none := by
  have hint : r.readInt iter = none := by rw [readInt, h.readNumber_end (by decide), map_none]
  have hlength : r.readLength iter = none := by rw [PickleReader.readLength, hint, Option.bind_none]
  cases kind with
  | bool => rw [PickleReader.read, readBool, hint]; rfl
  | int => rw [PickleReader.read, hint]; rfl
  | int64 => rw [PickleReader.read, readInt64, h.readNumber_end (by decide)]; rfl
  | uint16 => rw [PickleReader.read, readUInt16, h.readNumber_end (by decide)]; rfl
  | uint32 => rw [PickleReader.read, readUInt32, h.readNumber_end (by decide)]; rfl
  | size => rw [PickleReader.read, readSize, h.readNumber_end abi.sizeOfSize_pos]; rfl
  | string => rw [PickleReader.read, PickleReader.readString, hlength]; rfl
  | string16 => rw [PickleReader.read, PickleReader.readString16, hlength]; rfl
  | wstring => rw [PickleReader.read, PickleReader.readWString, hlength]; rfl
  | data => rw [PickleReader.read, readData, hlength]; rfl

/-- **The header is found again**: its size is what the payload leaves, a multiple of four. -/
theorem headerSize_ofData {bytes : List UInt8} {headerSize payloadSize : ℕ}
    (hpayload : leNat (bytes.take 4) = payloadSize) (hlength : bytes.length = headerSize + payloadSize)
    (hsize : bytes.length < 2147483648) (hpos : 4 ≤ headerSize) (hdvd : 4 ∣ headerSize) :
    (ofData bytes).headerSize = headerSize := by
  have hmod : (bytes.length + 4294967296 - payloadSize) % 4294967296 = headerSize := by omega
  have halign : alignInt headerSize 4 = headerSize := roundUp_of_dvd hdvd
  dsimp only [ofData]
  have hheader : 4 ≤ bytes.length := by omega
  have hwithin : ¬ bytes.length < headerSize := by omega
  rw [hpayload, if_pos hheader, hmod, if_neg hwithin, halign, if_neg (not_not_intro rfl)]

end PickleReader

open PickleReader Pickle

theorem Pickle.Holds.payload_ofData {p : Pickle} {headerSize : ℕ} {cs : List (List UInt8)}
    (h : p.Holds headerSize cs) (hdvd : 4 ∣ headerSize) (hpos : 4 ≤ headerSize)
    (hsize : headerSize + (layout 4 0 cs).length < 2147483648) :
    (ofData p.data).headerSize = headerSize ∧ (ofData p.data).payload = layout 4 0 cs := by
  have hpayload : leNat (p.data.take 4) = (layout 4 0 cs).length := by
    rw [h.data_eq, List.append_assoc, List.take_left' (length_toLe 4 _), leNat_toLe (by omega)]
  have hheader : (ofData p.data).headerSize = headerSize :=
    headerSize_ofData hpayload h.length_data (by rw [h.length_data]; exact hsize) hpos hdvd
  have hfront : (toLe 4 (layout 4 0 cs).length ++ p.headerRest).length = headerSize := by
    rw [length_append, length_toLe, h.length_headerRest]
  refine ⟨hheader, ?_⟩
  rw [payload, hheader, if_neg (by omega)]
  change (p.data.drop headerSize).take (leNat (p.data.take 4)) = layout 4 0 cs
  rw [hpayload, h.data_eq, List.drop_left' hfront, List.take_length]

/-- **A pickle is read as it was written.** -/
theorem readAll_writeAll (realloc : ℕ → Bool) (unset : ℕ → UInt8) {headerSize : ℕ} {items : List (Item abi)}
    {p p' : Pickle} (hheader : 4 ≤ headerSize) (hcreate : create realloc headerSize unset = some p)
    (hwrite : writeAll realloc p items = some p') (hsize : totalSize headerSize items < 2147483648) :
    p'.data.length = totalSize headerSize items ∧ (ofData p'.data).headerSize = p'.headerSize ∧
      ∃ iter, (ofData p'.data).readAll abi none (items.map Item.kind) = some (items, iter) ∧
        ∀ kind, (ofData p'.data).read abi iter kind = none := by
  have hle : headerSize ≤ alignInt headerSize 4 := le_roundUp
  have hholds : p'.Holds (alignInt headerSize 4) (items.flatMap Item.pieces) :=
    (holds_create hheader hcreate).writeAll (by rw [totalSize] at hsize; rw [List.nil_append]; omega) hwrite
  obtain ⟨hheaderSize, hpayload⟩ :=
    hholds.payload_ofData (dvd_roundUp (by decide) headerSize) (by omega) hsize
  have hat : (ofData p'.data).At none (items.flatMap Item.pieces) := by
    refine ⟨?_, fun _ => Nat.zero_le _⟩
    rw [Option.getD_none, List.drop_zero, hpayload]
  have hlength : (ofData p'.data).payload.length < 2147483648 := by
    rw [hpayload]
    rw [totalSize] at hsize
    omega
  obtain ⟨iter, hread, hend⟩ := hat.readAll hlength
  exact ⟨hholds.length_data, hheaderSize.trans hholds.headerSize_eq.symm, iter, hread, hend.read_end⟩

def lp64 : Abi := ⟨8, 4, by decide, by decide⟩

def threeItems : List (Item lp64) := [.uint16 5, .wstring [finOfNat 4 70000], .string [1, 2, 3]]

/-- They are read from behind a header of eight bytes. -/
theorem readAll_writeAll_three : ∃ (p p' : Pickle) (iter : Option ℕ),
      create (fun _ => true) 6 (fun _ => 7) = some p ∧ writeAll (fun _ => true) p threeItems = some p' ∧
      (ofData p'.data).headerSize = 8 ∧
      (ofData p'.data).readAll lp64 none [.uint16, .wstring, .string] = some (threeItems, iter) := by
  have hwrite : (writeAll (fun _ => true) ⟨8, [7, 7, 7, 7], 0, 64, []⟩ threeItems).map Pickle.headerSize = some 8 := by
    decide +kernel
  obtain ⟨p', hp', hheader'⟩ := Option.map_eq_some_iff.mp hwrite
  obtain ⟨-, hheader, iter, hread, -⟩ :=
    readAll_writeAll (fun _ => true) (fun _ => 7) (show 4 ≤ 6 by decide) rfl hp' (by decide +kernel)
  exact ⟨_, p', iter, rfl, hp', hheader.trans hheader', hread⟩

end Chromium.Base
