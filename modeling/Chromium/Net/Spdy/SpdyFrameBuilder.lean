import Chromium.Lib.BigEndian

/-!
# Blocks of numbers and strings

`net/spdy/spdy_frame_builder.cc`: what is appended to a frame, and what is read from a block again.
An iterator is what is left of the block.  The growth of the buffer is left out.
-/

namespace Chromium.Net.Spdy

open Lib

abbrev SpdyHeaderBlock := Std.ExtTreeMap (List UInt8) (List UInt8)

/-! ### Writing -/

def writeUInt16 (value : ℕ) : List UInt8 := toBe 2 value

def writeUInt32 (value : ℕ) : List UInt8 := toBe 4 value

def writeBytes (data : List UInt8) : List UInt8 := data.take (data.length % 65536)

/-- `SpdyFrameBuilder::WriteString`; a string that is too long is not written. -/
def writeString (value : List UInt8) : List UInt8 :=
  if 0xffff < value.length then [] else writeUInt16 value.length ++ writeBytes value

def writeBytesToOffset (frame : List UInt8) (offset : ℕ) (data : List UInt8) : List UInt8 :=
  if frame.length < offset + data.length then frame
  else frame.take offset ++ data ++ frame.drop (offset + data.length)

def writeHeader (header : List UInt8 × List UInt8) : List UInt8 :=
  writeString header.1 ++ writeString header.2

def writeHeaderBlock (headers : SpdyHeaderBlock) : List UInt8 :=
  writeUInt16 headers.size ++ headers.toList.flatMap writeHeader

/-! ### Reading -/

def readUInt16 (iter : List UInt8) : Option (ℕ × List UInt8) :=
  if iter.length < 2 then none else some (beNat (iter.take 2), iter.drop 2)

def readUInt32 (iter : List UInt8) : Option (ℕ × List UInt8) :=
  if iter.length < 4 then none else some (beNat (iter.take 4), iter.drop 4)

def readString (iter : List UInt8) : Option (List UInt8 × List UInt8) :=
  match readUInt16 iter with
  | none => none
  | some (len, iter) => if iter.length < len then none else some (iter.take len, iter.drop len)

/-- The loop over the headers of a block, with the iterator behind the last one if there were so many.
`ParseHeaderBlock` accepts no empty name and no empty value, `ParseHeaderBlockInBuffer` does. -/
def parseHeaders (acceptsEmpty : Bool) :
    ℕ → List UInt8 → SpdyHeaderBlock → Option (List UInt8) × SpdyHeaderBlock
  | 0, iter, block => (some iter, block)
  | n + 1, iter, block =>
    match readString iter with
    | none => (none, block)
    | some (name, iter) =>
      match readString iter with
      | none => (none, block)
      | some (value, iter) =>
        if acceptsEmpty = false ∧ (name = [] ∨ value = []) then (none, block)
        else
          match block[name]? with
          | none => parseHeaders acceptsEmpty n iter (block.insert name value)
          | some _ => (none, block)

/-! ### What is written is read -/

variable {value : ℕ} {iter : List UInt8}

theorem readUInt16_writeUInt16 (h : value < 65536) (iter : List UInt8) :
    readUInt16 (writeUInt16 value ++ iter) = some (value, iter) := by
  have hlen : (writeUInt16 value).length = 2 := length_toBe 2 value
  rw [readUInt16, if_neg (by rw [List.length_append]; omega),
    List.take_left' hlen, List.drop_left' hlen, writeUInt16, beNat_toBe_of_lt h]

theorem readUInt32_writeUInt32 (h : value < 4294967296) (iter : List UInt8) :
    readUInt32 (writeUInt32 value ++ iter) = some (value, iter) := by
  have hlen : (writeUInt32 value).length = 4 := length_toBe 4 value
  rw [readUInt32, if_neg (by rw [List.length_append]; omega),
    List.take_left' hlen, List.drop_left' hlen, writeUInt32, beNat_toBe_of_lt h]

theorem writeBytes_of_lt {data : List UInt8} (h : data.length < 65536) : writeBytes data = data := by
  rw [writeBytes, Nat.mod_eq_of_lt h, List.take_length]

theorem readString_writeString {s : List UInt8} (h : s.length ≤ 65535) (iter : List UInt8) :
    readString (writeString s ++ iter) = some (s, iter) := by
  rw [writeString, if_neg (by omega), writeBytes_of_lt (by omega), List.append_assoc, readString,
    readUInt16_writeUInt16 (by omega)]
  dsimp only
  rw [if_neg (by rw [List.length_append]; omega), List.take_left, List.drop_left]

structure HeaderFits (header : List UInt8 × List UInt8) : Prop where
  name_ne : header.1 ≠ []
  value_ne : header.2 ≠ []
  name_le : header.1.length ≤ 65535
  value_le : header.2.length ≤ 65535

/-- **The headers are read as they were written**, if no two of them have one name. -/
theorem parseHeaders_writeHeader (acceptsEmpty : Bool) {headers : List (List UInt8 × List UInt8)}
    (hfits : ∀ header ∈ headers, HeaderFits header) (hnames : (headers.map Prod.fst).Nodup)
    {block : SpdyHeaderBlock} (hnew : ∀ header ∈ headers, block[header.1]? = none)
    (iter : List UInt8) :
    parseHeaders acceptsEmpty headers.length (headers.flatMap writeHeader ++ iter) block =
      (some iter, block.insertMany headers) := by
  induction headers generalizing block with
  | nil => rfl
  | cons header headers ih =>
    have hheader := hfits header List.mem_cons_self
    rw [List.map_cons, List.nodup_cons] at hnames
    have hnew' : ∀ h ∈ headers, (block.insert header.1 header.2)[h.1]? = none := by
      intro h hh
      have hne : header.1 ≠ h.1 := fun he =>
        hnames.1 (he ▸ List.mem_map_of_mem hh)
      rw [Std.ExtTreeMap.getElem?_insert, if_neg (by simpa using hne)]
      exact hnew h (List.mem_cons_of_mem _ hh)
    rw [List.length_cons, List.flatMap_cons, writeHeader, List.append_assoc, List.append_assoc,
      parseHeaders, readString_writeString hheader.name_le]
    dsimp only
    rw [readString_writeString hheader.value_le]
    dsimp only
    rw [if_neg (by simp [hheader.name_ne, hheader.value_ne]), hnew header List.mem_cons_self]
    dsimp only
    rw [ih (fun h hh => hfits h (List.mem_cons_of_mem _ hh)) hnames.2 hnew', Std.ExtTreeMap.insertMany_cons]

theorem insertMany_toList (headers : SpdyHeaderBlock) :
    (∅ : SpdyHeaderBlock).insertMany headers.toList = headers := by
  rw [← Std.ExtTreeMap.ofList_eq_insertMany_empty]
  refine Std.ExtTreeMap.ext_getElem? fun name => ?_
  cases hname : headers[name]? with
  | none =>
    refine Std.ExtTreeMap.getElem?_ofList_of_contains_eq_false ?_
    rw [Std.ExtTreeMap.map_fst_toList_eq_keys]
    simpa using hname
  | some value =>
    refine Std.ExtTreeMap.getElem?_ofList_of_mem (Std.ReflCmp.compare_self)
      Std.ExtTreeMap.distinct_keys_toList ?_
    exact Std.ExtTreeMap.mem_toList_iff_getElem?_eq_some.2 hname

theorem parseHeaders_writeHeaderBlock (acceptsEmpty : Bool) {headers : SpdyHeaderBlock}
    (hfits : ∀ header ∈ headers.toList, HeaderFits header) :
    parseHeaders acceptsEmpty headers.size (headers.toList.flatMap writeHeader) ∅ =
      (some [], headers) := by
  have hnames : (headers.toList.map Prod.fst).Nodup := by
    rw [Std.ExtTreeMap.map_fst_toList_eq_keys]
    exact Std.ExtTreeMap.nodup_keys
  have h := @parseHeaders_writeHeader acceptsEmpty _ hfits hnames ∅ (by simp) []
  rwa [List.append_nil, Std.ExtTreeMap.length_toList, insertMany_toList] at h

end Chromium.Net.Spdy
