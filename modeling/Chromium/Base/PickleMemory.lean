import Chromium.Base.Pickle
import Chromium.Lib.Gives

/-!
# Reading a pickle from memory

`base/pickle.cc` again, with pointers: an address is a number below the size of the address space, sums wrap there, and
`NULL` is zero.  A byte that is not in the buffer is a fault of its own.  `PickleReader` is the same reader with offsets
in the place of pointers.

The iterator is an address too.  Nothing is asked of it: `IteratorHasRoomFor` looks at it before every read.
-/

namespace Chromium.Base

open Lib

inductive Width
  | bits32
  | bits64

namespace Width

def size : Width → ℕ
  | bits32 => 4
  | bits64 => 8

def count : Width → ℕ
  | bits32 => 4294967296
  | bits64 => 18446744073709551616

def signed : Width → ℕ → ℤ
  | bits32, n => toInt32 n
  | bits64, n => toInt64 n

end Width

/-- The sizes of types on a platform; `size_t` is as long as a pointer. -/
structure Platform where
  sizeT : Width
  long : Width
  sizeOfWchar : ℕ
  sizeOfWchar_pos : 0 < sizeOfWchar

def Platform.addresses (platform : Platform) : ℕ := platform.sizeT.count

/-- A byte is read that is not in the buffer. -/
inductive Fault
  | outside
  deriving DecidableEq

/-- Bytes in memory.  The end of a buffer is an address too. -/
structure Buffer (platform : Platform) where
  base : ℕ
  bytes : List UInt8
  fits : base + bytes.length < platform.addresses

namespace Buffer

variable {platform : Platform} (buffer : Buffer platform)

def loadByte (address : ℕ) : Except Fault UInt8 :=
  if buffer.base ≤ address then
    match buffer.bytes[address - buffer.base]? with
    | some byte => .ok byte
    | none => .error .outside
  else .error .outside

def load (address : ℕ) : ℕ → Except Fault (List UInt8)
  | 0 => .ok []
  | n + 1 => do
    let byte ← buffer.loadByte address
    let bytes ← load ((address + 1) % platform.addresses) n
    return byte :: bytes

end Buffer

inductive ReadValue
  | bool (value : Bool)
  | number (value : ℤ)
  | units (value : List ℕ)
  | data (value : List UInt8)
  deriving DecidableEq

inductive ReadCall
  | bool
  | int
  | long
  | size
  | uint16
  | uint32
  | int64
  | uint64
  | length
  | string
  | wstring
  | string16
  | data
  | bytes (length : Int32)

/-- A `Pickle` over bytes that are not copied. -/
structure MemoryPickle where
  header : ℕ
  headerSize : ℕ
  deriving DecidableEq

namespace MemoryPickle

variable {platform : Platform} (buffer : Buffer platform)

/-- `AlignInt`, with `size_t`. -/
def alignSize (platform : Platform) (i : ℕ) : ℕ := alignInt i 4 % platform.addresses

/-- What the payload leaves of the data: the difference is an `unsigned int`. -/
def sizeLeft (dataLen : ℤ) : Except Fault ℕ :=
  if 4 ≤ dataLen then do
    let payloadSize ← buffer.load buffer.base 4
    return ((dataLen - leNat payloadSize) % 4294967296).toNat
  else return 0

/-- `Pickle(const char* data, int data_len)`. -/
def ofMemory (dataLen : ℤ) : Except Fault MemoryPickle := do
  let headerSize ← sizeLeft buffer dataLen
  let headerSize := if (dataLen % 4294967296).toNat < headerSize then 0 else headerSize
  let headerSize := if headerSize ≠ alignSize platform headerSize then 0 else headerSize
  return { header := if headerSize = 0 then 0 else buffer.base, headerSize }

variable (r : MemoryPickle)

def payload (platform : Platform) : ℕ := (r.header + r.headerSize) % platform.addresses

def endOfPayload : Except Fault ℕ :=
  if r.header = 0 then .ok 0
  else do
    let payloadSize ← buffer.load r.header 4
    return (r.payload platform + leNat payloadSize) % platform.addresses

/-- `IteratorHasRoomFor`: the end of the region may wrap. -/
def iteratorHasRoomFor (iter : ℕ) (len : ℤ) : Except Fault Bool :=
  if len < 0 ∨ iter < r.header then .ok false
  else do
    let endOfPayload ← r.endOfPayload buffer
    if endOfPayload < iter then return false
    else
      let endOfRegion := (iter + len.toNat) % platform.addresses
      return iter ≤ endOfRegion && endOfRegion ≤ endOfPayload

def updateIter (platform : Platform) (iter bytes : ℕ) : ℕ := (iter + alignSize platform bytes) % platform.addresses

/-- An iterator that is `NULL` goes to the start of the payload. -/
def start (platform : Platform) (iter : ℕ) : ℕ := if iter = 0 then r.payload platform else iter

/-- The `len` bytes at the iterator, if there is room for them; the iterator moves behind them. -/
def take (iter : ℕ) (len : ℤ) : Except Fault (Option (List UInt8) × ℕ) := do
  if ← r.iteratorHasRoomFor buffer iter len then
    let bytes ← buffer.load iter len.toNat
    return (some bytes, updateIter platform iter len.toNat)
  else return (none, iter)

/-- A number of `w` bytes: `ReadInt`, `ReadSize` and their like differ in the type only. -/
def readNumber (w : ℕ) (iter : ℕ) : Except Fault (Option ℕ × ℕ) := do
  let (bytes, iter) ← r.take buffer (r.start platform iter) w
  return (bytes.map leNat, iter)

def readInt (iter : ℕ) : Except Fault (Option ℤ × ℕ) := do
  let (n, iter) ← r.readNumber buffer 4 iter
  return (n.map fun n => toInt32 n, iter)

def readLength (iter : ℕ) : Except Fault (Option ℤ × ℕ) := do
  let (n, iter) ← r.readInt buffer iter
  return (n.filter (0 ≤ ·), iter)

/-- The characters of `ReadString` and its like: so many bytes as the product of the length and their size, which is an
`int` again where it is passed on. -/
def readChars (size : ℕ) (len : ℤ) (iter : ℕ) : Except Fault (Option (List ℕ) × ℕ) := do
  let product := toInt32 (len * size % platform.addresses)
  let (bytes, iter) ← r.take buffer iter product
  return (bytes.map (readArray size len.toNat), iter)

def readString (iter : ℕ) : Except Fault (Option (List UInt8) × ℕ) := do
  match ← r.readLength buffer iter with
  | (none, iter) => return (none, iter)
  | (some len, iter) => r.take buffer iter len

/-- `ReadWString`: the first test is there to avoid an overflow. -/
def readWString (iter : ℕ) : Except Fault (Option (List ℕ) × ℕ) := do
  match ← r.readLength buffer iter with
  | (none, iter) => return (none, iter)
  | (some len, iter) =>
    if 2147483647 / platform.sizeOfWchar < len then return (none, iter)
    else r.readChars buffer platform.sizeOfWchar len iter

def readString16 (iter : ℕ) : Except Fault (Option (List ℕ) × ℕ) := do
  match ← r.readLength buffer iter with
  | (none, iter) => return (none, iter)
  | (some len, iter) => r.readChars buffer 2 len iter

/-- `ReadBytes`, and the caller reads the bytes. -/
def readBytes (length : ℤ) (iter : ℕ) : Except Fault (Option (List UInt8) × ℕ) :=
  r.take buffer (r.start platform iter) length

def readData (iter : ℕ) : Except Fault (Option (List UInt8) × ℕ) := do
  match ← r.readLength buffer iter with
  | (none, iter) => return (none, iter)
  | (some len, iter) => r.readBytes buffer len iter

def result {α : Type} (value : α → ReadValue) (read : Except Fault (Option α × ℕ)) :
    Except Fault (Option ReadValue × ℕ) :=
  read.map fun (a, iter) => (a.map value, iter)

def read (iter : ℕ) : ReadCall → Except Fault (Option ReadValue × ℕ)
  | .bool => result (fun n => .bool (n ≠ 0)) (r.readInt buffer iter)
  | .int => result .number (r.readInt buffer iter)
  | .long => result (fun n : ℕ => .number (platform.long.signed n)) (r.readNumber buffer platform.long.size iter)
  | .size => result (fun n : ℕ => .number n) (r.readNumber buffer platform.sizeT.size iter)
  | .uint16 => result (fun n : ℕ => .number n) (r.readNumber buffer 2 iter)
  | .uint32 => result (fun n : ℕ => .number n) (r.readNumber buffer 4 iter)
  | .int64 => result (fun n : ℕ => .number (toInt64 n)) (r.readNumber buffer 8 iter)
  | .uint64 => result (fun n : ℕ => .number n) (r.readNumber buffer 8 iter)
  | .length => result .number (r.readLength buffer iter)
  | .string => result .data (r.readString buffer iter)
  | .wstring => result .units (r.readWString buffer iter)
  | .string16 => result .units (r.readString16 buffer iter)
  | .data => result .data (r.readData buffer iter)
  | .bytes length => result .data (r.readBytes buffer length.toInt iter)

def readAll (iter : ℕ) : List ReadCall → Except Fault (List (Option ReadValue) × ℕ)
  | [] => .ok ([], iter)
  | call :: calls => do
    let (value, iter) ← r.read buffer iter call
    let (values, iter) ← readAll iter calls
    return (value :: values, iter)

end MemoryPickle

/-! ## What is read is in the buffer -/

section Inside

variable {platform : Platform} {buffer : Buffer platform} {r : MemoryPickle}

theorem Platform.count_le (platform : Platform) : 4294967296 ≤ platform.addresses := by
  unfold Platform.addresses
  cases platform.sizeT <;> decide

theorem Buffer.load_eq (buffer : Buffer platform) {address n : ℕ} (hbase : buffer.base ≤ address)
    (hend : address + n ≤ buffer.base + buffer.bytes.length) :
    buffer.load address n = .ok ((buffer.bytes.drop (address - buffer.base)).take n) := by
  induction n generalizing address with
  | zero => rw [load, List.take_zero]
  | succ n ih =>
    have hfits := buffer.fits
    have hlt : address - buffer.base < buffer.bytes.length := by omega
    have hbyte : buffer.loadByte address = .ok buffer.bytes[address - buffer.base] := by
      rw [loadByte, if_pos hbase, List.getElem?_eq_getElem hlt]
    have hnext : (address + 1) % platform.addresses = address + 1 := Nat.mod_eq_of_lt (by omega)
    have hrest := @ih (address + 1) (by omega) (by omega)
    rw [show address + 1 - buffer.base = address - buffer.base + 1 by omega] at hrest
    rw [load, hbyte, hnext, hrest, List.drop_eq_getElem_cons hlt, List.take_succ_cons]
    rfl

theorem Buffer.load_four (h : 4 ≤ buffer.bytes.length) : buffer.load buffer.base 4 = .ok (buffer.bytes.take 4) := by
  have hload := buffer.load_eq le_rfl (Nat.add_le_add_left h buffer.base)
  rwa [Nat.sub_self, List.drop_zero] at hload

/-- The header is in the buffer, and the payload ends there. -/
structure MemoryPickle.Inside (buffer : Buffer platform) (r : MemoryPickle) : Prop where
  header : r.header = buffer.base
  four : 4 ≤ buffer.bytes.length
  payload : r.headerSize + leNat (buffer.bytes.take 4) ≤ buffer.bytes.length

def MemoryPickle.Valid (buffer : Buffer platform) (r : MemoryPickle) : Prop := r.header = 0 ∨ r.Inside buffer

theorem sizeLeft_gives {dataLen : ℤ} (hlen : dataLen ≤ buffer.bytes.length) (hint : dataLen < 2147483648) :
    Gives (fun headerSize => headerSize ≤ (dataLen % 4294967296).toNat → headerSize ≠ 0 →
      4 ≤ buffer.bytes.length ∧ headerSize + leNat (buffer.bytes.take 4) ≤ buffer.bytes.length)
      (MemoryPickle.sizeLeft buffer dataLen) := by
  unfold MemoryPickle.sizeLeft
  split
  · rw [Buffer.load_four (by omega)]
    refine .ok fun hle _ => ?_
    have hlt := leNat_lt (buffer.bytes.take 4)
    rw [List.length_take, min_eq_left (by omega)] at hlt
    norm_num at hlt
    omega
  · exact .ok fun _ h => absurd rfl h

/-- **The constructor** reads nothing but the header, and what it makes is valid. -/
theorem ofMemory_gives {dataLen : ℤ} (hlen : dataLen ≤ buffer.bytes.length) (hint : dataLen < 2147483648) :
    Gives (MemoryPickle.Valid buffer) (MemoryPickle.ofMemory buffer dataLen) := by
  refine (sizeLeft_gives hlen hint).bind fun headerSize hsize => .ok ?_
  by_cases hgreat : (dataLen % 4294967296).toNat < headerSize
  · left
    rw [if_pos hgreat]
    simp
  · rw [if_neg hgreat]
    by_cases halign : headerSize ≠ MemoryPickle.alignSize platform headerSize
    · left
      rw [if_pos halign, if_pos rfl]
    · rw [if_neg halign]
      by_cases hzero : headerSize = 0
      · exact .inl (if_pos hzero)
      · obtain ⟨hfour, hpayload⟩ := hsize (by omega) hzero
        exact .inr ⟨if_neg hzero, hfour, hpayload⟩

namespace MemoryPickle

theorem endOfPayload_of_inside (h : r.Inside buffer) (hne : r.header ≠ 0) :
    r.endOfPayload buffer = .ok (r.header + r.headerSize + leNat (buffer.bytes.take 4)) := by
  have hfits := buffer.fits
  have hpayload := h.payload
  have hstart : r.payload platform = r.header + r.headerSize := by
    rw [payload, h.header, Nat.mod_eq_of_lt (by omega)]
  rw [endOfPayload, if_neg hne, hstart, h.header, Buffer.load_four h.four]
  change Except.ok _ = _
  rw [Nat.mod_eq_of_lt (by omega)]

/-- **The shared check**: where it finds room, the bytes are in the buffer, or there are none. -/
theorem iteratorHasRoomFor_gives (h : r.Valid buffer) (iter : ℕ) {len : ℤ} (hlen : len < 2147483648) :
    Gives (fun room => room = true → len = 0 ∨
      buffer.base ≤ iter ∧ iter + len.toNat ≤ buffer.base + buffer.bytes.length)
      (r.iteratorHasRoomFor buffer iter len) := by
  have hcount := platform.count_le
  have hfits := buffer.fits
  unfold iteratorHasRoomFor
  split
  next => exact .ok fun h => Bool.noConfusion h
  next hstart =>
    rw [not_or, not_lt, not_lt] at hstart
    by_cases hne : r.header = 0
    · rw [endOfPayload, if_pos hne]
      change Gives _ (if 0 < iter then _ else _)
      split
      · exact .ok fun h => Bool.noConfusion h
      · refine .ok fun h => ?_
        rw [Bool.and_eq_true, decide_eq_true_iff, decide_eq_true_iff, Nat.mod_eq_of_lt (by omega)] at h
        omega
    · have hinside := h.resolve_left hne
      have hpayload := hinside.payload
      have hheader := hinside.header
      rw [endOfPayload_of_inside hinside hne]
      change Gives _ (if r.header + r.headerSize + leNat (buffer.bytes.take 4) < iter then _ else _)
      split
      · exact .ok fun h => Bool.noConfusion h
      · refine .ok fun h => .inr ?_
        rw [Bool.and_eq_true, decide_eq_true_iff, decide_eq_true_iff] at h
        -- a sum that wraps is behind the iterator, as the length is below the size of the address space
        by_cases hwrap : iter + len.toNat < platform.addresses
        · rw [Nat.mod_eq_of_lt hwrap] at h
          omega
        · rw [Nat.mod_eq_sub_mod (by omega), Nat.mod_eq_of_lt (by omega)] at h
          omega

theorem take_gives (h : r.Valid buffer) (iter : ℕ) {len : ℤ} (hlen : len < 2147483648) :
    Gives (fun _ => True) (r.take buffer iter len) := by
  refine (iteratorHasRoomFor_gives h iter hlen).bind fun room hroom => ?_
  cases room with
  | false => exact .ok trivial
  | true =>
    rcases hroom rfl with rfl | ⟨hbase, hend⟩
    · exact .ok trivial
    · rw [if_pos rfl, buffer.load_eq hbase hend]
      exact .ok trivial

theorem readNumber_gives (h : r.Valid buffer) {w : ℕ} (hw : w ≤ 8) (iter : ℕ) :
    Gives (fun _ => True) (r.readNumber buffer w iter) :=
  (take_gives h _ (by omega)).bind fun _ _ => .ok trivial

theorem readInt_gives (h : r.Valid buffer) (iter : ℕ) :
    Gives (fun x => ∀ n ∈ x.1, n < 2147483648) (r.readInt buffer iter) := by
  refine (readNumber_gives h (by decide) iter).bind fun x _ => .ok fun n hn => ?_
  obtain ⟨m, -, rfl⟩ := Option.map_eq_some_iff.1 hn
  exact toInt32_lt m

theorem readLength_gives (h : r.Valid buffer) (iter : ℕ) :
    Gives (fun x => ∀ n ∈ x.1, n < 2147483648) (r.readLength buffer iter) :=
  (readInt_gives h iter).bind fun _ hx => .ok fun n hn => hx n (Option.filter_eq_some_iff.1 hn).1

theorem readChars_gives (h : r.Valid buffer) (size : ℕ) (len : ℤ) (iter : ℕ) :
    Gives (fun _ => True) (r.readChars buffer size len iter) :=
  (take_gives h iter (toInt32_lt _)).bind fun _ _ => .ok trivial

theorem readString_gives (h : r.Valid buffer) (iter : ℕ) : Gives (fun _ => True) (r.readString buffer iter) := by
  refine (readLength_gives h iter).bind fun ⟨o, iter⟩ hlen => ?_
  cases o with
  | none => exact .ok trivial
  | some len => exact take_gives h iter (hlen len rfl)

theorem readWString_gives (h : r.Valid buffer) (iter : ℕ) : Gives (fun _ => True) (r.readWString buffer iter) := by
  refine (readLength_gives h iter).bind fun ⟨o, iter⟩ hlen => ?_
  cases o with
  | none => exact .ok trivial
  | some len =>
    dsimp only
    split
    · exact .ok trivial
    · exact readChars_gives h _ len iter

theorem readString16_gives (h : r.Valid buffer) (iter : ℕ) : Gives (fun _ => True) (r.readString16 buffer iter) := by
  refine (readLength_gives h iter).bind fun ⟨o, iter⟩ hlen => ?_
  cases o with
  | none => exact .ok trivial
  | some len => exact readChars_gives h 2 len iter

theorem readData_gives (h : r.Valid buffer) (iter : ℕ) : Gives (fun _ => True) (r.readData buffer iter) := by
  refine (readLength_gives h iter).bind fun ⟨o, iter⟩ hlen => ?_
  cases o with
  | none => exact .ok trivial
  | some len => exact take_gives h _ (hlen len rfl)

theorem result_gives {α : Type} {value : α → ReadValue} {read : Except Fault (Option α × ℕ)}
    {P : Option α × ℕ → Prop} (h : Gives P read) : Gives (fun _ => True) (result value read) :=
  h.map fun _ _ => trivial

theorem read_gives (h : r.Valid buffer) (iter : ℕ) (call : ReadCall) :
    Gives (fun _ => True) (r.read buffer iter call) := by
  cases call with
  | bool | int => exact result_gives (readInt_gives h iter)
  | long => exact result_gives (readNumber_gives h (by cases platform.long <;> decide) iter)
  | size => exact result_gives (readNumber_gives h (by cases platform.sizeT <;> decide) iter)
  | uint16 | uint32 | int64 | uint64 => exact result_gives (readNumber_gives h (by decide) iter)
  | length => exact result_gives (readLength_gives h iter)
  | string => exact result_gives (readString_gives h iter)
  | wstring => exact result_gives (readWString_gives h iter)
  | string16 => exact result_gives (readString16_gives h iter)
  | data => exact result_gives (readData_gives h iter)
  | bytes length => exact result_gives (take_gives h _ length.toInt_lt)

theorem readAll_gives (h : r.Valid buffer) (iter : ℕ) (calls : List ReadCall) :
    Gives (fun _ => True) (r.readAll buffer iter calls) := by
  induction calls generalizing iter with
  | nil => exact .ok trivial
  | cons call calls ih =>
    exact (read_gives h iter call).bind fun x _ => (ih x.2).bind fun _ _ => .ok trivial

theorem four_pos : 0 < 4 := by decide

def ilp32 : Platform := ⟨.bits32, .bits32, 4, four_pos⟩

/-- A string with a length that is forged, and then a number, near the end of the address space. -/
def forged : Buffer ilp32 := ⟨0xFFFFFF00, [8, 0, 0, 0, 0xFF, 0xFF, 0xFF, 0x7F, 5, 0, 0, 0], by decide⟩

end MemoryPickle

end Inside

end Chromium.Base
