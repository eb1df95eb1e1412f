import Chromium.Lib.CircularQueue

/-!
# The circular buffer

`net/curvecp/circular_buffer.cc`.  The bytes are a queue (`contents`): `write` puts bytes behind them as far as there
is room, `read` takes bytes out in front.
-/

namespace Chromium.Net.CurveCP

open Lib

structure CircularBuffer where
  capacity : ℕ
  head : ℕ
  length : ℕ
  buffer : ℤ → UInt8

namespace CircularBuffer

/-- `CircularBuffer(int capacity)`: the memory is not set. -/
def new (capacity : ℕ) (unset : ℤ → UInt8) : CircularBuffer := ⟨capacity, 0, 0, unset⟩

variable (b : CircularBuffer)

/-- The first part of `write`: there may be space at the end of the buffer. -/
def writeAtEnd (data : List UInt8) (length : ℕ) : ℕ × CircularBuffer :=
  if b.head + b.length < b.capacity then
    let bytesWritten := min (b.capacity - b.head - b.length) length
    (bytesWritten, { b with
      buffer := store b.buffer (b.head + b.length : ℕ) (data.take bytesWritten)
      length := b.length + bytesWritten })
  else (0, b)

def write (data : List UInt8) : ℕ × CircularBuffer :=
  let length := min data.length (b.capacity - b.length)
  let (bytesWritten, b) := b.writeAtEnd data length
  if length - bytesWritten = 0 then (bytesWritten, b)
  else
    let startPos := (b.head + b.length) % b.capacity
    (bytesWritten + (length - bytesWritten), { b with
      buffer := store b.buffer startPos ((data.drop bytesWritten).take (length - bytesWritten))
      length := b.length + (length - bytesWritten) })

/-- The loop of `read`; there is no result where it does not end. -/
def readLoop : ℕ → ℕ → CircularBuffer → Option (List UInt8 × CircularBuffer)
  | 0, _, _ => none
  | n + 1, length, b =>
    if length = 0 then some ([], b)
    else
      let len := min b.capacity (b.head + length) - b.head
      let head := if b.head + len = b.capacity then 0 else b.head + len
      (readLoop n (length - len) { b with head, length := b.length - len }).map fun (bytes, b') =>
        (load b.buffer b.head len ++ bytes, b')

def read (length : ℕ) : Option (List UInt8 × CircularBuffer) :=
  let length := min length b.length
  readLoop (length + 1) length b

def contents : List UInt8 := circular b.buffer b.capacity b.head b.length

structure Valid : Prop where
  head : b.head < b.capacity
  length : b.length ≤ b.capacity

variable {b}

theorem length_contents : b.contents.length = b.length := length_circular _ _ _ _

theorem valid_new {capacity : ℕ} (h : 0 < capacity) (unset : ℤ → UInt8) : (new capacity unset).Valid :=
  ⟨h, Nat.zero_le _⟩

theorem contents_store (h : b.Valid) (xs : List UInt8) {start : ℤ} {length : ℕ}
    (hstart : start = ((b.head + b.length) % b.capacity : ℕ))
    (hrun : (b.head + b.length) % b.capacity + xs.length ≤ b.capacity) (hroom : b.length + xs.length ≤ b.capacity)
    (hlength : length = b.length + xs.length) :
    ({ b with buffer := store b.buffer start xs, length := length } : CircularBuffer).contents = b.contents ++ xs ∧
      ({ b with buffer := store b.buffer start xs, length := length } : CircularBuffer).Valid := by
  subst hstart hlength
  exact ⟨circular_store hrun hroom, h.head, hroom⟩

theorem writeAtEnd_spec (h : b.Valid) {data : List UInt8} {length : ℕ} (hlength : length ≤ data.length)
    (hroom : b.length + length ≤ b.capacity) {k : ℕ} {b' : CircularBuffer} (heq : b.writeAtEnd data length = (k, b')) :
    b'.Valid ∧ k ≤ length ∧ b'.capacity = b.capacity ∧ b'.head = b.head ∧ b'.length = b.length + k ∧
      b'.contents = b.contents ++ data.take k ∧ (k < length → b.capacity ≤ b.head + b.length + k) := by
  unfold writeAtEnd at heq
  split at heq
  next hlt =>
    cases heq
    have htake : (data.take (min (b.capacity - b.head - b.length) length)).length =
        min (b.capacity - b.head - b.length) length := by
      rw [List.length_take]
      omega
    have hmod : (b.head + b.length) % b.capacity = b.head + b.length := Nat.mod_eq_of_lt hlt
    obtain ⟨hcontents, hvalid⟩ := contents_store h (data.take (min (b.capacity - b.head - b.length) length))
      (congrArg Nat.cast hmod.symm) (by omega) (by omega) (congrArg (b.length + ·) htake.symm)
    exact ⟨hvalid, by omega, rfl, rfl, rfl, hcontents, by omega⟩
  next hge =>
    cases heq
    exact ⟨h, Nat.zero_le _, rfl, rfl, rfl, (List.append_nil _).symm, fun _ => by omega⟩

theorem write_spec (h : b.Valid) (data : List UInt8) :
    (b.write data).1 = min data.length (b.capacity - b.length) ∧ (b.write data).2.Valid ∧
      (b.write data).2.capacity = b.capacity ∧
      (b.write data).2.contents = b.contents ++ data.take (b.write data).1 := by
  have hlen := h.length
  have hhead := h.head
  rcases heq : b.writeAtEnd data (min data.length (b.capacity - b.length)) with ⟨k, b'⟩
  obtain ⟨hvalid, hk, hcap, hb, hl, hcontents, hfull⟩ := writeAtEnd_spec h (by omega) (by omega) heq
  dsimp only [write]
  rw [heq]
  dsimp only
  by_cases hrest : min data.length (b.capacity - b.length) - k = 0
  · rw [if_pos hrest]
    exact ⟨by omega, hvalid, hcap, hcontents⟩
  · rw [if_neg hrest]
    have htake : ((data.drop k).take (min data.length (b.capacity - b.length) - k)).length =
        min data.length (b.capacity - b.length) - k := by
      rw [List.length_take, List.length_drop]
      omega
    have hge := hfull (by omega)
    have hmod : (b'.head + b'.length) % b'.capacity = b'.head + b'.length - b'.capacity := by
      rw [Nat.mod_eq_sub_mod (by omega), Nat.mod_eq_of_lt (by omega)]
    obtain ⟨hcontents', hvalid'⟩ := contents_store hvalid
      ((data.drop k).take (min data.length (b.capacity - b.length) - k)) rfl (by omega) (by omega)
      (congrArg (b'.length + ·) htake.symm)
    refine ⟨by omega, hvalid', hcap, hcontents'.trans ?_⟩
    rw [hcontents, List.append_assoc, ← List.take_add]

theorem contents_drop (h : b.Valid) (len : ℕ) {head : ℕ} (hlen : len ≤ b.length) (hrun : b.head + len ≤ b.capacity)
    (hhead : head = if b.head + len = b.capacity then 0 else b.head + len) :
    ({ b with head := head, length := b.length - len } : CircularBuffer).Valid ∧
      b.contents = load b.buffer b.head len ++
        ({ b with head := head, length := b.length - len } : CircularBuffer).contents := by
  have hpos := h.head
  have hle := h.length
  have hmod : head = (b.head + len) % b.capacity := by
    rw [hhead]
    split
    next hend => rw [hend, Nat.mod_self]
    next hend => exact (Nat.mod_eq_of_lt (by omega)).symm
  refine ⟨⟨?_, ?_⟩, ?_⟩
  · rw [hmod]
    exact Nat.mod_lt _ (by omega)
  · change b.length - len ≤ b.capacity
    omega
  · rw [contents, contents, ← circular_eq_load hrun]
    dsimp only
    rw [hmod, circular_mod, ← circular_add, Nat.add_sub_cancel' hlen]

theorem readLoop_spec (h : b.Valid) (length : ℕ) {n : ℕ} (hlength : length ≤ b.length) (hn : length < n) :
    ∃ b', readLoop n length b = some (b.contents.take length, b') ∧ b'.Valid ∧ b'.capacity = b.capacity ∧
      b'.contents = b.contents.drop length := by
  induction n generalizing length b with
  | zero => omega
  | succ n ih =>
    rw [readLoop]
    by_cases hzero : length = 0
    · subst hzero
      exact ⟨b, rfl, h, rfl, rfl⟩
    · rw [if_neg hzero]
      dsimp only
      have hhead := h.head
      generalize hl : min b.capacity (b.head + length) - b.head = len
      obtain ⟨hvalid, hcontents⟩ := contents_drop h len (by omega) (by omega) rfl
      obtain ⟨b', heq, hvalid', hcap, hrest⟩ := ih hvalid (length - len)
        (Nat.sub_le_sub_right hlength len) (by omega)
      have hload : (load b.buffer b.head len).length = len := length_load _ _ _
      have htake : (load b.buffer b.head len).take length = load b.buffer b.head len :=
        List.take_of_length_le (by omega)
      have hdrop : (load b.buffer b.head len).drop length = [] := List.drop_of_length_le (by omega)
      refine ⟨b', ?_, hvalid', hcap, ?_⟩
      · rw [heq, hcontents, Option.map_some, List.take_append, hload, htake]
      · rw [hrest, hcontents, List.drop_append, hload, hdrop, List.nil_append]

theorem read_spec (h : b.Valid) (length : ℕ) :
    ∃ b', b.read length = some (b.contents.take length, b') ∧ b'.Valid ∧ b'.capacity = b.capacity ∧
      b'.contents = b.contents.drop length := by
  obtain ⟨b', heq, hvalid, hcap, hrest⟩ := readLoop_spec h (min length b.length) (by omega) (Nat.lt_succ_self _)
  have hlen : b.contents.length = b.length := length_contents
  refine ⟨b', ?_, hvalid, hcap, ?_⟩
  · rw [read, heq]
    rcases Nat.le_total length b.length with hle | hle
    · rw [Nat.min_eq_left hle]
    · rw [Nat.min_eq_right hle, ← hlen, List.take_length, List.take_of_length_le (by omega)]
  · rw [hrest]
    rcases Nat.le_total length b.length with hle | hle
    · rw [Nat.min_eq_left hle]
    · rw [Nat.min_eq_right hle, ← hlen, List.drop_length, List.drop_of_length_le (by omega)]

end CircularBuffer

end Chromium.Net.CurveCP
