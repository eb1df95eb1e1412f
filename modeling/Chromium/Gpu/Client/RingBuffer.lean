import Chromium.Lib.RingTiling
import Chromium.Lib.TransSys

/-!
# The ring buffer

`gpu/command_buffer/client/ring_buffer.cc`.  The blocks of the buffer are kept in
the order in which they were allocated.  `Alloc` puts a block behind the last one,
after a block of padding when it does not fit before the end of the buffer, and
frees the oldest blocks until there is room.  A block is freed after its token has
passed.

Offsets and sizes are `unsigned int`, and every sum of them is taken modulo `2 ^ 32`.
-/

namespace Chromium.Gpu

open Lib
open List (mem_append mem_append_left mem_append_right mem_cons_self mem_singleton)

/-- `RingBuffer::State`. -/
inductive RingBlockState
  | IN_USE
  | PADDING
  | FREE_PENDING_TOKEN
  deriving DecidableEq, Repr

/-- `RingBuffer::Block`. -/
structure RingBlock where
  offset : ℕ
  size : ℕ
  token : ℕ
  state : RingBlockState
  deriving DecidableEq, Repr

/-- The constructor `Block(offset, size, state)`. -/
def RingBlock.new (offset size : ℕ) (state : RingBlockState) : RingBlock := ⟨offset, size, 0, state⟩

structure RingBuffer where
  blocks : List RingBlock
  baseOffset : ℕ
  size : ℕ
  freeOffset : ℕ
  inUseOffset : ℕ
  deriving DecidableEq, Repr

namespace RingBuffer

def new (baseOffset size : ℕ) : RingBuffer := ⟨[], baseOffset, size, 0, 0⟩

/-- A sum of two `unsigned int`. -/
def add32 (x y : ℕ) : ℕ := (x + y) % 4294967296

/-- A difference of two `unsigned int`. -/
def sub32 (x y : ℕ) : ℕ := (x + (4294967296 - y)) % 4294967296

/-- `RingBuffer::FreeOldestBlock`: the buffer and the token it waited for.  There is no
oldest block to free in an empty buffer. -/
def freeOldestBlock (r : RingBuffer) : Option (RingBuffer × List ℕ) :=
  match r.blocks with
  | [] => none
  | block :: blocks =>
    let waited := if block.state = .FREE_PENDING_TOKEN then [block.token] else []
    let inUseOffset := add32 r.inUseOffset block.size
    let inUseOffset := if inUseOffset = r.size then 0 else inUseOffset
    if inUseOffset = r.freeOffset then
      some ({ r with blocks := blocks, inUseOffset := 0, freeOffset := 0 }, waited)
    else
      some ({ r with blocks := blocks, inUseOffset := inUseOffset }, waited)

def getLargestFreeSizeNoWaiting (r : RingBuffer) : ℕ :=
  if r.freeOffset = r.inUseOffset then
    if r.blocks.isEmpty then r.size else 0
  else if r.inUseOffset < r.freeOffset then
    max (sub32 r.size r.freeOffset) r.inUseOffset
  else
    sub32 r.inUseOffset r.freeOffset

theorem freeOldestBlock_blocks {r r' : RingBuffer} {waited : List ℕ}
    (h : r.freeOldestBlock = some (r', waited)) : ∃ block, r.blocks = block :: r'.blocks := by
  unfold freeOldestBlock at h
  split at h
  · cases h
  · next block blocks heq =>
    refine ⟨block, ?_⟩
    dsimp only at h
    split_ifs at h <;> (obtain ⟨rfl, _⟩ := Prod.mk.inj (Option.some.inj h); exact heq)

/-- The loop of `Alloc`: the buffer with enough room, and the tokens it waited for. -/
def waitForRoom (r : RingBuffer) (size : ℕ) : Option (RingBuffer × List ℕ) :=
  if r.getLargestFreeSizeNoWaiting < size then
    match _h : r.freeOldestBlock with
    | none => none
    | some (r', waited) =>
      match r'.waitForRoom size with
      | none => none
      | some (r'', waited') => some (r'', waited ++ waited')
  else some (r, [])
termination_by r.blocks.length
decreasing_by
  obtain ⟨block, heq⟩ := freeOldestBlock_blocks _h
  rw [heq, List.length_cons]
  omega

theorem waitForRoom_of_le {r : RingBuffer} {size : ℕ}
    (h : size ≤ r.getLargestFreeSizeNoWaiting) : r.waitForRoom size = some (r, []) := by
  rw [waitForRoom, if_neg (Nat.not_lt.2 h)]

theorem waitForRoom_of_lt {r r' r'' : RingBuffer} {size : ℕ} {waited waited' : List ℕ}
    (h : r.getLargestFreeSizeNoWaiting < size) (hfree : r.freeOldestBlock = some (r', waited))
    (hwait : r'.waitForRoom size = some (r'', waited')) :
    r.waitForRoom size = some (r'', waited ++ waited') := by
  rw [waitForRoom, if_pos h]
  split
  · next hnone =>
    rw [hfree] at hnone
    cases hnone
  · next r₁ w hsome =>
    rw [hfree] at hsome
    cases hsome
    rw [hwait]

def pad (r : RingBuffer) (size : ℕ) : RingBuffer :=
  if r.size < add32 size r.freeOffset then
    { r with
      blocks := r.blocks ++ [.new r.freeOffset (sub32 r.size r.freeOffset) .PADDING]
      freeOffset := 0 }
  else r

def push (r : RingBuffer) (size : ℕ) : RingBuffer :=
  let freeOffset := add32 r.freeOffset size
  { r with
    blocks := r.blocks ++ [.new r.freeOffset size .IN_USE]
    freeOffset := if freeOffset = r.size then 0 else freeOffset }

/-- `RingBuffer::Alloc`: the buffer, the offset, and the tokens it waited for. -/
def alloc (r : RingBuffer) (size : ℕ) : Option (RingBuffer × ℕ × List ℕ) :=
  let size := if size = 0 then 1 else size
  match r.waitForRoom size with
  | none => none
  | some (r, waited) =>
    let r := r.pad size
    some (r.push size, add32 r.freeOffset r.baseOffset, waited)

def markFirst (offset token : ℕ) : List RingBlock → Option (List RingBlock)
  | [] => none
  | block :: blocks =>
    if block.offset = offset then
      some ({ block with token := token, state := .FREE_PENDING_TOKEN } :: blocks)
    else (markFirst offset token blocks).map (block :: ·)

/-- `RingBuffer::FreePendingToken`: it goes through the blocks from the back. -/
def freePendingToken (r : RingBuffer) (offset token : ℕ) : Option RingBuffer :=
  (markFirst (sub32 offset r.baseOffset) token r.blocks.reverse).map fun blocks =>
    { r with blocks := blocks.reverse }

theorem add32_of_lt {x y : ℕ} (h : x + y < 4294967296) : add32 x y = x + y := Nat.mod_eq_of_lt h

theorem sub32_of_le {x y : ℕ} (h : y ≤ x) (hx : x < 4294967296) : sub32 x y = x - y := by
  unfold sub32
  omega

theorem sub32_add32 {x y : ℕ} (hx : x < 4294967296) (hy : y < 4294967296) : sub32 (add32 x y) y = x := by
  unfold sub32 add32
  omega

/-! ### The invariant -/

/-- **The invariant**: the blocks go around the ring from the first byte in use to the
first free byte, at most once, and an empty buffer starts at zero. -/
structure RingInv (r : RingBuffer) : Prop where
  size_lt : r.size < 2147483648
  tiles : RingTiles RingBlock.offset RingBlock.size r.size r.inUseOffset r.blocks r.freeOffset
  total_le : total RingBlock.size r.blocks ≤ r.size
  empty : r.blocks = [] → r.inUseOffset = 0

theorem ringInv_new (baseOffset : ℕ) {size : ℕ} (h : size < 2147483648) : RingInv (new baseOffset size) :=
  ⟨h, rfl, Nat.zero_le _, fun _ => rfl⟩

variable {r : RingBuffer}

theorem RingInv.freeOffset_of_empty (h : RingInv r) (he : r.blocks = []) : r.freeOffset = 0 := by
  have ht := h.tiles
  rw [he] at ht
  exact (show r.inUseOffset = r.freeOffset from ht).symm.trans (h.empty he)

theorem RingInv.total_pos (h : RingInv r) (hne : r.blocks ≠ []) :
    0 < total RingBlock.size r.blocks ∧ r.inUseOffset < r.size := by
  have ht := h.tiles
  obtain ⟨b, bs, heq⟩ := List.exists_cons_of_ne_nil hne
  rw [heq] at ht ⊢
  obtain ⟨_, hpos, hle, _⟩ := ht
  rw [total_cons]
  omega

theorem RingInv.position (h : RingInv r) (hne : r.blocks ≠ []) :
    r.freeOffset < r.size ∧ (r.inUseOffset + total RingBlock.size r.blocks = r.freeOffset ∨
      r.inUseOffset + total RingBlock.size r.blocks = r.freeOffset + r.size) :=
  h.tiles.position (h.total_pos hne).2 h.total_le

/-- **The offsets are the same exactly when the buffer is entirely free or entirely in use.** -/
theorem RingInv.offsets_eq_iff (h : RingInv r) : r.freeOffset = r.inUseOffset ↔
      (r.blocks = [] ∧ r.freeOffset = 0 ∧ r.inUseOffset = 0) ∨
        (r.blocks ≠ [] ∧ total RingBlock.size r.blocks = r.size) := by
  by_cases hne : r.blocks = []
  · have hfree := h.freeOffset_of_empty hne
    have huse := h.empty hne
    simp [hne, hfree, huse]
  · obtain ⟨hpos, huse⟩ := h.total_pos hne
    obtain ⟨hfree, hpos'⟩ := h.position hne
    have hle := h.total_le
    simp only [hne, false_and, false_or, ne_eq, not_false_eq_true, true_and]
    omega

/-- There is room for `size` bytes behind the last block, maybe after some padding. -/
def Room (r : RingBuffer) (size : ℕ) : Prop :=
  (r.blocks = [] ∧ size ≤ r.size) ∨
    (r.blocks ≠ [] ∧ r.inUseOffset < r.freeOffset ∧ (r.freeOffset + size ≤ r.size ∨ size ≤ r.inUseOffset)) ∨
    (r.blocks ≠ [] ∧ r.freeOffset + size ≤ r.inUseOffset)

/-- **`GetLargestFreeSizeNoWaiting` is right.** -/
theorem RingInv.room_iff (h : RingInv r) {size : ℕ} (hpos : 0 < size) :
    size ≤ r.getLargestFreeSizeNoWaiting ↔ Room r size := by
  have hsize := h.size_lt
  unfold getLargestFreeSizeNoWaiting Room
  by_cases hne : r.blocks = []
  · have hfree := h.freeOffset_of_empty hne
    have huse := h.empty hne
    simp [hne, hfree, huse]
  · obtain ⟨_, huse⟩ := h.total_pos hne
    obtain ⟨hfree, _⟩ := h.position hne
    rw [sub32_of_le hfree.le (by omega)]
    simp only [hne, List.isEmpty_iff, if_false, false_and, false_or, ne_eq, not_false_eq_true, true_and]
    split_ifs with heq hlt
    · omega
    · rw [le_max_iff]
      omega
    · rw [sub32_of_le (by omega) (by omega)]
      omega

/-! ### Waiting for room -/

def pendingToken (block : RingBlock) : List ℕ :=
  if block.state = .FREE_PENDING_TOKEN then [block.token] else []

/-- **`FreeOldestBlock` frees the oldest block.** -/
theorem freeOldestBlock_spec (h : RingInv r) {block : RingBlock} {blocks : List RingBlock}
    (heq : r.blocks = block :: blocks) :
    ∃ r', r.freeOldestBlock = some (r', pendingToken block) ∧ RingInv r' ∧ r'.blocks = blocks ∧
      r'.size = r.size ∧ r'.baseOffset = r.baseOffset := by
  have hsize := h.size_lt
  have htiles := h.tiles
  have htotal := h.total_le
  rw [heq] at htiles htotal
  obtain ⟨_, hpos, hle, htiles⟩ := htiles
  rw [total_cons] at htotal
  have hadd : add32 r.inUseOffset block.size = r.inUseOffset + block.size := add32_of_lt (by omega)
  have hlt : ringWrap r.size (r.inUseOffset + block.size) < r.size := by
    rcases ringWrap_cases hle with ⟨_, hw⟩ | ⟨_, hw⟩ <;> omega
  have hend := htiles.position hlt (by omega)
  unfold freeOldestBlock
  have hwrap : (if r.inUseOffset + block.size = r.size then 0 else r.inUseOffset + block.size) =
      ringWrap r.size (r.inUseOffset + block.size) := rfl
  rw [heq]
  simp only [hadd, hwrap]
  by_cases hfree : ringWrap r.size (r.inUseOffset + block.size) = r.freeOffset
  · -- the offsets meet only when nothing is left, since the rest does not fill the ring
    have hnil : blocks = [] := by
      by_contra hne
      obtain ⟨b, bs, rfl⟩ := List.exists_cons_of_ne_nil hne
      have := htiles.2.1
      rw [total_cons] at htotal hend
      omega
    subst hnil
    rw [if_pos hfree]
    exact ⟨_, rfl, ⟨hsize, rfl, Nat.zero_le _, fun _ => rfl⟩, rfl, rfl, rfl⟩
  · rw [if_neg hfree]
    refine ⟨_, rfl, ⟨hsize, htiles, by dsimp only; omega, fun hnil => ?_⟩, rfl, rfl, rfl⟩
    dsimp only at hnil
    rw [hnil] at htiles
    exact absurd htiles hfree

/-- What the loop of `Alloc` does: it takes the oldest blocks off, waits for their
tokens, and leaves enough room. -/
structure WaitSpec (r : RingBuffer) (size : ℕ) (r' : RingBuffer) (waited : List ℕ) : Prop where
  inv : RingInv r'
  room : Room r' size
  size_eq : r'.size = r.size
  base_eq : r'.baseOffset = r.baseOffset
  old : ∃ old, r.blocks = old ++ r'.blocks ∧ ∀ b ∈ old, b.state = .FREE_PENDING_TOKEN → b.token ∈ waited

/-- **The loop of `Alloc` ends with enough room.** -/
theorem waitForRoom_spec {size : ℕ} (hpos : 0 < size) (h : RingInv r) (hle : size ≤ r.size) :
    ∃ r' waited, r.waitForRoom size = some (r', waited) ∧ WaitSpec r size r' waited := by
  -- the induction is on the blocks; with none left the whole buffer is free
  generalize hblocks : r.blocks = blocks
  induction blocks generalizing r with
  | nil =>
    have hroom : Room r size := .inl ⟨hblocks, hle⟩
    exact ⟨r, [], waitForRoom_of_le ((h.room_iff hpos).2 hroom), h, hroom, rfl, rfl, [], by simp, by simp⟩
  | cons block blocks ih =>
    by_cases hroom : Room r size
    · exact ⟨r, [], waitForRoom_of_le ((h.room_iff hpos).2 hroom), h, hroom, rfl, rfl, [],
        by simp, by simp⟩
    · obtain ⟨r₁, hfree, h₁, hrest, hsize, hbase⟩ := freeOldestBlock_spec h hblocks
      obtain ⟨r₂, waited, hwait, hspec⟩ := ih h₁ (by rw [hsize]; exact hle) hrest
      have hlt := Nat.lt_of_not_le fun hc => hroom ((h.room_iff hpos).1 hc)
      obtain ⟨old, hold, htoken⟩ := hspec.old
      refine ⟨r₂, pendingToken block ++ waited, waitForRoom_of_lt hlt hfree hwait, hspec.inv,
        hspec.room, hspec.size_eq.trans hsize, hspec.base_eq.trans hbase, block :: old,
        by rw [hblocks, List.cons_append, ← hold, hrest], fun b hb hs => ?_⟩
      rcases List.mem_cons.1 hb with rfl | hb
      · rw [pendingToken, if_pos hs]
        exact mem_cons_self
      · exact mem_append_right _ (htoken b hb hs)

/-! ### The new block -/

/-- **The padding leaves room for the block before the end of the buffer.** -/
theorem pad_spec (h : RingInv r) {size : ℕ} (hle : size ≤ r.size) (hroom : Room r size) :
    ∃ padding, (r.pad size).blocks = r.blocks ++ padding ∧ (∀ b ∈ padding, b.state = .PADDING) ∧
      (r.pad size).size = r.size ∧ (r.pad size).baseOffset = r.baseOffset ∧
      (r.pad size).inUseOffset = r.inUseOffset ∧
      RingTiles RingBlock.offset RingBlock.size r.size r.inUseOffset (r.pad size).blocks
        (r.pad size).freeOffset ∧
      (r.pad size).freeOffset + size ≤ r.size ∧
      total RingBlock.size (r.pad size).blocks + size ≤ r.size := by
  have hsize := h.size_lt
  have htotal := h.total_le
  have hfree : r.freeOffset ≤ r.size := by
    by_cases hne : r.blocks = []
    · rw [h.freeOffset_of_empty hne]
      exact Nat.zero_le _
    · exact (h.position hne).1.le
  rw [pad, add32_of_lt (by omega), sub32_of_le hfree (by omega)]
  split_ifs with hover
  · -- the block does not fit before the end, so it starts at zero
    have hne : r.blocks ≠ [] := by
      intro hnil
      rw [h.freeOffset_of_empty hnil] at hover
      omega
    obtain ⟨hlt, hpos⟩ := h.position hne
    obtain ⟨_, huse⟩ := h.total_pos hne
    have hpad := h.tiles.concat (b := .new r.freeOffset (r.size - r.freeOffset) .PADDING) rfl
      (by show 0 < r.size - r.freeOffset; omega)
      (by show r.freeOffset + (r.size - r.freeOffset) ≤ r.size; omega)
    have hend : ringWrap r.size (r.freeOffset + (r.size - r.freeOffset)) = 0 := by
      rw [ringWrap, if_pos (by omega)]
    refine ⟨_, rfl, fun b hb => ?_, rfl, rfl, rfl, ?_, by dsimp only; omega, ?_⟩
    · rw [mem_singleton.1 hb]
      rfl
    · dsimp only
      exact hend ▸ hpad
    · simp only [total_append, total_cons, total_nil, RingBlock.new]
      rcases hroom with ⟨hnil, _⟩ | ⟨_, hlt', hfit⟩ | ⟨_, hfit⟩
      · exact absurd hnil hne
      · omega
      · omega
  · refine ⟨[], by simp, by simp, rfl, rfl, rfl, h.tiles, by omega, ?_⟩
    rcases hroom with ⟨hnil, _⟩ | ⟨hne, hlt', hfit⟩ | ⟨hne, hfit⟩
    · rw [hnil]
      simpa using hle
    all_goals obtain ⟨hlt, hpos⟩ := h.position hne
    · omega
    · omega

/-- What `Alloc` does for a region of `size` bytes at the offset `offset` of the buffer. -/
structure AllocSpec (r : RingBuffer) (size : ℕ) (r' : RingBuffer) (offset : ℕ) (waited : List ℕ) :
    Prop where
  inv : RingInv r'
  size_eq : r'.size = r.size
  base_eq : r'.baseOffset = r.baseOffset
  blocks : ∃ old kept padding, r.blocks = old ++ kept ∧ r'.blocks = kept ++ padding ++ [.new offset size .IN_USE] ∧
    (∀ b ∈ padding, b.state = .PADDING) ∧
    ∀ b ∈ old, b.state = .FREE_PENDING_TOKEN → b.token ∈ waited

/-- **`Alloc` terminates and hands out a block of its own.** -/
theorem alloc_spec (h : RingInv r) {n : ℕ} (hle : max n 1 ≤ r.size) :
    ∃ r' offset waited, r.alloc n = some (r', add32 offset r.baseOffset, waited) ∧
      AllocSpec r (max n 1) r' offset waited := by
  have hn : (if n = 0 then 1 else n) = max n 1 := by split_ifs <;> omega
  obtain ⟨r₁, waited, hwait, hspec⟩ := waitForRoom_spec (by omega) h hle
  have hsize := hspec.size_eq
  obtain ⟨padding, hblocks, hpadding, hpsize, hpbase, hpuse, htiles, hfit, htotal⟩ :=
    pad_spec hspec.inv (by rw [hsize]; exact hle) hspec.room
  obtain ⟨old, hold, htoken⟩ := hspec.old
  have hlt := hspec.inv.size_lt
  refine ⟨(r₁.pad (max n 1)).push (max n 1), (r₁.pad (max n 1)).freeOffset, waited, ?_,
    ⟨?_, ?_, ?_, ?_⟩, hpsize.trans hsize, hpbase.trans hspec.base_eq, old, r₁.blocks, padding,
    hold, ?_, hpadding, htoken⟩
  · unfold alloc
    simp only [hn, hwait]
    rw [hpbase, hspec.base_eq]
  · exact hpsize.trans_lt hlt
  · have hpush := htiles.concat (b := .new (r₁.pad (max n 1)).freeOffset (max n 1) .IN_USE) rfl
      (by show 0 < max n 1; omega) hfit
    show RingTiles _ _ (r₁.pad (max n 1)).size (r₁.pad (max n 1)).inUseOffset
      ((r₁.pad (max n 1)).blocks ++ _) (ringWrap (r₁.pad (max n 1)).size
        (add32 (r₁.pad (max n 1)).freeOffset (max n 1)))
    rw [add32_of_lt (by omega), hpsize, hpuse]
    exact hpush
  · show total _ ((r₁.pad (max n 1)).blocks ++ _) ≤ (r₁.pad (max n 1)).size
    rw [total_append, hpsize]
    exact htotal
  · intro hnil
    exact absurd hnil (List.append_ne_nil_of_right_ne_nil _ (List.cons_ne_nil _ _))
  · show (r₁.pad (max n 1)).blocks ++ _ = _
    rw [hblocks]

/-- **`FreePendingToken` marks the last block** when the offset is its own. -/
theorem freePendingToken_spec (h : RingInv r) {pre : List RingBlock} {b : RingBlock}
    (hblocks : r.blocks = pre ++ [b]) {offset : ℕ} (hoffset : sub32 offset r.baseOffset = b.offset)
    (token : ℕ) :
    ∃ r', r.freePendingToken offset token = some r' ∧ RingInv r' ∧ r'.size = r.size ∧ r'.baseOffset = r.baseOffset ∧
      r'.blocks = pre ++ [{ b with token := token, state := .FREE_PENDING_TOKEN }] := by
  refine ⟨{ r with blocks := pre ++ [{ b with token := token, state := .FREE_PENDING_TOKEN }] },
    ?_, ⟨h.size_lt, ?_, ?_, ?_⟩, rfl, rfl, rfl⟩
  · unfold freePendingToken
    rw [hblocks, List.reverse_append, List.reverse_singleton, List.singleton_append, markFirst, if_pos hoffset.symm]
    simp
  · have ht := h.tiles
    rw [hblocks] at ht
    obtain ⟨mid, hpre, hlast⟩ := ringTiles_append.1 ht
    exact ringTiles_append.2 ⟨mid, hpre, hlast⟩
  · have ht := h.total_le
    rw [hblocks] at ht
    simpa using ht
  · intro hnil
    simp at hnil

/-! ### Runs -/

/-- The calls, with what they return and the tokens they waited for. -/
inductive Label
  | alloc (size offset : ℕ) (waited : List ℕ)
  | freePendingToken (offset token : ℕ)

/-- The buffer, and the offset the client holds. -/
structure Client where
  ring : RingBuffer
  held : Option ℕ

/-- The ring buffer under any sequence of `Alloc` for at most the whole buffer, each
followed by `FreePendingToken` of the offset before the next one. -/
def ringBuffer (baseOffset size : ℕ) : TransSys Client Label where
  init s := baseOffset < 4294967296 ∧ size < 2147483648 ∧ s = ⟨new baseOffset size, none⟩
  step s l s' :=
    match l with
    | .alloc n offset waited => s.held = none ∧ max n 1 ≤ size ∧
        s.ring.alloc n = some (s'.ring, offset, waited) ∧ s'.held = some offset
    | .freePendingToken offset token => s.held = some offset ∧
        s.ring.freePendingToken offset token = some s'.ring ∧ s'.held = none

def Releases (l : Label) (token : ℕ) : Prop :=
  match l with
  | .alloc _ _ waited => token ∈ waited
  | .freePendingToken _ _ => False

/-- The region of `n` bytes at the offset was freed pending the token, and no later call
waited for the token. -/
def Outstanding (tr : List Label) (offset n token : ℕ) : Prop :=
  ∃ tr₁ waited tr₂,
    tr = tr₁ ++ .alloc n offset waited :: .freePendingToken offset token :: tr₂ ∧ ∀ l ∈ tr₂, ¬ Releases l token

theorem outstanding_append {tr : List Label} {l : Label} {offset n token : ℕ}
    (h : Outstanding (tr ++ [l]) offset n token) :
    (l = .freePendingToken offset token ∧ ∃ tr₁ waited, tr = tr₁ ++ [.alloc n offset waited]) ∨
      Outstanding tr offset n token ∧ ¬ Releases l token := by
  obtain ⟨tr₁, waited, tr₂, heq, hno⟩ := h
  rcases List.eq_nil_or_concat tr₂ with rfl | ⟨tr₂, l', rfl⟩
  · have heq' : tr ++ [l] = (tr₁ ++ [.alloc n offset waited]) ++ [.freePendingToken offset token] := by
      simpa using heq
    obtain ⟨rfl, hl⟩ := List.append_inj' heq' rfl
    exact .inl ⟨by simpa using hl, tr₁, waited, rfl⟩
  · rw [List.concat_eq_append] at heq hno
    have heq' : tr ++ [l] =
        (tr₁ ++ .alloc n offset waited :: .freePendingToken offset token :: tr₂) ++ [l'] := by
      simpa using heq
    obtain ⟨rfl, hl⟩ := List.append_inj' heq' rfl
    obtain rfl : l = l' := by simpa using hl
    exact .inr ⟨⟨tr₁, waited, tr₂, rfl, fun l hl => hno l (mem_append_left _ hl)⟩,
      hno l (mem_append_right _ mem_cons_self)⟩

/-- The last block is in use, the client holds its offset, and the last call was the
`Alloc` that returned it. -/
def Holds (tr : List Label) (r : RingBuffer) (offset : ℕ) : Prop :=
  ∃ pre n, r.blocks = pre ++ [.new (sub32 offset r.baseOffset) (max n 1) .IN_USE] ∧
    (∀ b ∈ pre, b.state ≠ .IN_USE) ∧ ∃ tr₁ waited, tr = tr₁ ++ [.alloc n offset waited]

structure RunInv (baseOffset size : ℕ) (tr : List Label) (s : Client) : Prop where
  base_lt : baseOffset < 4294967296
  ring : RingInv s.ring
  base_eq : s.ring.baseOffset = baseOffset
  size_eq : s.ring.size = size
  idle : s.held = none → ∀ b ∈ s.ring.blocks, b.state ≠ .IN_USE
  busy : ∀ offset, s.held = some offset → Holds tr s.ring offset
  outstanding : ∀ offset n token, Outstanding tr offset n token →
    (⟨sub32 offset baseOffset, max n 1, token, .FREE_PENDING_TOKEN⟩ : RingBlock) ∈ s.ring.blocks

variable {baseOffset size : ℕ} {tr : List Label} {s : Client}

variable {n offset : ℕ} {s' : Client} {waited : List ℕ}

theorem RunInv.alloc_spec (h : RunInv baseOffset size tr s) (hle : max n 1 ≤ size) :
    ∃ r' offset waited, s.ring.alloc n = some (r', add32 offset baseOffset, waited) ∧
      AllocSpec s.ring (max n 1) r' offset waited := by
  obtain ⟨r', offset, waited, halloc, hspec⟩ := RingBuffer.alloc_spec h.ring
    (by rw [h.size_eq]; exact hle)
  exact ⟨r', offset, waited, by rw [halloc, h.base_eq], hspec⟩

theorem AllocSpec.last {r' : RingBuffer} (h : AllocSpec r n r' offset waited) :
    ∃ kept, r'.blocks = kept ++ [.new offset n .IN_USE] ∧ offset + n ≤ r'.size ∧
      ∀ b ∈ kept, Apart b.offset b.size offset n := by
  obtain ⟨old, kept, padding, _, hblocks, _, _⟩ := h.blocks
  have htiles := h.inv.tiles
  have hpair := htiles.pairwise h.inv.total_le
  rw [hblocks] at htiles hpair
  refine ⟨kept ++ padding, hblocks, ?_, fun b hb => ?_⟩
  · exact (htiles.mem (mem_append_right _ mem_cons_self)).2
  · exact (List.pairwise_append.1 hpair).2.2 b hb _ mem_cons_self

theorem AllocSpec.mem {r' : RingBuffer}
    (h : AllocSpec r n r' offset waited) {b : RingBlock} (hb : b ∈ r.blocks)
    (hs : b.state = .FREE_PENDING_TOKEN) (hno : b.token ∉ waited) : b ∈ r'.blocks := by
  obtain ⟨old, kept, padding, hold, hblocks, _, htoken⟩ := h.blocks
  rw [hold] at hb
  rw [hblocks]
  rcases mem_append.1 hb with hb | hb
  · exact absurd (htoken b hb hs) hno
  · exact mem_append_left _ (mem_append_left _ hb)

theorem RunInv.stepAlloc (h : RunInv baseOffset size tr s)
    (hst : (ringBuffer baseOffset size).step s (.alloc n offset waited) s') :
    RunInv baseOffset size (tr ++ [.alloc n offset waited]) s' := by
  obtain ⟨hheld, hle, halloc, hheld'⟩ := hst
  obtain ⟨r', o, waited', halloc', hspec⟩ := h.alloc_spec hle
  rw [halloc'] at halloc
  obtain ⟨rfl, hrest⟩ := Prod.mk.inj (Option.some.inj halloc)
  obtain ⟨rfl, rfl⟩ := Prod.mk.inj hrest
  have hbase := hspec.base_eq.trans h.base_eq
  have hsize := hspec.size_eq.trans h.size_eq
  refine ⟨h.base_lt, hspec.inv, hbase, hsize, fun hc => ?_, fun offset hc => ?_, fun o' m t ho => ?_⟩
  · rw [hheld'] at hc
    cases hc
  · rw [hheld'] at hc
    obtain rfl := Option.some.inj hc
    obtain ⟨old, kept, padding, hold, hblocks, hpadding, _⟩ := hspec.blocks
    obtain ⟨_, _, hfit, _⟩ := hspec.last
    have hlt := hspec.inv.size_lt
    refine ⟨kept ++ padding, n, ?_, fun b hb => ?_, tr, waited', rfl⟩
    · rw [hblocks, hbase, sub32_add32 (by omega) h.base_lt]
    · rcases mem_append.1 hb with hb | hb
      · exact h.idle hheld b (by rw [hold]; exact mem_append_right _ hb)
      · rw [hpadding b hb]
        decide
  · rcases outstanding_append ho with ⟨hl, _⟩ | ⟨ho, hno⟩
    · cases hl
    · exact hspec.mem (h.outstanding o' m t ho) rfl hno

theorem RunInv.stepFree {token : ℕ} (h : RunInv baseOffset size tr s)
    (hst : (ringBuffer baseOffset size).step s (.freePendingToken offset token) s') :
    RunInv baseOffset size (tr ++ [.freePendingToken offset token]) s' := by
  obtain ⟨hheld, hfree, hheld'⟩ := hst
  obtain ⟨pre, n, hblocks, hpre, tr₁, waited, rfl⟩ := h.busy offset hheld
  obtain ⟨r', hfree', hinv, hsize, hbase, hblocks'⟩ :=
    freePendingToken_spec h.ring hblocks rfl token
  rw [hfree'] at hfree
  cases hfree
  refine ⟨h.base_lt, hinv, hbase.trans h.base_eq, hsize.trans h.size_eq, fun _ b hb => ?_,
    fun offset hc => ?_, fun o m t ho => ?_⟩
  · rw [hblocks'] at hb
    rcases mem_append.1 hb with hb | hb
    · exact hpre b hb
    · rw [mem_singleton.1 hb]
      nofun
  · rw [hheld'] at hc
    cases hc
  · rw [hblocks']
    rcases outstanding_append ho with ⟨hl, tr₂, waited', heq⟩ | ⟨ho, _⟩
    · -- the region the client just freed is the last block
      cases hl
      obtain ⟨_, hlast⟩ := List.append_inj' heq rfl
      obtain ⟨rfl, _⟩ : n = m ∧ waited = waited' := by simpa using hlast
      rw [h.base_eq]
      exact mem_append_right _ mem_cons_self
    · have hmem := h.outstanding o m t ho
      rw [hblocks] at hmem
      rcases mem_append.1 hmem with hmem | hmem
      · exact mem_append_left _ hmem
      · have := mem_singleton.1 hmem
        simp [RingBlock.new] at this

theorem runInv_run (h : (ringBuffer baseOffset size).Run tr s) : RunInv baseOffset size tr s := by
  refine h.traceInvariant (I := RunInv baseOffset size) ?_ fun tr s l s' hi hst => ?_
  · rintro s ⟨hbase, hsize, rfl⟩
    refine ⟨hbase, ringInv_new _ hsize, rfl, rfl, fun _ b hb => (by cases hb), fun _ hc => (by cases hc), ?_⟩
    rintro o m t ⟨tr₁, waited, tr₂, heq, _⟩
    simp at heq
  · cases l with
    | alloc n offset waited => exact hi.stepAlloc hst
    | freePendingToken offset token => exact hi.stepFree hst

/-- What an `Alloc` has to satisfy that returns `offset`: the region is the last block and
lies in the buffer, no other block overlaps it, and neither does a region that is
still outstanding. -/
structure AllocSafe (baseOffset size : ℕ) (tr : List Label) (n offset : ℕ) (waited : List ℕ)
    (s' : Client) : Prop where
  inside : sub32 offset baseOffset + max n 1 ≤ size
  address : baseOffset + size ≤ 4294967296 → baseOffset ≤ offset ∧ offset + max n 1 ≤ baseOffset + size
  apart : ∃ kept, s'.ring.blocks = kept ++ [.new (sub32 offset baseOffset) (max n 1) .IN_USE] ∧
      ∀ b ∈ kept, Apart b.offset b.size (sub32 offset baseOffset) (max n 1)
  outstanding : ∀ o m t, Outstanding (tr ++ [.alloc n offset waited]) o m t →
    Apart (sub32 o baseOffset) (max m 1) (sub32 offset baseOffset) (max n 1)

/-- **A region that `Alloc` returns is free to use.** -/
theorem RunInv.allocSafe (h : RunInv baseOffset size tr s)
    (hst : (ringBuffer baseOffset size).step s (.alloc n offset waited) s') :
    AllocSafe baseOffset size tr n offset waited s' := by
  have hafter := h.stepAlloc hst
  obtain ⟨hheld, hle, halloc, hheld'⟩ := hst
  obtain ⟨r', o, waited', halloc', hspec⟩ := h.alloc_spec hle
  rw [halloc'] at halloc
  obtain ⟨rfl, hrest⟩ := Prod.mk.inj (Option.some.inj halloc)
  cases hrest
  obtain ⟨kept, hblocks, hfit, hapart⟩ := hspec.last
  have hlt := hspec.inv.size_lt
  have hsize := hafter.size_eq
  have hrel : sub32 (add32 o baseOffset) baseOffset = o := sub32_add32 (by omega) h.base_lt
  refine ⟨by rw [hrel]; omega, fun hbase => ?_, ⟨kept, by rw [hrel]; exact hblocks, ?_⟩, fun o' m t ho => ?_⟩
  · rw [add32_of_lt (by omega)]
    omega
  · rw [hrel]
    exact hapart
  · rw [hrel]
    have hmem := hafter.outstanding o' m t ho
    rw [hblocks] at hmem
    rcases mem_append.1 hmem with hmem | hmem
    · exact hapart _ hmem
    · have := mem_singleton.1 hmem
      simp [RingBlock.new] at this

/-- **The ring buffer.**  In every run the blocks tile the stretch of the ring from
`in_use_offset_` to `free_offset_`, and the two are the same exactly when the buffer is
entirely free or entirely in use.  A client that holds no offset can always allocate up to
the whole buffer, the one it holds can always be freed, and every `Alloc` hands out a
region of its own. -/
theorem ringBuffer_run (h : (ringBuffer baseOffset size).Run tr s) : RingInv s.ring ∧
      (s.ring.freeOffset = s.ring.inUseOffset ↔
        (s.ring.blocks = [] ∧ s.ring.freeOffset = 0 ∧ s.ring.inUseOffset = 0) ∨
          (s.ring.blocks ≠ [] ∧ total RingBlock.size s.ring.blocks = s.ring.size)) ∧
      (s.held = none → ∀ n, max n 1 ≤ size →
        ∃ offset waited s', (ringBuffer baseOffset size).step s (.alloc n offset waited) s') ∧
      (∀ offset, s.held = some offset → ∀ token,
        ∃ s', (ringBuffer baseOffset size).step s (.freePendingToken offset token) s') ∧
      ∀ n offset waited s', (ringBuffer baseOffset size).step s (.alloc n offset waited) s' →
        AllocSafe baseOffset size tr n offset waited s' := by
  have hi := runInv_run h
  refine ⟨hi.ring, hi.ring.offsets_eq_iff, fun hheld n hle => ?_, fun offset hheld token => ?_,
    fun n offset waited s' hst => hi.allocSafe hst⟩
  · obtain ⟨r', offset, waited, halloc, _⟩ := hi.alloc_spec hle
    exact ⟨add32 offset baseOffset, waited, ⟨r', some (add32 offset baseOffset)⟩, hheld, hle, halloc, rfl⟩
  · obtain ⟨pre, n, hblocks, _⟩ := hi.busy offset hheld
    obtain ⟨r', hfree, _⟩ := freePendingToken_spec hi.ring hblocks rfl token
    exact ⟨⟨r', none⟩, hheld, hfree, rfl⟩

theorem ringBuffer_run_sixteen :
    AllocSafe 100 16 [.alloc 4 100 [], .freePendingToken 100 7] 16 100 [7]
      ⟨⟨[.new 0 16 .IN_USE], 100, 16, 0, 0⟩, some 100⟩ := by
  have h0 : (ringBuffer 100 16).Run [] ⟨new 100 16, none⟩ := .init ⟨by decide, by decide, rfl⟩
  have halloc : (new 100 16).alloc 4 = some (⟨[.new 0 4 .IN_USE], 100, 16, 4, 0⟩, 100, []) := by
    have hwait : (new 100 16).waitForRoom 4 = some (new 100 16, []) := waitForRoom_of_le (by decide)
    simp only [alloc, Nat.reduceEqDiff, if_false, hwait]
    decide
  have h1 : (ringBuffer 100 16).Run [.alloc 4 100 []]
      ⟨⟨[.new 0 4 .IN_USE], 100, 16, 4, 0⟩, some 100⟩ :=
    h0.step (l := Label.alloc 4 100 []) ⟨rfl, by decide, halloc, rfl⟩
  have h2 : (ringBuffer 100 16).Run [.alloc 4 100 [], .freePendingToken 100 7]
      ⟨⟨[⟨0, 4, 7, .FREE_PENDING_TOKEN⟩], 100, 16, 4, 0⟩, none⟩ :=
    h1.step (l := Label.freePendingToken 100 7) ⟨rfl, by decide, rfl⟩
  have halloc' : RingBuffer.alloc ⟨[⟨0, 4, 7, .FREE_PENDING_TOKEN⟩], 100, 16, 4, 0⟩ 16 =
      some (⟨[.new 0 16 .IN_USE], 100, 16, 0, 0⟩, 100, [7]) := by
    have hfree : RingBuffer.freeOldestBlock ⟨[⟨0, 4, 7, .FREE_PENDING_TOKEN⟩], 100, 16, 4, 0⟩ =
        some (new 100 16, [7]) := by decide
    have hroom : (new 100 16).waitForRoom 16 = some (new 100 16, []) := waitForRoom_of_le (by decide)
    have hwait := waitForRoom_of_lt (by decide) hfree hroom
    simp only [alloc, Nat.reduceEqDiff, if_false, hwait]
    decide
  exact (ringBuffer_run h2).2.2.2.2 16 100 [7] _ ⟨rfl, by decide, halloc', rfl⟩

/-- **A buffer of size zero has no room for the byte of `Alloc(0)`.**  The loop comes to
free the oldest block of an empty buffer. -/
theorem alloc_zero_none : ¬ ∀ (baseOffset size n : ℕ), size < 2147483648 → n ≤ size →
      (new baseOffset size).alloc n ≠ none := by
  intro h
  refine h 0 0 0 (by decide) le_rfl ?_
  have hwait : (new 0 0).waitForRoom 1 = none := by
    rw [waitForRoom, if_pos (by decide)]
    simp only [freeOldestBlock, new]
  simp only [alloc, if_true, hwait]

end RingBuffer

end Chromium.Gpu
