import Chromium.Lib.ListIndex
import Chromium.Lib.Tiling
import Chromium.Lib.TransSys
import Mathlib.Data.List.Chain

/-!
# The fenced allocator

`gpu/command_buffer/client/fenced_allocator.cc`.  The allocator keeps the list of
the blocks of a buffer, in the order of their offsets.  A block that was freed
pending a token is used again after the service has passed the token: `Alloc`
waits for tokens when it finds no free block, and `FreeUnused` looks which tokens
have passed.

Offsets and sizes are `unsigned int`.  Every sum of them that the code computes
is at most the size of the buffer (`Consistent.tiles`), so it does not wrap.
-/

namespace Chromium.Gpu

open Lib
open List (forall_mem_append forall_mem_cons isChain_cons length_set mem_append mem_append_left
  mem_append_right mem_cons mem_cons_of_mem mem_cons_self mem_singleton)

namespace FencedAllocator

/-- `FencedAllocator::State`. -/
inductive BlockState
  | IN_USE
  | FREE
  | FREE_PENDING_TOKEN
  deriving DecidableEq, Repr

structure Block where
  state : BlockState
  offset : ℕ
  size : ℕ
  token : ℤ
  deriving DecidableEq, Repr

def kUnusedToken : ℤ := 0

def kInvalidOffset : ℕ := 4294967295

/-- `blocks_` after the constructor. -/
def new (size : ℕ) : List Block := [⟨.FREE, 0, size, kUnusedToken⟩]

/-- `blocks_[index]`. -/
def blockAt (blocks : List Block) (index : ℕ) : Block := blocks.getD index ⟨.FREE, 0, 0, kUnusedToken⟩

/-- The first half of `CollapseFreeBlock`: the next block is merged into this one. -/
def collapseNext (blocks : List Block) (index : ℕ) : List Block :=
  if index + 1 < blocks.length ∧ (blockAt blocks (index + 1)).state = .FREE then
    let block := blockAt blocks index
    let next := blockAt blocks (index + 1)
    (blocks.set index { block with size := block.size + next.size }).eraseIdx (index + 1)
  else blocks

def collapsePrev (blocks : List Block) (index : ℕ) : List Block × ℕ :=
  if 0 < index ∧ (blockAt blocks (index - 1)).state = .FREE then
    let prev := blockAt blocks (index - 1)
    let block := blockAt blocks index
    ((blocks.set (index - 1) { prev with size := prev.size + block.size }).eraseIdx index, index - 1)
  else (blocks, index)

/-- `FencedAllocator::CollapseFreeBlock`: the blocks and the new index. -/
def collapseFreeBlock (blocks : List Block) (index : ℕ) : List Block × ℕ :=
  collapsePrev (collapseNext blocks index) index

/-- `block.state = FREE`, followed by `CollapseFreeBlock`. -/
def freeBlock (blocks : List Block) (index : ℕ) : List Block × ℕ :=
  collapseFreeBlock (blocks.set index { blockAt blocks index with state := .FREE }) index

def allocInBlock (blocks : List Block) (index size : ℕ) : List Block × ℕ :=
  let block := blockAt blocks index
  if block.size = size then
    (blocks.set index { block with state := .IN_USE }, block.offset)
  else
    let newblock : Block := ⟨.FREE, block.offset + size, block.size - size, kUnusedToken⟩
    ((blocks.set index { block with state := .IN_USE, size := size }).insertIdx (index + 1)
      newblock, block.offset)

theorem length_collapseNext (blocks : List Block) (index : ℕ) :
    (collapseNext blocks index).length ≤ blocks.length := by
  unfold collapseNext
  split_ifs
  · exact (List.length_eraseIdx_le _ _).trans_eq length_set
  · exact le_rfl

theorem index_lt_collapseNext {blocks : List Block} {index : ℕ} (h : index < blocks.length) :
    index < (collapseNext blocks index).length := by
  unfold collapseNext
  split_ifs with hc
  · rw [List.length_eraseIdx_of_lt (by rw [length_set]; exact hc.1), length_set]
    omega
  · exact h

theorem collapseFreeBlock_lt {blocks : List Block} {index : ℕ} (h : index < blocks.length) :
    (collapseFreeBlock blocks index).1.length - ((collapseFreeBlock blocks index).2 + 1) <
      blocks.length - index := by
  have hle := length_collapseNext blocks index
  have hlt := index_lt_collapseNext h
  unfold collapseFreeBlock collapsePrev
  split_ifs with hc
  · dsimp only
    rw [List.length_eraseIdx_of_lt (by rw [length_set]; exact hlt), length_set]
    omega
  · dsimp only
    omega

theorem freeBlock_lt {blocks : List Block} {index : ℕ} (h : index < blocks.length) :
    (freeBlock blocks index).1.length - ((freeBlock blocks index).2 + 1) < blocks.length - index := by
  have := collapseFreeBlock_lt (show index <
    (blocks.set index { blockAt blocks index with state := .FREE }).length by
      rwa [length_set])
  rwa [length_set] at this

/-- What `Alloc` leaves: the blocks, the offset, and the tokens it waited for. -/
structure AllocResult where
  blocks : List Block
  offset : ℕ
  waited : List ℤ

/-- The second loop of `Alloc`, from the index on. -/
def allocPending (size : ℕ) (blocks : List Block) (index : ℕ) : AllocResult :=
  if h : index < blocks.length then
    if (blockAt blocks index).state ≠ .FREE_PENDING_TOKEN then
      allocPending size blocks (index + 1)
    else
      -- `WaitForTokenAndFreeBlock`
      let token := (blockAt blocks index).token
      let freed := freeBlock blocks index
      if size ≤ (blockAt freed.1 freed.2).size then
        let r := allocInBlock freed.1 freed.2 size
        ⟨r.1, r.2, [token]⟩
      else
        let r := allocPending size freed.1 (freed.2 + 1)
        { r with waited := token :: r.waited }
  else ⟨blocks, kInvalidOffset, []⟩
termination_by blocks.length - index
decreasing_by
  · omega
  · exact freeBlock_lt h

def alloc (blocks : List Block) (size : ℕ) : AllocResult :=
  let size := if size = 0 then 1 else size
  match blocks.findIdx? fun b => b.state = .FREE ∧ size ≤ b.size with
  | some index =>
    let r := allocInBlock blocks index size
    ⟨r.1, r.2, []⟩
  | none => allocPending size blocks 0

/-- `FencedAllocator::GetBlockByOffset`: `std::lower_bound` by the offset. -/
def getBlockByOffset (blocks : List Block) (offset : ℕ) : ℕ :=
  blocks.findIdx fun b => ¬ b.offset < offset

def free (blocks : List Block) (offset : ℕ) : List Block :=
  (freeBlock blocks (getBlockByOffset blocks offset)).1

def freePendingToken (blocks : List Block) (offset : ℕ) (token : ℤ) : List Block :=
  let index := getBlockByOffset blocks offset
  blocks.set index
    { blockAt blocks index with state := .FREE_PENDING_TOKEN, token := token }

/-! ### Freeing a block -/

def used (blocks : List Block) : List Block := blocks.filter fun b => b.state ≠ .FREE

def NoAdjacentFree (blocks : List Block) : Prop :=
  blocks.IsChain fun a b => ¬ (a.state = .FREE ∧ b.state = .FREE)

@[simp] theorem used_append (l₁ l₂ : List Block) : used (l₁ ++ l₂) = used l₁ ++ used l₂ :=
  List.filter_append ..

theorem used_cons_of_free {b : Block} (h : b.state = .FREE) (l : List Block) :
    used (b :: l) = used l := by
  simp [used, h]

theorem used_cons_of_not_free {b : Block} (h : b.state ≠ .FREE) (l : List Block) :
    used (b :: l) = b :: used l := by
  simp [used, h]

theorem mem_used {b : Block} {l : List Block} : b ∈ used l ↔ b ∈ l ∧ b.state ≠ .FREE := by
  simp [used]

/-- The free block `b` was merged with free neighbours into `f`. -/
structure Merged (pre : List Block) (b : Block) (post : List Block) (pre' : List Block) (f : Block)
    (post' : List Block) : Prop where
  state : f.state = .FREE
  size : b.size ≤ f.size
  tiles : ∀ lo hi, Tiles Block.offset Block.size lo (pre ++ b :: post) hi →
    Tiles Block.offset Block.size lo (pre' ++ f :: post') hi
  used : used (pre' ++ f :: post') = used (pre ++ b :: post)
  pos : (∀ c ∈ pre ++ b :: post, 0 < c.size) → ∀ c ∈ pre' ++ f :: post', 0 < c.size

theorem merged_refl {pre post : List Block} {b : Block} (h : b.state = .FREE) :
    Merged pre b post pre b post :=
  ⟨h, le_rfl, fun _ _ => id, rfl, id⟩

theorem Merged.trans {pre pre₁ pre₂ post post₁ post₂ : List Block} {b b₁ b₂ : Block}
    (h : Merged pre b post pre₁ b₁ post₁) (h' : Merged pre₁ b₁ post₁ pre₂ b₂ post₂) :
    Merged pre b post pre₂ b₂ post₂ where
  state := h'.state
  size := h.size.trans h'.size
  tiles lo hi ht := h'.tiles lo hi (h.tiles lo hi ht)
  used := h'.used.trans h.used
  pos hp := h'.pos (h.pos hp)

theorem merged_pair {pre post : List Block} {a b : Block} (ha : a.state = .FREE)
    (hb : b.state = .FREE) {lo hi : ℕ}
    (h : Tiles Block.offset Block.size lo (pre ++ a :: b :: post) hi) :
    Tiles Block.offset Block.size lo
      (pre ++ ({ a with size := a.size + b.size } : Block) :: post) hi ∧
    used (pre ++ ({ a with size := a.size + b.size } : Block) :: post) =
      used (pre ++ a :: b :: post) := by
  constructor
  · have h' : Tiles Block.offset Block.size lo (pre ++ [a, b] ++ post) hi := by simpa using h
    have := h'.replace [{ a with size := a.size + b.size }] fun x y hxy => by
      obtain ⟨h1, _, h3⟩ := hxy
      exact ⟨h1, by rw [tiles_nil] at h3 ⊢; dsimp only; omega⟩
    simpa using this
  · simp only [used_append]
    rw [used_cons_of_free ha, used_cons_of_free (b := { a with size := a.size + b.size }) ha, used_cons_of_free hb]

theorem merged_pair_pos {pre post : List Block} {a b c : Block}
    (h : ∀ c ∈ pre ++ a :: b :: post, 0 < c.size)
    (hc : c ∈ pre ++ ({ a with size := a.size + b.size } : Block) :: post) : 0 < c.size := by
  rcases mem_append.1 hc with hc | hc
  · exact h c (mem_append_left _ hc)
  · rcases mem_cons.1 hc with rfl | hc
    · have := h a (mem_append_right _ mem_cons_self)
      dsimp only
      omega
    · exact h c (mem_append_right _ (mem_cons_of_mem _ (mem_cons_of_mem _ hc)))

theorem blockAt_cut {pre post : List Block} {b : Block} : blockAt (pre ++ b :: post) pre.length = b := getD_cut

theorem blockAt_cut_succ {pre post : List Block} {a b : Block} :
    blockAt (pre ++ a :: b :: post) (pre.length + 1) = b := getD_cut_succ

theorem collapseNext_cons (pre post : List Block) (b next : Block) :
    collapseNext (pre ++ b :: next :: post) pre.length =
      if next.state = .FREE then pre ++ ({ b with size := b.size + next.size } : Block) :: post
      else pre ++ b :: next :: post := by
  have hlt : pre.length + 1 < (pre ++ b :: next :: post).length := by simp
  dsimp only [collapseNext]
  rw [blockAt_cut_succ, blockAt_cut, set_cut, eraseIdx_cut_succ]
  exact if_congr (and_iff_right hlt) rfl rfl

theorem collapseNext_last (pre : List Block) (b : Block) : collapseNext (pre ++ [b]) pre.length = pre ++ [b] := by
  rw [collapseNext, if_neg (fun h => by simp at h)]

theorem collapsePrev_cons (pre post : List Block) (prev b : Block) :
    collapsePrev (pre ++ prev :: b :: post) (pre.length + 1) =
      if prev.state = .FREE then (pre ++ ({ prev with size := prev.size + b.size } : Block) :: post, pre.length)
      else (pre ++ prev :: b :: post, pre.length + 1) := by
  dsimp only [collapsePrev]
  rw [Nat.add_sub_cancel, blockAt_cut_succ, blockAt_cut, set_cut, eraseIdx_cut_succ]
  exact if_congr (and_iff_right (Nat.succ_pos _)) rfl rfl

theorem collapsePrev_first (b : Block) (post : List Block) : collapsePrev (b :: post) 0 = (b :: post, 0) := by
  rw [collapsePrev, if_neg (fun h => nomatch h.1)]

/-- **The first half of `CollapseFreeBlock`**: behind the block there is no free one any more. -/
theorem collapseNext_cut (pre : List Block) {b : Block} (post : List Block) (hb : b.state = .FREE) :
    ∃ b₁ post₁, collapseNext (pre ++ b :: post) pre.length = pre ++ b₁ :: post₁ ∧
      Merged pre b post pre b₁ post₁ ∧ (NoAdjacentFree post → NoAdjacentFree (b₁ :: post₁)) := by
  cases post with
  | nil => exact ⟨b, [], collapseNext_last pre b, merged_refl hb, fun _ => .singleton _⟩
  | cons next post =>
    rw [collapseNext_cons]
    by_cases hn : next.state = .FREE
    · refine ⟨{ b with size := b.size + next.size }, post, if_pos hn, ?_, fun h => ?_⟩
      · exact ⟨hb, Nat.le_add_right _ _, fun _ _ h => (merged_pair hb hn h).1, by
            simp only [used_append]
            rw [used_cons_of_free hb, used_cons_of_free hn, used_cons_of_free]
            exact hb,
          fun h _ hc => merged_pair_pos h hc⟩
      · obtain ⟨hhead, htail⟩ := isChain_cons.1 h
        exact htail.cons fun y hy hf => hhead y hy ⟨hn, hf.2⟩
    · exact ⟨b, next :: post, if_neg hn, merged_refl hb, fun h => h.cons_cons fun hf => hn hf.2⟩

/-- **The second half**: before the block there is no free one any more. -/
theorem collapsePrev_cut (pre : List Block) {b : Block} (post : List Block) (hb : b.state = .FREE) :
    ∃ pre₁ b₁, collapsePrev (pre ++ b :: post) pre.length = (pre₁ ++ b₁ :: post, pre₁.length) ∧
      Merged pre b post pre₁ b₁ post ∧
      (NoAdjacentFree pre → NoAdjacentFree (b :: post) → NoAdjacentFree (pre₁ ++ b₁ :: post)) := by
  rcases List.eq_nil_or_concat pre with rfl | ⟨pre, prev, rfl⟩
  · exact ⟨[], b, collapsePrev_first b post, merged_refl hb, fun _ h => h⟩
  · have hcut : pre.concat prev ++ b :: post = pre ++ prev :: b :: post := by simp
    have hlen : (pre.concat prev).length = pre.length + 1 := by simp
    rw [hcut, hlen, collapsePrev_cons]
    by_cases hp : prev.state = .FREE
    · refine ⟨pre, { prev with size := prev.size + b.size }, if_pos hp, ?_, fun hpre hpost => ?_⟩
      · refine ⟨hp, Nat.le_add_left _ _, fun lo hi h => ?_, ?_, fun h c hc => ?_⟩
        · rw [hcut] at h
          exact (merged_pair hp hb h).1
        · rw [hcut]
          simp only [used_append]
          rw [used_cons_of_free hp, used_cons_of_free hb, used_cons_of_free]
          exact hp
        · rw [hcut] at h
          exact merged_pair_pos h hc
      · rw [List.concat_eq_append] at hpre
        obtain ⟨hpre', _, hlast⟩ := List.isChain_append.1 hpre
        obtain ⟨hhead, htail⟩ := isChain_cons.1 hpost
        refine hpre'.append (htail.cons fun y hy hf => hhead y hy ⟨hb, hf.2⟩) ?_
        intro x hx y hy hf
        exact hlast x hx prev rfl ⟨hf.1, hp⟩
    · refine ⟨pre.concat prev, b, ?_, merged_refl hb, fun hpre hpost => ?_⟩
      · rw [if_neg hp, hcut, hlen]
      · refine hpre.append hpost fun x hx y hy hf => hp ?_
        rw [List.concat_eq_append, List.getLast?_append_of_ne_nil _ (by simp)] at hx
        obtain rfl : prev = x := by simpa using hx
        exact hf.1

/-- **Freeing the block at the index**: it is merged with its free neighbours, and the
index is that of the free block. -/
theorem freeBlock_cut (pre : List Block) (b : Block) (post : List Block) :
    ∃ pre' f post', freeBlock (pre ++ b :: post) pre.length = (pre' ++ f :: post', pre'.length) ∧
      Merged pre { b with state := .FREE } post pre' f post' ∧
      (NoAdjacentFree pre → NoAdjacentFree post → NoAdjacentFree (pre' ++ f :: post')) := by
  unfold freeBlock collapseFreeBlock
  rw [blockAt_cut, set_cut]
  obtain ⟨b₁, post₁, h₁, hm₁, hadj₁⟩ :=
    collapseNext_cut pre (b := { b with state := .FREE }) post rfl
  obtain ⟨pre₂, b₂, h₂, hm₂, hadj₂⟩ := collapsePrev_cut pre post₁ hm₁.state
  exact ⟨pre₂, b₂, post₁, by rw [h₁, h₂], hm₁.trans hm₂, fun hpre hpost => hadj₂ hpre (hadj₁ hpost)⟩

/-! ### The invariant -/

/-- **What holds of the blocks of a buffer of `size` bytes.** -/
structure Consistent (size : ℕ) (blocks : List Block) : Prop where
  tiles : Tiles Block.offset Block.size 0 blocks size
  noAdjacentFree : NoAdjacentFree blocks
  pos : (∀ b ∈ blocks, 0 < b.size) ∨ size = 0 ∧ blocks = new 0

theorem consistent_new (size : ℕ) : Consistent size (new size) where
  tiles := ⟨rfl, Nat.zero_add _⟩
  noAdjacentFree := .singleton _
  pos := by
    rcases Nat.eq_zero_or_pos size with rfl | hpos
    · exact .inr ⟨rfl, rfl⟩
    · exact .inl fun b hb => by
        rw [mem_singleton.1 hb]
        exact hpos

variable {size : ℕ} {blocks : List Block} {b : Block} {pre post : List Block}

variable {index n : ℕ} {tr : List Label}

theorem Consistent.pos_of_used (h : Consistent size blocks) (hb : b ∈ blocks)
    (hf : b.state ≠ .FREE) : ∀ c ∈ blocks, 0 < c.size := by
  rcases h.pos with hp | ⟨_, rfl⟩
  · exact hp
  · rw [mem_singleton.1 hb] at hf
    exact absurd rfl hf

theorem noAdjacentFree_parts (h : NoAdjacentFree (pre ++ b :: post)) :
    NoAdjacentFree pre ∧ NoAdjacentFree post := by
  obtain ⟨hpre, hpost, _⟩ := List.isChain_append.1 h
  exact ⟨hpre, (isChain_cons.1 hpost).2⟩

/-- **Freeing a block keeps the invariant**, and all the other blocks that are not free. -/
theorem freeBlock_spec (h : Consistent size (pre ++ b :: post)) (hb : b.state ≠ .FREE) :
    ∃ pre' f post', freeBlock (pre ++ b :: post) pre.length = (pre' ++ f :: post', pre'.length) ∧
      f.state = .FREE ∧ Consistent size (pre' ++ f :: post') ∧
      used (pre ++ b :: post) = used pre ++ b :: used post ∧
      used (pre' ++ f :: post') = used pre ++ used post := by
  obtain ⟨pre', f, post', heq, hm, hadj⟩ := freeBlock_cut pre b post
  have hpos := h.pos_of_used (mem_append_right _ mem_cons_self) hb
  obtain ⟨hpre, hpost⟩ := noAdjacentFree_parts h.noAdjacentFree
  refine ⟨pre', f, post', heq, hm.state, ⟨hm.tiles _ _ ?_, hadj hpre hpost, .inl (hm.pos ?_)⟩, ?_, ?_⟩
  · have ht : Tiles Block.offset Block.size 0 (pre ++ [b] ++ post) size := by simpa using h.tiles
    have := ht.replace [{ b with state := .FREE }] fun x y hxy => hxy
    simpa using this
  · obtain ⟨hposPre, hposPost⟩ := forall_mem_append.1 hpos
    obtain ⟨hposHere, hposPost⟩ := forall_mem_cons.1 hposPost
    exact forall_mem_append.2 ⟨hposPre, forall_mem_cons.2 ⟨hposHere, hposPost⟩⟩
  · rw [used_append, used_cons_of_not_free hb]
  · rw [hm.used, used_append, used_cons_of_free]
    rfl

/-- **`AllocInBlock` cuts the region off the free block.** -/
theorem allocInBlock_spec {f : Block} (h : Consistent size (pre ++ f :: post))
    (hf : f.state = .FREE) (hn : 0 < n) (hle : n ≤ f.size) :
    ∃ blocks' new, allocInBlock (pre ++ f :: post) pre.length n = (blocks', f.offset) ∧
      Consistent size blocks' ∧ new ∈ blocks' ∧ new.state = .IN_USE ∧ new.offset = f.offset ∧
      new.size = n ∧ used blocks' = used pre ++ new :: used post := by
  have hpos : ∀ c ∈ pre ++ f :: post, 0 < c.size := by
    rcases h.pos with hp | ⟨_, heq⟩
    · exact hp
    · have : f ∈ new 0 := by
        rw [← heq]
        exact mem_append_right _ mem_cons_self
      rw [mem_singleton.1 this] at hle
      exact absurd hle (by show ¬ n ≤ 0; omega)
  obtain ⟨hposPre, hposPost⟩ := forall_mem_append.1 hpos
  have hposPost := (forall_mem_cons.1 hposPost).2
  have ht : Tiles Block.offset Block.size 0 (pre ++ [f] ++ post) size := by simpa using h.tiles
  obtain ⟨hadjPre, hadjPost, hbefore⟩ := List.isChain_append.1 h.noAdjacentFree
  obtain ⟨hbehind, hadjPost⟩ := isChain_cons.1 hadjPost
  unfold allocInBlock blockAt
  simp only [getD_cut, set_cut, insertIdx_cut_succ]
  split_ifs with heq
  · refine ⟨_, { f with state := .IN_USE }, rfl, ⟨?_, ?_, .inl ?_⟩,
      mem_append_right _ mem_cons_self, rfl, rfl, heq, ?_⟩
    · have := ht.replace [{ f with state := .IN_USE }] fun x y hxy => hxy
      simpa using this
    · refine hadjPre.append (hadjPost.cons fun y _ hc => ?_) fun x _ y hy hc => ?_
      · cases hc.1
      · cases hy
        cases hc.2
    · exact forall_mem_append.2 ⟨hposPre, forall_mem_cons.2 ⟨hn.trans_le hle, hposPost⟩⟩
    · rw [used_append, used_cons_of_not_free (by exact fun hc => by cases hc)]
  · refine ⟨_, { f with state := .IN_USE, size := n }, rfl, ⟨?_, ?_, .inl ?_⟩,
      mem_append_right _ mem_cons_self, rfl, rfl, rfl, ?_⟩
    · have := ht.replace [{ f with state := .IN_USE, size := n },
        ⟨.FREE, f.offset + n, f.size - n, kUnusedToken⟩] fun x y hxy => by
          obtain ⟨h1, h2⟩ := hxy
          rw [tiles_nil] at h2
          refine ⟨h1, ?_, ?_⟩
          · dsimp only
            omega
          · rw [tiles_nil]
            dsimp only
            omega
      simpa using this
    · refine hadjPre.append ((hadjPost.cons fun y hy hc => ?_).cons_cons fun hc => ?_)
        fun x _ y hy hc => ?_
      · exact hbehind y hy ⟨hf, hc.2⟩
      · cases hc.1
      · cases hy
        cases hc.2
    · have hrest : 0 < f.size - n := by omega
      exact forall_mem_append.2
        ⟨hposPre, forall_mem_cons.2 ⟨hn, forall_mem_cons.2 ⟨hrest, hposPost⟩⟩⟩
    · rw [used_append, used_cons_of_not_free (by exact fun hc => by cases hc), used_cons_of_free]
      rfl

/-! ### The loops -/

theorem used_freeBlock_lt (h : index < blocks.length) (hs : (blockAt blocks index).state ≠ .FREE) :
    (used (freeBlock blocks index).1).length < (used blocks).length := by
  obtain ⟨pre, b, post, rfl, rfl⟩ := exists_cut h
  rw [blockAt_cut] at hs
  obtain ⟨pre', f, post', heq, hm, _⟩ := freeBlock_cut pre b post
  rw [heq, hm.used, used_append, used_append, used_cons_of_not_free hs, used_cons_of_free rfl]
  simp

/-- The loop of `FreeUnused`, from the index on. -/
def freeUnusedFrom (lastTokenRead : ℤ) (blocks : List Block) (index : ℕ) : List Block :=
  if h : index < blocks.length then
    if hp : (blockAt blocks index).state = .FREE_PENDING_TOKEN ∧
        (blockAt blocks index).token ≤ lastTokenRead then
      let freed := freeBlock blocks index
      freeUnusedFrom lastTokenRead freed.1 freed.2
    else freeUnusedFrom lastTokenRead blocks (index + 1)
  else blocks
termination_by (used blocks).length + (blocks.length - index)
decreasing_by
  · have h1 := used_freeBlock_lt h (by rw [hp.1]; decide)
    have h2 := freeBlock_lt h
    omega
  · omega

def freeUnused (blocks : List Block) (lastTokenRead : ℤ) : List Block :=
  freeUnusedFrom lastTokenRead blocks 0

/-- What a call does to the blocks: the invariant stays, and so does every block that
is not free and not released (`released`).  No other block gets in use. -/
structure Kept (size : ℕ) (blocks blocks' : List Block) (released : Block → Prop) : Prop where
  consistent : Consistent size blocks'
  kept : ∀ c ∈ used blocks, c ∈ used blocks' ∨ released c
  old : ∀ c ∈ used blocks', c ∈ used blocks

theorem kept_freeBlock (released : Block → Prop) (h : Consistent size (pre ++ b :: post))
    (hb : b.state ≠ .FREE) (hr : released b) :
    ∃ pre' f post', freeBlock (pre ++ b :: post) pre.length = (pre' ++ f :: post', pre'.length) ∧ f.state = .FREE ∧
      Kept size (pre ++ b :: post) (pre' ++ f :: post') released := by
  obtain ⟨pre', f, post', heq, hf, hc, hu, hu'⟩ := freeBlock_spec h hb
  refine ⟨pre', f, post', heq, hf, hc, fun c hc => ?_, fun c hc => ?_⟩
  · rw [hu] at hc
    rw [hu']
    rcases mem_append.1 hc with hc | hc
    · exact .inl (mem_append_left _ hc)
    · rcases mem_cons.1 hc with rfl | hc
      · exact .inr hr
      · exact .inl (mem_append_right _ hc)
  · rw [hu'] at hc
    rw [hu]
    rcases mem_append.1 hc with hc | hc
    · exact mem_append_left _ hc
    · exact mem_append_right _ (mem_cons_of_mem _ hc)

theorem Kept.trans {l₁ l₂ l₃ : List Block} {released : Block → Prop}
    (h : Kept size l₁ l₂ released) (h' : Kept size l₂ l₃ released) : Kept size l₁ l₃ released where
  consistent := h'.consistent
  kept c hc := (h.kept c hc).elim (fun hc => h'.kept c hc) .inr
  old c hc := h.old c (h'.old c hc)

def TokenRead (lastTokenRead : ℤ) (c : Block) : Prop :=
  c.state = .FREE_PENDING_TOKEN ∧ c.token ≤ lastTokenRead

/-- **`FreeUnused` releases only blocks whose token has been read.** -/
theorem kept_freeUnusedFrom {lastTokenRead : ℤ} {blocks : List Block} (h : Consistent size blocks) :
    Kept size blocks (freeUnusedFrom lastTokenRead blocks index) (TokenRead lastTokenRead) := by
  induction blocks, index using freeUnusedFrom.induct lastTokenRead with
  | case1 blocks index hlt hp freed ih =>
    rw [freeUnusedFrom, dif_pos hlt, dif_pos hp]
    obtain ⟨pre, b, post, rfl, rfl⟩ := exists_cut hlt
    rw [blockAt_cut] at hp
    obtain ⟨pre', f, post', heq, _, hk⟩ :=
      kept_freeBlock (TokenRead lastTokenRead) h (by rw [hp.1]; decide) hp
    have hfreed : freed = (pre' ++ f :: post', pre'.length) := heq
    rw [hfreed] at ih
    show Kept size _ (freeUnusedFrom lastTokenRead (freeBlock _ _).1 (freeBlock _ _).2) _
    rw [heq]
    exact hk.trans (ih hk.consistent)
  | case2 blocks index hlt hp ih =>
    rw [freeUnusedFrom, dif_pos hlt, dif_neg hp]
    exact ih h
  | case3 blocks index hlt =>
    rw [freeUnusedFrom, dif_neg hlt]
    exact ⟨h, fun c hc => .inl hc, fun c hc => hc⟩

def Waited (waited : List ℤ) (c : Block) : Prop := c.state = .FREE_PENDING_TOKEN ∧ c.token ∈ waited

/-- What `Alloc` does for a region of `n` bytes: it releases only blocks whose token it
waited for, and either it has no room, or the region is a new block. -/
structure AllocSpec (size n : ℕ) (blocks : List Block) (r : AllocResult) : Prop where
  consistent : Consistent size r.blocks
  kept : ∀ c ∈ used blocks, c ∈ used r.blocks ∨ Waited r.waited c
  result : r.offset = kInvalidOffset ∨ ∃ new ∈ r.blocks, new.state = .IN_USE ∧ new.offset = r.offset ∧ new.size = n
  fresh : r.offset = kInvalidOffset ∨ ∀ c ∈ blocks, c.state = .IN_USE → c.offset ≠ r.offset
  old : ∀ c ∈ used r.blocks, c ∈ used blocks ∨ c.state = .IN_USE ∧ c.offset = r.offset ∧ c.size = n

theorem allocSpec_of_free {f : Block} (h : Consistent size (pre ++ f :: post))
    (hf : f.state = .FREE) (hn : 0 < n) (hle : n ≤ f.size) :
    AllocSpec size n (pre ++ f :: post)
      ⟨(allocInBlock (pre ++ f :: post) pre.length n).1,
        (allocInBlock (pre ++ f :: post) pre.length n).2, []⟩ := by
  obtain ⟨blocks', new, heq, hc, hmem, hstate, hoffset, hsize, hu⟩ := allocInBlock_spec h hf hn hle
  rw [heq]
  have hold : used (pre ++ f :: post) = used pre ++ used post := by
    rw [used_append, used_cons_of_free hf]
  refine ⟨hc, fun c hc => .inl ?_, .inr ⟨new, hmem, hstate, hoffset, hsize⟩,
    .inr fun c hc hs => ?_, fun c hc => ?_⟩
  · rw [hold] at hc
    show c ∈ used blocks'
    rw [hu]
    rcases mem_append.1 hc with hc | hc
    · exact mem_append_left _ hc
    · exact mem_append_right _ (mem_cons_of_mem _ hc)
  · -- a block in use lies before or behind the free one
    have hcpos := h.pos_of_used hc (by rw [hs]; decide)
    obtain ⟨_, hpost, hpre⟩ := List.pairwise_append.1 h.tiles.pairwise
    have hpost := (List.pairwise_cons.1 hpost).1
    show c.offset ≠ f.offset
    rcases mem_append.1 hc with hc | hc
    · have := hpre c hc f mem_cons_self
      have := hcpos c (mem_append_left _ hc)
      omega
    · rcases mem_cons.1 hc with rfl | hc
      · rw [hs] at hf
        cases hf
      · have := hpost c hc
        omega
  · have hc : c ∈ used blocks' := hc
    rw [hu] at hc
    rw [hold]
    rcases mem_append.1 hc with hc | hc
    · exact .inl (mem_append_left _ hc)
    · rcases mem_cons.1 hc with rfl | hc
      · exact .inr ⟨hstate, hoffset, hsize⟩
      · exact .inl (mem_append_right _ hc)

theorem AllocSpec.after {l l' : List Block} {token : ℤ} {r : AllocResult}
    (hk : Kept size l l' (Waited [token])) (h : AllocSpec size n l' r) :
    AllocSpec size n l { r with waited := token :: r.waited } where
  consistent := h.consistent
  kept c hc := by
    rcases hk.kept c hc with hc | ⟨hs, ht⟩
    · exact (h.kept c hc).imp id fun ⟨hs, ht⟩ => ⟨hs, mem_cons_of_mem _ ht⟩
    · refine .inr ⟨hs, ?_⟩
      rw [mem_singleton.1 ht]
      exact mem_cons_self
  result := h.result
  fresh := h.fresh.imp id fun hfresh c hc hs => by
    rcases hk.kept c (mem_used.2 ⟨hc, by rw [hs]; decide⟩) with hc | ⟨hp, _⟩
    · exact hfresh c (mem_used.1 hc).1 hs
    · rw [hs] at hp
      cases hp
  old c hc := (h.old c hc).imp (hk.old c) id

/-- `Alloc` takes a free block that is large enough, or goes on to the pending ones. -/
theorem alloc_cases (blocks : List Block) (n : ℕ) :
    (∃ pre f post, blocks = pre ++ f :: post ∧ f.state = .FREE ∧ max n 1 ≤ f.size ∧ alloc blocks n =
      ⟨(allocInBlock blocks pre.length (max n 1)).1, (allocInBlock blocks pre.length (max n 1)).2, []⟩) ∨
    (∀ b ∈ blocks, b.state = .FREE → b.size < max n 1) ∧ alloc blocks n = allocPending (max n 1) blocks 0 := by
  have hn : (if n = 0 then 1 else n) = max n 1 := by split_ifs <;> omega
  unfold alloc
  simp only [hn]
  split
  · next index hfind =>
    obtain ⟨hlt, hp, _⟩ := List.findIdx?_eq_some_iff_getElem.1 hfind
    obtain ⟨pre, f, post, rfl, rfl⟩ := exists_cut hlt
    have hf : (pre ++ f :: post)[pre.length] = f := by simp
    rw [hf, decide_eq_true_eq] at hp
    exact .inl ⟨pre, f, post, rfl, hp.1, hp.2, rfl⟩
  · next hfind =>
    refine .inr ⟨fun b hb hf => ?_, rfl⟩
    have hnot := of_decide_eq_false (List.findIdx?_eq_none_iff.1 hfind b hb)
    exact not_le.1 fun hle => hnot ⟨hf, hle⟩

theorem allocPending_cut {pre' post' : List Block} {f : Block} (hs : b.state = .FREE_PENDING_TOKEN)
    (heq : freeBlock (pre ++ b :: post) pre.length = (pre' ++ f :: post', pre'.length)) :
    allocPending n (pre ++ b :: post) pre.length = if n ≤ f.size then
        ⟨(allocInBlock (pre' ++ f :: post') pre'.length n).1, (allocInBlock (pre' ++ f :: post') pre'.length n).2,
          [b.token]⟩
      else
        let r := allocPending n (pre' ++ f :: post') (pre'.length + 1)
        { r with waited := b.token :: r.waited } := by
  rw [allocPending, dif_pos (by simp), if_neg (by rw [blockAt_cut, hs]; decide)]
  simp only [heq, blockAt_cut]

/-- **The second loop of `Alloc`.** -/
theorem allocSpec_allocPending (hn : 0 < n) {blocks : List Block}
    (h : Consistent size blocks) : AllocSpec size n blocks (allocPending n blocks index) := by
  induction blocks, index using allocPending.induct n with
  | case1 blocks index hlt hs ih =>
    rw [allocPending, dif_pos hlt, if_pos hs]
    exact ih h
  | case2 blocks index hlt hs freed hle =>
    obtain ⟨pre, b, post, rfl, rfl⟩ := exists_cut hlt
    rw [blockAt_cut, not_not] at hs
    obtain ⟨pre', f, post', heq, hf, hk⟩ := kept_freeBlock (Waited [b.token]) h
      (by rw [hs]; decide) ⟨hs, List.mem_singleton_self _⟩
    simp only [freed, heq, blockAt_cut] at hle
    rw [allocPending_cut hs heq, if_pos hle]
    exact (allocSpec_of_free hk.consistent hf hn hle).after hk
  | case3 blocks index hlt hs freed hle ih =>
    obtain ⟨pre, b, post, rfl, rfl⟩ := exists_cut hlt
    rw [blockAt_cut, not_not] at hs
    obtain ⟨pre', f, post', heq, hf, hk⟩ := kept_freeBlock (Waited [b.token]) h
      (by rw [hs]; decide) ⟨hs, List.mem_singleton_self _⟩
    simp only [freed, heq, blockAt_cut] at hle ih
    rw [allocPending_cut hs heq, if_neg hle]
    exact (ih hk.consistent).after hk
  | case4 blocks index hlt =>
    rw [allocPending, dif_neg hlt]
    exact ⟨h, fun c hc => .inl hc, .inl rfl, .inl rfl, fun c hc => .inl hc⟩

/-- **`Alloc`**, for at least one byte. -/
theorem allocSpec_alloc (h : Consistent size blocks) (n : ℕ) :
    AllocSpec size (max n 1) blocks (alloc blocks n) := by
  rcases alloc_cases blocks n with ⟨pre, f, post, rfl, hf, hle, heq⟩ | ⟨-, heq⟩
  · rw [heq]
    exact allocSpec_of_free h hf (by omega) hle
  · rw [heq]
    exact allocSpec_allocPending (by omega) h

/-! ### The calls that name an offset -/

/-- **`GetBlockByOffset` finds the block that starts at the offset.** -/
theorem getBlockByOffset_spec (h : Consistent size blocks) (hb : b ∈ blocks)
    (hf : b.state ≠ .FREE) :
    ∃ pre post, blocks = pre ++ b :: post ∧ getBlockByOffset blocks b.offset = pre.length := by
  have hpos := h.pos_of_used hb hf
  obtain ⟨pre, post, rfl⟩ := List.append_of_mem hb
  refine ⟨pre, post, rfl, findIdx_cut (fun a ha => ?_) (by simp)⟩
  have hpair := (List.pairwise_append.1 h.tiles.pairwise).2.2 a ha b mem_cons_self
  have := hpos a (mem_append_left _ ha)
  simp only [decide_not, Bool.not_eq_false', decide_eq_true_eq]
  omega

/-- **`Free` releases the block at the offset.** -/
theorem kept_free (h : Consistent size blocks) (hb : b ∈ blocks) (hs : b.state = .IN_USE) :
    Kept size blocks (free blocks b.offset) (· = b) := by
  have hf : b.state ≠ .FREE := by rw [hs]; decide
  obtain ⟨pre, post, rfl, hidx⟩ := getBlockByOffset_spec h hb hf
  obtain ⟨pre', f, post', heq, _, hk⟩ := kept_freeBlock (· = b) h hf rfl
  rw [free, hidx, heq]
  exact hk

/-- **`FreePendingToken` marks the block at the offset**, and nothing else. -/
theorem freePendingToken_spec (h : Consistent size blocks) (hb : b ∈ blocks)
    (hs : b.state = .IN_USE) (token : ℤ) :
    Consistent size (freePendingToken blocks b.offset token) ∧
      (⟨.FREE_PENDING_TOKEN, b.offset, b.size, token⟩ : Block) ∈
        freePendingToken blocks b.offset token ∧
      ∀ c ∈ used blocks, c ∈ used (freePendingToken blocks b.offset token) ∨ c = b := by
  have hf : b.state ≠ .FREE := by rw [hs]; decide
  have hpos := h.pos_of_used hb hf
  obtain ⟨pre, post, rfl, hidx⟩ := getBlockByOffset_spec h hb hf
  have heq : freePendingToken (pre ++ b :: post) b.offset token =
      pre ++ ⟨.FREE_PENDING_TOKEN, b.offset, b.size, token⟩ :: post := by
    unfold freePendingToken blockAt
    simp only [hidx, getD_cut, set_cut]
  rw [heq]
  refine ⟨⟨?_, ?_, .inl ?_⟩, mem_append_right _ mem_cons_self, fun c hc => ?_⟩
  · have ht : Tiles Block.offset Block.size 0 (pre ++ [b] ++ post) size := by simpa using h.tiles
    have := ht.replace [⟨.FREE_PENDING_TOKEN, b.offset, b.size, token⟩]
      fun x y hxy => hxy
    simpa using this
  · obtain ⟨hpre, hpost⟩ := noAdjacentFree_parts h.noAdjacentFree
    refine hpre.append (hpost.cons fun y _ hc => ?_) fun x _ y hy hc => ?_
    · cases hc.1
    · cases hy
      cases hc.2
  · obtain ⟨hposPre, hposPost⟩ := forall_mem_append.1 hpos
    obtain ⟨hposHere, hposPost⟩ := forall_mem_cons.1 hposPost
    exact forall_mem_append.2 ⟨hposPre, forall_mem_cons.2 ⟨hposHere, hposPost⟩⟩
  · rw [used_append, used_cons_of_not_free hf] at hc
    rw [used_append, used_cons_of_not_free (by exact fun hc => by cases hc)]
    rcases mem_append.1 hc with hc | hc
    · exact .inl (mem_append_left _ hc)
    · rcases mem_cons.1 hc with rfl | hc
      · exact .inr rfl
      · exact .inl (mem_append_right _ (mem_cons_of_mem _ hc))

/-! ### Runs -/

/-- The calls, with what they return and what they observe of the tokens. -/
inductive Label
  | alloc (size offset : ℕ) (waited : List ℤ)
  | free (offset : ℕ)
  | freePendingToken (offset size : ℕ) (token : ℤ)
  | freeUnused (lastTokenRead : ℤ)

/-- The allocator of a buffer of `size` bytes under any sequence of calls in which each
freed offset is the start of a block in use. -/
def fencedAllocator (size : ℕ) : TransSys (List Block) Label where
  init blocks := size < 4294967296 ∧ blocks = new size
  step blocks l blocks' :=
    match l with
    | .alloc n offset waited => n < 4294967296 ∧ alloc blocks n = ⟨blocks', offset, waited⟩
    | .free offset => ∃ b ∈ blocks, b.state = .IN_USE ∧ b.offset = offset ∧
        blocks' = free blocks offset
    | .freePendingToken offset size token => ∃ b ∈ blocks, b.state = .IN_USE ∧
        b.offset = offset ∧ b.size = size ∧ blocks' = freePendingToken blocks offset token
    | .freeUnused lastTokenRead => blocks' = freeUnused blocks lastTokenRead

/-- In the call the token was waited for, or it was observed that it has passed. -/
def Releases (l : Label) (token : ℤ) : Prop :=
  match l with
  | .alloc _ _ waited => token ∈ waited
  | .freeUnused lastTokenRead => token ≤ lastTokenRead
  | _ => False

/-- The region was freed pending the token, and no later call released the token. -/
def Outstanding (tr : List Label) (offset size : ℕ) (token : ℤ) : Prop :=
  ∃ tr₁ tr₂, tr = tr₁ ++ .freePendingToken offset size token :: tr₂ ∧ ∀ l ∈ tr₂, ¬ Releases l token

theorem outstanding_append {l : Label} {offset size : ℕ} {token : ℤ}
    (h : Outstanding (tr ++ [l]) offset size token) :
    l = .freePendingToken offset size token ∨ Outstanding tr offset size token ∧ ¬ Releases l token := by
  obtain ⟨tr₁, tr₂, heq, hno⟩ := h
  rcases List.eq_nil_or_concat tr₂ with rfl | ⟨tr₂, l', rfl⟩
  · exact .inl (by simpa using (List.append_inj' heq rfl).2)
  · rw [List.concat_eq_append] at heq hno
    have heq' : tr ++ [l] = (tr₁ ++ .freePendingToken offset size token :: tr₂) ++ [l'] := by
      simpa using heq
    obtain ⟨rfl, hl⟩ := List.append_inj' heq' rfl
    obtain rfl : l = l' := by simpa using hl
    exact .inr ⟨⟨tr₁, tr₂, rfl, fun l hl => hno l (mem_append_left _ hl)⟩,
      hno l (mem_append_right _ mem_cons_self)⟩

/-- The invariant of a run: the blocks are consistent, and every outstanding region
still is a block of its own that waits for its token. -/
structure RunInv (size : ℕ) (tr : List Label) (blocks : List Block) : Prop where
  consistent : Consistent size blocks
  outstanding : ∀ offset size token, Outstanding tr offset size token →
    (⟨.FREE_PENDING_TOKEN, offset, size, token⟩ : Block) ∈ blocks

theorem RunInv.step {blocks' : List Block} {l : Label}
    (h : RunInv size tr blocks) (hst : (fencedAllocator size).step blocks l blocks') :
    RunInv size (tr ++ [l]) blocks' := by
  have hpending : ∀ {offset size : ℕ} {token : ℤ}, Outstanding tr offset size token →
      (⟨.FREE_PENDING_TOKEN, offset, size, token⟩ : Block) ∈ used blocks :=
    fun ho => mem_used.2 ⟨h.outstanding _ _ _ ho, by simp⟩
  cases l with
  | alloc n offset waited =>
    obtain ⟨_, heq⟩ := hst
    have hspec := allocSpec_alloc h.consistent n
    rw [heq] at hspec
    refine ⟨hspec.consistent, fun o s t ho => ?_⟩
    rcases outstanding_append ho with hl | ⟨ho, hno⟩
    · cases hl
    · rcases hspec.kept _ (hpending ho) with hmem | ⟨_, hw⟩
      · exact (mem_used.1 hmem).1
      · exact absurd hw hno
  | free offset =>
    obtain ⟨b, hb, hs, rfl, rfl⟩ := hst
    have hk := kept_free h.consistent hb hs
    refine ⟨hk.consistent, fun o s t ho => ?_⟩
    rcases outstanding_append ho with hl | ⟨ho, _⟩
    · cases hl
    · rcases hk.kept _ (hpending ho) with hmem | rfl
      · exact (mem_used.1 hmem).1
      · cases hs
  | freePendingToken offset n token =>
    obtain ⟨b, hb, hs, rfl, rfl, rfl⟩ := hst
    obtain ⟨hc, hnew, hk⟩ := freePendingToken_spec h.consistent hb hs token
    refine ⟨hc, fun o s t ho => ?_⟩
    rcases outstanding_append ho with hl | ⟨ho, _⟩
    · cases hl
      exact hnew
    · rcases hk _ (hpending ho) with hmem | rfl
      · exact (mem_used.1 hmem).1
      · cases hs
  | freeUnused lastTokenRead =>
    obtain rfl := hst
    have hk : Kept size blocks (freeUnused blocks lastTokenRead) (TokenRead lastTokenRead) :=
      kept_freeUnusedFrom h.consistent
    refine ⟨hk.consistent, fun o s t ho => ?_⟩
    rcases outstanding_append ho with hl | ⟨ho, hno⟩
    · cases hl
    · rcases hk.kept _ (hpending ho) with hmem | ⟨_, ht⟩
      · exact (mem_used.1 hmem).1
      · exact absurd ht hno

theorem runInv_run (h : (fencedAllocator size).Run tr blocks) : RunInv size tr blocks := by
  refine h.traceInvariant (I := RunInv size) ?_ (fun _ _ _ _ hi hst => hi.step hst)
  rintro blocks ⟨_, rfl⟩
  refine ⟨consistent_new size, ?_⟩
  rintro o s t ⟨tr₁, tr₂, heq, _⟩
  simp at heq

/-- What an `Alloc` has to satisfy that returns `offset`: the region is a block in use
and lies in the buffer, the blocks that were in use still are and do not overlap
it, and neither does a region that is still outstanding. -/
structure AllocSafe (size : ℕ) (tr : List Label) (blocks : List Block) (n offset : ℕ)
    (waited : List ℤ) (blocks' : List Block) : Prop where
  inside : offset + max n 1 ≤ size
  block : ∃ b ∈ blocks', b.state = .IN_USE ∧ b.offset = offset ∧ b.size = max n 1
  inUse : ∀ c ∈ blocks, c.state = .IN_USE → c ∈ blocks' ∧ Apart c.offset c.size offset (max n 1)
  others : ∀ c ∈ blocks', c.state = .IN_USE → c ∈ blocks ∨ c.offset = offset ∧ c.size = max n 1
  outstanding : ∀ o s t, Outstanding (tr ++ [.alloc n offset waited]) o s t → Apart o s offset (max n 1)

/-- **An `Alloc` that returns an offset hands out a region that is free to use.** -/
theorem RunInv.allocSafe {blocks' : List Block} {offset : ℕ}
    {waited : List ℤ} (h : RunInv size tr blocks)
    (hst : (fencedAllocator size).step blocks (.alloc n offset waited) blocks')
    (hoffset : offset ≠ kInvalidOffset) :
    AllocSafe size tr blocks n offset waited blocks' := by
  have hafter := h.step hst
  obtain ⟨_, heq⟩ := hst
  have hspec := allocSpec_alloc h.consistent n
  rw [heq] at hspec
  obtain ⟨new, hnew, hstate, hnewOffset, hnewSize⟩ := hspec.result.resolve_left hoffset
  dsimp only at hnewOffset
  have htiles := hafter.consistent.tiles
  -- the new block is none of those that were in use before, because it was free then
  have hfresh : ∀ c ∈ blocks, c.state = .IN_USE → c ∈ blocks' ∧ c ≠ new := by
    intro c hc hs
    have hcu : c ∈ used blocks := mem_used.2 ⟨hc, by rw [hs]; decide⟩
    rcases hspec.kept c hcu with hmem | ⟨hp, _⟩
    · refine ⟨(mem_used.1 hmem).1, ?_⟩
      rintro rfl
      exact hspec.fresh.resolve_left hoffset c hc hs hnewOffset
    · rw [hs] at hp
      cases hp
  refine ⟨?_, ⟨new, hnew, hstate, hnewOffset, hnewSize⟩, fun c hc hs => ?_, fun c hc hs => ?_, fun o s t ho => ?_⟩
  · have := (htiles.mem hnew).2
    rw [hnewOffset, hnewSize] at this
    exact this
  · obtain ⟨hmem, hne⟩ := hfresh c hc hs
    have := htiles.apart hmem hnew hne
    rw [hnewOffset, hnewSize] at this
    exact ⟨hmem, this⟩
  · exact (hspec.old c (mem_used.2 ⟨hc, by rw [hs]; decide⟩)).imp
      (fun hmem => (mem_used.1 hmem).1) fun hc => hc.2
  · have hmem := hafter.outstanding o s t ho
    have hne : (⟨.FREE_PENDING_TOKEN, o, s, t⟩ : Block) ≠ new := by
      rintro rfl
      cases hstate
    have := htiles.apart hmem hnew hne
    rw [hnewOffset, hnewSize] at this
    exact this

/-- A block waits for its token. -/
theorem run_pending : (fencedAllocator 16).Run [.alloc 4 0 [], .freePendingToken 0 4 7]
    [⟨.FREE_PENDING_TOKEN, 0, 4, 7⟩, ⟨.FREE, 4, 12, 0⟩] := by
  have h0 : (fencedAllocator 16).Run [] (new 16) := .init ⟨by decide, rfl⟩
  have h1 : (fencedAllocator 16).Run [.alloc 4 0 []] [⟨.IN_USE, 0, 4, 0⟩, ⟨.FREE, 4, 12, 0⟩] :=
    h0.step (l := Label.alloc 4 0 []) ⟨by decide, rfl⟩
  exact h1.step (l := Label.freePendingToken 0 4 7) ⟨⟨.IN_USE, 0, 4, 0⟩, mem_cons_self, rfl, rfl, rfl, rfl⟩

/-- **The fenced allocator.**  In every run the blocks tile the buffer in order, no two
neighbours are free and no block is empty, except for the only block of a buffer of size
zero.  Every `Alloc` that returns an offset hands out at least one byte that neither a
block in use nor an outstanding region covers. -/
theorem fencedAllocator_run {tr : List Label} (h : (fencedAllocator size).Run tr blocks) :
    Consistent size blocks ∧
      ∀ n offset waited blocks', (fencedAllocator size).step blocks (.alloc n offset waited) blocks' →
        offset ≠ kInvalidOffset → AllocSafe size tr blocks n offset waited blocks' :=
  ⟨(runInv_run h).consistent, fun _ _ _ _ hst => (runInv_run h).allocSafe hst⟩

theorem fencedAllocator_run_four : AllocSafe 16 [.alloc 4 0 [], .freePendingToken 0 4 7]
      [⟨.FREE_PENDING_TOKEN, 0, 4, 7⟩, ⟨.FREE, 4, 12, 0⟩] 8 4 []
      [⟨.FREE_PENDING_TOKEN, 0, 4, 7⟩, ⟨.IN_USE, 4, 8, 0⟩, ⟨.FREE, 12, 4, 0⟩] := by
  exact (fencedAllocator_run run_pending).2 8 4 [] _ ⟨by decide, rfl⟩ (by decide)

/-- **A buffer of size zero starts with an empty block.** -/
theorem new_zero_empty : ¬ ∀ (size : ℕ) (tr : List Label) (blocks : List Block),
      (fencedAllocator size).Run tr blocks → ∀ b ∈ blocks, 0 < b.size := by
  intro h
  have := h 0 [] (new 0) (.init ⟨by decide, rfl⟩) ⟨.FREE, 0, 0, kUnusedToken⟩ List.mem_cons_self
  exact absurd this (by decide)

end FencedAllocator

end Chromium.Gpu
