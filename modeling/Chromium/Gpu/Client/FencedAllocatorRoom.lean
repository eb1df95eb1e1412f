import Chromium.Gpu.Client.FencedAllocator

/-!
# When the fenced allocator has room

`GetLargestFreeOrPendingSize` sums up the blocks between those in use.  Freeing a block that is not in use and merging it
with its free neighbours leaves that number as it is (`freeBlock_largestFrom`), and when no block is pending any more, it is
the size of one free block (`largestFrom_lt`).  So the second loop of `Alloc` finds room exactly if the number says so.
-/

namespace Chromium.Gpu

open Lib

namespace FencedAllocator

/-- The loop of `GetLargestFreeOrPendingSize`, with `max_size` and `current_size`. -/
def largestFrom (maxSize currentSize : ℕ) : List Block → ℕ
  | [] => max maxSize currentSize
  | b :: blocks =>
    if b.state = .IN_USE then largestFrom (max maxSize currentSize) 0 blocks
    else largestFrom maxSize (currentSize + b.size) blocks

def getLargestFreeOrPendingSize (blocks : List Block) : ℕ := largestFrom 0 0 blocks

variable {size n : ℕ} {blocks pre post : List Block} {a b : Block}

/-! ### The largest segment -/

theorem largestFrom_cons_of_inUse (h : b.state = .IN_USE) (m c : ℕ) :
    largestFrom m c (b :: blocks) = largestFrom (max m c) 0 blocks := if_pos h

theorem largestFrom_cons_of_not_inUse (h : b.state ≠ .IN_USE) (m c : ℕ) :
    largestFrom m c (b :: blocks) = largestFrom m (c + b.size) blocks := if_neg h

theorem largestFrom_append {l l' : List Block} (h : ∀ m c, largestFrom m c l = largestFrom m c l') (m c : ℕ) :
    largestFrom m c (pre ++ l) = largestFrom m c (pre ++ l') := by
  induction pre generalizing m c with
  | nil => exact h m c
  | cons b pre ih =>
    rw [List.cons_append, List.cons_append, largestFrom, largestFrom]
    split <;> exact ih _ _

theorem max_le_largestFrom (m c : ℕ) : max m c ≤ largestFrom m c blocks := by
  induction blocks generalizing m c with
  | nil => exact le_rfl
  | cons b blocks ih =>
    rw [largestFrom]
    split
    · exact (le_max_left _ _).trans (ih _ _)
    · exact (max_le_max le_rfl (Nat.le_add_right _ _)).trans (ih _ _)

theorem size_le_largestFrom (hb : b ∈ blocks) (hs : b.state ≠ .IN_USE) (m c : ℕ) : b.size ≤ largestFrom m c blocks := by
  induction blocks generalizing m c with
  | nil => cases hb
  | cons x blocks ih =>
    rcases List.mem_cons.1 hb with rfl | hb
    · rw [largestFrom_cons_of_not_inUse hs]
      exact (Nat.le_add_left _ _).trans ((le_max_right _ _).trans (max_le_largestFrom _ _))
    · rw [largestFrom]
      split <;> exact ih hb _ _

theorem largestFrom_pair (ha : a.state ≠ .IN_USE) (hb : b.state ≠ .IN_USE) (m c : ℕ) :
    largestFrom m c (({ a with size := a.size + b.size } : Block) :: post) = largestFrom m c (a :: b :: post) := by
  rw [largestFrom_cons_of_not_inUse ha, largestFrom_cons_of_not_inUse hb, largestFrom_cons_of_not_inUse, Nat.add_assoc]
  exact ha

/-- **If no block is pending and the free blocks are small, so is every segment**: it is one block, since two free blocks
are never neighbours. -/
theorem largestFrom_lt (hadj : NoAdjacentFree blocks) (hpending : ∀ b ∈ blocks, b.state ≠ .FREE_PENDING_TOKEN)
    (hfree : ∀ b ∈ blocks, b.state = .FREE → b.size < n) {m c : ℕ} (hm : m < n) (hc : c < n)
    (hhead : c = 0 ∨ ∀ b ∈ blocks.head?, b.state ≠ .FREE) : largestFrom m c blocks < n := by
  induction blocks generalizing m c with
  | nil => exact max_lt hm hc
  | cons b blocks ih =>
    obtain ⟨hnext, htail⟩ := List.isChain_cons.1 hadj
    have ih := @ih htail (fun x hx => hpending x (List.mem_cons_of_mem _ hx))
      (fun x hx => hfree x (List.mem_cons_of_mem _ hx))
    by_cases hs : b.state = .IN_USE
    · rw [largestFrom_cons_of_inUse hs]
      exact ih (max_lt hm hc) (Nat.zero_lt_of_lt hm) (.inl rfl)
    · have hf : b.state = .FREE := by
        have := hpending b List.mem_cons_self
        cases hb : b.state with
        | IN_USE => exact absurd hb hs
        | FREE => rfl
        | FREE_PENDING_TOKEN => exact absurd hb this
      obtain rfl : c = 0 := hhead.resolve_right fun h => h b rfl hf
      rw [largestFrom_cons_of_not_inUse hs, Nat.zero_add]
      exact ih hm (hfree b List.mem_cons_self hf) (.inr fun x hx hxf => hnext x hx ⟨hf, hxf⟩)

/-! ### Freeing a block -/

theorem collapseNext_largestFrom (pre post : List Block) (hb : b.state = .FREE) :
    ∃ b₁ post₁, collapseNext (pre ++ b :: post) pre.length = pre ++ b₁ :: post₁ ∧ b₁.state = .FREE ∧ post₁ <:+ post ∧
      ∀ m c, largestFrom m c (pre ++ b₁ :: post₁) = largestFrom m c (pre ++ b :: post) := by
  obtain ⟨b₁, post₁, heq, hm, -⟩ := collapseNext_cut pre post hb
  refine ⟨b₁, post₁, heq, hm.state, ?_⟩
  cases post with
  | nil =>
    rw [collapseNext_last] at heq
    obtain ⟨rfl, rfl⟩ := List.cons.inj (List.append_cancel_left heq)
    exact ⟨List.suffix_refl _, fun _ _ => rfl⟩
  | cons next post =>
    rw [collapseNext_cons] at heq
    by_cases hn : next.state = .FREE
    · rw [if_pos hn] at heq
      obtain ⟨rfl, rfl⟩ := List.cons.inj (List.append_cancel_left heq)
      exact ⟨List.suffix_cons _ _, largestFrom_append (largestFrom_pair (by rw [hb]; decide) (by rw [hn]; decide))⟩
    · rw [if_neg hn] at heq
      obtain ⟨rfl, rfl⟩ := List.cons.inj (List.append_cancel_left heq)
      exact ⟨List.suffix_refl _, fun _ _ => rfl⟩

theorem collapsePrev_largestFrom (pre post : List Block) (hb : b.state = .FREE) :
    ∃ pre₁ b₁, collapsePrev (pre ++ b :: post) pre.length = (pre₁ ++ b₁ :: post, pre₁.length) ∧ b₁.state = .FREE ∧
      pre₁ <+: pre ∧ ∀ m c, largestFrom m c (pre₁ ++ b₁ :: post) = largestFrom m c (pre ++ b :: post) := by
  rcases List.eq_nil_or_concat pre with rfl | ⟨pre, prev, rfl⟩
  · exact ⟨[], b, collapsePrev_first b post, hb, List.prefix_refl _, fun _ _ => rfl⟩
  · have hcut : pre.concat prev ++ b :: post = pre ++ prev :: b :: post := by simp
    have hlen : (pre.concat prev).length = pre.length + 1 := by simp
    rw [hcut, hlen, collapsePrev_cons]
    by_cases hp : prev.state = .FREE
    · refine ⟨pre, { prev with size := prev.size + b.size }, if_pos hp, hp, ?_,
        largestFrom_append (largestFrom_pair (by rw [hp]; decide) (by rw [hb]; decide))⟩
      rw [List.concat_eq_append]
      exact List.prefix_append _ _
    · refine ⟨pre.concat prev, b, ?_, hb, List.prefix_refl _, fun _ _ => by rw [hcut]⟩
      rw [if_neg hp, hcut, hlen]

/-- **Freeing a block that is not in use keeps the largest segment.**  The blocks around the free one were there before. -/
theorem freeBlock_largestFrom (pre post : List Block) (hb : b.state ≠ .IN_USE) :
    ∃ pre' f post', freeBlock (pre ++ b :: post) pre.length = (pre' ++ f :: post', pre'.length) ∧ f.state = .FREE ∧
      pre' <+: pre ∧ post' <:+ post ∧
      ∀ m c, largestFrom m c (pre' ++ f :: post') = largestFrom m c (pre ++ b :: post) := by
  obtain ⟨b₁, post₁, h₁, hf₁, hpost, hl₁⟩ := collapseNext_largestFrom pre post (b := { b with state := .FREE }) rfl
  obtain ⟨pre₁, f, h₂, hf, hpre, hl₂⟩ := collapsePrev_largestFrom pre post₁ hf₁
  refine ⟨pre₁, f, post₁, ?_, hf, hpre, hpost, fun m c => ?_⟩
  · unfold freeBlock collapseFreeBlock
    rw [blockAt_cut, set_cut, h₁, h₂]
  · calc largestFrom m c (pre₁ ++ f :: post₁) = largestFrom m c (pre ++ b₁ :: post₁) := hl₂ m c
      _ = largestFrom m c (pre ++ ({ b with state := .FREE } : Block) :: post) := hl₁ m c
      _ = largestFrom m c (pre ++ b :: post) := largestFrom_append (fun m c => by
          rw [largestFrom_cons_of_not_inUse hb, largestFrom_cons_of_not_inUse (show BlockState.FREE ≠ .IN_USE by decide)]) m c

theorem Consistent.freeBlock_largestFrom (h : Consistent size (pre ++ b :: post)) (hb : b.state = .FREE_PENDING_TOKEN) :
    ∃ pre' f post', freeBlock (pre ++ b :: post) pre.length = (pre' ++ f :: post', pre'.length) ∧ f.state = .FREE ∧
      Consistent size (pre' ++ f :: post') ∧ pre' <+: pre ∧ post' <:+ post ∧
      getLargestFreeOrPendingSize (pre' ++ f :: post') = getLargestFreeOrPendingSize (pre ++ b :: post) := by
  obtain ⟨pre', f, post', heq, hf, hpre, hpost, hl⟩ :=
    FencedAllocator.freeBlock_largestFrom pre post (b := b) (by rw [hb]; decide)
  obtain ⟨pre₁, f₁, post₁, heq₁, -, hc, -⟩ := freeBlock_spec h (by rw [hb]; decide)
  refine ⟨pre', f, post', heq, hf, ?_, hpre, hpost, hl 0 0⟩
  have hsame : (pre' ++ f :: post', pre'.length) = (pre₁ ++ f₁ :: post₁, pre₁.length) := heq.symm.trans heq₁
  rw [(Prod.mk.inj hsame).1]
  exact hc

/-! ### `Alloc` -/

theorem Consistent.offset_ne_invalid (h : Consistent size blocks) (hsize : size < 4294967296) (hb : b ∈ blocks)
    (hn : 0 < n) (hle : n ≤ b.size) : b.offset ≠ kInvalidOffset := by
  have hend := (h.tiles.mem hb).2
  unfold kInvalidOffset
  omega

theorem allocInBlock_offset (blocks : List Block) (index n : ℕ) :
    (allocInBlock blocks index n).2 = (blockAt blocks index).offset := by
  dsimp only [allocInBlock]
  split_ifs <;> rfl

/-- **The second loop of `Alloc` finds room exactly if there is a large segment**, when the blocks before the index are not
pending and the free blocks are all too small. -/
theorem allocPending_iff (hsize : size < 4294967296) (hn : 0 < n) {blocks : List Block} {index : ℕ}
    (h : Consistent size blocks) (hbefore : ∀ b ∈ blocks.take index, b.state ≠ .FREE_PENDING_TOKEN)
    (hsmall : ∀ b ∈ blocks, b.state = .FREE → b.size < n) :
    (allocPending n blocks index).offset ≠ kInvalidOffset ↔ n ≤ getLargestFreeOrPendingSize blocks := by
  induction blocks, index using allocPending.induct n with
  | case1 blocks index hlt hs ih =>
    rw [allocPending, dif_pos hlt, if_pos hs]
    refine ih h (fun b hb => ?_) hsmall
    obtain ⟨pre, x, post, rfl, rfl⟩ := exists_cut hlt
    rw [blockAt_cut] at hs
    rw [List.take_left] at hbefore
    rw [List.append_cons, List.take_left' (by simp)] at hb
    rcases List.mem_append.1 hb with hb | hb
    · exact hbefore b hb
    · rwa [List.mem_singleton.1 hb]
  | case2 blocks index hlt hs freed hle =>
    obtain ⟨pre, b, post, rfl, rfl⟩ := exists_cut hlt
    rw [blockAt_cut, not_not] at hs
    obtain ⟨pre', f, post', heq, hf, hc, -, -, hl⟩ := h.freeBlock_largestFrom hs
    simp only [freed, heq, blockAt_cut] at hle
    rw [allocPending_cut hs heq, if_pos hle, allocInBlock_offset, blockAt_cut, ← hl]
    have hmem : f ∈ pre' ++ f :: post' := List.mem_append_right _ List.mem_cons_self
    exact iff_of_true (hc.offset_ne_invalid hsize hmem hn hle)
      (hle.trans (size_le_largestFrom hmem (by rw [hf]; decide) 0 0))
  | case3 blocks index hlt hs freed hle ih =>
    obtain ⟨pre, b, post, rfl, rfl⟩ := exists_cut hlt
    rw [blockAt_cut, not_not] at hs
    obtain ⟨pre', f, post', heq, hf, hc, hpre, hpost, hl⟩ := h.freeBlock_largestFrom hs
    simp only [freed, heq, blockAt_cut] at hle ih
    rw [allocPending_cut hs heq, if_neg hle, ← hl]
    refine ih hc (fun x hx => ?_) fun x hx hxf => ?_
    · rw [List.take_left] at hbefore
      rw [List.append_cons, List.take_left' (by simp)] at hx
      rcases List.mem_append.1 hx with hx | hx
      · exact hbefore x (hpre.subset hx)
      · rw [List.mem_singleton.1 hx, hf]
        decide
    · rcases List.mem_append.1 hx with hx | hx
      · exact hsmall x (List.mem_append_left _ (hpre.subset hx)) hxf
      · rcases List.mem_cons.1 hx with rfl | hx
        · exact not_le.1 hle
        · exact hsmall x (List.mem_append_right _ (List.mem_cons_of_mem _ (hpost.subset hx))) hxf
  | case4 blocks index hlt =>
    rw [allocPending, dif_neg hlt]
    refine iff_of_false (not_not_intro rfl) (not_le.2 ?_)
    rw [List.take_of_length_le (not_lt.1 hlt)] at hbefore
    exact largestFrom_lt h.noAdjacentFree hbefore hsmall hn hn (.inl rfl)

/-- **`Alloc` finds room exactly if there is a large segment.** -/
theorem Consistent.alloc_iff (h : Consistent size blocks) (hsize : size < 4294967296) (n : ℕ) :
    (alloc blocks n).offset ≠ kInvalidOffset ↔ max n 1 ≤ getLargestFreeOrPendingSize blocks := by
  rcases alloc_cases blocks n with ⟨pre, f, post, rfl, hf, hle, heq⟩ | ⟨hsmall, heq⟩
  · have hmem : f ∈ pre ++ f :: post := List.mem_append_right _ List.mem_cons_self
    rw [heq, allocInBlock_offset, blockAt_cut]
    exact iff_of_true (h.offset_ne_invalid hsize hmem (by omega) hle)
      (hle.trans (size_le_largestFrom hmem (by rw [hf]; decide) 0 0))
  · rw [heq]
    exact allocPending_iff hsize (by omega) h (by simp) hsmall

theorem fencedAllocator_size_lt {tr : List Label} (h : (fencedAllocator size).Run tr blocks) : size < 4294967296 := by
  refine h.invariant (I := fun _ => size < 4294967296) ?_ fun _ _ _ hi _ => hi
  rintro blocks ⟨hsize, rfl⟩
  exact hsize

/-- **In every reachable state `Alloc` returns an offset exactly if some segment of free and pending blocks is large
enough.** -/
theorem fencedAllocator_alloc_iff {tr : List Label} (h : (fencedAllocator size).Run tr blocks) (n : ℕ) :
    (alloc blocks n).offset ≠ kInvalidOffset ↔ max n 1 ≤ getLargestFreeOrPendingSize blocks :=
  (runInv_run h).consistent.alloc_iff (fencedAllocator_size_lt h) n

theorem fencedAllocator_alloc_sixteen :
    (alloc [⟨.FREE_PENDING_TOKEN, 0, 4, 7⟩, ⟨.FREE, 4, 12, 0⟩] 16).offset ≠ kInvalidOffset ↔
      max 16 1 ≤ getLargestFreeOrPendingSize [⟨.FREE_PENDING_TOKEN, 0, 4, 7⟩, ⟨.FREE, 4, 12, 0⟩] := by
  exact fencedAllocator_alloc_iff run_pending 16

/-! ### Room that is free already -/

def getLargestFreeSize (blocks : List Block) : ℕ :=
  blocks.foldl (fun maxSize b => if b.state = .FREE then max maxSize b.size else maxSize) 0

theorem le_foldl_max (m : ℕ) :
    n ≤ blocks.foldl (fun maxSize b => if b.state = .FREE then max maxSize b.size else maxSize) m ↔
      n ≤ m ∨ ∃ b ∈ blocks, b.state = .FREE ∧ n ≤ b.size := by
  induction blocks generalizing m with
  | nil => simp
  | cons b blocks ih =>
    rw [List.foldl_cons, ih]
    by_cases hf : b.state = .FREE
    · simp [hf, or_assoc]
    · simp [hf]

/-- What is found among the pending blocks was waited for. -/
theorem allocPending_waited {blocks : List Block} {index : ℕ} (h : (allocPending n blocks index).waited = []) :
    (allocPending n blocks index).offset = kInvalidOffset := by
  induction blocks, index using allocPending.induct n with
  | case1 blocks index hlt hs ih =>
    rw [allocPending, dif_pos hlt, if_pos hs] at h ⊢
    exact ih h
  | case2 blocks index hlt hs freed hle =>
    rw [allocPending, dif_pos hlt, if_neg hs, if_pos hle] at h
    cases h
  | case3 blocks index hlt hs freed hle ih =>
    rw [allocPending, dif_pos hlt, if_neg hs, if_neg hle] at h
    cases h
  | case4 blocks index hlt => rw [allocPending, dif_neg hlt]

/-- **In every reachable state `Alloc` finds room without waiting for a token exactly if `GetLargestFreeSize` says so.** -/
theorem fencedAllocator_allocAtOnce_iff {tr : List Label} (h : (fencedAllocator size).Run tr blocks) (n : ℕ) :
    (alloc blocks n).offset ≠ kInvalidOffset ∧ (alloc blocks n).waited = [] ↔ max n 1 ≤ getLargestFreeSize blocks := by
  have hsize := fencedAllocator_size_lt h
  have hc := (runInv_run h).consistent
  unfold getLargestFreeSize
  rw [le_foldl_max, or_iff_right (by omega)]
  rcases alloc_cases blocks n with ⟨pre, f, post, rfl, hf, hle, heq⟩ | ⟨hsmall, heq⟩
  · have hmem : f ∈ pre ++ f :: post := List.mem_append_right _ List.mem_cons_self
    rw [heq, allocInBlock_offset, blockAt_cut]
    exact iff_of_true ⟨hc.offset_ne_invalid hsize hmem (by omega) hle, rfl⟩ ⟨f, hmem, hf, hle⟩
  · rw [heq]
    apply iff_of_false
    · intro h
      exact h.1 (allocPending_waited h.2)
    · rintro ⟨b, hb, hf, hle⟩
      exact absurd hle (not_le.2 (hsmall b hb hf))

theorem fencedAllocator_allocAtOnce_twelve :
    (alloc [⟨.FREE_PENDING_TOKEN, 0, 4, 7⟩, ⟨.FREE, 4, 12, 0⟩] 12).offset ≠ kInvalidOffset ∧
      (alloc [⟨.FREE_PENDING_TOKEN, 0, 4, 7⟩, ⟨.FREE, 4, 12, 0⟩] 12).waited = [] :=
  (fencedAllocator_allocAtOnce_iff run_pending 12).2 (by decide)

end FencedAllocator

end Chromium.Gpu
