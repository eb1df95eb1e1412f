import Chromium.Lib.Tiling

/-!
# Lists of blocks that tile a stretch of a ring

The points of a ring of `size` points are `0, …, size - 1`, and behind the last
one comes `0`.  `RingTiles off len size lo bs hi` says that the blocks `bs` lie
one after the other around the ring, that the first one starts at `lo` and that
`hi` is the point behind the last one.  No block is empty, and no block crosses
the end of the ring.

As long as the blocks have at most `size` points together, they do not overlap
(`RingTiles.apart`), and `hi` is `lo` plus that number (`RingTiles.position`).
-/

namespace Lib

universe u

variable {β : Type u} (off len : β → ℕ) (size : ℕ)

/-- The point behind the point `x - 1`. -/
def ringWrap (x : ℕ) : ℕ := if x = size then 0 else x

/-- The blocks lie one after the other around the ring from `lo` to `hi`. -/
def RingTiles : ℕ → List β → ℕ → Prop
  | lo, [], hi => lo = hi
  | lo, b :: bs, hi => off b = lo ∧ 0 < len b ∧ lo + len b ≤ size ∧
      RingTiles (ringWrap size (lo + len b)) bs hi

def total (bs : List β) : ℕ := (bs.map len).sum

variable {off len size}

@[simp] theorem total_nil : total len ([] : List β) = 0 := rfl

@[simp] theorem total_cons (b : β) (bs : List β) : total len (b :: bs) = len b + total len bs := by
  simp [total]

@[simp] theorem total_append (l₁ l₂ : List β) : total len (l₁ ++ l₂) = total len l₁ + total len l₂ := by
  simp [total]

theorem ringWrap_cases {x : ℕ} (h : x ≤ size) :
    x < size ∧ ringWrap size x = x ∨ x = size ∧ ringWrap size x = 0 := by
  unfold ringWrap
  split_ifs with hx
  · exact .inr ⟨hx, rfl⟩
  · exact .inl ⟨by omega, rfl⟩

theorem ringTiles_append {l₁ l₂ : List β} {lo hi : ℕ} : RingTiles off len size lo (l₁ ++ l₂) hi ↔
      ∃ mid, RingTiles off len size lo l₁ mid ∧ RingTiles off len size mid l₂ hi := by
  induction l₁ generalizing lo with
  | nil => simp [RingTiles]
  | cons b bs ih =>
    simp only [List.cons_append, RingTiles, ih]
    constructor
    · rintro ⟨hb, hpos, hle, mid, h₁, h₂⟩
      exact ⟨mid, ⟨hb, hpos, hle, h₁⟩, h₂⟩
    · rintro ⟨mid, ⟨hb, hpos, hle, h₁⟩, h₂⟩
      exact ⟨hb, hpos, hle, mid, h₁, h₂⟩

theorem RingTiles.concat {l : List β} {lo hi : ℕ} {b : β} (h : RingTiles off len size lo l hi)
    (hb : off b = hi) (hpos : 0 < len b) (hle : hi + len b ≤ size) :
    RingTiles off len size lo (l ++ [b]) (ringWrap size (hi + len b)) :=
  ringTiles_append.2 ⟨hi, h, hb, hpos, hle, rfl⟩

/-- **Where the tiling ends.**  It goes around the ring at most once. -/
theorem RingTiles.position {l : List β} {lo hi : ℕ} (h : RingTiles off len size lo l hi)
    (hlo : lo < size) (ht : total len l ≤ size) :
    hi < size ∧ (lo + total len l = hi ∨ lo + total len l = hi + size) := by
  induction l generalizing lo with
  | nil =>
    obtain rfl : lo = hi := h
    exact ⟨hlo, .inl rfl⟩
  | cons b bs ih =>
    obtain ⟨_, hpos, hle, h⟩ := h
    rw [total_cons] at ht ⊢
    rcases ringWrap_cases hle with ⟨hlt, heq⟩ | ⟨hlt, heq⟩
    · rw [heq] at h
      have := ih h hlt (by omega)
      omega
    · rw [heq] at h
      have := ih h (by omega) (by omega)
      omega

theorem RingTiles.mem {l : List β} {lo hi : ℕ} (h : RingTiles off len size lo l hi) {b : β}
    (hb : b ∈ l) : 0 < len b ∧ off b + len b ≤ size := by
  obtain ⟨pre, post, rfl⟩ := List.append_of_mem hb
  obtain ⟨mid, _, hoff, hpos, hle, _⟩ := ringTiles_append.1 h
  rw [hoff]
  exact ⟨hpos, hle⟩

/-- **Two blocks of a tiling that goes around the ring at most once do not overlap.** -/
theorem RingTiles.pairwise {l : List β} {lo hi : ℕ} (h : RingTiles off len size lo l hi)
    (ht : total len l ≤ size) :
    l.Pairwise fun a b => Apart (off a) (len a) (off b) (len b) := by
  induction l generalizing lo with
  | nil => exact .nil
  | cons a bs ih =>
    have hall := h
    obtain ⟨hoff, hpos, hle, h⟩ := h
    rw [total_cons] at ht
    refine .cons (fun b hb => ?_) (ih h (by omega))
    obtain ⟨pre, post, rfl⟩ := List.append_of_mem hb
    rw [← List.cons_append] at hall
    obtain ⟨mid, hpre, hmid, hmpos, hmle, _⟩ := ringTiles_append.1 hall
    simp only [total_append, total_cons] at ht
    have := (hpre.position (by omega) (by rw [total_cons]; omega)).2
    rw [total_cons] at this
    unfold Apart
    omega

end Lib
