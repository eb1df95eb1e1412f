import Mathlib.Data.List.Basic
import Mathlib.Tactic.Ring

/-!
# Lists of blocks that tile an interval

A block is anything with an offset and a length, given by two functions
`off len : β → ℕ`.  `Tiles off len lo bs hi` says that the blocks `bs` lie one
after the other from `lo` to `hi`, with no gap and no overlap.

`tiles_append` cuts a tiling at a block, `Tiles.replace` exchanges a stretch of
blocks for another tiling of the same stretch (a split, a merge or a relabelling
of blocks is one), and `Tiles.disjoint` says that two different blocks share no
point.
-/

namespace Lib

universe u

variable {β : Type u} (off len : β → ℕ)

/-- The point `x` lies in the block `b`. -/
def Covers (b : β) (x : ℕ) : Prop := off b ≤ x ∧ x < off b + len b

/-- The blocks lie one after the other from `lo` to `hi`. -/
def Tiles : ℕ → List β → ℕ → Prop
  | lo, [], hi => lo = hi
  | lo, b :: bs, hi => off b = lo ∧ Tiles (lo + len b) bs hi

variable {off len}

@[simp] theorem tiles_nil {lo hi : ℕ} : Tiles off len lo [] hi ↔ lo = hi := Iff.rfl

@[simp] theorem tiles_cons {lo hi : ℕ} {b : β} {bs : List β} :
    Tiles off len lo (b :: bs) hi ↔ off b = lo ∧ Tiles off len (lo + len b) bs hi := Iff.rfl

theorem tiles_append {l₁ l₂ : List β} {lo hi : ℕ} :
    Tiles off len lo (l₁ ++ l₂) hi ↔ ∃ mid, Tiles off len lo l₁ mid ∧ Tiles off len mid l₂ hi := by
  induction l₁ generalizing lo with
  | nil => simp
  | cons b bs ih =>
    simp only [List.cons_append, tiles_cons, ih]
    constructor
    · rintro ⟨hb, mid, h₁, h₂⟩
      exact ⟨mid, ⟨hb, h₁⟩, h₂⟩
    · rintro ⟨mid, ⟨hb, h₁⟩, h₂⟩
      exact ⟨hb, mid, h₁, h₂⟩

theorem Tiles.le {l : List β} {lo hi : ℕ} (h : Tiles off len lo l hi) : lo ≤ hi := by
  induction l generalizing lo with
  | nil => exact Nat.le_of_eq h
  | cons b bs ih =>
    have := ih h.2
    omega

theorem Tiles.mem {l : List β} {lo hi : ℕ} (h : Tiles off len lo l hi) {b : β} (hb : b ∈ l) :
    lo ≤ off b ∧ off b + len b ≤ hi := by
  induction l generalizing lo with
  | nil => simp at hb
  | cons a bs ih =>
    rcases List.mem_cons.1 hb with rfl | hb
    · have := h.2.le
      have := h.1
      omega
    · have := ih h.2 hb
      omega

/-- **Replacing a stretch of blocks by another tiling of it keeps the tiling.** -/
theorem Tiles.replace {pre ms post : List β} {lo hi : ℕ} (ms' : List β)
    (h : Tiles off len lo (pre ++ ms ++ post) hi)
    (hms : ∀ a c, Tiles off len a ms c → Tiles off len a ms' c) :
    Tiles off len lo (pre ++ ms' ++ post) hi := by
  rw [List.append_assoc, tiles_append] at h ⊢
  obtain ⟨a, hpre, h⟩ := h
  rw [tiles_append] at h
  obtain ⟨c, hmid, hpost⟩ := h
  exact ⟨a, hpre, tiles_append.2 ⟨c, hms a c hmid, hpost⟩⟩

theorem Tiles.exists_covers {l : List β} {lo hi x : ℕ} (h : Tiles off len lo l hi) (hlo : lo ≤ x)
    (hhi : x < hi) : ∃ b ∈ l, Covers off len b x := by
  induction l generalizing lo with
  | nil =>
    have : lo = hi := h
    omega
  | cons b bs ih =>
    obtain ⟨hb, h⟩ := h
    by_cases hx : x < lo + len b
    · exact ⟨b, List.mem_cons_self .., by unfold Covers; omega⟩
    · obtain ⟨c, hc, hcx⟩ := ih h (by omega)
      exact ⟨c, List.mem_cons_of_mem _ hc, hcx⟩

theorem Tiles.pairwise {l : List β} {lo hi : ℕ} (h : Tiles off len lo l hi) :
    l.Pairwise (fun a b => off a + len a ≤ off b) := by
  induction l generalizing lo with
  | nil => exact .nil
  | cons b bs ih =>
    refine .cons (fun c hc => ?_) (ih h.2)
    have := (h.2.mem hc).1
    have := h.1
    omega

/-- The stretches `[o₁, o₁ + n₁)` and `[o₂, o₂ + n₂)` do not overlap. -/
def Apart (o₁ n₁ o₂ n₂ : ℕ) : Prop := o₁ + n₁ ≤ o₂ ∨ o₂ + n₂ ≤ o₁

theorem Tiles.apart {l : List β} {lo hi : ℕ} (h : Tiles off len lo l hi) {a b : β} (ha : a ∈ l)
    (hb : b ∈ l) (hne : a ≠ b) : Apart (off a) (len a) (off b) (len b) := by
  induction l generalizing lo with
  | nil => cases ha
  | cons c bs ih =>
    have hc := List.pairwise_cons.1 h.pairwise
    rcases List.mem_cons.1 ha with rfl | ha' <;> rcases List.mem_cons.1 hb with rfl | hb'
    · exact absurd rfl hne
    · exact .inl (hc.1 b hb')
    · exact .inr (hc.1 a ha')
    · exact ih h.2 ha' hb'

end Lib
