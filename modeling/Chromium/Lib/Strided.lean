import Mathlib.Tactic.Ring

/-!
# Elements at a fixed stride

In `n` bytes the element `i` takes the bytes from `i * stride` to
`i * stride + len`.  `stridedCount` counts the whole strides, and one element more
when the rest is long enough for it.  That is the number of the elements that fit
exactly under the condition of `stridedCount_right_iff`; an element longer than the
stride is what it may get wrong.
-/

namespace Lib

/-- The whole strides in `n` bytes, and one more when an element fits in the rest. -/
def stridedCount (n stride len : ℕ) : ℕ := n / stride + if len ≤ n % stride then 1 else 0

theorem stridedCount_le {n stride len : ℕ} (hs : 0 < stride) (hl : 0 < len) :
    stridedCount n stride len ≤ n := by
  have hdiv := Nat.div_add_mod n stride
  have hmul : n / stride ≤ stride * (n / stride) := Nat.le_mul_of_pos_left _ hs
  unfold stridedCount
  split_ifs <;> omega

theorem stridedCount_mul_le (n stride len : ℕ) : stridedCount n stride len * stride ≤ n + stride := by
  have hdiv := Nat.div_mul_le_self n stride
  unfold stridedCount
  split_ifs
  · rw [Nat.add_mul]
    omega
  · rw [Nat.add_zero]
    omega

/-- **`stridedCount` counts the elements that fit** when no element is longer than the
stride, or less than one stride is there, or what an element exceeds the stride by fits
in the rest. -/
theorem lt_stridedCount_iff {n stride len : ℕ} (hs : 0 < stride)
    (h : len ≤ stride ∨ n < stride ∨ len ≤ stride + n % stride) (i : ℕ) :
    i < stridedCount n stride len ↔ i * stride + len ≤ n := by
  have hdiv : n / stride * stride + n % stride = n := Nat.div_add_mod' n stride
  have hmod := Nat.mod_lt n hs
  unfold stridedCount
  rcases Nat.lt_trichotomy i (n / stride) with hi | hi | hi
  · have hmul : (i + 1) * stride ≤ n / stride * stride := Nat.mul_le_mul_right _ hi
    have hn : ¬ n < stride := by
      intro hn
      rw [Nat.div_eq_of_lt hn] at hi
      omega
    rw [Nat.add_mul, Nat.one_mul] at hmul
    have hlhs : i < n / stride + if len ≤ n % stride then 1 else 0 := by omega
    have hrhs : i * stride + len ≤ n := by omega
    exact iff_of_true hlhs hrhs
  · rw [← hi] at hdiv ⊢
    split_ifs with hr <;> omega
  · have hmul : (n / stride + 1) * stride ≤ i * stride := Nat.mul_le_mul_right _ hi
    rw [Nat.add_mul, Nat.one_mul] at hmul
    split_ifs <;> omega

theorem stridedCount_right_iff {n stride len : ℕ} (hs : 0 < stride) :
    (∀ i, i < stridedCount n stride len ↔ i * stride + len ≤ n) ↔
      (len ≤ stride ∨ n < stride ∨ len ≤ stride + n % stride) := by
  refine ⟨fun h => ?_, fun h => lt_stridedCount_iff hs h⟩
  by_contra hc
  simp only [not_or, Nat.not_le, Nat.not_lt] at hc
  obtain ⟨_, hn, hlen⟩ := hc
  -- the last whole stride is too short for its element
  have hpos : 0 < n / stride := Nat.div_pos hn hs
  have hdiv : n / stride * stride + n % stride = n := Nat.div_add_mod' n stride
  have hlt : n / stride - 1 < stridedCount n stride len := by
    unfold stridedCount
    omega
  have hfit := (h _).1 hlt
  have hmul : (n / stride - 1) * stride + stride = n / stride * stride := by
    rw [← Nat.succ_mul]
    congr 1
    omega
  omega

end Lib
