import Mathlib.Data.Nat.Basic

/-!
# Loops that stop at a bound

A loop adds one item after the other to a number and stops where the number would go past a bound; the number is then the
bound.  The first item is added without a look at the bound.  What such a loop gives is the number that all items make, or
the bound (`BoundedLoop.eq`).
-/

namespace Lib

/-- **A loop with a bound**: `step` adds an item, and `out` is how the loop holds a number. -/
structure BoundedLoop {α β : Type*} (P : α → Prop) (step : ℕ → α → ℕ) (bound : ℕ) (out : ℕ → β)
    (loop : Bool → β → List α → Bool × β) : Prop where
  nil : ∀ first b, loop first b [] = (true, b)
  first : ∀ a l, P a → loop true (out 0) (a :: l) = loop false (out (step 0 a)) l
  next : ∀ n a l, P a → n ≤ bound →
    loop false (out n) (a :: l) = if bound < step n a then (false, out bound) else loop false (out (step n a)) l
  small : ∀ a, P a → step 0 a ≤ bound
  le_step : ∀ n a, n ≤ step n a

namespace BoundedLoop

variable {α β : Type*} {P : α → Prop} {step : ℕ → α → ℕ} {bound n : ℕ} {out : ℕ → β}
  {loop : Bool → β → List α → Bool × β} {l : List α}

theorem le_foldl (h : ∀ n a, n ≤ step n a) (n : ℕ) (l : List α) : n ≤ l.foldl step n := by
  induction l generalizing n with
  | nil => exact Nat.le_refl n
  | cons a l ih => exact Nat.le_trans (h n a) (ih (step n a))

theorem eq_next (h : BoundedLoop P step bound out loop) (hl : ∀ a ∈ l, P a) (hn : n ≤ bound) :
    loop false (out n) l = (decide (l.foldl step n ≤ bound), out (min (l.foldl step n) bound)) := by
  induction l generalizing n with
  | nil => rw [h.nil, List.foldl_nil, decide_eq_true hn, Nat.min_eq_left hn]
  | cons a l ih =>
    rw [h.next n a l (hl a List.mem_cons_self) hn, List.foldl_cons]
    by_cases hpast : bound < step n a
    · have hlt := Nat.lt_of_lt_of_le hpast (le_foldl h.le_step (step n a) l)
      rw [if_pos hpast, decide_eq_false (Nat.not_le.2 hlt), Nat.min_eq_right (Nat.le_of_lt hlt)]
    · rw [if_neg hpast, ih (fun b hb => hl b (List.mem_cons_of_mem a hb)) (Nat.not_lt.1 hpast)]

theorem eq (h : BoundedLoop P step bound out loop) (hl : ∀ a ∈ l, P a) :
    loop true (out 0) l = (decide (l.foldl step 0 ≤ bound), out (min (l.foldl step 0) bound)) := by
  cases l with
  | nil => rw [h.nil, List.foldl_nil, decide_eq_true (Nat.zero_le bound), Nat.min_eq_left (Nat.zero_le bound)]
  | cons a l =>
    rw [h.first a l (hl a List.mem_cons_self), List.foldl_cons,
      h.eq_next (fun b hb => hl b (List.mem_cons_of_mem a hb)) (h.small a (hl a List.mem_cons_self))]

end BoundedLoop

end Lib
