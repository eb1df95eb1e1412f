import Mathlib.Data.List.Basic

/-!
# Positions in a list that is edited

Putting an element into a list, taking one out and moving one renumber the positions of the others.  `up i` is the new
position after something is put in at `i`, `down i` the new position after the element at `i` is taken out, and `origin`
says which position an element had before a move.
-/

namespace Lib

/-- The position of an element after one is put in at `i`. -/
def up (i p : ℕ) : ℕ := if p < i then p else p + 1

/-- The position of an element after the one at `i` is taken out. -/
def down (i p : ℕ) : ℕ := if p ≤ i then p else p - 1

/-- The position that the element at `p` had before the element at `source` was moved to `target`. -/
def origin (source target p : ℕ) : ℕ := if p = target then source else up source (down target p)

variable {α : Type*} {l : List α} {i p q source target : ℕ}

theorem up_ne (i p : ℕ) : up i p ≠ i := by
  unfold up
  split <;> omega

theorem up_down (h : p ≠ i) : up i (down i p) = p := by
  unfold up down
  split_ifs <;> omega

theorem down_up (i p : ℕ) : down i (up i p) = p := by
  unfold up down
  split_ifs <;> omega

theorem up_inj (h : up i p = up i q) : p = q := by
  rw [← down_up i p, h, down_up]

theorem origin_self (source target : ℕ) : origin source target target = source := if_pos rfl

theorem origin_of_ne (h : p ≠ target) : origin source target p = up source (down target p) := if_neg h

theorem origin_origin (source target p : ℕ) : origin target source (origin source target p) = p := by
  by_cases h : p = target
  · rw [h, origin_self, origin_self]
  · rw [origin_of_ne h, origin_of_ne (up_ne _ _), down_up, up_down h]

theorem getElem?_eraseIdx_eq_up (l : List α) (i p : ℕ) : (l.eraseIdx i)[p]? = l[up i p]? := by
  rw [List.getElem?_eraseIdx, up]
  split <;> rfl

theorem getElem?_insertIdx_up (l : List α) (i : ℕ) (x : α) (p : ℕ) : (l.insertIdx i x)[up i p]? = l[p]? := by
  unfold up
  split_ifs with hp
  · exact List.getElem?_insertIdx_of_lt hp
  · rw [List.getElem?_insertIdx_of_gt (by omega)]
    rfl

theorem getElem?_insertIdx_at (h : i ≤ l.length) (x : α) : (l.insertIdx i x)[i]? = some x := by
  rw [List.getElem?_insertIdx_self, if_pos h]

/-- **After a move**, the element at a position is the one at its origin. -/
theorem getElem?_move {x : α} (hx : l[source]? = some x) (ht : target < l.length) (p : ℕ) :
    ((l.eraseIdx source).insertIdx target x)[p]? = l[origin source target p]? := by
  obtain ⟨hs, -⟩ := List.getElem?_eq_some_iff.1 hx
  have hle : target ≤ (l.eraseIdx source).length := by
    rw [List.length_eraseIdx_of_lt hs]
    omega
  by_cases hp : p = target
  · rw [hp, getElem?_insertIdx_at hle, origin_self, hx]
  · rw [origin_of_ne hp, ← getElem?_eraseIdx_eq_up, ← getElem?_insertIdx_up _ target x (down target p), up_down hp]

theorem length_move {x : α} (hs : source < l.length) (ht : target < l.length) :
    ((l.eraseIdx source).insertIdx target x).length = l.length := by
  have hlen := List.length_eraseIdx_of_lt hs
  rw [List.length_insertIdx_of_le_length (by omega), hlen]
  omega

end Lib
