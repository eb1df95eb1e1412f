import Mathlib.Data.List.GetD

/-!
# Streams that grow

A stream is a list that grows where it is written past its end; what lies between its end and what
is written is filled.  Behind its end a stream reads as the filling (`getD`), so that a write
changes what it writes and nothing else (`getD_writeAt`).
-/

namespace Lib

universe u

variable {α : Type u} {fill : α} {xs ys : List α} {o n i : ℕ}

/-- A stream after `ys` are written at `o`. -/
def writeAt (fill : α) (xs : List α) (o : ℕ) (ys : List α) : List α :=
  xs.take o ++ List.replicate (o - xs.length) fill ++ ys ++ xs.drop (o + ys.length)

/-- The `n` values from `o` on, or those up to the end of the stream. -/
def readAt (xs : List α) (o n : ℕ) : List α := (xs.drop o).take n

theorem length_writeAt (fill : α) (xs : List α) (o : ℕ) (ys : List α) :
    (writeAt fill xs o ys).length = max xs.length (o + ys.length) := by
  simp only [writeAt, List.length_append, List.length_take, List.length_replicate, List.length_drop]
  omega

theorem getD_writeAt (fill : α) (xs : List α) (o : ℕ) (ys : List α) (i : ℕ) :
    (writeAt fill xs o ys).getD i fill =
      if o ≤ i ∧ i < o + ys.length then ys.getD (i - o) fill else xs.getD i fill := by
  have hpre : (xs.take o ++ List.replicate (o - xs.length) fill).length = o := by
    rw [List.length_append, List.length_take, List.length_replicate]
    omega
  simp only [writeAt, List.getD_eq_getElem?_getD]
  by_cases hi : i < o
  · rw [if_neg (by omega), List.append_assoc, List.getElem?_append_left (by omega)]
    by_cases hx : i < xs.length
    · rw [List.getElem?_append_left (by rw [List.length_take]; omega), List.getElem?_take, if_pos hi]
    · rw [List.getElem?_append_right (by rw [List.length_take]; omega),
        List.getElem?_replicate, List.getElem?_eq_none (Nat.le_of_not_lt hx)]
      split <;> rfl
  · by_cases hy : i < o + ys.length
    · rw [if_pos (by omega), List.getElem?_append_left (by rw [List.length_append]; omega),
        List.getElem?_append_right (by omega), hpre]
    · rw [if_neg (by omega),
        List.getElem?_append_right (by rw [List.length_append]; omega), List.getElem?_drop,
        List.length_append, hpre, show o + ys.length + (i - (o + ys.length)) = i by omega]

theorem length_readAt (xs : List α) (o n : ℕ) : (readAt xs o n).length = min n (xs.length - o) := by
  rw [readAt, List.length_take, List.length_drop]

theorem getElem?_readAt (fill : α) (h : i < n) (hlen : o + i < xs.length) :
    (readAt xs o n)[i]? = some (xs.getD (o + i) fill) := by
  rw [readAt, List.getElem?_take, if_pos h, List.getElem?_drop, List.getD_eq_getElem?_getD,
    List.getElem?_eq_getElem hlen, Option.getD_some]

theorem writeAt_append (fill : α) (xs rest ys : List α) :
    writeAt fill (xs ++ rest) xs.length ys = xs ++ ys ++ rest.drop ys.length := by
  have hfill : xs.length - (xs ++ rest).length = 0 := by
    rw [List.length_append]
    omega
  rw [writeAt, List.take_left, hfill, List.replicate_zero, List.append_nil, ← List.drop_drop, List.drop_left]

end Lib
