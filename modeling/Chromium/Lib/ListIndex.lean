import Mathlib.Data.List.Basic

/-!
# Lists cut at an index

Code that works on a vector with an index is easier to reason about when the
vector is cut there: `l = pre ++ b :: post` with `pre.length` the index
(`exists_cut`).  The lemmas say what each operation at the index, or right
behind it, does to the three parts.
-/

namespace Lib

universe u

variable {β : Type u} {pre post : List β} {b c d : β}

theorem exists_cut {l : List β} {i : ℕ} (h : i < l.length) :
    ∃ pre b post, l = pre ++ b :: post ∧ pre.length = i := by
  refine ⟨l.take i, l[i], l.drop (i + 1), ?_, by simp; omega⟩
  rw [List.getElem_cons_drop, List.take_append_drop]

theorem getD_cut : (pre ++ b :: post).getD pre.length d = b := by
  rw [List.getD_eq_getElem?_getD, List.getElem?_append_right (Nat.le_refl _), Nat.sub_self]
  rfl

theorem getD_cut_succ : (pre ++ b :: c :: post).getD (pre.length + 1) d = c := by
  rw [List.getD_eq_getElem?_getD, List.getElem?_append_right (Nat.le_add_right _ 1), Nat.add_sub_cancel_left]
  rfl

theorem set_cut : (pre ++ b :: post).set pre.length c = pre ++ c :: post := by
  rw [List.set_append_right _ _ (Nat.le_refl _), Nat.sub_self]
  rfl

theorem eraseIdx_cut_succ : (pre ++ b :: c :: post).eraseIdx (pre.length + 1) = pre ++ b :: post := by
  rw [List.eraseIdx_append_of_length_le (Nat.le_add_right _ 1), Nat.add_sub_cancel_left]
  rfl

theorem insertIdx_cut_succ : (pre ++ b :: post).insertIdx (pre.length + 1) c = pre ++ b :: c :: post := by
  induction pre with
  | nil => rfl
  | cons a pre ih => exact congrArg (a :: ·) ih

theorem findIdx_cut {p : β → Bool} (hpre : ∀ a ∈ pre, p a = false) (hb : p b = true) :
    (pre ++ b :: post).findIdx p = pre.length := by
  induction pre with
  | nil => simp [List.findIdx_cons, hb]
  | cons a pre ih =>
    rw [List.cons_append, List.findIdx_cons, hpre a List.mem_cons_self, cond_false,
      ih fun c hc => hpre c (List.mem_cons_of_mem _ hc)]
    rfl

end Lib
