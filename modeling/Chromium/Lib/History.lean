import Mathlib.Data.List.Induction

/-!
# Logs each of whose entries is explained by those before it

`History P log` says that `P` holds of every entry and the entries before it.  A log grows at its
end, so a step that adds entries explains these and nothing else.
-/

namespace Lib

universe u

variable {ε : Type u} {P : List ε → ε → Prop} {log before after : List ε} {e : ε}

/-- Every entry is explained by those before it. -/
inductive History (P : List ε → ε → Prop) : List ε → Prop
  | nil : History P []
  | snoc {log : List ε} {e : ε} : History P log → P log e → History P (log ++ [e])

theorem History.snoc_inv (h : History P (log ++ [e])) : History P log ∧ P log e := by
  generalize hl : log ++ [e] = l at h
  cases h with
  | nil => simp at hl
  | snoc h he =>
    obtain ⟨rfl, heq⟩ := List.append_inj' hl rfl
    obtain rfl : e = _ := by simpa using heq
    exact ⟨h, he⟩

/-- **An entry anywhere in the log** is explained by those before it. -/
theorem History.at (h : History P (before ++ e :: after)) : P before e := by
  induction after using List.reverseRecOn with
  | nil => exact h.snoc_inv.2
  | append_singleton after a ih =>
    rw [← List.cons_append, ← List.append_assoc] at h
    exact ih h.snoc_inv.1

end Lib
