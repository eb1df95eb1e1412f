import Mathlib.Data.List.Infix

/-!
# Parts with a separator between them

A text is cut at a separator by `List.splitOn` and put together by `List.intercalate`.  The searches of a text
for a character, forwards from a place and backwards from one, find the ends of its parts.
-/

namespace Lib

variable {α : Type*} [DecidableEq α] {sep c : α} {s part rest front : List α} {parts : List (List α)} {pos : ℕ}

/-- The first place of `c` from `pos` on. -/
def findFrom (s : List α) (c : α) (pos : ℕ) : Option ℕ := ((s.drop pos).findIdx? (· == c)).map (pos + ·)

/-- The last place of `c` that is not behind `pos`. -/
def findBack (s : List α) (c : α) (pos : ℕ) : Option ℕ :=
  ((s.take (pos + 1)).reverse.findIdx? (· == c)).map ((s.take (pos + 1)).length - 1 - ·)

theorem findIdx?_eq_none_of_notMem (h : c ∉ part) : part.findIdx? (· == c) = none := by
  rw [List.findIdx?_eq_none_iff]
  intro x hx
  rw [beq_eq_false_iff_ne]
  rintro rfl
  exact h hx

theorem findIdx?_append_cons (h : c ∉ part) : (part ++ c :: rest).findIdx? (· == c) = some part.length := by
  rw [List.findIdx?_append, findIdx?_eq_none_of_notMem h]
  simp [List.findIdx?_cons]

theorem append_cons_cancel (hpart : sep ∉ part) (hfront : sep ∉ front) (heq : part ++ sep :: rest = front ++ sep :: s) :
    part = front ∧ rest = s := by
  have hlen : part.length = front.length := by
    have h := @findIdx?_append_cons _ _ _ _ rest hpart
    rw [heq, findIdx?_append_cons hfront] at h
    exact (Option.some.inj h).symm
  obtain ⟨hparts, htails⟩ := List.append_inj heq hlen
  exact ⟨hparts, (List.cons.inj htails).2⟩

theorem findFrom_append_cons (hdrop : s.drop pos = part ++ c :: rest) (h : c ∉ part) :
    findFrom s c pos = some (pos + part.length) := by
  rw [findFrom, hdrop, findIdx?_append_cons h]
  rfl

theorem findFrom_eq_none (h : c ∉ s.drop pos) : findFrom s c pos = none := by
  rw [findFrom, findIdx?_eq_none_of_notMem h]
  rfl

theorem findBack_append_cons (htake : s.take (pos + 1) = front ++ c :: part) (h : c ∉ part) :
    findBack s c pos = some front.length := by
  have hrev : c ∉ part.reverse := by rwa [List.mem_reverse]
  rw [findBack, htake, List.reverse_append, List.reverse_cons, List.append_assoc, List.singleton_append,
    findIdx?_append_cons hrev]
  simp only [Option.map_some, List.length_append, List.length_cons, List.length_reverse]
  congr 1
  omega

theorem findBack_eq_none (h : c ∉ s.take (pos + 1)) : findBack s c pos = none := by
  have hrev : c ∉ (s.take (pos + 1)).reverse := by rwa [List.mem_reverse]
  rw [findBack, findIdx?_eq_none_of_notMem hrev]
  rfl

/-- A text is a part without the separator, or such a part and a text behind the separator. -/
theorem exists_part (sep : α) (s : List α) :
    ∃ part, sep ∉ part ∧ (s = part ∨ ∃ rest, s = part ++ sep :: rest) := by
  induction s with
  | nil => exact ⟨[], List.not_mem_nil, .inl rfl⟩
  | cons x s ih =>
    by_cases hx : x = sep
    · exact ⟨[], List.not_mem_nil, .inr ⟨s, by rw [hx]; rfl⟩⟩
    · obtain ⟨part, hpart, hs⟩ := ih
      have hnot : sep ∉ x :: part := by
        intro hmem
        rcases List.mem_cons.1 hmem with heq | hmem
        · exact hx heq.symm
        · exact hpart hmem
      rcases hs with rfl | ⟨rest, rfl⟩
      · exact ⟨x :: s, hnot, .inl rfl⟩
      · exact ⟨x :: part, hnot, .inr ⟨rest, rfl⟩⟩

theorem notMem_of_mem_splitOn : ∀ s : List α, ∀ part ∈ s.splitOn sep, sep ∉ part := by
  intro s
  induction hn : s.length using Nat.strong_induction_on generalizing s with
  | _ n ih =>
    obtain ⟨part, hpart, rfl | ⟨rest, rfl⟩⟩ := exists_part sep s
    · rw [List.splitOn_eq_singleton hpart]
      intro p hp
      rwa [List.mem_singleton.1 hp]
    · rw [List.splitOn_append_cons_self_of_not_mem hpart]
      intro p hp
      rcases List.mem_cons.1 hp with rfl | hp
      · exact hpart
      · refine ih rest.length ?_ rest rfl p hp
        subst hn
        simp only [List.length_append, List.length_cons]
        omega

theorem length_splitOn_le (sep : α) (s : List α) : (s.splitOn sep).length ≤ s.length + 1 := by
  induction s with
  | nil => simp
  | cons x s ih =>
    rw [List.splitOn_cons_eq_if_modifyHead]
    split
    · exact Nat.succ_le_succ ih
    · rw [List.length_modifyHead]
      exact Nat.le_succ_of_le ih

omit [DecidableEq α] in
theorem intercalate_cons_of_ne_nil (h : parts ≠ []) :
    [sep].intercalate (part :: parts) = part ++ sep :: [sep].intercalate parts := by
  rw [List.intercalate_cons_of_ne_nil h, List.append_assoc]
  rfl

end Lib
