import Mathlib.Order.Lattice
import Mathlib.Data.List.Induction
import Mathlib.Data.List.Pairwise

/-!
# Maps as sorted lists

A map is a list of keys with values, whose keys increase (`Sorted`).  `set` keeps it so, and `get?` finds under each
key what was set last (`get?_set`).
-/

namespace Lib

open List (mem_cons mem_cons_of_mem pairwise_cons)

namespace SortedMap

variable {K V : Type*} [LinearOrder K] {m m' : List (K × V)} {k k' : K} {v : V}

def Sorted (m : List (K × V)) : Prop := m.Pairwise fun e e' => e.1 < e'.1

def get? (k : K) : List (K × V) → Option V
  | [] => none
  | e :: m => if e.1 = k then some e.2 else get? k m

def set (k : K) (v : V) : List (K × V) → List (K × V)
  | [] => [(k, v)]
  | e :: m =>
    if k < e.1 then (k, v) :: e :: m
    else if e.1 < k then e :: set k v m
    else (k, v) :: m

theorem mem_set {e : K × V} (h : e ∈ set k v m) : e = (k, v) ∨ e ∈ m := by
  induction m with
  | nil => exact .inl (List.mem_singleton.1 h)
  | cons e' m ih =>
    rw [set] at h
    split at h
    · exact mem_cons.1 h
    · split at h
      · rcases mem_cons.1 h with rfl | h
        · exact .inr List.mem_cons_self
        · exact (ih h).imp_right (mem_cons_of_mem _)
      · exact (mem_cons.1 h).imp_right (mem_cons_of_mem _)

theorem Sorted.set (h : Sorted m) (k : K) (v : V) : Sorted (set k v m) := by
  induction m with
  | nil => exact List.pairwise_singleton _ _
  | cons e m ih =>
    obtain ⟨hfirst, hrest⟩ := pairwise_cons.1 h
    rw [SortedMap.set]
    split
    · rename_i hlt
      refine pairwise_cons.2 ⟨fun e' he' => ?_, h⟩
      rcases mem_cons.1 he' with rfl | he'
      · exact hlt
      · exact hlt.trans (hfirst e' he')
    · split
      · rename_i hlt
        refine pairwise_cons.2 ⟨fun e' he' => ?_, ih hrest⟩
        rcases mem_set he' with rfl | he'
        · exact hlt
        · exact hfirst e' he'
      · rename_i hle hge
        have heq : e.1 = k := le_antisymm (not_lt.1 hle) (not_lt.1 hge)
        exact pairwise_cons.2 ⟨fun e' he' => heq ▸ hfirst e' he', hrest⟩

theorem get?_eq_none_of_lt (h : ∀ e ∈ m, k < e.1) : get? k m = none := by
  induction m with
  | nil => rfl
  | cons e m ih =>
    rw [get?, if_neg (h e List.mem_cons_self).ne']
    exact ih fun e' he' => h e' (mem_cons_of_mem _ he')

theorem get?_set (k k' : K) (v : V) (m : List (K × V)) :
    get? k' (set k v m) = if k = k' then some v else get? k' m := by
  induction m with
  | nil => rfl
  | cons e m ih =>
    rw [set]
    split
    · rw [get?]
    · split
      · rename_i hlt
        rw [get?, get?, ih]
        split
        · rename_i heq
          rw [if_neg (heq ▸ hlt.ne')]
        · rfl
      · rename_i hle hge
        have heq : e.1 = k := le_antisymm (not_lt.1 hle) (not_lt.1 hge)
        rw [get?, get?, heq]
        split <;> rfl

theorem mem_of_get? (h : get? k m = some v) : (k, v) ∈ m := by
  induction m with
  | nil => cases h
  | cons e m ih =>
    rw [get?] at h
    split at h
    · rename_i heq
      cases h
      rw [← heq]
      exact List.mem_cons_self
    · exact mem_cons_of_mem _ (ih h)

theorem get?_ne_none_of_mem (h : (k, v) ∈ m) : get? k m ≠ none := by
  induction m with
  | nil => cases h
  | cons e m ih =>
    rw [get?]
    split
    · exact Option.some_ne_none _
    · rename_i hne
      rcases mem_cons.1 h with rfl | h
      · exact absurd rfl hne
      · exact ih h

theorem Sorted.get?_of_mem (h : Sorted m) (hmem : (k, v) ∈ m) : get? k m = some v := by
  induction m with
  | nil => cases hmem
  | cons e m ih =>
    obtain ⟨hfirst, hrest⟩ := pairwise_cons.1 h
    rcases mem_cons.1 hmem with rfl | hmem
    · rw [get?, if_pos rfl]
    · rw [get?, if_neg (hfirst _ hmem).ne]
      exact ih hrest hmem

def erase (k : K) (m : List (K × V)) : List (K × V) := m.filter fun e => e.1 ≠ k

theorem Sorted.erase (h : Sorted m) (k : K) : Sorted (erase k m) := List.Pairwise.filter _ h

theorem Sorted.erase_cons {e : K × V} (h : Sorted (e :: m)) : SortedMap.erase e.1 (e :: m) = m := by
  have hfirst := (pairwise_cons.1 h).1
  rw [SortedMap.erase, List.filter_cons, if_neg (by simp only [ne_eq, not_true_eq_false, decide_false, Bool.false_eq_true,
    not_false_eq_true])]
  exact List.filter_eq_self.2 fun e' he' => decide_eq_true (hfirst e' he').ne'

theorem get?_erase (k k' : K) (m : List (K × V)) : get? k' (erase k m) = if k = k' then none else get? k' m := by
  induction m with
  | nil => exact (ite_self _).symm
  | cons e m ih =>
    rw [erase, List.filter_cons, get?]
    by_cases hk : e.1 = k
    · rw [if_neg (by simp only [hk, ne_eq, not_true_eq_false, decide_false, Bool.false_eq_true, not_false_eq_true])]
      refine ih.trans ?_
      split
      · rfl
      · rename_i hne
        rw [if_neg fun h => hne (hk.symm.trans h)]
    · rw [if_pos (by simp only [ne_eq, hk, not_false_eq_true, decide_true]), get?]
      split
      · rename_i heq
        rw [if_neg fun h => hk (heq.trans h.symm)]
      · exact ih

end SortedMap

end Lib
