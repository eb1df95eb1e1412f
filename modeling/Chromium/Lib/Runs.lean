import Mathlib.Data.List.SplitBy

/-!
# A list of runs

A list whose elements come in runs: an element that starts one, and elements that continue it
(`IsRun`).  The runs of a list are `l.splitBy fun _ b => cont b`.

`splitBy_flatten_runs`: **a list that was put together from runs is split up into them**.
-/

namespace Lib

universe u

variable {α : Type u} {cont : α → Bool} {g : List α} {gs : List (List α)}

/-- The list is empty, or an element that starts a run and such that continue it. -/
def IsRun (cont : α → Bool) (g : List α) : Prop :=
  ∀ a as, g = a :: as → cont a = false ∧ ∀ b ∈ as, cont b = true

theorem IsRun.isChain (h : IsRun cont g) : g.IsChain fun _ b => cont b := by
  cases g with
  | nil => exact List.isChain_nil
  | cons a as =>
    obtain ⟨-, has⟩ := h a as rfl
    clear h
    induction as generalizing a with
    | nil => exact List.isChain_singleton a
    | cons b as ih =>
      rw [List.isChain_cons_cons]
      exact ⟨has b List.mem_cons_self, ih b fun c hc => has c (List.mem_cons_of_mem _ hc)⟩

theorem cont_of_flatten_eq_cons {b : α} {bs : List α} (h : ∀ g ∈ gs, IsRun cont g)
    (hb : gs.flatten = b :: bs) : cont b = false := by
  induction gs with
  | nil => cases hb
  | cons g gs ih =>
    cases g with
    | nil => exact ih (fun g' hg' => h g' (List.mem_cons_of_mem _ hg')) hb
    | cons a as =>
      obtain ⟨rfl, -⟩ := List.cons.inj hb
      exact (h _ List.mem_cons_self a as rfl).1

/-- **A list that was put together from runs is split up into them.** -/
theorem splitBy_flatten_runs (h : ∀ g ∈ gs, IsRun cont g) :
    gs.flatten.splitBy (fun _ b => cont b) = gs.filter (· ≠ []) := by
  induction gs with
  | nil => rfl
  | cons g gs ih =>
    have hgs : ∀ g' ∈ gs, IsRun cont g' := fun g' hg' => h g' (List.mem_cons_of_mem _ hg')
    by_cases hnil : g = []
    · rw [hnil, List.flatten_cons, List.nil_append, ih hgs, List.filter_cons_of_neg (by simp)]
    · have hnext : ∀ b ∈ gs.flatten.head?, cont b = false := by
        intro b hb
        obtain ⟨bs, hflat⟩ := List.head?_eq_some_iff.1 hb
        exact cont_of_flatten_eq_cons hgs hflat
      rw [List.flatten_cons, List.splitBy_append fun _ _ b hb => hnext b hb,
        List.splitBy_of_isChain hnil (h g List.mem_cons_self).isChain, ih hgs,
        List.filter_cons_of_pos (by simpa using hnil)]
      rfl

end Lib
