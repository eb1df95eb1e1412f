import Mathlib.Data.Nat.Count

/-!
# Tallies

How many numbers below a bound satisfy a predicate (`Nat.count`), when the predicate changes at
one of them, and counters that are incremented in a loop over the numbers.
-/

namespace Lib

variable {p q : ℕ → Prop} [DecidablePred p] [DecidablePred q] {n₀ N : ℕ}

theorem count_congr (h : ∀ n < N, (p n ↔ q n)) : Nat.count p N = Nat.count q N := by
  induction N with
  | zero => simp
  | succ N ih =>
    rw [Nat.count_succ, Nat.count_succ, ih fun n hn => h n (Nat.lt_succ_of_lt hn)]
    simp only [h N (Nat.lt_succ_self N)]

theorem count_of_agree (hlt : n₀ < N) (h : ∀ n ≠ n₀, (p n ↔ q n)) :
    Nat.count q N + (if p n₀ then 1 else 0) = Nat.count p N + (if q n₀ then 1 else 0) := by
  induction N with
  | zero => omega
  | succ N ih =>
    rw [Nat.count_succ, Nat.count_succ]
    rcases Nat.lt_succ_iff_lt_or_eq.1 hlt with hN | rfl
    · have hsame : (if p N then 1 else 0) = (if q N then 1 else 0) := by simp only [h N (by omega)]
      have := ih hN
      omega
    · have hsame : Nat.count p n₀ = Nat.count q n₀ := count_congr fun n hn => h n (by omega)
      omega

def bump (e : ℕ → ℤ) (t : ℕ) : ℕ → ℤ :=
  if t ≠ 0 then Function.update e (t - 1) (e (t - 1) + 1) else e

theorem bump_apply (e : ℕ → ℤ) (t k : ℕ) : bump e t k = e k + (if t = k + 1 then 1 else 0) := by
  unfold bump
  by_cases ht : t = k + 1
  · rw [if_pos (by omega), if_pos ht, ht, Nat.add_sub_cancel, Function.update_self]
  · rw [if_neg ht, Int.add_zero]
    split_ifs with h0
    · exact Function.update_of_ne (by omega) _ _
    · rfl

theorem foldl_bump (f : ℕ → ℕ) (e : ℕ → ℤ) (N k : ℕ) :
    (List.range N).foldl (fun e n => bump e (f n)) e k =
      e k + (Nat.count (fun n => f n = k + 1) N : ℕ) := by
  induction N with
  | zero => simp
  | succ N ih =>
    rw [List.range_succ, List.foldl_append, List.foldl_cons, List.foldl_nil, bump_apply, ih, Nat.count_succ]
    split_ifs <;> omega

theorem foldl_chunks (g : ℕ → ℕ) (e : ℕ → ℤ) (M N k : ℕ) :
    (List.range N).foldl (fun e i => (List.range M).foldl (fun e j => bump e (g (M * i + j))) e) e k =
      e k + (Nat.count (fun n => g n = k + 1) (M * N) : ℕ) := by
  induction N with
  | zero => simp
  | succ N ih =>
    rw [List.range_succ, List.foldl_append, List.foldl_cons, List.foldl_nil, foldl_bump, ih,
      Nat.mul_succ, Nat.count_add]
    omega

end Lib
