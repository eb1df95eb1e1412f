import Chromium.Lib.Memory
import Mathlib.Data.Nat.ModEq

/-!
# Queues in a circle

The values of a queue stand in `cap` places of a memory one behind the other, and behind the last place comes the
first: `circular m cap head n` are the `n` values from the place `head` on.  Values are added in runs that end before
the last place (`circular_store`), and the queue goes on behind a part of it (`circular_add`).
-/

namespace Lib

variable {α : Type*} {m : ℤ → α} {cap head n : ℕ}

def circular (m : ℤ → α) (cap head n : ℕ) : List α := (List.range n).map fun i => m ((head + i) % cap : ℕ)

@[simp] theorem length_circular (m : ℤ → α) (cap head n : ℕ) : (circular m cap head n).length = n := by
  rw [circular, List.length_map, List.length_range]

theorem circular_add (m : ℤ → α) (cap head n k : ℕ) :
    circular m cap head (n + k) = circular m cap head n ++ circular m cap (head + n) k := by
  rw [circular, List.range_add, List.map_append, List.map_map]
  refine congrArg₂ _ rfl (List.map_congr_left fun i _ => ?_)
  rw [Function.comp_apply, Nat.add_assoc]

theorem circular_mod (m : ℤ → α) (cap head n : ℕ) : circular m cap (head % cap) n = circular m cap head n :=
  List.map_congr_left fun i _ => by rw [Nat.mod_add_mod]

theorem circular_eq_load (h : head + n ≤ cap) : circular m cap head n = load m head n :=
  List.map_congr_left fun i hi => by
    have hi := List.mem_range.1 hi
    rw [Nat.mod_eq_of_lt (by omega), Int.natCast_add]

theorem mod_ne_add {i j : ℕ} (hi : i < n) (hj : (head + n) % cap + j < cap) (hn : n + j < cap + i) :
    (head + i) % cap ≠ (head + n) % cap + j := by
  intro heq
  have hplace : (head + n + j) % cap = (head + n) % cap + j := by
    rw [← Nat.mod_add_mod, Nat.mod_eq_of_lt hj]
  have hmod : head + i ≡ head + n + j [MOD cap] := heq.trans hplace.symm
  have hdvd : cap ∣ head + n + j - (head + i) := (Nat.modEq_iff_dvd' (by omega)).1 hmod
  have hle := Nat.le_of_dvd (by omega) hdvd
  omega

theorem circular_store {xs : List α} (hrun : (head + n) % cap + xs.length ≤ cap) (hroom : n + xs.length ≤ cap) :
    circular (store m ((head + n) % cap : ℕ) xs) cap head (n + xs.length) = circular m cap head n ++ xs := by
  rw [circular_add]
  refine congrArg₂ _ (List.map_congr_left fun i hi => ?_) ?_
  · have hi := List.mem_range.1 hi
    by_cases hlt : (head + i) % cap < (head + n) % cap
    · exact store_of_lt (by exact_mod_cast hlt)
    · refine store_of_le ?_
      by_contra hnot
      obtain ⟨j, hj⟩ := Nat.exists_eq_add_of_le (Nat.le_of_not_lt hlt)
      exact mod_ne_add hi (by omega) (by omega) hj
  · rw [← circular_mod, circular_eq_load hrun, load_store_self]

end Lib
