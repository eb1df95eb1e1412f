import Mathlib.Data.List.Basic
import Mathlib.Data.Int.Basic

/-!
# Memory as a function

A memory is a function from addresses to values.  `load` takes a list of values
out of it and `store` puts one in.  What is stored is what is loaded
(`load_store_self`), and a store leaves every other address alone
(`store_of_lt`, `store_of_le`).
-/

namespace Lib

variable {α : Type*}

/-- The `n` values from the address `a` on. -/
def load (m : ℤ → α) (a : ℤ) (n : ℕ) : List α := (List.range n).map fun k : ℕ => m (a + k)

/-- The memory with the values `xs` from the address `a` on. -/
def store (m : ℤ → α) (a : ℤ) (xs : List α) : ℤ → α := fun i =>
  if a ≤ i then xs[(i - a).toNat]?.getD (m i) else m i

@[simp] theorem length_load (m : ℤ → α) (a : ℤ) (n : ℕ) : (load m a n).length = n := by
  simp [load]

theorem getElem?_load (m : ℤ → α) (a : ℤ) {n k : ℕ} (h : k < n) :
    (load m a n)[k]? = some (m (a + k)) := by
  simp [load, h]

theorem load_congr {m m' : ℤ → α} {a : ℤ} {n : ℕ}
    (h : ∀ i, a ≤ i → i < a + n → m i = m' i) : load m a n = load m' a n := by
  unfold load
  refine List.map_congr_left fun k hk => ?_
  have hk := List.mem_range.1 hk
  exact h _ (by omega) (by omega)

theorem store_of_lt {m : ℤ → α} {a : ℤ} {xs : List α} {i : ℤ} (h : i < a) : store m a xs i = m i := by
  rw [store, if_neg (by omega)]

theorem store_of_le {m : ℤ → α} {a : ℤ} {xs : List α} {i : ℤ} (h : a + xs.length ≤ i) :
    store m a xs i = m i := by
  rw [store, if_pos (by omega), List.getElem?_eq_none (by omega), Option.getD_none]

theorem store_add {m : ℤ → α} {a : ℤ} {xs : List α} {k : ℕ} (h : k < xs.length) :
    store m a xs (a + k) = xs[k] := by
  unfold store
  rw [if_pos (by omega), show (a + k - a).toNat = k by omega, List.getElem?_eq_getElem h, Option.getD_some]

theorem load_store_self (m : ℤ → α) (a : ℤ) (xs : List α) : load (store m a xs) a xs.length = xs := by
  refine List.ext_getElem (by simp) fun k _ hk => ?_
  rw [← Option.some_inj, ← List.getElem?_eq_getElem, getElem?_load _ _ hk, store_add hk]

end Lib
