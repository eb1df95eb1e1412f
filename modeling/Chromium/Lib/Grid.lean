import Mathlib.Tactic.Linarith

/-!
# Sets of cells, row by row

A list of `w * h` bits is a set of cells `(x, y)`: the bit of a cell has the index `y * w + x`.  Reading and writing at
the index of a cell is asking for the cell, and putting it in or taking it out (`Grid.get`, `Grid.set`).
-/

namespace Lib

structure Grid (w h : ℕ) (d : List Bool) (s : Set (ℕ × ℕ)) : Prop where
  length : d.length = w * h
  get : ∀ x < w, ∀ y < h, ∃ b, d[y * w + x]? = some b ∧ (b = true ↔ (x, y) ∈ s)

/-- `n` cells in a row, and `k` rows of them. -/
def cells (x y n k : ℕ) : Set (ℕ × ℕ) := {p | x ≤ p.1 ∧ p.1 < x + n ∧ y ≤ p.2 ∧ p.2 < y + k}

def storeBit (d : List Bool) (i : ℕ) (b : Bool) : Option (List Bool) := if i < d.length then some (d.set i b) else none

variable {w h x y i n : ℕ} {d : List Bool} {s : Set (ℕ × ℕ)} {b : Bool}

theorem gridIndex_lt (hx : x < w) (hy : y < h) : y * w + x < w * h := by
  have hrow : (y + 1) * w ≤ h * w := Nat.mul_le_mul_right w hy
  rw [Nat.mul_comm w h]
  linarith

theorem gridIndex_inj {x' y' : ℕ} (hx : x < w) (hx' : x' < w) (heq : y * w + x = y' * w + x') : x = x' ∧ y = y' := by
  have hmod := congrArg (· % w) heq
  simp only [Nat.mul_add_mod_self_right, Nat.mod_eq_of_lt hx, Nat.mod_eq_of_lt hx'] at hmod
  refine ⟨hmod, ?_⟩
  rw [hmod] at heq
  exact Nat.eq_of_mul_eq_mul_right (by omega) (Nat.add_right_cancel heq)

namespace Grid

theorem of_replicate (w h : ℕ) : Grid w h (List.replicate (w * h) false) ∅ := by
  refine ⟨List.length_replicate, fun x hx y hy => ⟨false, ?_, by simp⟩⟩
  rw [List.getElem?_replicate, if_pos (gridIndex_lt hx hy)]

theorem get_of_mem (hg : Grid w h d s) (hx : x < w) (hy : y < h) (hmem : (x, y) ∈ s) : d[y * w + x]? = some true := by
  obtain ⟨b, hb, hiff⟩ := hg.get x hx y hy
  rw [hb, hiff.2 hmem]

theorem get_of_notMem (hg : Grid w h d s) (hx : x < w) (hy : y < h) (hmem : (x, y) ∉ s) :
    d[y * w + x]? = some false := by
  obtain ⟨b, hb, hiff⟩ := hg.get x hx y hy
  rw [hb, Bool.eq_false_iff.2 (mt hiff.1 hmem)]

theorem set (hg : Grid w h d s) (hx : x < w) (b : Bool) :
    Grid w h (d.set (y * w + x) b) {p | p = (x, y) ∧ b = true ∨ p ≠ (x, y) ∧ p ∈ s} := by
  refine ⟨by rw [List.length_set, hg.length], fun x' hx' y' hy' => ?_⟩
  by_cases hp : (x', y') = (x, y)
  · cases hp
    refine ⟨b, ?_, by simp⟩
    rw [List.getElem?_set_self (by rw [hg.length]; exact gridIndex_lt hx hy')]
  · obtain ⟨b', hb', hiff⟩ := hg.get x' hx' y' hy'
    refine ⟨b', ?_, ?_⟩
    · rw [List.getElem?_set_ne, hb']
      intro heq
      obtain ⟨rfl, rfl⟩ := gridIndex_inj hx hx' heq
      exact hp rfl
    · rw [hiff]
      simp [hp]

theorem storeBit (hg : Grid w h d s) (hx : x < w) (hy : y < h) (b : Bool) :
    storeBit d (y * w + x) b = some (d.set (y * w + x) b) := by
  rw [Lib.storeBit, if_pos (by rw [hg.length]; exact gridIndex_lt hx hy)]

theorem set_false (hg : Grid w h d s) (hx : x < w) : Grid w h (d.set (y * w + x) false) (s \ {(x, y)}) := by
  have hset : {p | p = (x, y) ∧ false = true ∨ p ≠ (x, y) ∧ p ∈ s} = s \ {(x, y)} := by
    ext p
    simp [and_comm]
  rw [← hset]
  exact hg.set hx false

theorem set_new (hg : Grid w h d s) (hx : x < w) (hnew : (x, y) ∉ s) (b : Bool) :
    Grid w h (d.set (y * w + x) b) (s ∪ {p | p = (x, y) ∧ b = true}) := by
  have hset : {p | p = (x, y) ∧ b = true ∨ p ≠ (x, y) ∧ p ∈ s} = s ∪ {p | p = (x, y) ∧ b = true} := by
    ext p
    constructor
    · rintro (hp | ⟨-, hp⟩)
      · exact .inr hp
      · exact .inl hp
    · rintro (hp | hp)
      · refine .inr ⟨?_, hp⟩
        rintro rfl
        exact hnew hp
      · exact .inl hp
  rw [← hset]
  exact hg.set hx b

end Grid

theorem cells_zero : cells x y n 0 = ∅ := by
  ext p
  simp [cells]

theorem cells_eq_empty : cells x y 0 n = ∅ := by
  ext p
  simp [cells]
  omega

theorem cells_succ : cells x y (n + 1) 1 = {(x, y)} ∪ cells (x + 1) y n 1 := by
  ext ⟨a, b⟩
  simp [cells]
  omega

theorem cells_succ_rows (x y n k : ℕ) : cells x y n (k + 1) = cells x y n 1 ∪ cells x (y + 1) n k := by
  ext ⟨a, b⟩
  simp [cells]
  omega

end Lib
