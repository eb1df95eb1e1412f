import Mathlib.Data.List.Sort

/-!
# Sweeps over vectors

`Sweep`: a vector from which elements are dropped in place, with a position that is read and one, at or
behind it, that is written.  `Sweep.Rep` says what is kept so far and what is still to come.

Two vectors that are sorted by a key can be swept in parallel.  `keyCount` is the number of elements
with a key, and the lemmas on `min` say how many pairs with equal keys are still to come after each
kind of step.
-/

namespace Lib

universe u v w

variable {α : Type u} {β : Type v} {κ : Type w}

/-- A vector that is read at one position and written at another. -/
structure Sweep (α : Type u) where
  vec : List α
  out : ℕ
  pos : ℕ

namespace Sweep

variable {s : Sweep α} {kept rest : List α} {a : α}

def start (xs : List α) : Sweep α := ⟨xs, 0, 0⟩

def current (s : Sweep α) : Option α := s.vec[s.pos]?

def keep (s : Sweep α) : Sweep α :=
  match s.current with
  | some a => ⟨s.vec.set s.out a, s.out + 1, s.pos + 1⟩
  | none => s

def skip (s : Sweep α) : Sweep α := { s with pos := s.pos + 1 }

def erase (s : Sweep α) : List α := s.vec.take s.out ++ s.vec.drop s.pos

/-- What is kept so far and what is still to be read. -/
structure Rep (s : Sweep α) (kept rest : List α) : Prop where
  out : s.out = kept.length
  vec : ∃ gap, s.vec = kept ++ (gap ++ rest) ∧ s.pos = kept.length + gap.length

theorem rep_start (xs : List α) : Rep (start xs) [] xs := ⟨rfl, [], rfl, rfl⟩

theorem Rep.current (h : Rep s kept rest) : s.current = rest.head? := by
  obtain ⟨-, gap, hvec, hpos⟩ := h
  rw [Sweep.current, hvec, hpos, List.getElem?_append_right (by omega), List.getElem?_append_right (by omega)]
  have hzero : kept.length + gap.length - kept.length - gap.length = 0 := by omega
  rw [hzero, List.head?_eq_getElem?]

theorem Rep.skip (h : Rep s kept (a :: rest)) : Rep s.skip kept rest := by
  obtain ⟨hout, gap, hvec, hpos⟩ := h
  refine ⟨hout, gap ++ [a], ?_, ?_⟩
  · rw [Sweep.skip, hvec, List.append_assoc]
    rfl
  · rw [Sweep.skip, hpos, List.length_append, List.length_singleton, Nat.add_assoc]

theorem Rep.keep (h : Rep s kept (a :: rest)) : Rep s.keep (kept ++ [a]) rest := by
  have hcurrent : s.current = some a := h.current
  obtain ⟨hout, gap, hvec, hpos⟩ := h
  rw [Sweep.keep, hcurrent]
  -- the gap moves on by one element
  refine ⟨by rw [hout, List.length_append, List.length_singleton], ?_⟩
  cases gap with
  | nil =>
    refine ⟨[], ?_, ?_⟩
    · simp [hvec, hout]
    · simp [hpos]
  | cons g gap =>
    refine ⟨gap ++ [a], ?_, ?_⟩
    · simp [hvec, hout]
    · simp [hpos]
      omega

theorem Rep.erase (h : Rep s kept rest) : s.erase = kept ++ rest := by
  obtain ⟨hout, gap, hvec, hpos⟩ := h
  rw [Sweep.erase, hvec, hout, hpos, List.take_left, ← List.drop_drop, List.drop_left, List.drop_left]

end Sweep

/-! ### Sorted lists -/

section Keys

variable [LinearOrder κ] {f : α → κ} {g : β → κ} {xs : List α} {ys : List β}

def keyCount (f : α → κ) (k : κ) (xs : List α) : ℕ := xs.countP fun x => f x = k

theorem keyCount_cons (x : α) (xs : List α) (k : κ) :
    keyCount f k (x :: xs) = keyCount f k xs + if f x = k then 1 else 0 := by
  rw [keyCount, keyCount, List.countP_cons]
  simp

theorem keyCount_append (xs xs' : List α) (k : κ) :
    keyCount f k (xs ++ xs') = keyCount f k xs + keyCount f k xs' := List.countP_append

theorem keyCount_eq_zero {k : κ} (h : ∀ x ∈ xs, k < f x) : keyCount f k xs = 0 := by
  rw [keyCount, List.countP_eq_zero]
  exact fun x hx => by simpa using (h x hx).ne'

def KeySorted (f : α → κ) (xs : List α) : Prop := xs.Pairwise fun a b => f a ≤ f b

theorem KeySorted.lt_of_head {x : α} {k : κ} (h : KeySorted f (x :: xs)) (hk : k < f x) :
    ∀ a ∈ x :: xs, k < f a := by
  intro a ha
  rcases List.mem_cons.1 ha with rfl | ha
  · exact hk
  · exact hk.trans_le ((List.pairwise_cons.1 h).1 a ha)

theorem min_keyCount_of_lt {x : α} (hx : ∀ y ∈ ys, f x < g y) (k : κ) :
    min (keyCount f k (x :: xs)) (keyCount g k ys) = min (keyCount f k xs) (keyCount g k ys) := by
  rw [keyCount_cons]
  split
  · rename_i hk
    rw [← hk, keyCount_eq_zero hx, Nat.min_zero, Nat.min_zero]
  · rfl

theorem min_keyCount_of_eq {x : α} {y : β} (h : f x = g y) (k : κ) :
    min (keyCount f k (x :: xs)) (keyCount g k (y :: ys)) =
      (if f x = k then 1 else 0) + min (keyCount f k xs) (keyCount g k ys) := by
  rw [keyCount_cons, keyCount_cons, ← h]
  split <;> omega

end Keys

end Lib
