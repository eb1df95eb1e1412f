import Mathlib.Data.List.Basic

/-!
# Groups in one vector

The elements of several groups are kept in one vector, and an index holds for each group its head and
where its elements start (`offsets`).  A group ends where the next one starts, or with the vector
(`offsetsEnd`); `slice_offsets` says that the elements between are those of the group.
-/

namespace Lib

universe u v

variable {α : Type u} {β : Type v} {a : α} {bs : List β} {gs hs : List (α × List β)}

def elements (gs : List (α × List β)) : List β := gs.flatMap Prod.snd

/-- The heads of the groups and where their elements start, from `n` on. -/
def offsets : ℕ → List (α × List β) → List (α × ℕ)
  | _, [] => []
  | n, (a, bs) :: gs => (a, n) :: offsets (n + bs.length) gs

def offsetsEnd (size : ℕ) (rest : List (α × ℕ)) : ℕ := (rest.head?.map Prod.snd).getD size

def slice (xs : List β) (start stop : ℕ) : List β := (xs.drop start).take (stop - start)

theorem elements_append : elements (gs ++ hs) = elements gs ++ elements hs := List.flatMap_append

theorem offsets_append (n : ℕ) :
    offsets n (gs ++ hs) = offsets n gs ++ offsets (n + (elements gs).length) hs := by
  induction gs generalizing n with
  | nil => rfl
  | cons g gs ih =>
    obtain ⟨a, bs⟩ := g
    rw [List.cons_append, offsets, offsets, ih, List.cons_append, elements, elements,
      List.flatMap_cons, List.length_append, Nat.add_assoc]

theorem length_offsets (gs : List (α × List β)) (n : ℕ) : (offsets n gs).length = gs.length := by
  induction gs generalizing n with
  | nil => rfl
  | cons g gs ih =>
    obtain ⟨a, bs⟩ := g
    rw [offsets, List.length_cons, List.length_cons, ih]

theorem takeWhile_offsets (p : α → Bool) (n : ℕ) :
    (offsets n gs).takeWhile (fun e => p e.1) = offsets n (gs.takeWhile fun g => p g.1) := by
  induction gs generalizing n with
  | nil => rfl
  | cons g gs ih =>
    obtain ⟨a, bs⟩ := g
    cases ha : p a
    · simp [offsets, ha]
    · simp [offsets, ha, ih]

theorem dropWhile_offsets (p : α → Bool) (n : ℕ) : (offsets n gs).dropWhile (fun e => p e.1) =
      offsets (n + (elements (gs.takeWhile fun g => p g.1)).length) (gs.dropWhile fun g => p g.1) := by
  induction gs generalizing n with
  | nil => rfl
  | cons g gs ih =>
    obtain ⟨a, bs⟩ := g
    cases ha : p a
    · simp [offsets, ha, elements]
    · simp [offsets, ha, ih, elements, Nat.add_assoc]

theorem offsetsEnd_offsets (gs : List (α × List β)) (n : ℕ) :
    offsetsEnd (n + (elements gs).length) (offsets n gs) = n := by
  cases gs with
  | nil => rfl
  | cons g gs =>
    obtain ⟨a, bs⟩ := g
    rfl

theorem offsetsEnd_cons (a : α) (bs : List β) (gs : List (α × List β)) (n : ℕ) :
    offsetsEnd (n + (elements ((a, bs) :: gs)).length) (offsets (n + bs.length) gs) = n + bs.length := by
  have h := offsetsEnd_offsets gs (n + bs.length)
  rwa [Nat.add_assoc, ← List.length_append] at h

theorem slice_append (xs ys zs : List β) :
    slice (xs ++ (ys ++ zs)) xs.length (xs.length + ys.length) = ys := by
  rw [slice, List.drop_left, Nat.add_sub_cancel_left, List.take_left]

/-- **The elements of a group** are found from its index entry and the next one. -/
theorem slice_offsets (a : α) (bs : List β) (gs : List (α × List β)) (xs : List β) :
    slice (xs ++ elements ((a, bs) :: gs)) xs.length
      (offsetsEnd (xs ++ elements ((a, bs) :: gs)).length (offsets (xs.length + bs.length) gs)) =
      bs := by
  rw [List.length_append, offsetsEnd_cons, elements, List.flatMap_cons]
  exact slice_append xs bs _

end Lib
