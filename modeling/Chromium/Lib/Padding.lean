import Mathlib.Algebra.Ring.Nat
import Mathlib.Data.List.Flatten
import Mathlib.Data.List.Induction
import Mathlib.Data.Nat.ModEq

/-!
# Pieces that start at multiples

`roundUp a n` is the next multiple of `a` from `n` on.  In `layout a pad` every piece starts at a multiple
of `a`: all but the last are padded.  `blocks a pad` pads the last one too, which is what stands in
memory when the next piece is written (`layout_concat`).  A reader that moves on by `roundUp a` of the
length of each piece finds the next one (`drop_layout`).
-/

namespace Lib

/-- The next multiple of `a`. -/
def roundUp (a n : ℕ) : ℕ := n + (a - n % a) % a

section RoundUp

variable {a n m : ℕ}

theorem le_roundUp : n ≤ roundUp a n := Nat.le_add_right n _

theorem roundUp_of_dvd (h : a ∣ n) : roundUp a n = n := by
  rw [roundUp, Nat.mod_eq_zero_of_dvd h, Nat.sub_zero, Nat.mod_self, Nat.add_zero]

theorem dvd_roundUp (ha : 0 < a) (n : ℕ) : a ∣ roundUp a n := by
  have hlt := Nat.mod_lt n ha
  by_cases h : n % a = 0
  · rw [roundUp_of_dvd (Nat.dvd_of_mod_eq_zero h)]
    exact Nat.dvd_of_mod_eq_zero h
  · have hpad : (a - n % a) % a = a - n % a := Nat.mod_eq_of_lt (by omega)
    have hdiv := Nat.div_add_mod n a
    refine ⟨n / a + 1, ?_⟩
    rw [roundUp, hpad, Nat.mul_add, Nat.mul_one]
    omega

theorem roundUp_add (h : a ∣ m) : roundUp a (m + n) = m + roundUp a n := by
  have hmod : (m + n) % a = n % a := by
    rw [Nat.add_mod, Nat.mod_eq_zero_of_dvd h, Nat.zero_add, Nat.mod_mod]
  rw [roundUp, hmod, Nat.add_assoc, ← roundUp]

end RoundUp

universe u

variable {α : Type u} {a : ℕ} {pad : α}

def padded (a : ℕ) (pad : α) (c : List α) : List α :=
  c ++ List.replicate (roundUp a c.length - c.length) pad

def blocks (a : ℕ) (pad : α) (cs : List (List α)) : List α := cs.flatMap (padded a pad)

def layout (a : ℕ) (pad : α) : List (List α) → List α
  | [] => []
  | [c] => c
  | c :: d :: cs => padded a pad c ++ layout a pad (d :: cs)

@[simp]
theorem length_padded (c : List α) : (padded a pad c).length = roundUp a c.length := by
  have h : c.length ≤ roundUp a c.length := le_roundUp
  rw [padded, List.length_append, List.length_replicate]
  omega

theorem dvd_length_blocks (ha : 0 < a) (cs : List (List α)) : a ∣ (blocks a pad cs).length := by
  induction cs with
  | nil => exact dvd_zero a
  | cons c cs ih =>
    rw [blocks, List.flatMap_cons, List.length_append, length_padded]
    exact Nat.dvd_add (dvd_roundUp ha _) ih

theorem layout_concat (cs : List (List α)) (c : List α) :
    layout a pad (cs ++ [c]) = blocks a pad cs ++ c := by
  induction cs with
  | nil => rfl
  | cons d cs ih =>
    have hcons : layout a pad (d :: (cs ++ [c])) = padded a pad d ++ layout a pad (cs ++ [c]) := by
      cases cs <;> rfl
    simp only [List.cons_append, hcons, ih, blocks, List.flatMap_cons, List.append_assoc]

theorem blocks_concat (cs : List (List α)) (c : List α) :
    blocks a pad (cs ++ [c]) = blocks a pad cs ++ padded a pad c := by
  rw [blocks, List.flatMap_append, List.flatMap_singleton, blocks]

theorem roundUp_length_layout (ha : 0 < a) (cs : List (List α)) :
    roundUp a (layout a pad cs).length = (blocks a pad cs).length := by
  induction cs using List.reverseRecOn with
  | nil => exact roundUp_of_dvd (dvd_zero a)
  | append_singleton cs c _ =>
    rw [layout_concat, List.length_append, roundUp_add (dvd_length_blocks ha cs), blocks_concat,
      List.length_append, length_padded]

theorem take_layout (c : List α) (cs : List (List α)) : (layout a pad (c :: cs)).take c.length = c := by
  cases cs with
  | nil => exact List.take_length
  | cons d cs => rw [layout, padded, List.append_assoc, List.take_left]

theorem drop_layout (c : List α) (cs : List (List α)) :
    (layout a pad (c :: cs)).drop (roundUp a c.length) = layout a pad cs := by
  cases cs with
  | nil => exact List.drop_eq_nil_of_le le_roundUp
  | cons d cs => rw [layout, ← length_padded, List.drop_left]

theorem take_blocks (cs : List (List α)) :
    (blocks a pad cs).take (layout a pad cs).length = layout a pad cs := by
  induction cs using List.reverseRecOn with
  | nil => rfl
  | append_singleton cs c _ =>
    rw [layout_concat, blocks_concat, padded, ← List.append_assoc, List.take_left]

theorem length_layout_append_le (ha : 0 < a) (cs ds : List (List α)) :
    (layout a pad cs).length ≤ (layout a pad (cs ++ ds)).length := by
  induction ds using List.reverseRecOn with
  | nil => rw [List.append_nil]
  | append_singleton ds d ih =>
    have h : (layout a pad (cs ++ ds)).length ≤ (blocks a pad (cs ++ ds)).length := by
      rw [← roundUp_length_layout ha]
      exact le_roundUp
    rw [← List.append_assoc, layout_concat, List.length_append]
    omega

theorem length_le_layout (c : List α) (cs : List (List α)) :
    c.length ≤ (layout a pad (c :: cs)).length := by
  have h : ((layout a pad (c :: cs)).take c.length).length = c.length := congrArg _ (take_layout c cs)
  rw [List.length_take] at h
  omega

theorem length_le_layout_of_mem {c : List α} {cs : List (List α)} (h : c ∈ cs) :
    c.length ≤ (layout a pad cs).length := by
  induction cs with
  | nil => cases h
  | cons d cs ih =>
    rcases List.mem_cons.1 h with rfl | h
    · exact length_le_layout c cs
    · have htail : ((layout a pad (d :: cs)).drop (roundUp a d.length)).length = (layout a pad cs).length :=
        congrArg _ (drop_layout d cs)
      have hc := ih h
      rw [List.length_drop] at htail
      omega

theorem roundUp_le_layout (c d : List α) (cs : List (List α)) :
    roundUp a c.length ≤ (layout a pad (c :: d :: cs)).length := by
  rw [layout, List.length_append, length_padded]
  exact Nat.le_add_right _ _

end Lib
