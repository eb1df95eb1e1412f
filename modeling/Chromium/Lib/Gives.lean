import Mathlib.Tactic.TypeStar

/-!
# Computations that make no error

`Gives P x` says that a computation which may make an error makes none, and that its result satisfies `P`.  The rules
follow how a computation is built: what comes second may use what the first gives (`Gives.bind`).  `Ends E P x` is weaker:
an error it makes satisfies `E`.
-/

namespace Lib

universe u

variable {ε : Type*} {α β : Type u} {P : α → Prop} {Q : β → Prop} {x : Except ε α}

/-- The computation has a result, and it satisfies `P`. -/
def Gives (P : α → Prop) (x : Except ε α) : Prop := ∃ a, x = .ok a ∧ P a

theorem Gives.ok {a : α} (h : P a) : Gives P (.ok a : Except ε α) := ⟨a, rfl, h⟩

theorem Gives.imp {P' : α → Prop} (h : Gives P x) (himp : ∀ a, P a → P' a) : Gives P' x := by
  obtain ⟨a, rfl, ha⟩ := h
  exact .ok (himp a ha)

theorem Gives.bind {f : α → Except ε β} (h : Gives P x) (hf : ∀ a, P a → Gives Q (f a)) : Gives Q (x >>= f) := by
  obtain ⟨a, rfl, ha⟩ := h
  exact hf a ha

theorem Gives.map {f : α → β} (h : Gives P x) (hf : ∀ a, P a → Q (f a)) : Gives Q (x.map f) := by
  obtain ⟨a, rfl, ha⟩ := h
  exact .ok (hf a ha)

/-- An error satisfies `E`, and a result `P`. -/
def Ends (E : ε → Prop) (P : α → Prop) : Except ε α → Prop
  | .ok a => P a
  | .error e => E e

variable {E : ε → Prop}

theorem Ends.imp {P' : α → Prop} (h : Ends E P x) (himp : ∀ a, P a → P' a) : Ends E P' x := by
  cases x with
  | ok a => exact himp a h
  | error e => exact h

theorem Ends.bind {f : α → Except ε β} (h : Ends E P x) (hf : ∀ a, P a → Ends E Q (f a)) : Ends E Q (x >>= f) := by
  cases x with
  | ok a => exact hf a h
  | error e => exact h

end Lib
