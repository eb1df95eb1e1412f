import Chromium.Lib.BigEndian

/-!
# Numbers of variable width

Such a number says its width itself: of its `7 * w + 1` lowest bits the highest one, the marker, is set, and no bit above
it.  Only the first byte tells the width (`isVint_cons_iff`), as the number of zero bits in front of the marker.
-/

namespace Lib

/-- **A number of variable width**: the marker is its highest bit. -/
structure IsVint (v : List UInt8) : Prop where
  ne_nil : v ≠ []
  marker_le : 2 ^ (7 * v.length) ≤ beNat v
  lt : beNat v < 2 ^ (7 * v.length + 1)

def vintValue (v : List UInt8) : ℕ := beNat v - 2 ^ (7 * v.length)

variable {b : UInt8} {rest : List UInt8}

theorem beNat_cons (b : UInt8) (rest : List UInt8) :
    beNat (b :: rest) = b.toNat * 256 ^ rest.length + beNat rest := by
  have h := beNat_append [b] rest
  rw [show beNat [b] = b.toNat by simp [beNat], List.singleton_append] at h
  exact h

theorem marker_eq {k : ℕ} (hk : k ≤ 7) : 2 ^ (7 * (k + 1)) = 2 ^ (7 - k) * 256 ^ k := by
  rw [show 256 = 2 ^ 8 from rfl, ← pow_mul, ← pow_add]
  congr 1
  omega

theorem isVint_cons_iff (hrest : rest.length ≤ 7) :
    IsVint (b :: rest) ↔ b.toNat / 2 ^ (7 - rest.length) = 1 := by
  have hlt : beNat rest < 256 ^ rest.length := beNat_lt rest
  have hpos : 0 < 2 ^ (7 - rest.length) := Nat.pow_pos (by decide)
  have hdiv : beNat (b :: rest) / 256 ^ rest.length = b.toNat := by
    rw [beNat_cons, Nat.mul_comm, Nat.mul_add_div (by omega), Nat.div_eq_of_lt hlt, Nat.add_zero]
  have hle : 2 ^ (7 * (b :: rest).length) ≤ beNat (b :: rest) ↔ 2 ^ (7 - rest.length) ≤ b.toNat := by
    rw [List.length_cons, marker_eq hrest, ← Nat.le_div_iff_mul_le (by omega), hdiv]
  have hupper : beNat (b :: rest) < 2 ^ (7 * (b :: rest).length + 1) ↔ b.toNat < 2 * 2 ^ (7 - rest.length) := by
    rw [List.length_cons, pow_succ, marker_eq hrest, Nat.mul_right_comm, ← Nat.div_lt_iff_lt_mul (by omega), hdiv,
      Nat.mul_comm]
  have hone : b.toNat / 2 ^ (7 - rest.length) = 1 ↔
      2 ^ (7 - rest.length) ≤ b.toNat ∧ b.toNat < 2 * 2 ^ (7 - rest.length) := by
    rw [Nat.div_eq_iff hpos]
    omega
  rw [hone]
  exact ⟨fun h => ⟨hle.1 h.marker_le, hupper.1 h.lt⟩, fun h => ⟨List.cons_ne_nil b rest, hle.2 h.1, hupper.2 h.2⟩⟩

theorem vintValue_cons (hrest : rest.length ≤ 7) (hb : 2 ^ (7 - rest.length) ≤ b.toNat) :
    vintValue (b :: rest) = (b.toNat - 2 ^ (7 - rest.length)) * 256 ^ rest.length + beNat rest := by
  have hmul : 2 ^ (7 - rest.length) * 256 ^ rest.length ≤ b.toNat * 256 ^ rest.length :=
    Nat.mul_le_mul_right _ hb
  rw [vintValue, List.length_cons, marker_eq hrest, beNat_cons, Nat.sub_mul]
  omega

end Lib
