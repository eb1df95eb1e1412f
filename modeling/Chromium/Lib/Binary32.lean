import Mathlib.Algebra.Order.Field.Basic
import Mathlib.Algebra.Order.Field.Power
import Mathlib.Algebra.Order.Field.Rat
import Mathlib.Tactic.FieldSimp
import Mathlib.Tactic.Ring

/-!
# Single precision

A positive number of single precision is a whole number of 24 bits times a power of two.  `ofFraction` is the
one nearest to a fraction, and of two equally near ones the even one.  The numbers that are too small or too
large for the exponent of the format do not occur here.  Rounding keeps the order (`value_ofFraction_mono`,
`value_div_mono`).
-/

namespace Lib

/-- The whole number nearest to `a / b`. -/
def roundDiv (a b : ℕ) : ℕ :=
  if 2 * (a % b) < b ∨ 2 * (a % b) = b ∧ a / b % 2 = 0 then a / b else a / b + 1

theorem div_le_roundDiv (a b : ℕ) : a / b ≤ roundDiv a b := by
  unfold roundDiv
  split
  · exact Nat.le_refl _
  · exact Nat.le_succ _

theorem roundDiv_le (a b : ℕ) : roundDiv a b ≤ a / b + 1 := by
  unfold roundDiv
  split
  · exact Nat.le_succ _
  · exact Nat.le_refl _

theorem roundDiv_one (a : ℕ) : roundDiv a 1 = a := by
  rw [roundDiv, Nat.mod_one, Nat.div_one, if_pos (.inl Nat.zero_lt_one)]

theorem roundDiv_mono {a b c d : ℕ} (hb : 0 < b) (hd : 0 < d) (h : (a : ℚ) / b ≤ c / d) : roundDiv a b ≤ roundDiv c d := by
  have h : a * d ≤ c * b := by
    rw [div_le_div_iff₀ (Nat.cast_pos.2 hb) (Nat.cast_pos.2 hd)] at h
    exact_mod_cast h
  have hfloor : a / b ≤ c / d := by
    rw [Nat.le_div_iff_mul_le hd]
    refine Nat.le_of_mul_le_mul_right ?_ hb
    calc a / b * d * b = a / b * b * d := Nat.mul_right_comm _ _ _
      _ ≤ a * d := Nat.mul_le_mul_right d (Nat.div_mul_le_self a b)
      _ ≤ c * b := h
  rcases Nat.lt_or_eq_of_le hfloor with hlt | heq
  · exact (roundDiv_le a b).trans (hlt.trans_le (div_le_roundDiv c d))
  · have hrest : 2 * (a % b) * d ≤ 2 * (c % d) * b := by
      rw [← Nat.div_add_mod a b, ← Nat.div_add_mod c d, heq, Nat.add_mul, Nat.add_mul, Nat.mul_right_comm b, Nat.mul_comm b,
        Nat.mul_assoc, Nat.mul_assoc, Nat.mul_comm b] at h
      rw [Nat.mul_assoc, Nat.mul_assoc]
      exact Nat.mul_le_mul_left 2 (Nat.le_of_add_le_add_left h)
    unfold roundDiv
    rw [heq]
    by_cases hdown : 2 * (c % d) < d ∨ 2 * (c % d) = d ∧ c / d % 2 = 0
    · rw [if_pos hdown, if_pos]
      rcases hdown with hlt | ⟨hhalf, heven⟩
      · have hlt' : 2 * (a % b) * d < b * d := hrest.trans_lt (Nat.mul_comm b d ▸ Nat.mul_lt_mul_of_pos_right hlt hb)
        exact .inl (Nat.lt_of_mul_lt_mul_right hlt')
      · rw [hhalf, Nat.mul_comm d b] at hrest
        have hle := Nat.le_of_mul_le_mul_right hrest hd
        exact (Nat.lt_or_eq_of_le hle).imp_right fun heq => ⟨heq, heven⟩
    · rw [if_neg hdown]
      split
      · exact Nat.le_succ _
      · exact Nat.le_refl _

/-- `mantissa * 2 ^ exponent`. -/
structure Binary32 where
  mantissa : ℕ
  exponent : ℤ
  deriving DecidableEq, Repr

namespace Binary32

/-- The number nearest to `a / b`. -/
def ofFraction (a b : ℕ) : Binary32 :=
  if a = 0 then ⟨0, 0⟩
  else
    -- the exponent of `a / b` is the difference of those of `a` and `b`, or one less
    let e : ℤ := (Nat.log2 a : ℤ) - Nat.log2 b
    let e := if a * 2 ^ (-e).toNat < b * 2 ^ e.toNat then e - 1 else e
    ⟨roundDiv (a * 2 ^ (23 - e).toNat) (b * 2 ^ (e - 23).toNat), e - 23⟩

def div (x y : Binary32) : Binary32 :=
  ofFraction (x.mantissa * 2 ^ (x.exponent - y.exponent).toNat)
    (y.mantissa * 2 ^ (y.exponent - x.exponent).toNat)

def lt (x y : Binary32) : Bool :=
  x.mantissa * 2 ^ (x.exponent - y.exponent).toNat < y.mantissa * 2 ^ (y.exponent - x.exponent).toNat

-- the nearest number to 0.2, and a quotient that is rounded
example : ofFraction 1 5 = ⟨13421773, -26⟩ := by decide
example : div (ofFraction 1 1) (ofFraction 3 1) = ⟨11184811, -25⟩ := by decide

/-! ### The order -/

def value (x : Binary32) : ℚ := x.mantissa * 2 ^ x.exponent

theorem two_pow_toNat (k : ℤ) : (2 : ℚ) ^ k.toNat = 2 ^ k * 2 ^ (-k).toNat := by
  rcases Int.le_total 0 k with hk | hk
  · obtain ⟨n, rfl⟩ := Int.eq_ofNat_of_zero_le hk
    simp
  · obtain ⟨n, hn⟩ := Int.eq_ofNat_of_zero_le (Int.neg_nonneg.2 hk)
    obtain rfl : k = -n := by omega
    simp

theorem div_two_pow (a b : ℕ) (k : ℤ) :
    ((a * 2 ^ k.toNat : ℕ) : ℚ) / (b * 2 ^ (-k).toNat : ℕ) = a / b * 2 ^ k := by
  have hpos : (2 : ℚ) ^ (-k).toNat ≠ 0 := pow_ne_zero _ two_ne_zero
  push_cast
  rw [two_pow_toNat, ← mul_assoc, mul_div_mul_right _ _ hpos, mul_div_right_comm]

theorem lt_iff (x y : Binary32) : x.lt y = true ↔ x.value < y.value := by
  have hsum : (2 : ℚ) ^ x.exponent = 2 ^ (x.exponent - y.exponent) * 2 ^ y.exponent := by
    rw [← zpow_add₀ two_ne_zero, Int.sub_add_cancel]
  have hpos : (0 : ℚ) < 2 ^ (y.exponent - x.exponent).toNat := pow_pos two_pos _
  have hpos' : (0 : ℚ) < 2 ^ y.exponent := zpow_pos two_pos _
  have hpow := two_pow_toNat (x.exponent - y.exponent)
  rw [Int.neg_sub] at hpow
  unfold lt value
  rw [decide_eq_true_eq, hsum, ← mul_assoc, mul_lt_mul_iff_left₀ hpos', ← mul_lt_mul_iff_left₀ hpos, mul_assoc, ← hpow]
  exact_mod_cast Iff.rfl

theorem exists_ofFraction {a b : ℕ} (ha : 0 < a) (hb : 0 < b) : ∃ e : ℤ, (2 : ℚ) ^ e ≤ (a : ℚ) / b ∧ (a : ℚ) / b < 2 ^ (e + 1) ∧
    ofFraction a b = ⟨roundDiv (a * 2 ^ (23 - e).toNat) (b * 2 ^ (e - 23).toNat), e - 23⟩ := by
  have hpos : (0 : ℚ) < b := Nat.cast_pos.2 hb
  have hlog : ∀ {n : ℕ}, 0 < n → (2 : ℚ) ^ (Nat.log2 n : ℤ) ≤ n ∧ (n : ℚ) < 2 ^ (Nat.log2 n + 1 : ℤ) := by
    intro n hn
    have hle := Nat.log2_self_le hn.ne'
    have hlt := Nat.lt_log2_self (n := n)
    exact ⟨by exact_mod_cast hle, by exact_mod_cast hlt⟩
  obtain ⟨hale, halt⟩ := hlog ha
  obtain ⟨hble, hblt⟩ := hlog hb
  rw [ofFraction, if_neg ha.ne']
  dsimp only
  generalize (Nat.log2 a : ℤ) = m at *
  generalize (Nat.log2 b : ℤ) = n at *
  have hcomp : a * 2 ^ (-(m - n)).toNat < b * 2 ^ (m - n).toNat ↔ (a : ℚ) / b < 2 ^ (m - n) := by
    have hdiv := div_two_pow a b (-(m - n))
    rw [Int.neg_neg] at hdiv
    have hden : (0 : ℚ) < (b * 2 ^ (m - n).toNat : ℕ) := Nat.cast_pos.2 (Nat.mul_pos hb (Nat.two_pow_pos _))
    have hone : (1 : ℚ) = 2 ^ (-(m - n)) * 2 ^ (m - n) := by rw [← zpow_add₀ two_ne_zero, Int.add_left_neg, zpow_zero]
    rw [← Nat.cast_lt (α := ℚ), ← div_lt_one hden, hdiv, hone, mul_comm, mul_lt_mul_iff_right₀ (zpow_pos two_pos _)]
  have hupper : (a : ℚ) / b < 2 ^ (m - n + 1) := by
    rw [div_lt_iff₀ hpos]
    refine halt.trans_le ?_
    rw [show m + 1 = m - n + 1 + n by omega, zpow_add₀ two_ne_zero]
    exact mul_le_mul_of_nonneg_left hble (zpow_nonneg zero_le_two _)
  have hlower : (2 : ℚ) ^ (m - n - 1) ≤ a / b := by
    rw [le_div_iff₀ hpos]
    refine le_trans ?_ hale
    rw [show m = m - n - 1 + (n + 1) by omega, zpow_add₀ two_ne_zero]
    refine (mul_le_mul_of_nonneg_left hblt.le (zpow_nonneg zero_le_two _)).trans_eq ?_
    congr 2
    omega
  split
  · next hlt => exact ⟨_, hlower, by rw [Int.sub_add_cancel]; exact hcomp.1 hlt, rfl⟩
  · next hge => exact ⟨_, not_lt.1 (mt hcomp.2 hge), hupper, rfl⟩

theorem value_ofFraction_nonneg (a b : ℕ) : 0 ≤ (ofFraction a b).value :=
  mul_nonneg (Nat.cast_nonneg _) (zpow_nonneg zero_le_two _)

theorem value_ofFraction_mono {a b c d : ℕ} (hb : 0 < b) (hd : 0 < d) (h : (a : ℚ) / b ≤ c / d) :
    (ofFraction a b).value ≤ (ofFraction c d).value := by
  rcases Nat.eq_zero_or_pos a with rfl | ha
  · refine le_of_eq_of_le ?_ (value_ofFraction_nonneg c d)
    simp [ofFraction, value]
  · have hc : 0 < c := by
      have hpos : (0 : ℚ) < a / b := div_pos (Nat.cast_pos.2 ha) (Nat.cast_pos.2 hb)
      rcases Nat.eq_zero_or_pos c with rfl | hc
      · rw [Nat.cast_zero, zero_div] at h
        exact absurd hpos h.not_gt
      · exact hc
    obtain ⟨e, hle, hlt, heq⟩ := exists_ofFraction ha hb
    obtain ⟨e', hle', hlt', heq'⟩ := exists_ofFraction hc hd
    have hscale := fun (a b : ℕ) (e : ℤ) => div_two_pow a b (23 - e)
    simp only [Int.neg_sub] at hscale
    have hpow : ∀ k : ℤ, (0 : ℚ) < 2 ^ k := zpow_pos two_pos
    have hden : ∀ {b k : ℕ}, 0 < b → 0 < b * 2 ^ k := fun hb => Nat.mul_pos hb (Nat.two_pow_pos _)
    rw [heq, heq']
    dsimp only [value]
    have he : e ≤ e' := by
      have hexp := (zpow_lt_zpow_iff_right₀ one_lt_two).1 ((hle.trans h).trans_lt hlt')
      omega
    rcases he.eq_or_lt with rfl | he
    · refine mul_le_mul_of_nonneg_right (Nat.cast_le.2 (roundDiv_mono (hden hb) (hden hd) ?_)) (hpow _).le
      rw [hscale, hscale]
      exact mul_le_mul_of_nonneg_right h (hpow _).le
    · -- the power of two between them
      calc _ ≤ ((2 ^ 24 : ℕ) : ℚ) * 2 ^ (e - 23) := by
            refine mul_le_mul_of_nonneg_right (Nat.cast_le.2 ?_) (hpow _).le
            rw [← roundDiv_one (2 ^ 24)]
            refine roundDiv_mono (hden hb) one_pos ?_
            rw [hscale]
            refine (mul_le_mul_of_nonneg_right hlt.le (hpow _).le).trans_eq ?_
            rw [← zpow_add₀ two_ne_zero, show e + 1 + (23 - e) = 24 by omega]
            norm_num
        _ ≤ ((2 ^ 23 : ℕ) : ℚ) * 2 ^ (e' - 23) := by
            rw [Nat.cast_pow, Nat.cast_pow, Nat.cast_two, ← zpow_natCast, ← zpow_natCast, ← zpow_add₀ two_ne_zero,
              ← zpow_add₀ two_ne_zero]
            exact zpow_le_zpow_right₀ one_le_two (by omega)
        _ ≤ _ := by
            refine mul_le_mul_of_nonneg_right (Nat.cast_le.2 ?_) (hpow _).le
            rw [← roundDiv_one (2 ^ 23)]
            refine roundDiv_mono one_pos (hden hd) ?_
            rw [hscale]
            refine le_trans (le_of_eq ?_) (mul_le_mul_of_nonneg_right hle' (hpow _).le)
            rw [← zpow_add₀ two_ne_zero, show e' + (23 - e') = 23 by omega]
            norm_num

theorem value_div_mono {x x' y : Binary32} (hy : 0 < y.mantissa) (h : x.value ≤ x'.value) :
    (x.div y).value ≤ (x'.div y).value := by
  have hquot : ∀ z : Binary32, ((z.mantissa * 2 ^ (z.exponent - y.exponent).toNat : ℕ) : ℚ) /
      (y.mantissa * 2 ^ (y.exponent - z.exponent).toNat : ℕ) = z.value * (2 ^ (-y.exponent) / y.mantissa) := by
    intro z
    have hdiv := div_two_pow z.mantissa y.mantissa (z.exponent - y.exponent)
    rw [Int.neg_sub] at hdiv
    rw [hdiv, value, Int.sub_eq_add_neg, zpow_add₀ two_ne_zero]
    ring
  refine value_ofFraction_mono (Nat.mul_pos hy (Nat.two_pow_pos _)) (Nat.mul_pos hy (Nat.two_pow_pos _)) ?_
  rw [hquot, hquot]
  exact mul_le_mul_of_nonneg_right h (div_nonneg (zpow_nonneg zero_le_two _) (Nat.cast_nonneg _))

end Binary32

end Lib
