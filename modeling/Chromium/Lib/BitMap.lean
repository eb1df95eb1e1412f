import Mathlib.Data.Nat.Bitwise

/-!
# Bitmaps in words

A bitmap is an array of 32-bit words, `ℕ → BitVec 32`, that can also be read and written byte
by byte, the lowest byte of a word first.  `bit m i` is the bit at position `i` of the map.

* `bit_orMask`: setting a stretch of bits inside a word;
* `bit_setByte`, `getLsbD_byteAt`: a byte that is written, and one that is read.
-/

namespace Lib

/-- `(1 << n) - 1`. -/
def lowMask (w n : ℕ) : BitVec w := (1#w <<< n) - 1#w

theorem getLsbD_lowMask {w n : ℕ} (h : n < w) (i : ℕ) : (lowMask w n).getLsbD i = decide (i < n) := by
  have hw : 1 < 2 ^ w := Nat.one_lt_two_pow (by omega)
  have hlt : 2 ^ n < 2 ^ w := Nat.pow_lt_pow_right (by omega) h
  have hpos : 0 < 2 ^ n := Nat.two_pow_pos n
  have hnat : (lowMask w n).toNat = 2 ^ n - 1 := by
    rw [lowMask, BitVec.toNat_sub, BitVec.toNat_shiftLeft, BitVec.toNat_ofNat, Nat.mod_eq_of_lt hw,
      Nat.one_shiftLeft, Nat.mod_eq_of_lt hlt]
    rw [show 2 ^ w - 1 + 2 ^ n = (2 ^ n - 1) + 2 ^ w by omega, Nat.add_mod_right, Nat.mod_eq_of_lt (by omega)]
  rw [BitVec.getLsbD, hnat, Nat.testBit_two_pow_sub_one]

/-- A bitmap. -/
abbrev BitMap := ℕ → BitVec 32

variable {m : BitMap} {i n o c b : ℕ}

def bit (m : BitMap) (i : ℕ) : Bool := (m (i / 32)).getLsbD (i % 32)

def orMask (m : BitMap) (c n o : ℕ) : BitMap := Function.update m c (m c ||| lowMask 32 n <<< o)

theorem bit_orMask (hn : n < 32) (ho : o + n ≤ 32) :
    bit (orMask m c n o) i = (bit m i || (32 * c + o ≤ i && i < 32 * c + o + n)) := by
  unfold bit orMask
  by_cases hc : i / 32 = c
  · rw [hc, Function.update_self, BitVec.getLsbD_or, BitVec.getLsbD_shiftLeft, getLsbD_lowMask hn]
    congr 1
    rw [Bool.eq_iff_iff]
    simp only [Bool.and_eq_true, Bool.not_eq_true', decide_eq_true_eq, decide_eq_false_iff_not]
    omega
  · rw [Function.update_of_ne hc]
    have hout : (32 * c + o ≤ i && i < 32 * c + o + n) = false := by
      simp only [Bool.and_eq_false_imp, decide_eq_true_eq, decide_eq_false_iff_not]
      omega
    rw [hout, Bool.or_false]

def byteAt (m : BitMap) (b : ℕ) : BitVec 8 := (m (b / 4) >>> (8 * (b % 4))).setWidth 8

theorem getLsbD_byteAt {k : ℕ} (hk : k < 8) : (byteAt m b).getLsbD k = bit m (8 * b + k) := by
  unfold byteAt bit
  rw [BitVec.getLsbD_setWidth, BitVec.getLsbD_ushiftRight, decide_eq_true hk, Bool.true_and]
  congr 1
  · congr 1
    omega
  · omega

def setByte (m : BitMap) (b : ℕ) (v : BitVec 8) : BitMap :=
  Function.update m (b / 4)
    ((m (b / 4) &&& ~~~(255#32 <<< (8 * (b % 4)))) ||| v.setWidth 32 <<< (8 * (b % 4)))

theorem bit_setByte {v : BitVec 8} :
    bit (setByte m b v) i = if i / 8 = b then v.getLsbD (i % 8) else bit m i := by
  unfold bit setByte
  have hmask : (255#32 : BitVec 32) = lowMask 32 8 := by decide
  by_cases hc : i / 32 = b / 4
  · rw [hc, Function.update_self, BitVec.getLsbD_or, BitVec.getLsbD_and, BitVec.getLsbD_not,
      BitVec.getLsbD_shiftLeft, BitVec.getLsbD_shiftLeft, hmask, getLsbD_lowMask (by decide),
      BitVec.getLsbD_setWidth]
    by_cases hb : i / 8 = b
    · have h1 : ¬ i % 32 < 8 * (b % 4) := by omega
      have h2 : i % 32 - 8 * (b % 4) = i % 8 := by omega
      have h3 : i % 8 < 8 := by omega
      have h4 : i % 32 < 32 := by omega
      have h5 : i % 8 < 32 := by omega
      simp [hb, h1, h2, h3, h4, h5]
    · rw [if_neg hb]
      by_cases h1 : i % 32 < 8 * (b % 4)
      · have h4 : i % 32 < 32 := by omega
        simp [h1, h4]
      · have h2 : ¬ i % 32 - 8 * (b % 4) < 8 := by omega
        have h4 : i % 32 < 32 := by omega
        have h5 : v.getLsbD (i % 32 - 8 * (b % 4)) = false := BitVec.getLsbD_of_ge _ _ (by omega)
        simp [h1, h2, h4, h5]
  · have hb : ¬ i / 8 = b := by omega
    rw [Function.update_of_ne hc, if_neg hb]

end Lib
