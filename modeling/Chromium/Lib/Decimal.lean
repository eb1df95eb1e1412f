import Mathlib.Data.Nat.Digits.Defs

/-!
# Numbers in decimal

`decimal` and `decimalInt` write a number, and `decimalValue` is the number that digits stand for.
The digits that are written stand for the number (`decimalValue_decimal`).
-/

namespace Lib

def isDecimalDigit (c : UInt8) : Bool := 48 ≤ c && c ≤ 57

def decimalDigit (d : ℕ) : UInt8 := UInt8.ofNat (48 + d)

def decimal (n : ℕ) : List UInt8 :=
  if n = 0 then [48] else (Nat.digits 10 n).reverse.map decimalDigit

def decimalInt (n : ℤ) : List UInt8 := if n < 0 then 45 :: decimal n.natAbs else decimal n.natAbs

def decimalValue (digits : List UInt8) : ℕ := digits.foldl (fun n c => c.toNat - 48 + 10 * n) 0

theorem toNat_decimalDigit {d : ℕ} (hd : d < 10) : (decimalDigit d).toNat = 48 + d := by
  rw [decimalDigit, UInt8.toNat_ofNat']
  omega

theorem isDecimalDigit_decimalDigit {d : ℕ} (hd : d < 10) : isDecimalDigit (decimalDigit d) = true := by
  have hvalue := toNat_decimalDigit hd
  simp only [isDecimalDigit, Bool.and_eq_true, decide_eq_true_eq, UInt8.le_iff_toNat_le]
  rw [hvalue]
  exact ⟨Nat.le_add_right 48 d, by show 48 + d ≤ 57; omega⟩

theorem isDecimalDigit_of_mem {n : ℕ} {c : UInt8} (hc : c ∈ decimal n) : isDecimalDigit c = true := by
  unfold decimal at hc
  split at hc
  · obtain rfl := List.mem_singleton.1 hc
    rfl
  · obtain ⟨d, hd, rfl⟩ := List.mem_map.1 hc
    exact isDecimalDigit_decimalDigit (Nat.digits_lt_base (by omega) (List.mem_reverse.1 hd))

theorem decimal_ne_nil (n : ℕ) : decimal n ≠ [] := by
  unfold decimal
  split
  · exact List.cons_ne_nil _ _
  · rename_i hn
    simpa [Nat.digits_eq_nil_iff_eq_zero] using hn

theorem decimalValue_map_reverse {digits : List ℕ} (hdigits : ∀ d ∈ digits, d < 10) :
    decimalValue (digits.reverse.map decimalDigit) = Nat.ofDigits 10 digits := by
  rw [decimalValue, List.foldl_map, List.foldl_reverse]
  induction digits with
  | nil => rfl
  | cons d digits ih =>
    have hd := toNat_decimalDigit (hdigits d List.mem_cons_self)
    rw [List.foldr_cons, ih fun d' hd' => hdigits d' (List.mem_cons_of_mem _ hd'), Nat.ofDigits_cons,
      hd, Nat.add_sub_cancel_left]

theorem decimalValue_decimal (n : ℕ) : decimalValue (decimal n) = n := by
  unfold decimal
  split
  · rename_i hn
    rw [hn]
    rfl
  · rw [decimalValue_map_reverse fun d hd => Nat.digits_lt_base (by omega) hd, Nat.ofDigits_digits]

theorem lt_pow_length_decimal (n : ℕ) : n < 10 ^ (decimal n).length := by
  unfold decimal
  split
  · rename_i hn
    rw [hn]
    exact Nat.pow_pos (by omega)
  · rw [List.length_map, List.length_reverse]
    exact Nat.lt_base_pow_length_digits (by omega)

theorem decimalInt_natCast (n : ℕ) : decimalInt n = decimal n := by
  rw [decimalInt, if_neg (by omega), Int.natAbs_natCast]

theorem decimalInt_ne_nil (n : ℤ) : decimalInt n ≠ [] := by
  unfold decimalInt
  split
  · exact List.cons_ne_nil _ _
  · exact decimal_ne_nil _

end Lib
