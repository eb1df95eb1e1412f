import Chromium.Base.StringNumberConversions
import Mathlib.Data.Nat.Digits.Defs

/-!
# Numbers in hexadecimal

`base/stringprintf.cc`: the conversion `%X` of `StringPrintf`.
-/

namespace Chromium.Base

/-- A digit of `%X`. -/
def upperHexDigit (n : ℕ) : UInt8 := UInt8.ofNat (if n < 10 then 48 + n else 55 + n)

/-- `StringPrintf("%X", n)`. -/
def upperHex (n : ℕ) : List UInt8 := if n = 0 then [48] else (Nat.digits 16 n).reverse.map upperHexDigit

theorem upperHexDigit_mem : ∀ n < 16, upperHexDigit n ∈ hexDigits := by decide

theorem digitValue_upperHexDigit : ∀ n < 16, digitValue (upperHexDigit n) = n := by decide

theorem hexValue_append (digits : List UInt8) (c : UInt8) :
    hexValue (digits ++ [c]) = hexValue digits * 16 + digitValue c := by
  rw [hexValue, hexValueFrom, List.foldl_append]
  rfl

theorem hexValue_digits (n : ℕ) : hexValue ((Nat.digits 16 n).reverse.map upperHexDigit) = n := by
  induction n using Nat.strong_induction_on with
  | _ n ih =>
    rcases Nat.eq_zero_or_pos n with rfl | hpos
    · rw [Nat.digits_zero]
      rfl
    · rw [Nat.digits_def' (by decide) hpos, List.reverse_cons, List.map_append, List.map_singleton, hexValue_append,
        ih (n / 16) (by omega), digitValue_upperHexDigit _ (Nat.mod_lt _ (by decide))]
      omega

theorem hexValue_upperHex (n : ℕ) : hexValue (upperHex n) = n := by
  rw [upperHex]
  split
  · subst n
    decide
  · exact hexValue_digits n

theorem upperHex_mem (n : ℕ) : ∀ c ∈ upperHex n, c ∈ hexDigits := by
  rw [upperHex]
  split
  · exact fun c hc => List.mem_singleton.1 hc ▸ upperHexDigit_mem 0 (by decide)
  · intro c hc
    obtain ⟨d, hd, rfl⟩ := List.mem_map.1 hc
    exact upperHexDigit_mem d (Nat.digits_lt_base (by decide) (List.mem_reverse.1 hd))

end Chromium.Base
