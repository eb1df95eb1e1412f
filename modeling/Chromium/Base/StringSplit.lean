import Chromium.Base.StringNumberConversions
import Chromium.Lib.Decimal
import Mathlib.Data.List.DropRight

/-!
# Parts of a line

`base/string_split.cc`: `SplitString` cuts a string at a character and trims the parts.  `atoi` is the
function of the C library, on a machine whose `long` has 32 bits.

Numbers and words are read as they were written between colons (`splitString_intercalate`,
`atoi_decimalInt`).
-/

namespace Chromium.Base

open Lib

def trimWhitespace (s : List UInt8) : List UInt8 := (s.dropWhile isSpace).rdropWhile isSpace

def splitString (str : List UInt8) (c : UInt8) : List (List UInt8) :=
  (str.splitOn c).map trimWhitespace

/-- The number that `strtol` reads: after white space a sign, and digits. -/
def signedValue (s : List UInt8) : ℤ :=
  match s.dropWhile isSpace with
  | 45 :: rest => -(decimalValue (rest.takeWhile isDecimalDigit) : ℤ)
  | 43 :: rest => decimalValue (rest.takeWhile isDecimalDigit)
  | rest => decimalValue (rest.takeWhile isDecimalDigit)

def atoi (s : List UInt8) : ℤ := max (-2147483648) (min 2147483647 (signedValue s))

variable {s : List UInt8} {c : UInt8}

theorem trimWhitespace_eq_self (h : ∀ x ∈ s, isSpace x = false) : trimWhitespace s = s := by
  have hdrop : s.dropWhile isSpace = s := by
    cases s with
    | nil => rfl
    | cons x s => rw [List.dropWhile_cons_of_neg (by simp [h x List.mem_cons_self])]
  rw [trimWhitespace, hdrop, List.rdropWhile_eq_self_iff]
  intro hne
  simp [h _ (List.getLast_mem hne)]

/-- **Parts without the character and without white space** are read as they were written. -/
theorem splitString_intercalate {parts : List (List UInt8)} (hne : parts ≠ [])
    (hc : ∀ part ∈ parts, c ∉ part) (hspace : ∀ part ∈ parts, ∀ x ∈ part, isSpace x = false) :
    splitString ([c].intercalate parts) c = parts := by
  rw [splitString, List.splitOn_intercalate c hc hne, List.map_congr_left (g := id)]
  · exact List.map_id _
  · exact fun part hpart => trimWhitespace_eq_self (hspace part hpart)

theorem not_isSpace_of_isDecimalDigit (h : isDecimalDigit c = true) : isSpace c = false := by
  simp only [isDecimalDigit, Bool.and_eq_true, decide_eq_true_eq, UInt8.le_iff_toNat_le] at h
  have h48 : 48 ≤ c.toNat := h.1
  have hne : c ≠ 32 := by
    rintro rfl
    exact absurd h48 (by decide)
  have hgt : ¬ c ≤ 13 := by
    rw [UInt8.le_iff_toNat_le]
    show ¬ c.toNat ≤ 13
    omega
  simp [isSpace, hne, hgt]

theorem of_mem_decimalInt {n : ℤ} (hc : c ∈ decimalInt n) : c = 45 ∨ isDecimalDigit c = true := by
  unfold decimalInt at hc
  split at hc
  · exact (List.mem_cons.1 hc).imp_right isDecimalDigit_of_mem
  · exact .inr (isDecimalDigit_of_mem hc)

theorem dropWhile_isSpace_decimal (n : ℕ) : (decimal n).dropWhile isSpace = decimal n := by
  obtain ⟨c, cs, hcs⟩ := List.exists_cons_of_ne_nil (decimal_ne_nil n)
  have hc : isDecimalDigit c = true := isDecimalDigit_of_mem (hcs ▸ List.mem_cons_self)
  rw [hcs, List.dropWhile_cons_of_neg (by simp [not_isSpace_of_isDecimalDigit hc])]

theorem signedValue_decimal (n : ℕ) : signedValue (decimal n) = n := by
  have hdigits : (decimal n).takeWhile isDecimalDigit = decimal n :=
    List.takeWhile_eq_self_iff.2 fun c hc => isDecimalDigit_of_mem hc
  rw [signedValue, dropWhile_isSpace_decimal]
  split
  · rename_i rest hrest
    have hminus : isDecimalDigit 45 = true := isDecimalDigit_of_mem (n := n) (by simp [hrest])
    cases hminus
  · rename_i rest hrest
    have hplus : isDecimalDigit 43 = true := isDecimalDigit_of_mem (n := n) (by simp [hrest])
    cases hplus
  · rw [hdigits, decimalValue_decimal]

theorem signedValue_decimalInt (n : ℤ) : signedValue (decimalInt n) = n := by
  unfold decimalInt
  split
  · have hdigits : (decimal n.natAbs).takeWhile isDecimalDigit = decimal n.natAbs :=
      List.takeWhile_eq_self_iff.2 fun c hc => isDecimalDigit_of_mem hc
    show -(decimalValue ((decimal n.natAbs).takeWhile isDecimalDigit) : ℤ) = n
    rw [hdigits, decimalValue_decimal]
    omega
  · rw [signedValue_decimal]
    omega

theorem atoi_decimalInt {n : ℤ} (h0 : -2147483648 ≤ n) (h1 : n < 2147483648) :
    atoi (decimalInt n) = n := by
  rw [atoi, signedValue_decimalInt]
  omega

end Chromium.Base
