import Chromium.Lib.MachineInt

/-!
# Numbers from strings

`base/string_number_conversions.cc`: `IteratorRangeToNumber` for the type `int`, and
`HexStringToInt`.  The bound of the hexadecimal conversion is that of `unsigned int`, so
eight digits may go past the largest `int`; the value is then what a register of 32 bits
holds (`toInt32`).

`hexValue` is the number that a string of hexadecimal digits stands for.
-/

namespace Chromium.Base

open Lib

def charToDigit (base : ℕ) (c : UInt8) : Option ℕ :=
  if base ≤ 10 then
    if 48 ≤ c.toNat ∧ c.toNat < 48 + base then some (c.toNat - 48) else none
  else if 48 ≤ c.toNat ∧ c.toNat ≤ 57 then some (c.toNat - 48)
  else if 97 ≤ c.toNat ∧ c.toNat < 97 + base - 10 then some (c.toNat - 97 + 10)
  else if 65 ≤ c.toNat ∧ c.toNat < 65 + base - 10 then some (c.toNat - 65 + 10)
  else none

def isSpace (c : UInt8) : Bool := c = 32 || (9 ≤ c && c ≤ 13)

/-- `IteratorRangeToNumberTraits` for the value type `int`. -/
structure NumberTraits where
  min : ℤ
  max : ℤ
  base : ℕ

/-- `IteratorRangeToIntTraits`. -/
def intTraits : NumberTraits := ⟨-2147483648, 2147483647, 10⟩

/-- `HexIteratorRangeToIntTraits`. -/
def hexIntTraits : NumberTraits := ⟨-2147483648, 4294967295, 16⟩

/-- The template argument `Sign` of `Base`: when the next digit goes out of bounds, what
the output is then, and how a digit is added. -/
structure Sign where
  outOfBounds : ℤ → ℕ → Bool
  limit : ℤ
  increment : ℕ → ℤ → ℤ

def positive (traits : NumberTraits) : Sign where
  outOfBounds output digit :=
    toInt32 (traits.max / traits.base) < output ||
      (output == toInt32 (traits.max / traits.base) && traits.max % traits.base < digit)
  limit := traits.max
  increment digit output := output + digit

def negative (traits : NumberTraits) : Sign where
  outOfBounds output digit :=
    output < traits.min.tdiv traits.base ||
      (output == traits.min.tdiv traits.base && 0 - traits.min.tmod traits.base < digit)
  limit := traits.min
  increment digit output := output - digit

/-- The loop of `Base::Invoke`, with whether the digit is the first one. -/
def invokeDigits (base : ℕ) (sign : Sign) : Bool → ℤ → List UInt8 → Bool × ℤ
  | _, output, [] => (true, output)
  | first, output, c :: cs =>
    match charToDigit base c with
    | none => (false, output)
    | some digit =>
      if first then invokeDigits base sign false (toInt32 (sign.increment digit output)) cs
      else if sign.outOfBounds output digit then (false, toInt32 sign.limit)
      else
        invokeDigits base sign false
          (toInt32 (sign.increment digit (toInt32 (output * base)))) cs

/-- `Base::Invoke`. -/
def invokeSign (base : ℕ) (sign : Sign) (range : List UInt8) : Bool × ℤ :=
  if range.isEmpty then (false, 0)
  else if base = 16 ∧ 2 < range.length ∧ range.getD 0 0 = 48 ∧
      (range.getD 1 0 = 120 ∨ range.getD 1 0 = 88) then
    invokeDigits base sign true 0 (range.drop 2)
  else invokeDigits base sign true 0 range

/-- `IteratorRangeToNumber::Invoke`: whether the string is a number, and the output. -/
def iteratorRangeToNumber (traits : NumberTraits) (range : List UInt8) : Bool × ℤ :=
  let trimmed := range.dropWhile isSpace
  let valid := trimmed.length == range.length
  let r :=
    match trimmed with
    | 45 :: rest => invokeSign traits.base (negative traits) rest
    | 43 :: rest => invokeSign traits.base (positive traits) rest
    | rest => invokeSign traits.base (positive traits) rest
  (valid && r.1, r.2)

def stringToInt (input : List UInt8) : Bool × ℤ := iteratorRangeToNumber intTraits input

def hexStringToInt (input : List UInt8) : Bool × ℤ := iteratorRangeToNumber hexIntTraits input

/-! ### Strings of hexadecimal digits -/

/-- The characters `0123456789abcdefABCDEF`. -/
def hexDigits : List UInt8 :=
  [48, 49, 50, 51, 52, 53, 54, 55, 56, 57, 97, 98, 99, 100, 101, 102, 65, 66, 67, 68, 69, 70]

def digitValue (c : UInt8) : ℕ := (charToDigit 16 c).getD 0

def hexValueFrom (acc : ℕ) (digits : List UInt8) : ℕ :=
  digits.foldl (fun acc c => acc * 16 + digitValue c) acc

/-- **The number that a string of hexadecimal digits stands for.** -/
def hexValue (digits : List UInt8) : ℕ := hexValueFrom 0 digits

theorem forall_hexDigits {P : UInt8 → Prop} [DecidablePred P]
    (h : hexDigits.all (fun c => decide (P c)) = true) : ∀ c ∈ hexDigits, P c := by
  intro c hc
  exact of_decide_eq_true (List.all_eq_true.1 h c hc)

theorem charToDigit_of_mem : ∀ c ∈ hexDigits, charToDigit 16 c = some (digitValue c) :=
  forall_hexDigits (by decide +kernel)

end Chromium.Base
