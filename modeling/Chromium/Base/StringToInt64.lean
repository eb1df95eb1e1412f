import Chromium.Base.NumberStrings
import Chromium.Lib.Decimal

/-!
# Numbers of 64 bits from strings

`base/string_number_conversions.cc`: `IteratorRangeToNumber` for the type `int64`.  The bounds are looked at before a digit is
added, so no step wraps; at the bound the output stays there (`stringToInt64_of_decimal`).

`stringToInt64_iff`: **the strings that are numbers** are digits with or without a sign in front.  `numbers_spec`: the three
parsers can be fooled in one way only, and what `IntToString` and `Int64ToString` write is read again.
-/

namespace Chromium.Base

open Lib

/-- `std::numeric_limits<int64>::max()`. -/
def int64Max : ℤ := 9223372036854775807

/-- `std::numeric_limits<int64>::min()`. -/
def int64Min : ℤ := -9223372036854775808

/-- `Positive` for `int64`. -/
def positiveInt64 : Sign where
  outOfBounds output digit := int64Max / 10 < output || (output == int64Max / 10 && int64Max % 10 < digit)
  limit := int64Max
  increment digit output := output + digit

/-- `Negative` for `int64`. -/
def negativeInt64 : Sign where
  outOfBounds output digit :=
    output < int64Min.tdiv 10 || (output == int64Min.tdiv 10 && 0 - int64Min.tmod 10 < digit)
  limit := int64Min
  increment digit output := output - digit

/-- The loop of `Base::Invoke`, with whether the digit is the first one. -/
def invokeDigitsInt64 (sign : Sign) : Bool → ℤ → List UInt8 → Bool × ℤ
  | _, output, [] => (true, output)
  | first, output, c :: cs =>
    match charToDigit 10 c with
    | none => (false, output)
    | some digit =>
      if first then invokeDigitsInt64 sign false (sign.increment digit output) cs
      else if sign.outOfBounds output digit then (false, sign.limit)
      else invokeDigitsInt64 sign false (sign.increment digit (output * 10)) cs

/-- `Base::Invoke`. -/
def invokeInt64 (sign : Sign) (range : List UInt8) : Bool × ℤ :=
  if range.isEmpty then (false, 0) else invokeDigitsInt64 sign true 0 range

/-- `StringToInt64`: whether the string is a number, and the output. -/
def stringToInt64 (input : List UInt8) : Bool × ℤ :=
  let trimmed := input.dropWhile isSpace
  let valid := trimmed.length == input.length
  let r :=
    match trimmed with
    | 45 :: rest => invokeInt64 negativeInt64 rest
    | 43 :: rest => invokeInt64 positiveInt64 rest
    | rest => invokeInt64 positiveInt64 rest
  (valid && r.1, r.2)

/-! ### Digits -/

structure IsDecimal (n : ℕ) (text : List UInt8) : Prop where
  ne_nil : text ≠ []
  digits : ∀ c ∈ text, isDecimalDigit c = true
  value : decimalValue text = n

variable {c : UInt8} {cs text : List UInt8} {n : ℕ} {first : Bool}

theorem toNat_of_isDecimalDigit (h : isDecimalDigit c = true) : 48 ≤ c.toNat ∧ c.toNat ≤ 57 := by
  simp only [isDecimalDigit, Bool.and_eq_true, decide_eq_true_eq, UInt8.le_iff_toNat_le] at h
  exact h

theorem charToDigit_ten (h : isDecimalDigit c = true) : charToDigit 10 c = some (c.toNat - 48) := by
  obtain ⟨hge, hle⟩ := toNat_of_isDecimalDigit h
  rw [charToDigit, if_pos (by decide), if_pos ⟨hge, by omega⟩]

theorem charToDigit_ten_eq_none (h : isDecimalDigit c = false) : charToDigit 10 c = none := by
  rw [charToDigit, if_pos (by decide), if_neg]
  rintro ⟨hge, hlt⟩
  have hdigit : isDecimalDigit c = true := by
    simp only [isDecimalDigit, Bool.and_eq_true, decide_eq_true_eq, UInt8.le_iff_toNat_le]
    exact ⟨hge, Nat.lt_succ_iff.1 hlt⟩
  rw [h] at hdigit
  cases hdigit

/-- The loop of the digits, with the numbers `out n` up to `bound`. -/
theorem boundedLoop_int64 {sign : Sign} {bound : ℕ} {out : ℕ → ℤ} (hbound : 9 ≤ bound)
    (hincrement : ∀ n digit : ℕ, sign.increment digit (out n * 10) = out (digit + 10 * n)) (hzero : out 0 = 0)
    (hlimit : sign.limit = out bound) (hout : ∀ n digit, digit ≤ 9 → n ≤ bound →
      (sign.outOfBounds (out n) digit = true ↔ bound < digit + 10 * n)) :
    BoundedLoop (fun c => isDecimalDigit c = true) (fun n c => c.toNat - 48 + 10 * n) bound out
      (invokeDigitsInt64 sign) where
  nil _ _ := rfl
  first c cs hc := by
    have hfirst := hincrement 0 (c.toNat - 48)
    rw [hzero, zero_mul] at hfirst
    rw [invokeDigitsInt64, charToDigit_ten hc, hzero, ← hfirst]
    rfl
  next n c cs hc hn := by
    obtain ⟨hge, hle⟩ := toNat_of_isDecimalDigit hc
    rw [invokeDigitsInt64, charToDigit_ten hc]
    dsimp only
    rw [if_neg Bool.false_ne_true, hincrement, hlimit]
    exact if_congr (hout n _ (by omega) hn) rfl rfl
  small c hc := by
    obtain ⟨hge, hle⟩ := toNat_of_isDecimalDigit hc
    omega
  le_step n c := by omega

theorem boundedLoop_positiveInt64 : BoundedLoop (fun c => isDecimalDigit c = true) (fun n c => c.toNat - 48 + 10 * n)
    9223372036854775807 (fun n => (n : ℤ)) (invokeDigitsInt64 positiveInt64) := by
  refine boundedLoop_int64 (by decide) (fun n digit => ?_) rfl rfl fun n digit hdigit hn => ?_
  · dsimp only [positiveInt64]
    push_cast
    omega
  · have hdiv : int64Max / 10 = 922337203685477580 := by decide +kernel
    have hmod : int64Max % 10 = 7 := by decide +kernel
    simp only [positiveInt64, hdiv, hmod, Bool.or_eq_true, Bool.and_eq_true, decide_eq_true_eq, beq_iff_eq]
    omega

theorem boundedLoop_negativeInt64 : BoundedLoop (fun c => isDecimalDigit c = true) (fun n c => c.toNat - 48 + 10 * n)
    9223372036854775808 (fun n => -(n : ℤ)) (invokeDigitsInt64 negativeInt64) := by
  refine boundedLoop_int64 (by decide) (fun n digit => ?_) rfl rfl fun n digit hdigit hn => ?_
  · dsimp only [negativeInt64]
    push_cast
    omega
  · have hdiv : int64Min.tdiv 10 = -922337203685477580 := by decide +kernel
    have hmod : int64Min.tmod 10 = -8 := by decide +kernel
    simp only [negativeInt64, hdiv, hmod, Bool.or_eq_true, Bool.and_eq_true, decide_eq_true_eq, beq_iff_eq]
    omega

theorem digits_of_invokeDigitsInt64 {sign : Sign} {output : ℤ} (h : (invokeDigitsInt64 sign first output cs).1 = true) :
    ∀ c ∈ cs, isDecimalDigit c = true := by
  induction cs generalizing first output with
  | nil => simp
  | cons c cs ih =>
    cases hc : isDecimalDigit c with
    | false =>
      rw [invokeDigitsInt64, charToDigit_ten_eq_none hc] at h
      cases h
    | true =>
      rw [invokeDigitsInt64, charToDigit_ten hc] at h
      dsimp only at h
      have hrest : ∀ c' ∈ cs, isDecimalDigit c' = true := by
        split at h
        · exact ih h
        · split at h
          · cases h
          · exact ih h
      intro c' hc'
      rcases List.mem_cons.1 hc' with rfl | hc'
      · exact hc
      · exact hrest c' hc'

/-! ### Numbers -/

theorem invokeInt64_positive (h : IsDecimal n text) :
    invokeInt64 positiveInt64 text = (decide ((n : ℤ) ≤ int64Max), min (n : ℤ) int64Max) := by
  have hloop := boundedLoop_positiveInt64.eq h.digits
  rw [show text.foldl _ 0 = n from h.value] at hloop
  rw [invokeInt64, if_neg (by simpa using h.ne_nil)]
  refine hloop.trans (Prod.ext (decide_eq_decide.2 ?_) ?_)
  · unfold int64Max
    omega
  · exact Nat.cast_min _ _

theorem invokeInt64_negative (h : IsDecimal n text) :
    invokeInt64 negativeInt64 text = (decide (int64Min ≤ -(n : ℤ)), max (-(n : ℤ)) int64Min) := by
  have hloop := boundedLoop_negativeInt64.eq h.digits
  rw [show text.foldl _ 0 = n from h.value] at hloop
  rw [invokeInt64, if_neg (by simpa using h.ne_nil)]
  refine hloop.trans (Prod.ext (decide_eq_decide.2 ?_) ?_)
  · unfold int64Min
    omega
  · show -((min n 9223372036854775808 : ℕ) : ℤ) = max (-(n : ℤ)) int64Min
    unfold int64Min
    omega

theorem isDecimal_of_invokeInt64 {sign : Sign} (h : (invokeInt64 sign text).1 = true) :
    IsDecimal (decimalValue text) text := by
  unfold invokeInt64 at h
  split at h
  · cases h
  · next hne => exact ⟨by simpa using hne, digits_of_invokeDigitsInt64 h, rfl⟩

theorem isNumeral_ten : IsNumeral 10 n text ↔ IsDecimal n text := by
  have hdigit : ∀ c, (charToDigit 10 c).isSome = true ↔ isDecimalDigit c = true := fun c => by
    cases hc : isDecimalDigit c with
    | false => simp [charToDigit_ten_eq_none hc]
    | true => simp [charToDigit_ten hc]
  have hvalue : (∀ c ∈ text, isDecimalDigit c = true) → digitsValue 10 text = decimalValue text := fun h =>
    List.foldl_ext _ _ _ fun n c hc => by
      rw [charToDigit_ten (h c hc), Option.getD_some]
      omega
  constructor
  · rintro (⟨hne, hdigits, hn⟩ | ⟨hbase, -, -⟩)
    · have hdecimal : ∀ c ∈ text, isDecimalDigit c = true := fun c hc => (hdigit c).1 (hdigits c hc)
      exact ⟨hne, hdecimal, (hvalue hdecimal).symm.trans hn⟩
    · cases hbase
  · rintro ⟨hne, hdigits, hn⟩
    exact .digits ⟨hne, fun c hc => (hdigit c).2 (hdigits c hc), (hvalue hdigits).trans hn⟩

theorem reads_invokeInt64 {isNegative : Bool} : Reads 10 (int64Type.bound isNegative)
    (fun n => int64Type.hold (if isNegative then -(n : ℤ) else n)) text
    ((if isNegative then invokeInt64 negativeInt64 else invokeInt64 positiveInt64) text) := by
  have hread : ∀ n, IsNumeral 10 n text → (if isNegative then invokeInt64 negativeInt64 else invokeInt64 positiveInt64) text =
      (decide (n ≤ int64Type.bound isNegative),
        if isNegative then -((min n (int64Type.bound isNegative) : ℕ) : ℤ) else (min n (int64Type.bound isNegative) : ℕ)) := by
    intro n hn
    cases isNegative with
    | false =>
      refine (invokeInt64_positive (isNumeral_ten.1 hn)).trans (Prod.ext (decide_eq_decide.2 ?_) (Nat.cast_min _ _).symm)
      exact Nat.cast_le (n := 9223372036854775807)
    | true =>
      refine (invokeInt64_negative (isNumeral_ten.1 hn)).trans (Prod.ext (decide_eq_decide.2 ?_) ?_)
      · show -9223372036854775808 ≤ -(n : ℤ) ↔ n ≤ 9223372036854775808
        omega
      · show max (-(n : ℤ)) (-9223372036854775808) = -((min n 9223372036854775808 : ℕ) : ℤ)
        omega
  refine ⟨⟨fun haccepts => ?_, ?_⟩, fun hn => by rw [hread _ hn]; rfl⟩
  · have hn : IsNumeral 10 (decimalValue text) text := by
      cases isNegative <;> exact isNumeral_ten.2 (isDecimal_of_invokeInt64 haccepts)
    rw [hread _ hn] at haccepts
    exact ⟨_, hn, of_decide_eq_true haccepts⟩
  · rintro ⟨n, hn, hle⟩
    rw [hread n hn]
    exact decide_eq_true hle

theorem parsesAs_stringToInt64 (input : List UInt8) : ParsesAs int64Type input (stringToInt64 input) := by
  show ParsesAs int64Type input (readSigned (invokeInt64 positiveInt64) (invokeInt64 negativeInt64) input)
  exact parsesAs_of_signed rfl fun _ _ _ => reads_invokeInt64

/-- **Digits are read**, and where they stand for too large a number the output is the largest one. -/
theorem stringToInt64_of_decimal (h : IsDecimal n text) :
    stringToInt64 text = (decide ((n : ℤ) ≤ int64Max), min (n : ℤ) int64Max) := by
  have hsigned : Signed false text text := by
    cases isNumeral_ten.2 h with
    | digits hd => exact hd.signed (.inl rfl)
    | prefixed hbase => cases hbase
  show readSigned (invokeInt64 positiveInt64) (invokeInt64 negativeInt64) text = _
  rw [readSigned_eq hsigned, if_neg Bool.false_ne_true, invokeInt64_positive h]

/-- A number as it is read: digits, which may have a sign in front. -/
inductive ReadsAs : List UInt8 → ℤ → Prop
  | digits {n : ℕ} {text : List UInt8} : IsDecimal n text → (n : ℤ) ≤ int64Max → ReadsAs text n
  | plus {n : ℕ} {text : List UInt8} : IsDecimal n text → (n : ℤ) ≤ int64Max → ReadsAs (43 :: text) n
  | minus {n : ℕ} {text : List UInt8} : IsDecimal n text → int64Min ≤ -(n : ℤ) → ReadsAs (45 :: text) (-n)

variable {t : List UInt8} {z : ℤ}

theorem ReadsAs.chars (h : ReadsAs t z) : ∀ c ∈ t, isDecimalDigit c = true ∨ c = 43 ∨ c = 45 := by
  intro c hc
  cases h with
  | digits hd _ => exact .inl (hd.digits c hc)
  | plus hd _ =>
    rcases List.mem_cons.1 hc with rfl | hc
    · exact .inr (.inl rfl)
    · exact .inl (hd.digits c hc)
  | minus hd _ =>
    rcases List.mem_cons.1 hc with rfl | hc
    · exact .inr (.inr rfl)
    · exact .inl (hd.digits c hc)

theorem ReadsAs.ne_nil (h : ReadsAs t z) : t ≠ [] := by
  cases h with
  | digits hd _ => exact hd.ne_nil
  | plus _ _ | minus _ _ => exact List.cons_ne_nil _ _

theorem ReadsAs.nonneg (h : ReadsAs t z) (hminus : 45 ∉ t) : 0 ≤ z := by
  cases h with
  | digits _ _ | plus _ _ => exact Int.natCast_nonneg _
  | minus _ _ => exact absurd List.mem_cons_self hminus

theorem stringToInt64_iff (text : List UInt8) (z : ℤ) : stringToInt64 text = (true, z) ↔ ReadsAs text z := by
  have hparses := parsesAs_stringToInt64 text
  constructor
  · intro h
    rw [h] at hparses
    obtain ⟨isNegative, n, ⟨t, hsigned, hn⟩, hle⟩ := hparses.accepts.1 rfl
    have hz := (Prod.mk.inj (hparses.eq ⟨t, hsigned, hn⟩ hle)).2
    cases hsigned with
    | plain _ => exact hz ▸ .digits (isNumeral_ten.1 hn) (Int.ofNat_le.2 hle)
    | plus => exact hz ▸ .plus (isNumeral_ten.1 hn) (Int.ofNat_le.2 hle)
    | minus => exact hz ▸ .minus (isNumeral_ten.1 hn) (Int.neg_le_neg (Int.ofNat_le.2 hle))
  · intro h
    cases h with
    | digits hd hle => rw [stringToInt64_of_decimal hd, decide_eq_true hle, min_eq_left hle]
    | plus hd hle => exact hparses.eq ⟨_, .plus, isNumeral_ten.2 hd⟩ (Int.ofNat_le.1 hle)
    | minus hd hle => exact hparses.eq ⟨_, .minus, isNumeral_ten.2 hd⟩ (Int.ofNat_le.1 (Int.le_of_neg_le_neg hle))

/-- **The strings that are numbers.** -/
theorem numbers_spec (input : List UInt8) (n : Int32) (m : Int64) :
    ParsesAs intType input (stringToInt input) ∧ ParsesAs int64Type input (stringToInt64 input) ∧
      (ParsesAs hexIntType input (hexStringToInt input) ↔ ¬ Unnoticed input) ∧
      stringToInt (intToString n.toInt) = (true, n.toInt) ∧ stringToInt64 (int64ToString m.toInt) = (true, m.toInt) := by
  have hn : n.toInt.natAbs ≤ intType.bound (decide (n.toInt < 0)) ∧ n.toInt.natAbs < 2 ^ 32 := by
    have hge := n.le_toInt
    have hlt := n.toInt_lt
    unfold intType
    dsimp only
    by_cases h : n.toInt < 0
    · rw [decide_eq_true h, if_pos rfl]
      omega
    · rw [decide_eq_false h, if_neg Bool.false_ne_true]
      omega
  have hm : m.toInt.natAbs ≤ int64Type.bound (decide (m.toInt < 0)) ∧ m.toInt.natAbs < 2 ^ 64 := by
    have hge := m.le_toInt
    have hlt := m.toInt_lt
    unfold int64Type
    dsimp only
    by_cases h : m.toInt < 0
    · rw [decide_eq_true h, if_pos rfl]
      omega
    · rw [decide_eq_false h, if_neg Bool.false_ne_true]
      omega
  exact ⟨parsesAs_stringToInt input, parsesAs_stringToInt64 input, parsesAs_hexStringToInt_iff input,
    (parsesAs_stringToInt _).intToStringT hn.2 rfl hn.1 rfl, (parsesAs_stringToInt64 _).intToStringT hm.2 rfl hm.1 rfl⟩

/-- `800000000` is too large, and `HexStringToInt` takes it for zero. -/
theorem not_parsesAs_hex_800000000 :
    ¬ ParsesAs hexIntType [56, 48, 48, 48, 48, 48, 48, 48, 48] (hexStringToInt [56, 48, 48, 48, 48, 48, 48, 48, 48]) := by
  intro h
  have hnumber : IsNumber 16 false 34359738368 [56, 48, 48, 48, 48, 48, 48, 48, 48] :=
    ⟨_, .plain (by decide), .digits ⟨by decide, by decide +kernel, by decide +kernel⟩⟩
  have hzero : (hexStringToInt [56, 48, 48, 48, 48, 48, 48, 48, 48]).2 = 0 := by decide +kernel
  have hout := h.output hnumber
  rw [hzero] at hout
  exact absurd hout (by decide +kernel)

end Chromium.Base
