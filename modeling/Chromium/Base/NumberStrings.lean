import Chromium.Base.StringNumberConversions
import Chromium.Lib.BoundedLoop

/-!
# The strings that are numbers

`base/string_number_conversions.cc`: the parsers of numbers accept an optional sign and digits, as long as the number is in
range; otherwise the output is the end of the range (`ParsesAs`).  `HexStringToInt` accepts what an `unsigned int` holds, but
keeps it in an `int`: where the first digits make it negative, the check of the bound does not see it, and later digits
push the first ones out (`Unnoticed`).
-/

namespace Chromium.Base

open Lib
open Option (getD_some isSome_iff_exists)

/-! ### What is a number -/

structure NumberType where
  base : ℕ
  /-- The largest number with each sign. -/
  bound : (negative : Bool) → ℕ
  /-- How a number is held. -/
  hold : ℤ → ℤ

def intType : NumberType := ⟨10, fun negative => if negative then 2147483648 else 2147483647, id⟩

def int64Type : NumberType :=
  ⟨10, fun negative => if negative then 9223372036854775808 else 9223372036854775807, id⟩

/-- An `int` that holds what is below `2 ^ 32`. -/
def hexIntType : NumberType := ⟨16, fun negative => if negative then 2147483648 else 4294967295, toInt32⟩

def valueFrom (base n : ℕ) (text : List UInt8) : ℕ := text.foldl (fun n c => n * base + (charToDigit base c).getD 0) n

def digitsValue (base : ℕ) (text : List UInt8) : ℕ := valueFrom base 0 text

structure IsDigits (base n : ℕ) (text : List UInt8) : Prop where
  ne_nil : text ≠ []
  digits : ∀ c ∈ text, (charToDigit base c).isSome
  value : digitsValue base text = n

/-- Digits, which may have `0x` or `0X` in front when they are hexadecimal. -/
inductive IsNumeral (base n : ℕ) : List UInt8 → Prop
  | digits {text : List UInt8} (h : IsDigits base n text) : IsNumeral base n text
  | prefixed {text : List UInt8} {x : UInt8} (hbase : base = 16) (hx : x = 120 ∨ x = 88) (h : IsDigits base n text) :
      IsNumeral base n (48 :: x :: text)

/-- A string with or without a sign, and what is behind the sign. -/
inductive Signed : Bool → List UInt8 → List UInt8 → Prop
  | plain {c : UInt8} {cs : List UInt8} (h : c ≠ 43 ∧ c ≠ 45 ∧ isSpace c = false) : Signed false (c :: cs) (c :: cs)
  | plus {text : List UInt8} : Signed false (43 :: text) text
  | minus {text : List UInt8} : Signed true (45 :: text) text

def IsNumber (base : ℕ) (negative : Bool) (n : ℕ) (input : List UInt8) : Prop :=
  ∃ text, Signed negative input text ∧ IsNumeral base n text

/-- **What a parser is for**: it accepts the numbers of its type, and the output is the number or the end of the range. -/
structure ParsesAs (type : NumberType) (input : List UInt8) (result : Bool × ℤ) : Prop where
  accepts : result.1 = true ↔ ∃ negative n, IsNumber type.base negative n input ∧ n ≤ type.bound negative
  output : ∀ {negative n}, IsNumber type.base negative n input →
    result.2 = type.hold (if negative then -(min n (type.bound negative) : ℕ) else (min n (type.bound negative) : ℕ))

structure Reads (base bound : ℕ) (out : ℕ → ℤ) (text : List UInt8) (result : Bool × ℤ) : Prop where
  accepts : result.1 = true ↔ ∃ n, IsNumeral base n text ∧ n ≤ bound
  output : ∀ {n}, IsNumeral base n text → result.2 = out (min n bound)

def Stops (n : ℕ) : Prop := 268435456 ≤ n % 4294967296 ∧ n % 4294967296 < 2147483648

/-- **The bound is passed unnoticed**: the number is too large, but what the digits before each one make, as an `int`, is
negative or small. -/
def Unnoticed (input : List UInt8) : Prop :=
  ∃ text digits n, Signed false input text ∧ (text = digits ∨ ∃ x, (x = 120 ∨ x = 88) ∧ text = 48 :: x :: digits) ∧
    IsDigits 16 n digits ∧ 4294967295 < n ∧ ∀ p c rest, digits = p ++ c :: rest → ¬ Stops (digitsValue 16 p)

/-! ### Signs -/

section

variable {type : NumberType} {isNegative isNegative' : Bool} {input text text' : List UInt8} {n n' base : ℕ} {c : UInt8}
  {pos neg : List UInt8 → Bool × ℤ}

variable {bits : ℕ} {value : ℤ} {sign : Sign}

def readSigned (pos neg : List UInt8 → Bool × ℤ) (input : List UInt8) : Bool × ℤ :=
  let trimmed := input.dropWhile isSpace
  let valid := trimmed.length == input.length
  let r :=
    match trimmed with
    | 45 :: rest => neg rest
    | 43 :: rest => pos rest
    | rest => pos rest
  (valid && r.1, r.2)

theorem Signed.unique (h : Signed isNegative input text) (h' : Signed isNegative' input text') :
    isNegative = isNegative' ∧ text = text' := by
  cases h with
  | plain h =>
    cases h' with
    | plain _ => exact ⟨rfl, rfl⟩
    | plus => exact absurd rfl h.1
    | minus => exact absurd rfl h.2.1
  | plus =>
    cases h' with
    | plain h' => exact absurd rfl h'.1
    | plus => exact ⟨rfl, rfl⟩
  | minus =>
    cases h' with
    | plain h' => exact absurd rfl h'.2.1
    | minus => exact ⟨rfl, rfl⟩

theorem readSigned_eq (h : Signed isNegative input text) :
    readSigned pos neg input = (if isNegative then neg else pos) text := by
  cases h with
  | @plain c cs h =>
    unfold readSigned
    rw [List.dropWhile_cons_of_neg (by simp [h.2.2])]
    dsimp only
    split
    · next heq => exact absurd (List.cons.inj heq).1 h.2.1
    · next heq => exact absurd (List.cons.inj heq).1 h.1
    · simp
  | plus | minus =>
    unfold readSigned
    rw [List.dropWhile_cons_of_neg (by decide)]
    simp

theorem IsDigits.signed (hbase : base = 10 ∨ base = 16) (h : IsDigits base n text) : Signed false text text := by
  obtain ⟨c, cs, rfl⟩ := List.exists_cons_of_ne_nil h.ne_nil
  have hsome := h.digits c List.mem_cons_self
  have hge : 48 ≤ c.toNat := by
    unfold charToDigit at hsome
    by_contra hlt
    rcases hbase with rfl | rfl
    all_goals
      split_ifs at hsome <;> first | omega | cases hsome
  refine .plain ⟨?_, ?_, ?_⟩
  · rintro rfl
    exact nomatch hge
  · rintro rfl
    exact nomatch hge
  · rw [Bool.eq_false_iff]
    intro hspace
    simp only [isSpace, Bool.or_eq_true, Bool.and_eq_true, decide_eq_true_eq, UInt8.le_iff_toNat_le] at hspace
    rcases hspace with rfl | ⟨-, hle⟩
    · exact nomatch hge
    · exact nomatch Nat.le_trans hge hle

theorem exists_signed (hnil : (pos []).1 = false) (h : (readSigned pos neg input).1 = true) :
    ∃ negative text, Signed negative input text := by
  have htrim : input.dropWhile isSpace = input := by
    refine (List.dropWhile_suffix _).eq_of_length ?_
    have hlength := (Bool.and_eq_true_iff.1 h).1
    simpa using hlength
  cases input with
  | nil =>
    have hpos : (pos []).1 = true := by simpa [readSigned] using h
    rw [hnil] at hpos
    cases hpos
  | cons c cs =>
    by_cases hplus : c = 43
    · exact ⟨false, cs, hplus ▸ .plus⟩
    · by_cases hminus : c = 45
      · exact ⟨true, cs, hminus ▸ .minus⟩
      · have hspace : isSpace c = false := by
          rw [Bool.eq_false_iff]
          intro hspace
          rw [List.dropWhile_cons_of_pos hspace] at htrim
          have hle := (List.dropWhile_suffix (p := isSpace) (l := cs)).length_le
          rw [htrim, List.length_cons] at hle
          omega
        exact ⟨false, c :: cs, .plain ⟨hplus, hminus, hspace⟩⟩

theorem parsesAs_of_signed (hnil : (pos []).1 = false)
    (h : ∀ isNegative text, Signed isNegative input text →
      Reads type.base (type.bound isNegative) (fun n => type.hold (if isNegative then -(n : ℤ) else n)) text
        ((if isNegative then neg else pos) text)) : ParsesAs type input (readSigned pos neg input) where
  accepts := by
    constructor
    · intro haccepts
      obtain ⟨isNegative, text, hsigned⟩ := exists_signed hnil haccepts
      rw [readSigned_eq hsigned] at haccepts
      obtain ⟨n, hn, hle⟩ := (h isNegative text hsigned).accepts.1 haccepts
      exact ⟨isNegative, n, ⟨text, hsigned, hn⟩, hle⟩
    · rintro ⟨isNegative, n, ⟨text, hsigned, hn⟩, hle⟩
      rw [readSigned_eq hsigned]
      exact (h isNegative text hsigned).accepts.2 ⟨n, hn, hle⟩
  output := by
    rintro isNegative n ⟨text, hsigned, hn⟩
    rw [readSigned_eq hsigned]
    exact (h isNegative text hsigned).output hn

/-! ### The loops -/

theorem digit_lt {d : ℕ} (hbase : base = 10 ∨ base = 16) (h : charToDigit base c = some d) : d < base := by
  unfold charToDigit at h
  rcases hbase with rfl | rfl
  all_goals
    split_ifs at h <;> cases h <;> omega

theorem digits_of_invokeDigits {first : Bool} {output : ℤ}
    (h : (invokeDigits base sign first output text).1 = true) : ∀ c ∈ text, (charToDigit base c).isSome := by
  induction text generalizing first output with
  | nil => exact fun c hc => nomatch hc
  | cons c cs ih =>
    intro c' hc'
    rw [invokeDigits] at h
    cases hc : charToDigit base c with
    | none =>
      rw [hc] at h
      cases h
    | some digit =>
      rw [hc] at h
      dsimp only at h
      rcases List.mem_cons.1 hc' with rfl | hc'
      · rw [hc]
        rfl
      · split_ifs at h <;> exact ih h c' hc'

/-- **The loop for an `int`.** -/
theorem boundedLoop_positive : BoundedLoop (fun c => (charToDigit 10 c).isSome)
    (fun n c => n * 10 + (charToDigit 10 c).getD 0) 2147483647 (fun n => (n : ℤ))
    (invokeDigits 10 (positive intTraits)) where
  nil _ _ := rfl
  first c cs hc := by
    obtain ⟨d, hd⟩ := isSome_iff_exists.1 hc
    have hlt := digit_lt (.inl rfl) hd
    rw [invokeDigits, hd]
    dsimp only [getD_some]
    rw [if_pos rfl]
    congr 1
    show toInt32 ((0 : ℤ) + d) = ((0 * 10 + d : ℕ) : ℤ)
    rw [toInt32_of_mem (by omega) (by omega)]
    omega
  next n c cs hc hn := by
    obtain ⟨d, hd⟩ := isSome_iff_exists.1 hc
    have hlt := digit_lt (.inl rfl) hd
    have hout : (positive intTraits).outOfBounds n d = true ↔ 2147483647 < n * 10 + d := by
      have hdiv : toInt32 (intTraits.max / intTraits.base) = 214748364 := by decide +kernel
      have hmod : intTraits.max % intTraits.base = 7 := by decide +kernel
      simp only [positive, hdiv, hmod, Bool.or_eq_true, Bool.and_eq_true, decide_eq_true_eq, beq_iff_eq]
      omega
    rw [invokeDigits, hd]
    dsimp only [getD_some]
    rw [if_neg Bool.false_ne_true]
    by_cases hpast : 2147483647 < n * 10 + d
    · rw [if_pos (hout.2 hpast), if_pos hpast]
      rfl
    · have hten : toInt32 ((n : ℤ) * (10 : ℕ)) = n * 10 := toInt32_of_mem (by omega) (by omega)
      have hsum : toInt32 ((n : ℤ) * 10 + d) = n * 10 + d := toInt32_of_mem (by omega) (by omega)
      rw [if_neg (fun h => hpast (hout.1 h)), if_neg hpast, hten]
      congr 1
  small c hc := by
    obtain ⟨d, hd⟩ := isSome_iff_exists.1 hc
    have hlt := digit_lt (.inl rfl) hd
    rw [hd, getD_some]
    omega
  le_step n c := by omega

/-- **The loops for a negative `int`**, in both bases. -/
theorem boundedLoop_negative {traits : NumberTraits} (htraits : traits = intTraits ∨ traits = hexIntTraits) :
    BoundedLoop (fun c => (charToDigit traits.base c).isSome)
      (fun n c => n * traits.base + (charToDigit traits.base c).getD 0) 2147483648 (fun n => -(n : ℤ))
      (invokeDigits traits.base (negative traits)) := by
  have hbase : traits.base = 10 ∨ traits.base = 16 := htraits.imp (congrArg _) (congrArg _)
  have hmin : traits.min = -2147483648 := by rcases htraits with rfl | rfl <;> rfl
  refine ⟨fun _ _ => rfl, fun c cs hc => ?_, fun n c cs hc hn => ?_, fun c hc => ?_, fun n c => ?_⟩
  · obtain ⟨d, hd⟩ := isSome_iff_exists.1 hc
    have hlt := digit_lt hbase hd
    rw [invokeDigits, hd]
    dsimp only [getD_some]
    rw [if_pos rfl]
    congr 1
    show toInt32 ((0 : ℤ) - d) = _
    rw [toInt32_of_mem (by omega) (by omega)]
    push_cast
    omega
  · obtain ⟨d, hd⟩ := isSome_iff_exists.1 hc
    have hlt := digit_lt hbase hd
    have hout : (negative traits).outOfBounds (-(n : ℤ)) d = true ↔ 2147483648 < n * traits.base + d := by
      rcases htraits with rfl | rfl
      · have hdiv : intTraits.min.tdiv intTraits.base = -214748364 := by decide +kernel
        have hmod : intTraits.min.tmod intTraits.base = -8 := by decide +kernel
        show _ ↔ 2147483648 < n * 10 + d
        simp only [negative, hdiv, hmod, Bool.or_eq_true, Bool.and_eq_true, decide_eq_true_eq, beq_iff_eq]
        omega
      · have hdiv : hexIntTraits.min.tdiv hexIntTraits.base = -134217728 := by decide +kernel
        have hmod : hexIntTraits.min.tmod hexIntTraits.base = 0 := by decide +kernel
        show _ ↔ 2147483648 < n * 16 + d
        simp only [negative, hdiv, hmod, Bool.or_eq_true, Bool.and_eq_true, decide_eq_true_eq, beq_iff_eq]
        omega
    rw [invokeDigits, hd]
    dsimp only [getD_some]
    rw [if_neg Bool.false_ne_true]
    by_cases hpast : 2147483648 < n * traits.base + d
    · rw [if_pos (hout.2 hpast), if_pos hpast]
      dsimp only [negative]
      rw [hmin]
      rfl
    · have hmul : ((n * traits.base : ℕ) : ℤ) = (n : ℤ) * traits.base := Nat.cast_mul _ _
      have hten : toInt32 (-(n : ℤ) * traits.base) = -((n * traits.base : ℕ) : ℤ) := by
        rw [hmul, Int.neg_mul]
        exact toInt32_of_mem (by omega) (by omega)
      have hsum : toInt32 (-((n * traits.base : ℕ) : ℤ) - d) = -((n * traits.base + d : ℕ) : ℤ) := by
        rw [toInt32_of_mem (by omega) (by omega)]
        omega
      rw [if_neg (fun h => hpast (hout.1 h)), if_neg hpast, hten]
      congr 1
  · obtain ⟨d, hd⟩ := isSome_iff_exists.1 hc
    have hlt := digit_lt hbase hd
    rw [hd, getD_some]
    omega
  · rcases hbase with h | h
    all_goals
      rw [h]
      omega

/-! ### Behind the sign -/

theorem charToDigit_x (h : c = 120 ∨ c = 88) : charToDigit 16 c = none := by
  rcases h with rfl | rfl <;> decide

theorem IsNumeral.unique (h : IsNumeral base n text) (h' : IsNumeral base n' text) : n = n' := by
  cases h with
  | digits h =>
    cases h' with
    | digits h' => exact h.value.symm.trans h'.value
    | @prefixed digits x hbase hx _ =>
      have hsome := h.digits x (List.mem_cons_of_mem _ List.mem_cons_self)
      rw [hbase, charToDigit_x hx] at hsome
      cases hsome
  | @prefixed digits x hbase hx h =>
    cases h' with
    | digits h' =>
      have hsome := h'.digits x (List.mem_cons_of_mem _ List.mem_cons_self)
      rw [hbase, charToDigit_x hx] at hsome
      cases hsome
    | prefixed _ _ h' => exact h.value.symm.trans h'.value

theorem invokeSign_digits (h : IsDigits base n text) :
    invokeSign base sign text = invokeDigits base sign true 0 text := by
  rw [invokeSign, if_neg (by simpa using h.ne_nil), if_neg]
  rintro ⟨rfl, hlength, -, hx⟩
  match text, hlength with
  | _ :: b :: _, _ =>
    have hsome := h.digits b (List.mem_cons_of_mem _ List.mem_cons_self)
    rw [charToDigit_x (show b = 120 ∨ b = 88 from hx)] at hsome
    cases hsome

theorem invokeSign_prefixed (hc : c = 120 ∨ c = 88) (h : IsDigits 16 n text) :
    invokeSign 16 sign (48 :: c :: text) = invokeDigits 16 sign true 0 text := by
  have hpos := List.length_pos_of_ne_nil h.ne_nil
  rw [invokeSign, if_neg (by simp), if_pos ⟨rfl, Nat.add_lt_add_right hpos 2, rfl, hc⟩]
  rfl

theorem IsNumeral.exists_digits (h : IsNumeral base n text) : ∃ digits, IsDigits base n digits ∧
    (text = digits ∨ ∃ x, (x = 120 ∨ x = 88) ∧ text = 48 :: x :: digits) ∧
    ∀ sign, invokeSign base sign text = invokeDigits base sign true 0 digits := by
  cases h with
  | digits h => exact ⟨text, h, .inl rfl, fun _ => invokeSign_digits h⟩
  | @prefixed digits x hbase hx h =>
    subst hbase
    exact ⟨digits, h, .inr ⟨x, hx, rfl⟩, fun _ => invokeSign_prefixed hx h⟩

theorem isNumeral_of_invokeSign (h : (invokeSign base sign text).1 = true) :
    ∃ n, IsNumeral base n text := by
  unfold invokeSign at h
  split_ifs at h with hempty hx
  · obtain ⟨hbase, hlength, hzero, hx⟩ := hx
    obtain ⟨a, b, digits, rfl⟩ : ∃ a b digits, text = a :: b :: digits :=
      match text, hlength with
      | a :: b :: digits, _ => ⟨a, b, digits, rfl⟩
    have hne : digits ≠ [] := by
      rintro rfl
      exact Nat.lt_irrefl _ hlength
    obtain rfl : a = 48 := hzero
    exact ⟨_, .prefixed hbase hx ⟨hne, digits_of_invokeDigits h, rfl⟩⟩
  · exact ⟨_, .digits ⟨by simpa using hempty, digits_of_invokeDigits h, rfl⟩⟩

theorem reads_of_numerals {bound : ℕ} {out : ℕ → ℤ}
    (hread : ∀ n, IsNumeral base n text → invokeSign base sign text = (decide (n ≤ bound), out (min n bound))) :
    Reads base bound out text (invokeSign base sign text) := by
  refine ⟨⟨fun haccepts => ?_, ?_⟩, fun hn => by rw [hread _ hn]⟩
  · obtain ⟨n, hn⟩ := isNumeral_of_invokeSign haccepts
    rw [hread n hn] at haccepts
    exact ⟨n, hn, of_decide_eq_true haccepts⟩
  · rintro ⟨n, hn, hle⟩
    rw [hread n hn]
    exact decide_eq_true hle

theorem reads_of_loop {bound : ℕ} {out : ℕ → ℤ} (hzero : out 0 = 0)
    (h : BoundedLoop (fun c => (charToDigit base c).isSome = true) (fun n c => n * base + (charToDigit base c).getD 0) bound out
      (invokeDigits base sign)) : Reads base bound out text (invokeSign base sign text) := by
  have hread : ∀ n, IsNumeral base n text → invokeSign base sign text = (decide (n ≤ bound), out (min n bound)) := by
    intro n hn
    obtain ⟨digits, hdigits, -, hinvoke⟩ := hn.exists_digits
    have hloop := h.eq hdigits.digits
    rw [show digits.foldl _ 0 = n from hdigits.value, hzero] at hloop
    rw [hinvoke, hloop]
  exact reads_of_numerals hread

/-! ### Hexadecimal numbers -/

theorem hex_outOfBounds (n : ℕ) {d : ℕ} (hd : d < 16) :
    (positive hexIntTraits).outOfBounds (toInt32 n) d = true ↔ Stops n := by
  have hdiv : toInt32 (hexIntTraits.max / hexIntTraits.base) = 268435455 := by decide +kernel
  have hmod : hexIntTraits.max % hexIntTraits.base = 15 := by decide +kernel
  simp only [positive, hdiv, hmod, Bool.or_eq_true, Bool.and_eq_true, decide_eq_true_eq, beq_iff_eq]
  unfold Stops toInt32
  omega

theorem invokeDigits_hex_next (hcs : ∀ c ∈ text, (charToDigit 16 c).isSome) (n : ℕ) :
    (invokeDigits 16 (positive hexIntTraits) false (toInt32 n) text = (true, toInt32 (valueFrom 16 n text : ℕ)) ∧
      ∀ p c rest, text = p ++ c :: rest → ¬ Stops (valueFrom 16 n p)) ∨
    (invokeDigits 16 (positive hexIntTraits) false (toInt32 n) text = (false, -1) ∧
      ∃ p c rest, text = p ++ c :: rest ∧ Stops (valueFrom 16 n p)) := by
  induction text generalizing n with
  | nil => exact .inl ⟨rfl, fun p c rest h => by simp at h⟩
  | cons c cs ih =>
    obtain ⟨d, hd⟩ := isSome_iff_exists.1 (hcs c List.mem_cons_self)
    have hlt := digit_lt (.inr rfl) hd
    have hout := hex_outOfBounds n hlt
    have hnext : toInt32 (toInt32 (toInt32 n * (16 : ℕ)) + d) = toInt32 ((n * 16 + d : ℕ) : ℤ) := by
      unfold toInt32
      omega
    rw [invokeDigits, hd]
    dsimp only
    rw [if_neg Bool.false_ne_true]
    by_cases hstops : Stops n
    · rw [if_pos (hout.2 hstops)]
      exact .inr ⟨rfl, [], c, cs, rfl, hstops⟩
    · have hstep : invokeDigits 16 (positive hexIntTraits) false
          (toInt32 ((positive hexIntTraits).increment d (toInt32 (toInt32 n * (16 : ℕ))))) cs =
            invokeDigits 16 (positive hexIntTraits) false (toInt32 ((n * 16 + d : ℕ) : ℤ)) cs := congrArg (invokeDigits _ _ _ · _) hnext
      have hvalue : ∀ p, valueFrom 16 n (c :: p) = valueFrom 16 (n * 16 + d) p := fun p => by
        rw [valueFrom, List.foldl_cons, hd]
        rfl
      rw [if_neg (fun h => hstops (hout.1 h)), hstep, hvalue]
      rcases ih (fun c' hc' => hcs c' (List.mem_cons_of_mem _ hc')) (n * 16 + d) with ⟨hread, hnone⟩ | ⟨hread, p, c', rest, rfl, hp⟩
      · refine .inl ⟨hread, fun p c' rest heq => ?_⟩
        cases p with
        | nil => exact hstops
        | cons a p =>
          obtain ⟨rfl, hcs'⟩ := List.cons.inj heq
          rw [hvalue]
          exact hnone p c' rest hcs'
      · exact .inr ⟨hread, c :: p, c', rest, rfl, by rwa [hvalue]⟩

theorem invokeDigits_hex (h : IsDigits 16 n text) :
    (invokeDigits 16 (positive hexIntTraits) true 0 text = (true, toInt32 n) ∧
      ∀ p c rest, text = p ++ c :: rest → ¬ Stops (digitsValue 16 p)) ∨
    (invokeDigits 16 (positive hexIntTraits) true 0 text = (false, -1) ∧ 4294967295 < n ∧
      ∃ p c rest, text = p ++ c :: rest ∧ Stops (digitsValue 16 p)) := by
  have hfirst : invokeDigits 16 (positive hexIntTraits) true 0 text =
      invokeDigits 16 (positive hexIntTraits) false (toInt32 (0 : ℕ)) text := by
    obtain ⟨c, cs, rfl⟩ := List.exists_cons_of_ne_nil h.ne_nil
    obtain ⟨d, hd⟩ := isSome_iff_exists.1 (h.digits c List.mem_cons_self)
    rw [invokeDigits, invokeDigits, hd]
    dsimp only
    rw [if_pos rfl, if_neg Bool.false_ne_true, if_neg]
    · rfl
    · rw [hex_outOfBounds 0 (digit_lt (.inr rfl) hd)]
      exact fun h => nomatch h.1
  rw [hfirst]
  obtain rfl := h.value
  rcases invokeDigits_hex_next h.digits 0 with ⟨hread, hnone⟩ | ⟨hread, p, c, rest, rfl, hp⟩
  · exact .inl ⟨hread, hnone⟩
  · refine .inr ⟨hread, ?_, p, c, rest, rfl, hp⟩
    have hge : valueFrom 16 0 p * 16 ≤ digitsValue 16 (p ++ c :: rest) := by
      unfold digitsValue valueFrom
      rw [List.foldl_append, List.foldl_cons]
      refine Nat.le_trans (Nat.le_add_right _ _) (BoundedLoop.le_foldl (fun n c => ?_) _ rest)
      omega
    unfold Stops at hp
    omega

theorem reads_hexStringToInt (hsigned : Signed false input text) (h : ¬ Unnoticed input) :
    Reads 16 4294967295 (fun n => toInt32 n) text (invokeSign 16 (positive hexIntTraits) text) := by
  have hread : ∀ n, IsNumeral 16 n text →
      invokeSign 16 (positive hexIntTraits) text = (decide (n ≤ 4294967295), toInt32 ((min n 4294967295 : ℕ) : ℤ)) := by
    intro n hn
    obtain ⟨digits, hdigits, htext, hinvoke⟩ := hn.exists_digits
    rw [hinvoke]
    rcases invokeDigits_hex hdigits with ⟨hloop, hnone⟩ | ⟨hloop, hlt, -⟩
    · have hle : n ≤ 4294967295 := by
        by_contra hlt
        exact h ⟨text, digits, n, hsigned, htext, hdigits, Nat.not_le.1 hlt, hnone⟩
      rw [hloop, decide_eq_true hle, Nat.min_eq_left hle]
    · rw [hloop, decide_eq_false (Nat.not_le.2 hlt), Nat.min_eq_right (Nat.le_of_lt hlt)]
      rfl
  exact reads_of_numerals hread

/-! ### Strings from numbers -/

/-- The loop of `IntToString`, from the last digit on. -/
def writeDigits (res : ℕ) (out : List UInt8) : List UInt8 :=
  if res / 10 = 0 then UInt8.ofNat (res % 10 + 48) :: out
  else writeDigits (res / 10) (UInt8.ofNat (res % 10 + 48) :: out)
termination_by res

/-- `ToUnsigned`: the negation of the smallest number is that number again. -/
def toUnsigned (bits : ℕ) (value : ℤ) : ℕ := ((if value < 0 then (-value).bmod (2 ^ bits) else value) % 2 ^ bits).toNat

/-- `IntToStringT::IntToString`. -/
def intToStringT (bits : ℕ) (value : ℤ) : List UInt8 :=
  if value < 0 then 45 :: writeDigits (toUnsigned bits value) [] else writeDigits (toUnsigned bits value) []

def intToString (value : ℤ) : List UInt8 := intToStringT 32 value

def int64ToString (value : ℤ) : List UInt8 := intToStringT 64 value

theorem toUnsigned_eq (h : value.natAbs < 2 ^ bits) : toUnsigned bits value = value.natAbs := by
  have hlt : ((value.natAbs : ℕ) : ℤ) < ((2 ^ bits : ℕ) : ℤ) := Int.ofNat_lt.2 h
  have hmod : (value.natAbs : ℤ) % ((2 ^ bits : ℕ) : ℤ) = value.natAbs := Int.emod_eq_of_lt (Int.natCast_nonneg _) hlt
  have hpow : (2 : ℤ) ^ bits = ((2 ^ bits : ℕ) : ℤ) := (Nat.cast_pow 2 bits).symm
  rw [toUnsigned, hpow]
  split_ifs with hneg
  · rw [Int.bmod_emod, show -value = value.natAbs by omega, hmod, Int.toNat_natCast]
  · rw [show value = value.natAbs by omega, hmod, Int.toNat_natCast]
    rfl

theorem exists_writeDigits (n : ℕ) (out : List UInt8) : ∃ digits, writeDigits n out = digits ++ out ∧ IsDigits 10 n digits := by
  induction n using Nat.strong_induction_on generalizing out with
  | _ n ih =>
    have hdigit : charToDigit 10 (UInt8.ofNat (n % 10 + 48)) = some (n % 10) := by
      have hvalue : (UInt8.ofNat (n % 10 + 48)).toNat = n % 10 + 48 := by
        rw [UInt8.toNat_ofNat']
        omega
      rw [charToDigit, if_pos (Nat.le_refl 10), hvalue, if_pos ⟨by omega, by omega⟩, Nat.add_sub_cancel]
    rw [writeDigits]
    split_ifs with hlast
    · refine ⟨[UInt8.ofNat (n % 10 + 48)], rfl, List.cons_ne_nil _ _, fun c hc => ?_, ?_⟩
      · rw [List.mem_singleton.1 hc, hdigit]
        rfl
      · show 0 * 10 + (charToDigit 10 _).getD 0 = n
        rw [hdigit, getD_some]
        omega
    · obtain ⟨digits, hdigits, hne, hall, hvalue⟩ := ih (n / 10) (by omega) (UInt8.ofNat (n % 10 + 48) :: out)
      refine ⟨digits ++ [UInt8.ofNat (n % 10 + 48)], by rw [hdigits, List.append_assoc]; rfl, by simp, fun c hc => ?_, ?_⟩
      · rcases List.mem_append.1 hc with hc | hc
        · exact hall c hc
        · rw [List.mem_singleton.1 hc, hdigit]
          rfl
      · unfold digitsValue valueFrom at hvalue ⊢
        rw [List.foldl_append, hvalue, List.foldl_cons, hdigit, List.foldl_nil, getD_some]
        omega

theorem isNumber_intToStringT (h : value.natAbs < 2 ^ bits) :
    IsNumber 10 (decide (value < 0)) value.natAbs (intToStringT bits value) := by
  obtain ⟨digits, hdigits, hn⟩ := exists_writeDigits value.natAbs []
  rw [List.append_nil] at hdigits
  refine ⟨digits, ?_, .digits hn⟩
  rw [intToStringT, toUnsigned_eq h, hdigits]
  split_ifs with hneg
  · rw [decide_eq_true hneg]
    exact .minus
  · rw [decide_eq_false hneg]
    exact hn.signed (.inl rfl)

theorem ParsesAs.eq {result : Bool × ℤ} (h : ParsesAs type input result) (hn : IsNumber type.base isNegative n input)
    (hle : n ≤ type.bound isNegative) : result = (true, type.hold (if isNegative then -(n : ℤ) else n)) := by
  refine Prod.ext (h.accepts.2 ⟨_, _, hn, hle⟩) ((h.output hn).trans ?_)
  rw [Nat.min_eq_left hle]

theorem ParsesAs.intToStringT {result : Bool × ℤ} (hbits : value.natAbs < 2 ^ bits)
    (h : ParsesAs type (intToStringT bits value) result) (hbase : type.base = 10)
    (hle : value.natAbs ≤ type.bound (decide (value < 0))) (hhold : type.hold value = value) : result = (true, value) := by
  have hvalue : (if decide (value < 0) then -(value.natAbs : ℤ) else value.natAbs) = value := by
    by_cases hneg : value < 0
    · rw [decide_eq_true hneg, if_pos rfl]
      omega
    · rw [decide_eq_false hneg, if_neg Bool.false_ne_true]
      omega
  have hresult := h.eq (hbase ▸ isNumber_intToStringT hbits) hle
  rwa [hvalue, hhold] at hresult

/-! ### The parsers -/

theorem parsesAs_stringToInt (input : List UInt8) : ParsesAs intType input (stringToInt input) := by
  show ParsesAs intType input (readSigned (invokeSign 10 (positive intTraits)) (invokeSign 10 (negative intTraits)) input)
  refine parsesAs_of_signed rfl fun isNegative text _ => ?_
  cases isNegative with
  | false => exact reads_of_loop rfl boundedLoop_positive
  | true => exact reads_of_loop rfl (boundedLoop_negative (.inl rfl))

theorem parsesAs_hexStringToInt_iff (input : List UInt8) :
    ParsesAs hexIntType input (hexStringToInt input) ↔ ¬ Unnoticed input := by
  have hread : hexStringToInt input =
      readSigned (invokeSign 16 (positive hexIntTraits)) (invokeSign 16 (negative hexIntTraits)) input := rfl
  rw [hread]
  constructor
  · rintro h ⟨text, digits, n, hsigned, htext, hdigits, hlt, hnone⟩
    have hn : IsNumeral 16 n text := by
      rcases htext with rfl | ⟨x, hx, rfl⟩
      · exact .digits hdigits
      · exact .prefixed rfl hx hdigits
    have hinvoke : invokeSign 16 (positive hexIntTraits) text = invokeDigits 16 (positive hexIntTraits) true 0 digits := by
      rcases htext with rfl | ⟨x, hx, rfl⟩
      · exact invokeSign_digits hdigits
      · exact invokeSign_prefixed hx hdigits
    have haccepts := h.accepts
    rw [readSigned_eq hsigned, if_neg Bool.false_ne_true, hinvoke] at haccepts
    rcases invokeDigits_hex hdigits with ⟨hloop, -⟩ | ⟨-, -, p, c, rest, heq, hp⟩
    · rw [hloop] at haccepts
      obtain ⟨isNegative, n', ⟨text', hsigned', hn'⟩, hle⟩ := haccepts.1 rfl
      obtain ⟨rfl, rfl⟩ := hsigned.unique hsigned'
      rw [hn'.unique hn] at hle
      exact Nat.not_le.2 hlt hle
    · exact hnone p c rest heq hp
  · intro h
    refine parsesAs_of_signed rfl fun isNegative text hsigned => ?_
    cases isNegative with
    | false => exact reads_hexStringToInt hsigned h
    | true =>
      have hreads : Reads 16 2147483648 (fun n => -(n : ℤ)) text (invokeSign 16 (negative hexIntTraits) text) :=
        reads_of_loop rfl (boundedLoop_negative (.inr rfl))
      refine ⟨hreads.accepts, fun {n} hn => (hreads.output hn).trans (toInt32_of_mem ?_ ?_).symm⟩
      · have hmin := Nat.min_le_right n 2147483648
        show -2147483648 ≤ -((min n 2147483648 : ℕ) : ℤ)
        omega
      · show -((min n 2147483648 : ℕ) : ℤ) < 2147483648
        omega

/-- **`HexStringToInt` on hexadecimal digits.** -/
theorem hexStringToInt_of_lt {digits : List UInt8} (hne : digits ≠ []) (hdigits : ∀ c ∈ digits, c ∈ hexDigits)
    (hlt : hexValue digits < 2147483648) : hexStringToInt digits = (true, (hexValue digits : ℤ)) := by
  have h : IsDigits 16 (hexValue digits) digits := by
    refine ⟨hne, fun c hc => ?_, rfl⟩
    rw [charToDigit_of_mem c (hdigits c hc)]
    rfl
  show readSigned (invokeSign 16 (positive hexIntTraits)) (invokeSign 16 (negative hexIntTraits)) digits = _
  rw [readSigned_eq (h.signed (.inr rfl)), if_neg Bool.false_ne_true, invokeSign_digits h]
  rcases invokeDigits_hex h with ⟨hloop, -⟩ | ⟨-, hlt', -⟩
  · rw [hloop, toInt32_of_mem (by omega) (by omega)]
  · omega

end

end Chromium.Base
