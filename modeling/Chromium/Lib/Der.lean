import Chromium.Lib.BigEndian
import Mathlib.Data.Nat.Log

/-!
# Elements in DER

An element is a tag, the length of its content in as few bytes as possible, and the content.  `derLength` writes a
length, `derElement` an element.  `IsDerLength` says the same without a function: a length below 128 is one byte, and a
longer one says how many bytes follow, of which the first is not zero.
-/

namespace Lib

def minimalBytes (n : ℕ) : List UInt8 := if n = 0 then [] else minimalBytes (n / 256) ++ [UInt8.ofNat n]
termination_by n
decreasing_by omega

def derLength (n : ℕ) : List UInt8 :=
  if n < 128 then [UInt8.ofNat n] else UInt8.ofNat (128 + (minimalBytes n).length) :: minimalBytes n

def derElement (tag : UInt8) (content : List UInt8) : List UInt8 := tag :: (derLength content.length ++ content)

/-- **A length in as few bytes as possible.** -/
inductive IsDerLength (n : ℕ) : List UInt8 → Prop
  | short (h : n < 128) : IsDerLength n [UInt8.ofNat n]
  | long {w : ℕ} (hn : 128 ≤ n) (hw : w < 127) (hlow : 256 ^ w ≤ n) (hhigh : n < 256 ^ (w + 1)) :
      IsDerLength n (UInt8.ofNat (128 + (w + 1)) :: toBe (w + 1) n)

variable {n w : ℕ}

theorem minimalBytes_zero : minimalBytes 0 = [] := by rw [minimalBytes, if_pos rfl]

theorem minimalBytes_of_ne_zero (h : n ≠ 0) : minimalBytes n = minimalBytes (n / 256) ++ [UInt8.ofNat n] := by
  rw [minimalBytes, if_neg h]

theorem minimalBytes_eq_toBe (hlow : 256 ^ w ≤ n) (hhigh : n < 256 ^ (w + 1)) : minimalBytes n = toBe (w + 1) n := by
  have hpos : 0 < 256 ^ w := Nat.pow_pos (by decide)
  rw [minimalBytes_of_ne_zero (by omega), toBe]
  congr 1
  induction w generalizing n with
  | zero =>
    rw [Nat.div_eq_of_lt (by omega), minimalBytes_zero]
    rfl
  | succ w ih =>
    have hlow' : 256 ^ w ≤ n / 256 := by
      rw [Nat.le_div_iff_mul_le (by decide), ← pow_succ]
      exact hlow
    have hhigh' : n / 256 < 256 ^ (w + 1) := by
      rw [Nat.div_lt_iff_lt_mul (by decide), ← pow_succ]
      exact hhigh
    have hpos' : 0 < 256 ^ w := Nat.pow_pos (by decide)
    rw [minimalBytes_of_ne_zero (by omega), toBe, ih hlow' hhigh' hpos']

theorem exists_width (h : n ≠ 0) : ∃ w, 256 ^ w ≤ n ∧ n < 256 ^ (w + 1) := by
  refine ⟨Nat.log 256 n, Nat.pow_log_le_self 256 h, Nat.lt_pow_succ_log_self (by decide) n⟩

theorem length_minimalBytes_le (h : n < 256 ^ w) : (minimalBytes n).length ≤ w := by
  by_cases hzero : n = 0
  · rw [hzero, minimalBytes_zero]
    exact Nat.zero_le w
  · obtain ⟨w', hlow, hhigh⟩ := exists_width hzero
    rw [minimalBytes_eq_toBe hlow hhigh, length_toBe]
    exact (Nat.pow_lt_pow_iff_right (by decide)).1 (lt_of_le_of_lt hlow h)

theorem beNat_minimalBytes (n : ℕ) : beNat (minimalBytes n) = n := by
  by_cases hzero : n = 0
  · rw [hzero, minimalBytes_zero]
    rfl
  · obtain ⟨w, hlow, hhigh⟩ := exists_width hzero
    rw [minimalBytes_eq_toBe hlow hhigh, beNat_toBe_of_lt hhigh]

theorem isDerLength_derLength (h : n < 256 ^ 126) : IsDerLength n (derLength n) := by
  unfold derLength
  by_cases hshort : n < 128
  · rw [if_pos hshort]
    exact .short hshort
  · obtain ⟨w, hlow, hhigh⟩ := exists_width (show n ≠ 0 by omega)
    have hw : w < 126 := (Nat.pow_lt_pow_iff_right (by decide)).1 (lt_of_le_of_lt hlow h)
    rw [if_neg hshort, minimalBytes_eq_toBe hlow hhigh, length_toBe]
    exact .long (by omega) (by omega) hlow hhigh

theorem IsDerLength.content_unique {m : ℕ} {length length' content content' : List UInt8} (h : IsDerLength n length)
    (h' : IsDerLength m length') (hn : content.length = n) (hm : content'.length = m)
    (heq : length ++ content = length' ++ content') : content = content' := by
  have hbyte : ∀ k < 256, (UInt8.ofNat k).toNat = k := fun k hk => by
    rw [UInt8.toNat_ofNat']
    exact Nat.mod_eq_of_lt hk
  cases h with
  | short hshort =>
    cases h' with
    | short hshort' => exact (List.cons.inj heq).2
    | long hn' hw hlow hhigh =>
      have hhead := congrArg UInt8.toNat (List.cons.inj heq).1
      rw [hbyte n (by omega), hbyte _ (by omega)] at hhead
      omega
  | @long w hn' hw hlow hhigh =>
    cases h' with
    | short hshort' =>
      have hhead := congrArg UInt8.toNat (List.cons.inj heq).1
      rw [hbyte _ (by omega), hbyte m (by omega)] at hhead
      omega
    | @long w' hn'' hw' hlow' hhigh' =>
      have hhead := congrArg UInt8.toNat (List.cons.inj heq).1
      rw [hbyte _ (by omega), hbyte _ (by omega)] at hhead
      refine (List.append_inj (List.cons.inj heq).2 ?_).2
      rw [length_toBe, length_toBe]
      omega

theorem length_derElement (tag : UInt8) (content : List UInt8) :
    (derElement tag content).length = 1 + (derLength content.length).length + content.length := by
  rw [derElement, List.length_cons, List.length_append]
  omega

end Lib
