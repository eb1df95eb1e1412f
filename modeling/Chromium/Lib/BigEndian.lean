import Mathlib.Data.UInt
import Mathlib.Tactic.Ring

/-!
# Numbers in network byte order

`beNat` is the number that bytes stand for when the highest comes first, `toBe` writes a number
so.  `field` reads some bytes of a record.  A number that is written is read again (`beNat_toBe`),
and bytes behind a field do not change it (`field_append`).
-/

namespace Lib

/-- The number that `bytes` stand for. -/
def beNat (bytes : List UInt8) : ℕ := bytes.foldl (fun n b => n * 256 + b.toNat) 0

/-- The lowest `w` bytes of a number. -/
def toBe : ℕ → ℕ → List UInt8
  | 0, _ => []
  | w + 1, n => toBe w (n / 256) ++ [UInt8.ofNat n]

/-- The number in `w` bytes of a record. -/
def field (bytes : List UInt8) (offset w : ℕ) : ℕ := beNat ((bytes.drop offset).take w)

variable {bytes bytes' : List UInt8} {offset w n : ℕ}

@[simp]
theorem beNat_nil : beNat [] = 0 := rfl

theorem beNat_concat (bytes : List UInt8) (b : UInt8) :
    beNat (bytes ++ [b]) = beNat bytes * 256 + b.toNat := by
  rw [beNat, List.foldl_append]
  rfl

@[simp]
theorem length_toBe (w n : ℕ) : (toBe w n).length = w := by
  induction w generalizing n with
  | zero => rfl
  | succ w ih => rw [toBe, List.length_append, ih, List.length_singleton]

/-- **A number is read as it was written**, if it has no more bytes. -/
theorem beNat_toBe (w n : ℕ) : beNat (toBe w n) = n % 256 ^ w := by
  induction w generalizing n with
  | zero => rw [pow_zero, Nat.mod_one]; rfl
  | succ w ih =>
    have hbyte : (UInt8.ofNat n).toNat = n % 256 := UInt8.toNat_ofNat'
    rw [toBe, beNat_concat, ih, hbyte, pow_succ, Nat.mul_comm (256 ^ w), Nat.mod_mul]
    omega

theorem beNat_toBe_of_lt (h : n < 256 ^ w) : beNat (toBe w n) = n := by
  rw [beNat_toBe, Nat.mod_eq_of_lt h]

theorem beNat_lt (bytes : List UInt8) : beNat bytes < 256 ^ bytes.length := by
  induction bytes using List.reverseRecOn with
  | nil => exact Nat.one_pos
  | append_singleton bytes b ih =>
    have hb : b.toNat < 256 := b.toNat_lt
    rw [beNat_concat, List.length_append, List.length_singleton, pow_succ]
    omega

theorem toBe_beNat (bytes : List UInt8) : toBe bytes.length (beNat bytes) = bytes := by
  induction bytes using List.reverseRecOn with
  | nil => rfl
  | append_singleton bytes b ih =>
    have hb : b.toNat < 256 := b.toNat_lt
    have hlow : UInt8.ofNat (beNat bytes * 256 + b.toNat) = b := by
      rw [UInt8.ofNat_add, UInt8.ofNat_mul, UInt8.ofNat_toNat, show UInt8.ofNat 256 = 0 from rfl, UInt8.mul_zero,
        UInt8.zero_add]
    rw [List.length_append, List.length_singleton, toBe, beNat_concat, hlow, Nat.mul_comm (beNat bytes),
      Nat.mul_add_div (by decide), Nat.div_eq_of_lt hb, Nat.add_zero, ih]

theorem toBe_succ_eq_cons (w n : ℕ) : toBe (w + 1) n = UInt8.ofNat (n / 256 ^ w) :: toBe w n := by
  induction w generalizing n with
  | zero => simp [toBe]
  | succ w ih => rw [toBe, ih, List.cons_append, Nat.div_div_eq_div_mul, ← Nat.pow_succ', toBe]

theorem beNat_append (bytes bytes' : List UInt8) :
    beNat (bytes ++ bytes') = beNat bytes * 256 ^ bytes'.length + beNat bytes' := by
  induction bytes' using List.reverseRecOn with
  | nil => simp
  | append_singleton bytes' b ih =>
    rw [← List.append_assoc, beNat_concat, ih, beNat_concat, List.length_append, List.length_singleton, pow_succ]
    ring

theorem field_append (h : offset + w ≤ bytes.length) :
    field (bytes ++ bytes') offset w = field bytes offset w := by
  rw [field, List.drop_append_of_le_length (by omega),
    List.take_append_of_le_length (by rw [List.length_drop]; omega), field]

theorem field_append_right (h : bytes.length ≤ offset) :
    field (bytes ++ bytes') offset w = field bytes' (offset - bytes.length) w := by
  rw [field, List.drop_append, List.drop_eq_nil_of_le h, List.nil_append, field]

theorem field_zero (h : bytes.length = w) : field (bytes ++ bytes') 0 w = beNat bytes := by
  rw [field_append (by omega), field, List.drop_zero, List.take_of_length_le (by omega)]

end Lib
