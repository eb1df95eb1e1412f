import Mathlib.Data.UInt

/-!
# Machine integers over `ℤ`

`toInt32` is the value a 32-bit two's complement register holds after a number
is stored in it, `toInt64` that of a 64-bit one, and `uint32OfInt` the same for an
unsigned register.  A number
in range is stored as itself (`toInt32_of_mem`, `toInt64_of_mem`).
-/

namespace Lib

/-- The value of `x` stored in a signed 32-bit register. -/
def toInt32 (x : ℤ) : ℤ := (2147483648 + x) % 4294967296 - 2147483648

theorem toInt32_of_mem {x : ℤ} (h0 : -2147483648 ≤ x) (h1 : x < 2147483648) : toInt32 x = x := by
  unfold toInt32
  omega

theorem le_toInt32 (x : ℤ) : -2147483648 ≤ toInt32 x := by
  unfold toInt32
  omega

theorem toInt32_lt (x : ℤ) : toInt32 x < 2147483648 := by
  unfold toInt32
  omega

theorem toInt32_eq_of_emod_eq {x y : ℤ} (h : x % 4294967296 = y % 4294967296) :
    toInt32 x = toInt32 y := by
  unfold toInt32
  omega

/-- The value of `x` stored in a signed 64-bit register. -/
def toInt64 (x : ℤ) : ℤ := (9223372036854775808 + x) % 18446744073709551616 - 9223372036854775808

theorem toInt64_of_mem {x : ℤ} (h0 : -9223372036854775808 ≤ x) (h1 : x < 9223372036854775808) :
    toInt64 x = x := by
  unfold toInt64
  omega

/-- The value of `x` stored in an unsigned 32-bit register. -/
def uint32OfInt (x : ℤ) : UInt32 := UInt32.ofNat (x % 4294967296).toNat

def int32OfUInt32 (x : UInt32) : ℤ := toInt32 x.toNat

theorem toNat_uint32OfInt (x : ℤ) : ((uint32OfInt x).toNat : ℤ) = x % 4294967296 := by
  have h0 : 0 ≤ x % 4294967296 := Int.emod_nonneg _ (by decide)
  rw [uint32OfInt, UInt32.toNat_ofNat', Nat.mod_eq_of_lt (by omega)]
  omega

/-- **Through an unsigned register and back a number is stored as a signed one.** -/
theorem int32OfUInt32_uint32OfInt (x : ℤ) : int32OfUInt32 (uint32OfInt x) = toInt32 x := by
  rw [int32OfUInt32, toNat_uint32OfInt]
  exact toInt32_eq_of_emod_eq (by omega)

theorem int32OfUInt32_of_lt {x : UInt32} (h : x.toNat < 2147483648) : int32OfUInt32 x = x.toNat :=
  toInt32_of_mem (by omega) (by omega)

end Lib
