import Chromium.Crypto.OpenPgpPackets
import Mathlib.Tactic.Ring

/-!
# Lengths that are read back

What the reader makes of a length that `MakePacket` wrote.  It is the length for less than 192 bytes, and from 8384 bytes on
where no `char` behind another one than 0xff is negative (`readLength_eq_iff`).  In between it is 192 bytes too few.
-/

namespace Chromium.Crypto.OpenPgp

open Lib

variable {charIsSigned : Bool} {size tag : ℕ} {contents data rest : List UInt8}

/-- **No negative `char` changes the length**: each of the last three bytes is less than 128, or all bytes in front of it are
255. -/
def SignSafe (size : ℕ) : Prop :=
  (128 ≤ size / 65536 % 256 ∨ 128 ≤ size / 256 % 256 ∨ 128 ≤ size % 256 → size / 16777216 = 255) ∧
  (128 ≤ size / 256 % 256 ∨ 128 ≤ size % 256 → size / 65536 % 256 = 255) ∧
  (128 ≤ size % 256 → size / 256 % 256 = 255)

def Readable (charIsSigned : Bool) (size : ℕ) : Prop :=
  size < 192 ∨ 8384 ≤ size ∧ (charIsSigned = true → SignSafe size)

def readLength (charIsSigned : Bool) (size : ℕ) : ℕ :=
  if size < 192 then size
  else if size < 8384 then size - 192
  else Reader.ofBytes charIsSigned (UInt8.ofNat (size / 16777216)) (UInt8.ofNat (size / 65536)) (UInt8.ofNat (size / 256))
    (UInt8.ofNat size)

/-! ## Four bytes -/

namespace Reader

theorem mul_add_div_of_lt {a b : ℕ} (h : b < 256) : (a * 256 + b) / 256 = a := by
  rw [Nat.mul_comm, Nat.mul_add_div (by decide), Nat.div_eq_of_lt h, Nat.add_zero]

theorem or_add {a b c d : ℕ} (hb : b < 256) (hd : d < 256) :
    (a * 256 + b) ||| (c * 256 + d) = (a ||| c) * 256 + (b ||| d) := by
  have hdiv : ((a * 256 + b) ||| (c * 256 + d)) / 256 = (a * 256 + b) / 256 ||| (c * 256 + d) / 256 :=
    Nat.or_div_two_pow (n := 8)
  have hmod : ((a * 256 + b) ||| (c * 256 + d)) % 256 = (a * 256 + b) % 256 ||| (c * 256 + d) % 256 :=
    Nat.or_mod_two_pow (n := 8)
  rw [mul_add_div_of_lt hb, mul_add_div_of_lt hd] at hdiv
  rw [Nat.mul_add_mod_of_lt hb, Nat.mul_add_mod_of_lt hd] at hmod
  rw [← hdiv, ← hmod]
  exact (Nat.div_add_mod' _ _).symm

theorem or_255 {b : ℕ} (h : b < 256) : b ||| 255 = 255 := by
  have hall : ∀ n : Fin 256, n.val ||| 255 = 255 := by decide +kernel
  exact hall ⟨b, h⟩

def signFill (charIsSigned : Bool) (b : UInt8) : ℕ := if charIsSigned ∧ 128 ≤ b.toNat then 255 else 0

theorem charToUint32_eq (charIsSigned : Bool) (b : UInt8) : charToUint32 charIsSigned b =
      ((signFill charIsSigned b * 256 + signFill charIsSigned b) * 256 + signFill charIsSigned b) * 256 + b.toNat := by
  unfold charToUint32 signFill
  split <;> omega

theorem signFill_lt (charIsSigned : Bool) (b : UInt8) : signFill charIsSigned b < 256 := by
  unfold signFill
  split <;> decide

/-- **Four bytes together**: a negative `char` sets all bits of the bytes in front of it. -/
theorem ofBytes_eq (b₀ b₁ b₂ b₃ : UInt8) : ofBytes charIsSigned b₀ b₁ b₂ b₃ =
      (((b₀.toNat ||| signFill charIsSigned b₁ ||| signFill charIsSigned b₂ ||| signFill charIsSigned b₃) * 256 +
        (b₁.toNat ||| signFill charIsSigned b₂ ||| signFill charIsSigned b₃)) * 256 +
        (b₂.toNat ||| signFill charIsSigned b₃)) * 256 + b₃.toNat := by
  have h₀ := b₀.toNat_lt
  have h₁ := b₁.toNat_lt
  have h₂ := b₂.toNat_lt
  have h₃ := b₃.toNat_lt
  have hf₁ := signFill_lt charIsSigned b₁
  have hf₂ := signFill_lt charIsSigned b₂
  have hf₃ := signFill_lt charIsSigned b₃
  have ht₀ : charToUint32 charIsSigned b₀ <<< 24 % 4294967296 = ((b₀.toNat * 256 + 0) * 256 + 0) * 256 + 0 := by
    rw [charToUint32_eq, Nat.shiftLeft_eq]
    omega
  have ht₁ : charToUint32 charIsSigned b₁ <<< 16 % 4294967296 =
      ((signFill charIsSigned b₁ * 256 + b₁.toNat) * 256 + 0) * 256 + 0 := by
    rw [charToUint32_eq, Nat.shiftLeft_eq]
    omega
  have ht₂ : charToUint32 charIsSigned b₂ <<< 8 % 4294967296 =
      ((signFill charIsSigned b₂ * 256 + signFill charIsSigned b₂) * 256 + b₂.toNat) * 256 + 0 := by
    rw [charToUint32_eq, Nat.shiftLeft_eq]
    omega
  have hzero : 0 < 256 := by decide
  have hor₂ : 0 ||| b₁.toNat < 256 := by rwa [Nat.zero_or]
  rw [ofBytes, ht₀, ht₁, ht₂, charToUint32_eq, or_add hzero hzero, or_add hzero hzero, or_add hzero h₁,
    or_add (Nat.or_lt_two_pow (n := 8) hzero hzero) hzero, or_add (Nat.or_lt_two_pow (n := 8) hzero hzero) h₂,
    or_add hor₂ hf₂, or_add (Nat.or_lt_two_pow (n := 8) (Nat.or_lt_two_pow (n := 8) hzero hzero) hzero) h₃,
    or_add (Nat.or_lt_two_pow (n := 8) (Nat.or_lt_two_pow (n := 8) hzero hzero) h₂) hf₃,
    or_add (Nat.or_lt_two_pow (n := 8) hor₂ hf₂) hf₃]
  simp only [Nat.zero_or, Nat.or_zero]

end Reader

/-! ## Lengths -/

theorem ofBytes_of_lt (hsize : size < 4294967296) :
    Reader.ofBytes charIsSigned (UInt8.ofNat (size / 16777216)) (UInt8.ofNat (size / 65536)) (UInt8.ofNat (size / 256))
        (UInt8.ofNat size) =
      (((size / 16777216 ||| (if charIsSigned ∧ 128 ≤ size / 65536 % 256 then 255 else 0) |||
          (if charIsSigned ∧ 128 ≤ size / 256 % 256 then 255 else 0) |||
          (if charIsSigned ∧ 128 ≤ size % 256 then 255 else 0)) * 256 +
        (size / 65536 % 256 ||| (if charIsSigned ∧ 128 ≤ size / 256 % 256 then 255 else 0) |||
          (if charIsSigned ∧ 128 ≤ size % 256 then 255 else 0))) * 256 +
        (size / 256 % 256 ||| (if charIsSigned ∧ 128 ≤ size % 256 then 255 else 0))) * 256 + size % 256 := by
  have htop : size / 16777216 % 256 = size / 16777216 := Nat.mod_eq_of_lt (by omega)
  have hbyte : ∀ n, (UInt8.ofNat n).toNat = n % 256 := fun n => UInt8.toNat_ofNat
  rw [Reader.ofBytes_eq]
  unfold Reader.signFill
  rw [hbyte, hbyte, hbyte, hbyte, htop]

/-- **Where no negative `char` changes it, the length comes back**, and else it is at least 256 too large. -/
theorem ofBytes_cases (hsize : size < 4294967296) :
    (charIsSigned = true → SignSafe size) ∧ Reader.ofBytes charIsSigned (UInt8.ofNat (size / 16777216))
        (UInt8.ofNat (size / 65536)) (UInt8.ofNat (size / 256)) (UInt8.ofNat size) = size ∨
    ¬(charIsSigned = true → SignSafe size) ∧ size + 256 ≤ Reader.ofBytes charIsSigned (UInt8.ofNat (size / 16777216))
        (UInt8.ofNat (size / 65536)) (UInt8.ofNat (size / 256)) (UInt8.ofNat size) := by
  rw [ofBytes_of_lt hsize]
  have hdigits : size = ((size / 16777216 * 256 + size / 65536 % 256) * 256 + size / 256 % 256) * 256 + size % 256 := by
    omega
  have htop : size / 16777216 < 256 := by omega
  have hsecond : size / 65536 % 256 < 256 := Nat.mod_lt _ (by decide)
  have hthird : size / 256 % 256 < 256 := Nat.mod_lt _ (by decide)
  unfold SignSafe
  generalize size / 16777216 = b₀ at hdigits htop ⊢
  generalize size / 65536 % 256 = b₁ at hdigits hsecond ⊢
  generalize size / 256 % 256 = b₂ at hdigits hthird ⊢
  generalize size % 256 = b₃ at hdigits ⊢
  cases charIsSigned with
  | false =>
    refine .inl ⟨nofun, ?_⟩
    simp only [Bool.false_eq_true, false_and, if_false, Nat.or_zero]
    exact hdigits.symm
  | true =>
    have h255 : (255 : ℕ) ||| 255 = 255 := rfl
    simp only [true_and, true_implies]
    by_cases h₁ : 128 ≤ b₁ <;> by_cases h₂ : 128 ≤ b₂ <;> by_cases h₃ : 128 ≤ b₃ <;>
      simp only [h₁, h₂, h₃, if_true, if_false, Nat.or_zero, Reader.or_255 htop, Reader.or_255 hsecond,
        Reader.or_255 hthird, h255, or_true, or_false, true_implies, false_implies, and_true, true_and,
        not_true] <;> omega

theorem readLength_of_readable (h : Readable charIsSigned size) (hsize : size < 4294967296) :
    readLength charIsSigned size = size := by
  unfold readLength
  by_cases hsmall : size < 192
  · rw [if_pos hsmall]
  · obtain ⟨hlarge, hsafe⟩ := h.resolve_left hsmall
    rw [if_neg hsmall, if_neg (by omega)]
    rcases ofBytes_cases hsize with ⟨-, heq⟩ | ⟨hnot, -⟩
    · exact heq
    · exact absurd hsafe hnot

theorem readLength_of_not_readable (h : ¬Readable charIsSigned size) (hsize : size < 4294967296) :
    192 ≤ size ∧ size < 8384 ∧ readLength charIsSigned size = size - 192 ∨
      8384 ≤ size ∧ size + 256 ≤ readLength charIsSigned size := by
  obtain ⟨hsmall, hlarge⟩ := not_or.1 h
  rw [readLength, if_neg hsmall]
  by_cases htwo : size < 8384
  · rw [if_pos htwo]
    exact .inl ⟨by omega, htwo, rfl⟩
  · rw [if_neg htwo]
    rcases ofBytes_cases hsize with ⟨hsafe, -⟩ | ⟨-, hle⟩
    · exact absurd ⟨not_lt.1 htwo, hsafe⟩ hlarge
    · exact .inr ⟨not_lt.1 htwo, hle⟩

/-! ## Packets -/

theorem parseLength_cons (b : UInt8) (data : List UInt8) :
    parseLength charIsSigned (b :: data) = if b.toNat < 192 then .ok ((b.toNat, false), data)
      else if b.toNat < 224 then
        Reader.u8 data >>= fun next => .ok (((b.toNat - 192) * 256 + next.1.toNat, false), next.2)
      else if b.toNat < 255 then .ok ((2 ^ (b.toNat % 32), true), data)
      else Reader.u32 charIsSigned data >>= fun next => .ok ((next.1, false), next.2) := rfl

/-- **The length that `MakePacket` writes is read in the same form.** -/
theorem parseLength_lengthHeader (size : ℕ) (rest : List UInt8) :
    parseLength charIsSigned (lengthHeader size ++ rest) = .ok ((readLength charIsSigned size, false), rest) := by
  have hbyte : ∀ n, n < 256 → (UInt8.ofNat n).toNat = n := fun n hn => UInt8.toNat_ofNat_of_lt' hn
  unfold lengthHeader readLength
  by_cases hsmall : size < 192
  · rw [if_pos hsmall, if_pos hsmall, List.singleton_append, parseLength_cons, hbyte size (by omega), if_pos hsmall]
  · rw [if_neg hsmall, if_neg hsmall]
    by_cases htwo : size < 8384
    · rw [if_pos htwo, if_pos htwo, List.cons_append, List.singleton_append, parseLength_cons, hbyte _ (by omega),
        if_neg (by omega), if_pos (by omega)]
      change Except.ok (((192 + (size - 192) / 256 - 192) * 256 + (UInt8.ofNat ((size - 192) % 256)).toNat, false), rest) = _
      rw [hbyte _ (Nat.mod_lt _ (by decide)), show (192 + (size - 192) / 256 - 192) * 256 + (size - 192) % 256 = size - 192 by
        omega]
    · rw [if_neg htwo, if_neg htwo]
      rfl

/-- **A packet that was written is read with the length that is read.** -/
theorem parsePacket_makePacket (htag : tag < 64) (contents rest : List UInt8) :
    parsePacket charIsSigned (makePacket tag contents ++ rest) =
      if contents.length + rest.length < readLength charIsSigned contents.length then fail
      else .ok ((tag, (contents ++ rest).take (readLength charIsSigned contents.length)),
        (contents ++ rest).drop (readLength charIsSigned contents.length)) := by
  have hall : ∀ n : Fin 64, UInt8.ofNat (0xc0 ||| n.val) &&& 0x80 ≠ 0 ∧ UInt8.ofNat (0xc0 ||| n.val) &&& 0x40 ≠ 0 ∧
      (UInt8.ofNat (0xc0 ||| n.val) &&& 0x3f).toNat = n.val := by decide +kernel
  obtain ⟨hmsb, hnew, htagEq⟩ := hall ⟨tag, htag⟩
  dsimp only at hmsb hnew htagEq
  rw [makePacket, List.cons_append, List.append_assoc]
  change (if UInt8.ofNat (0xc0 ||| tag) &&& 0x80 = 0 then fail
    else if UInt8.ofNat (0xc0 ||| tag) &&& 0x40 = 0 then _
    else parseLength charIsSigned (lengthHeader contents.length ++ (contents ++ rest)) >>= _) = _
  rw [if_neg hmsb, if_neg hnew, parseLength_lengthHeader, htagEq]
  change (Reader.takePrefix (readLength charIsSigned contents.length) (contents ++ rest) >>= _) = _
  rw [Reader.takePrefix, List.length_append]
  split <;> rfl

end Chromium.Crypto.OpenPgp
