import Chromium.Gpu.Common.GLES2CmdUtils
import Chromium.Lib.MachineInt
import Mathlib.Tactic.Ring

/-!
# The size of image data

`GLES2Util::ComputeImageDataSize` of `gpu/command_buffer/common/gles2_cmd_utils.cc`: how many bytes a texture upload reads.  It
counts with 32 bits and checks each step, so it fails where a step does not fit, and that is where the size does not fit
(`computeImageDataSize_of_pos`).  Only for an image of no rows the size fits always, and the size of one row may not.
-/

namespace Chromium.Gpu

open Lib

def GL_RGB : GLenum := 0x1907
def GL_LUMINANCE_ALPHA : GLenum := 0x190A
def GL_BGRA_EXT : GLenum := 0x80E1
def GL_ALPHA : GLenum := 0x1906
def GL_LUMINANCE : GLenum := 0x1909
def GL_DEPTH_COMPONENT : GLenum := 0x1902
def GL_DEPTH_STENCIL_OES : GLenum := 0x84F9
def GL_UNSIGNED_INT_24_8_OES : GLenum := 0x84FA
def GL_UNSIGNED_SHORT_4_4_4_4 : GLenum := 0x8033
def GL_UNSIGNED_SHORT_5_5_5_1 : GLenum := 0x8034
def GL_UNSIGNED_SHORT_5_6_5 : GLenum := 0x8363

/-- `SafeMultiplyUint32`; `none` is a return of false. -/
def safeMultiplyUint32 (a b : UInt32) : Option UInt32 :=
  if b = 0 then some 0
  else
    let v := a * b
    if v / b ≠ a then none else some v

def safeAddUint32 (a b : UInt32) : Option UInt32 := if a + b < a then none else some (a + b)

def elementsPerGroup (format type : GLenum) : ℕ :=
  if type ∈ [GL_UNSIGNED_SHORT_5_6_5, GL_UNSIGNED_SHORT_4_4_4_4, GL_UNSIGNED_SHORT_5_5_5_1, GL_UNSIGNED_INT_24_8_OES] then 1
  else if format = GL_RGB then 3
  else if format = GL_LUMINANCE_ALPHA then 2
  else if format ∈ [GL_RGBA, GL_BGRA_EXT] then 4
  else if format ∈ [GL_ALPHA, GL_LUMINANCE, GL_DEPTH_COMPONENT, GL_DEPTH_STENCIL_OES] then 1
  else 0

def bytesPerElement (type : GLenum) : ℕ :=
  if type ∈ [GL_FLOAT, GL_UNSIGNED_INT_24_8_OES, GL_UNSIGNED_INT] then 4
  else if type ∈ [GL_HALF_FLOAT_OES, GL_UNSIGNED_SHORT, GL_SHORT, GL_UNSIGNED_SHORT_5_6_5, GL_UNSIGNED_SHORT_4_4_4_4,
      GL_UNSIGNED_SHORT_5_5_5_1] then 2
  else if type ∈ [GL_UNSIGNED_BYTE, GL_BYTE] then 1
  else 0

def bytesPerGroup (format type : GLenum) : ℕ := bytesPerElement type * elementsPerGroup format type

def sizeOfRows (height rowSize unpackAlignment : UInt32) : Option UInt32 :=
  (safeAddUint32 rowSize (unpackAlignment - 1)).bind fun temp =>
    let paddedRowSize := temp / unpackAlignment * unpackAlignment
    (safeMultiplyUint32 (height - 1) paddedRowSize).bind fun sizeOfAllButLastRow =>
      safeAddUint32 sizeOfAllButLastRow rowSize

/-- `GLES2Util::ComputeImageDataSize`; `none` is a return of false. -/
def computeImageDataSize (width height : ℤ) (format type : GLenum) (unpackAlignment : ℤ) : Option UInt32 :=
  (safeMultiplyUint32 (uint32OfInt width) (UInt32.ofNat (bytesPerGroup format type))).bind fun rowSize =>
    if height > 1 then sizeOfRows (uint32OfInt height) rowSize (uint32OfInt unpackAlignment)
    else safeMultiplyUint32 (uint32OfInt height) rowSize

/-! ### Checked arithmetic -/

def exactly (n : ℕ) : Option UInt32 := if n < 4294967296 then some (UInt32.ofNat n) else none

theorem exactly_of_lt {n : ℕ} (h : n < 4294967296) : exactly n = some (UInt32.ofNat n) := if_pos h

theorem exactly_of_le {n : ℕ} (h : 4294967296 ≤ n) : exactly n = none := if_neg (not_lt.2 h)

theorem exactly_eq_some {n : ℕ} {size : UInt32} : exactly n = some size ↔ n < 4294967296 ∧ size.toNat = n := by
  constructor
  · intro h
    by_cases hn : n < 4294967296
    · rw [exactly_of_lt hn] at h
      cases h
      exact ⟨hn, UInt32.toNat_ofNat_of_lt' hn⟩
    · rw [exactly_of_le (not_lt.1 hn)] at h
      cases h
  · rintro ⟨hn, rfl⟩
    rw [exactly_of_lt hn, UInt32.ofNat_toNat]

theorem exactly_toNat (a : UInt32) : exactly a.toNat = some a := exactly_eq_some.2 ⟨a.toNat_lt, rfl⟩

/-- **The multiplication that is checked by a division fails exactly when the product does not fit.** -/
theorem safeMultiplyUint32_eq (a b : UInt32) : safeMultiplyUint32 a b = exactly (a.toNat * b.toNat) := by
  unfold safeMultiplyUint32
  split
  · next hzero =>
    rw [hzero]
    rfl
  · next hzero =>
    have hpos : 0 < b.toNat := Nat.pos_of_ne_zero fun h => hzero (UInt32.toNat.inj h)
    have hmul : (a * b).toNat = a.toNat * b.toNat % 4294967296 := UInt32.toNat_mul a b
    dsimp only
    by_cases hfits : a.toNat * b.toNat < 4294967296
    · have hdiv : a * b / b = a := by
        refine UInt32.toNat.inj ?_
        rw [UInt32.toNat_div, hmul, Nat.mod_eq_of_lt hfits, Nat.mul_div_cancel _ hpos]
      rw [if_neg (not_not_intro hdiv)]
      exact (exactly_eq_some.2 ⟨hfits, hmul.trans (Nat.mod_eq_of_lt hfits)⟩).symm
    · rw [exactly_of_le (not_lt.1 hfits), if_pos]
      intro hdiv
      have hquot : (a.toNat * b.toNat % 4294967296) / b.toNat = a.toNat := by
        rw [← hmul, ← UInt32.toNat_div, hdiv]
      have hle : a.toNat * b.toNat ≤ a.toNat * b.toNat % 4294967296 := by
        calc a.toNat * b.toNat = (a.toNat * b.toNat % 4294967296) / b.toNat * b.toNat := by rw [hquot]
          _ ≤ a.toNat * b.toNat % 4294967296 := Nat.div_mul_le_self _ _
      omega

/-- **The addition that is checked by a comparison fails exactly when the sum does not fit.** -/
theorem safeAddUint32_eq (a b : UInt32) : safeAddUint32 a b = exactly (a.toNat + b.toNat) := by
  have ha := a.toNat_lt
  have hb := b.toNat_lt
  unfold safeAddUint32
  split_ifs with hlt
  · refine (exactly_of_le ?_).symm
    rw [UInt32.lt_iff_toNat_lt, UInt32.toNat_add] at hlt
    omega
  · rw [UInt32.lt_iff_toNat_lt, UInt32.toNat_add] at hlt
    refine (exactly_eq_some.2 ⟨by omega, ?_⟩).symm
    rw [UInt32.toNat_add]
    omega

/-! ## The size -/

/-- The next multiple of `a`. -/
def roundUp (n a : ℕ) : ℕ := (n + (a - 1)) / a * a

def imageSize (height rowSize unpackAlignment : ℕ) : ℕ :=
  if height = 0 then 0 else (height - 1) * roundUp rowSize unpackAlignment + rowSize

theorem le_imageSize {height rowSize unpackAlignment : ℕ} (h : height ≠ 0) :
    rowSize ≤ imageSize height rowSize unpackAlignment := by
  rw [imageSize, if_neg h]
  exact Nat.le_add_left _ _

/-- **The steps that are checked succeed exactly when the size fits.** -/
theorem sizeOfRows_eq {height rowSize unpackAlignment : UInt32} (hheight : 1 < height.toNat)
    (hpos : 0 < unpackAlignment.toNat) (hdvd : unpackAlignment.toNat ∣ 4294967296) :
    sizeOfRows height rowSize unpackAlignment =
      exactly (imageSize height.toNat rowSize.toNat unpackAlignment.toNat) := by
  have hheight' := height.toNat_lt
  have halign := unpackAlignment.toNat_lt
  have hless : (height - 1).toNat = height.toNat - 1 :=
    UInt32.toNat_sub_of_le _ _ (UInt32.le_iff_toNat_le.2 (show 1 ≤ height.toNat by omega))
  have hmask : (unpackAlignment - 1).toNat = unpackAlignment.toNat - 1 :=
    UInt32.toNat_sub_of_le _ _ (UInt32.le_iff_toNat_le.2 (show 1 ≤ unpackAlignment.toNat by omega))
  rw [sizeOfRows, safeAddUint32_eq, hmask, imageSize, if_neg (by omega)]
  have hrows : roundUp rowSize.toNat unpackAlignment.toNat ≤
      (height.toNat - 1) * roundUp rowSize.toNat unpackAlignment.toNat := Nat.le_mul_of_pos_left _ (by omega)
  by_cases hsum : rowSize.toNat + (unpackAlignment.toNat - 1) < 4294967296
  · rw [exactly_of_lt hsum, Option.bind_some]
    have hpadded : (UInt32.ofNat (rowSize.toNat + (unpackAlignment.toNat - 1)) / unpackAlignment * unpackAlignment).toNat =
        roundUp rowSize.toNat unpackAlignment.toNat := by
      have hle := Nat.div_mul_le_self (rowSize.toNat + (unpackAlignment.toNat - 1)) unpackAlignment.toNat
      rw [UInt32.toNat_mul, UInt32.toNat_div, UInt32.toNat_ofNat_of_lt' hsum, Nat.mod_eq_of_lt (hle.trans_lt hsum), roundUp]
    dsimp only
    rw [safeMultiplyUint32_eq, hless, hpadded]
    by_cases hproduct : (height.toNat - 1) * roundUp rowSize.toNat unpackAlignment.toNat < 4294967296
    · rw [exactly_of_lt hproduct, Option.bind_some, safeAddUint32_eq, UInt32.toNat_ofNat_of_lt' hproduct]
    · rw [exactly_of_le (not_lt.1 hproduct), exactly_of_le ((not_lt.1 hproduct).trans (Nat.le_add_right _ _))]
      rfl
  · -- The padded row alone does not fit, since the alignment divides `2 ^ 32`.
    have hlarge : 4294967296 ≤ roundUp rowSize.toNat unpackAlignment.toNat := by
      calc 4294967296 = 4294967296 / unpackAlignment.toNat * unpackAlignment.toNat := (Nat.div_mul_cancel hdvd).symm
        _ ≤ roundUp rowSize.toNat unpackAlignment.toNat :=
          Nat.mul_le_mul_right _ (Nat.div_le_div_right (not_lt.1 hsum))
    rw [exactly_of_le (not_lt.1 hsum), exactly_of_le (by omega)]
    rfl

theorem bytesPerGroup_lt (format type : GLenum) : bytesPerGroup format type < 4294967296 := by
  have hbytes : bytesPerElement type ≤ 4 := by
    unfold bytesPerElement
    split_ifs <;> omega
  have helements : elementsPerGroup format type ≤ 4 := by
    unfold elementsPerGroup
    split_ifs <;> omega
  exact (Nat.mul_le_mul hbytes helements).trans_lt (by decide)

theorem toNat_uint32OfInt_natCast {n : ℕ} (h : n < 4294967296) : (uint32OfInt n).toNat = n := by
  have heq := toNat_uint32OfInt n
  omega

variable {width height unpackAlignment : ℕ} {format type : GLenum}

theorem computeImageDataSize_eq (hwidth : width < 2147483648) :
    computeImageDataSize width height format type unpackAlignment =
      (exactly (width * bytesPerGroup format type)).bind fun rowSize =>
        if (height : ℤ) > 1 then sizeOfRows (uint32OfInt height) rowSize (uint32OfInt unpackAlignment)
        else safeMultiplyUint32 (uint32OfInt height) rowSize := by
  rw [computeImageDataSize, safeMultiplyUint32_eq, toNat_uint32OfInt_natCast (by omega),
    UInt32.toNat_ofNat_of_lt' (bytesPerGroup_lt format type)]

/-- **The size of an image with rows is computed exactly when it fits 32 bits.** -/
theorem computeImageDataSize_of_pos (hwidth : width < 2147483648) (hpos : 0 < height) (hheight : height < 2147483648)
    (halign : unpackAlignment ∈ [1, 2, 4, 8]) :
    computeImageDataSize width height format type unpackAlignment =
      exactly (imageSize height (width * bytesPerGroup format type) unpackAlignment) := by
  have halign' : 0 < unpackAlignment ∧ unpackAlignment < 4294967296 ∧ unpackAlignment ∣ 4294967296 := by
    simp only [List.mem_cons, List.not_mem_nil, or_false] at halign
    rcases halign with rfl | rfl | rfl | rfl <;> decide
  have hcast := toNat_uint32OfInt_natCast halign'.2.1
  have hcast' := toNat_uint32OfInt_natCast (n := height) (by omega)
  rw [computeImageDataSize_eq hwidth]
  by_cases hrow : width * bytesPerGroup format type < 4294967296
  · rw [exactly_of_lt hrow, Option.bind_some]
    split
    · rw [sizeOfRows_eq (by omega) (by omega) (by rw [hcast]; exact halign'.2.2), hcast, hcast',
        UInt32.toNat_ofNat_of_lt' hrow]
    · obtain rfl : height = 1 := by omega
      rw [safeMultiplyUint32_eq, hcast', UInt32.toNat_ofNat_of_lt' hrow, imageSize, if_neg one_ne_zero, Nat.sub_self,
        Nat.zero_mul, Nat.zero_add, Nat.one_mul]
  · have hle : width * bytesPerGroup format type ≤ imageSize height (width * bytesPerGroup format type) unpackAlignment :=
      le_imageSize hpos.ne'
    rw [exactly_of_le (not_lt.1 hrow), exactly_of_le ((not_lt.1 hrow).trans hle)]
    rfl

/-- **A size is returned exactly when it fits, and it is the right one, exactly if there is a row or the size of one fits.** -/
theorem computeImageDataSize_iff (width height : ℕ) (format type : GLenum) (unpackAlignment : ℕ)
    (hwidth : width < 2147483648) (hheight : height < 2147483648) (halign : unpackAlignment ∈ [1, 2, 4, 8]) :
    (∀ size, computeImageDataSize width height format type unpackAlignment = some size ↔
        imageSize height (width * bytesPerGroup format type) unpackAlignment < 4294967296 ∧
          size.toNat = imageSize height (width * bytesPerGroup format type) unpackAlignment) ↔
      height ≠ 0 ∨ width * bytesPerGroup format type < 4294967296 := by
  rcases Nat.eq_zero_or_pos height with rfl | hpos
  · rw [computeImageDataSize_eq hwidth, imageSize, if_pos rfl]
    by_cases hrow : width * bytesPerGroup format type < 4294967296
    · refine iff_of_true (fun size => ?_) (.inr hrow)
      rw [exactly_of_lt hrow, Option.bind_some, if_neg (by decide), safeMultiplyUint32_eq, ← exactly_eq_some]
      have hzero : (uint32OfInt ((0 : ℕ) : ℤ)).toNat = 0 := toNat_uint32OfInt_natCast (by decide)
      rw [hzero, Nat.zero_mul]
    · refine iff_of_false (fun h => ?_) (not_or.mpr ⟨not_not_intro rfl, hrow⟩)
      have hsome := (h 0).mpr ⟨by decide, rfl⟩
      rw [exactly_of_le (not_lt.mp hrow)] at hsome
      cases hsome
  · refine iff_of_true (fun size => ?_) (.inl hpos.ne')
    rw [computeImageDataSize_of_pos hwidth hpos hheight halign, exactly_eq_some]

theorem computeImageDataSize_square :
    computeImageDataSize (3 : ℕ) (3 : ℕ) GL_RGB GL_UNSIGNED_BYTE (4 : ℕ) = some 33 :=
  ((computeImageDataSize_iff 3 3 GL_RGB GL_UNSIGNED_BYTE 4 (by decide) (by decide) (by decide)).mpr (.inl (by decide)) 33).mpr
    ⟨by decide, by decide⟩

/-- **An image of no rows has no bytes, but there is no size when a row of it would have too many.** -/
theorem computeImageDataSize_noRows :
    ¬ ∀ size, computeImageDataSize (2147483647 : ℕ) (0 : ℕ) GL_RGBA GL_FLOAT (4 : ℕ) = some size ↔
      imageSize 0 (2147483647 * bytesPerGroup GL_RGBA GL_FLOAT) 4 < 4294967296 ∧
        size.toNat = imageSize 0 (2147483647 * bytesPerGroup GL_RGBA GL_FLOAT) 4 := by
  intro h
  have hnone : computeImageDataSize (2147483647 : ℕ) (0 : ℕ) GL_RGBA GL_FLOAT (4 : ℕ) = none := by decide
  have hsome := (h 0).mpr ⟨by decide, by decide⟩
  rw [hnone] at hsome
  cases hsome

end Chromium.Gpu
