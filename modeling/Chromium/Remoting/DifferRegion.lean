import Chromium.Remoting.DifferMerge
import Mathlib.Tactic.Ring

/-!
# The dirty region of a screen

`MarkDirtyBlocks` marks the blocks whose bytes differ where it reads them.  It puts the rows of blocks
`width * bytes_per_pixel` bytes apart for each line, not `bytes_per_row`, so it reads the blocks themselves exactly when
the two are the same, or when there is one row of blocks (`calcDirtyRegion_iff`).
-/

namespace Chromium.Remoting

open Lib
open Option (bind_some)

/-- Some of `rows` rows of `n` bytes differ, `stride` bytes apart. -/
def RowsDiffer (prev curr : List UInt8) (offset stride n rows : ℕ) : Prop :=
  ∃ r < rows, ∃ c < n, prev[offset + r * stride + c]? ≠ curr[offset + r * stride + c]?

def RowsInside (buffer : List UInt8) (offset stride n rows : ℕ) : Prop :=
  ∀ r < rows, offset + r * stride + n ≤ buffer.length

/-- `BlockDifference` compares a full block of pixels. -/
def ComparesBlocks (bytesPerPixel : ℕ) (blockDifference : BlockDifference) : Prop :=
  ∀ prev curr offset stride, RowsInside prev offset stride (kBlockSize * bytesPerPixel) kBlockSize →
    RowsInside curr offset stride (kBlockSize * bytesPerPixel) kBlockSize →
    ∃ b, blockDifference prev curr offset stride = some b ∧
      (b = true ↔ RowsDiffer prev curr offset stride (kBlockSize * bytesPerPixel) kBlockSize)

variable {prev curr : List UInt8} {offset stride n rows : ℕ}

theorem memcmp_spec (hprev : offset + n ≤ prev.length) (hcurr : offset + n ≤ curr.length) :
    ∃ b, memcmp prev curr offset n = some b ∧
      (b = true ↔ ∃ c < n, prev[offset + c]? ≠ curr[offset + c]?) := by
  refine ⟨_, if_pos ⟨hprev, hcurr⟩, ?_⟩
  rw [decide_eq_true_eq, ne_eq, List.ext_getElem?_iff, not_forall]
  refine exists_congr fun c => ?_
  rw [List.getElem?_take, List.getElem?_take]
  by_cases hc : c < n
  · rw [if_pos hc, if_pos hc, List.getElem?_drop, List.getElem?_drop]
    exact (and_iff_right hc).symm
  · rw [if_neg hc, if_neg hc]
    simp [hc]

namespace Differ

/-- **`DiffPartialBlock` compares the rows.** -/
theorem diffRows_spec (hprev : RowsInside prev offset stride n rows) (hcurr : RowsInside curr offset stride n rows) :
    ∃ b, diffRows stride n prev curr offset rows = some b ∧ (b = true ↔ RowsDiffer prev curr offset stride n rows) := by
  induction rows generalizing offset with
  | zero =>
    refine ⟨false, rfl, ?_⟩
    simp [RowsDiffer]
  | succ rows ih =>
    have hnext : ∀ {buffer : List UInt8}, RowsInside buffer offset stride n (rows + 1) →
        RowsInside buffer (offset + stride) stride n rows := by
      intro buffer h r hr
      have := h (r + 1) (Nat.succ_lt_succ hr)
      rw [Nat.succ_mul] at this
      omega
    have hrows : RowsDiffer prev curr offset stride n (rows + 1) ↔
        (∃ c < n, prev[offset + c]? ≠ curr[offset + c]?) ∨ RowsDiffer prev curr (offset + stride) stride n rows := by
      constructor
      · rintro ⟨r, hr, c, hc, hne⟩
        cases r with
        | zero => exact .inl ⟨c, hc, by rwa [Nat.zero_mul, Nat.add_zero] at hne⟩
        | succ r =>
          refine .inr ⟨r, by omega, c, hc, ?_⟩
          rwa [Nat.succ_mul, Nat.add_comm (r * stride), ← Nat.add_assoc] at hne
      · rintro (⟨c, hc, hne⟩ | ⟨r, hr, c, hc, hne⟩)
        · exact ⟨0, Nat.succ_pos _, c, hc, by rwa [Nat.zero_mul, Nat.add_zero]⟩
        · refine ⟨r + 1, Nat.succ_lt_succ hr, c, hc, ?_⟩
          rwa [Nat.succ_mul, Nat.add_comm (r * stride), ← Nat.add_assoc]
    have hfirst : ∀ {buffer : List UInt8}, RowsInside buffer offset stride n (rows + 1) →
        offset + n ≤ buffer.length := by
      intro buffer h
      have := h 0 (Nat.succ_pos _)
      rwa [Nat.zero_mul, Nat.add_zero] at this
    obtain ⟨b, hb, hiff⟩ := memcmp_spec (hfirst hprev) (hfirst hcurr)
    obtain ⟨b', hb', hiff'⟩ := ih (hnext hprev) (hnext hcurr)
    rw [diffRows, hb, hrows]
    cases b with
    | true => exact ⟨true, rfl, fun _ => .inl (hiff.1 rfl), fun _ => rfl⟩
    | false =>
      refine ⟨b', hb', hiff'.trans ⟨.inr, fun hor => hor.resolve_left fun h => ?_⟩⟩
      exact (nomatch hiff.2 h)

variable {differ : Differ} {w h x y count index step : ℕ} {diffInfo : List Bool} {s : Set (ℕ × ℕ)}

theorem markBlocks_spec {block : ℕ → Option Bool} {D : ℕ → Prop} (hg : Grid w h diffInfo s) (hx : x + count ≤ w)
    (hy : y < h) (hnew : ∀ a, x ≤ a → (a, y) ∉ s)
    (hblock : ∀ i < count, ∃ b, block (offset + i * step) = some b ∧ (b = true ↔ D (x + i))) :
    ∃ diffInfo', markBlocks block step count offset (y * w + x) diffInfo =
        some (offset + count * step, y * w + (x + count), diffInfo') ∧
      Grid w h diffInfo' (s ∪ {p | p.2 = y ∧ x ≤ p.1 ∧ p.1 < x + count ∧ D p.1}) := by
  induction count generalizing offset x diffInfo s with
  | zero =>
    refine ⟨diffInfo, ?_, ?_⟩
    · rw [markBlocks, Nat.zero_mul]
      rfl
    · have hempty : {p : ℕ × ℕ | p.2 = y ∧ x ≤ p.1 ∧ p.1 < x + 0 ∧ D p.1} = ∅ := by
        ext p
        simp
        omega
      rwa [hempty, Set.union_empty]
  | succ count ih =>
    obtain ⟨b, hb, hiff⟩ := hblock 0 (Nat.succ_pos _)
    rw [Nat.zero_mul, Nat.add_zero] at hb
    rw [Nat.add_zero] at hiff
    have hg₁ := hg.set_new (show x < w by omega) (hnew x le_rfl) b
    have hnew₁ : ∀ a, x + 1 ≤ a → (a, y) ∉ s ∪ {p | p = (x, y) ∧ b = true} := by
      rintro a ha (hp | ⟨hp, -⟩)
      · exact hnew a (by omega) hp
      · have := (Prod.mk.inj hp).1
        omega
    have hblock₁ : ∀ i < count, ∃ b, block (offset + step + i * step) = some b ∧ (b = true ↔ D (x + 1 + i)) := by
      intro i hi
      have := hblock (i + 1) (Nat.succ_lt_succ hi)
      rwa [Nat.succ_mul, Nat.add_comm (i * step), ← Nat.add_assoc, Nat.add_comm i 1, ← Nat.add_assoc] at this
    obtain ⟨d', heq, hg'⟩ := ih hg₁ (x := x + 1) (by omega) hnew₁ hblock₁
    refine ⟨d', ?_, ?_⟩
    · have hend : offset + step + count * step = offset + (count + 1) * step := by
        rw [Nat.succ_mul]
        omega
      rw [hend, show x + 1 + count = x + (count + 1) by omega] at heq
      rw [markBlocks, hb, bind_some, hg.storeBit (by omega) hy, bind_some, Nat.add_assoc, heq]
    · have hset : s ∪ {p | p.2 = y ∧ x ≤ p.1 ∧ p.1 < x + (count + 1) ∧ D p.1} =
          s ∪ {p | p = (x, y) ∧ b = true} ∪ {p | p.2 = y ∧ x + 1 ≤ p.1 ∧ p.1 < x + 1 + count ∧ D p.1} := by
        ext ⟨p, q⟩
        simp only [Set.mem_union, Set.mem_ofPred_eq, Prod.mk.injEq, hiff, or_assoc]
        refine or_congr_right ⟨?_, ?_⟩
        · rintro ⟨hq, hp, hlt, hD⟩
          by_cases hpx : p = x
          · exact .inl ⟨⟨hpx, hq⟩, hpx ▸ hD⟩
          · exact .inr ⟨hq, by omega, by omega, hD⟩
        · rintro (⟨⟨rfl, hq⟩, hD⟩ | ⟨hq, hp, hlt, hD⟩)
          · exact ⟨hq, Nat.le_refl _, by omega, hD⟩
          · exact ⟨hq, by omega, by omega, hD⟩
      rw [hset]
      exact hg'

theorem diffInfoWidth_eq (differ : Differ) :
    differ.diffInfoWidth = differ.width / kBlockSize + (if differ.width - differ.width / kBlockSize * kBlockSize ≠ 0
      then 1 else 0) + 1 := by
  have hk : kBlockSize = 32 := rfl
  rw [diffInfoWidth, hk]
  split <;> omega

theorem diffInfoHeight_eq (differ : Differ) :
    differ.diffInfoHeight = differ.height / kBlockSize + (if differ.height - differ.height / kBlockSize * kBlockSize ≠ 0
      then 1 else 0) + 1 := diffInfoWidth_eq ⟨differ.height, 0, 0, 0⟩

theorem markRow_spec (full part : ℕ → Option Bool) (D : ℕ → Prop) (rowStart : ℕ)
    (hg : Grid differ.diffInfoWidth h diffInfo s) (hy : y < h) (hnew : ∀ a, (a, y) ∉ s)
    (hfull : ∀ i < differ.width / kBlockSize,
      ∃ b, full (rowStart + i * (differ.bytesPerPixel * kBlockSize)) = some b ∧ (b = true ↔ D i))
    (hpart : differ.width - differ.width / kBlockSize * kBlockSize ≠ 0 →
      ∃ b, part (rowStart + differ.width / kBlockSize * (differ.bytesPerPixel * kBlockSize)) = some b ∧
        (b = true ↔ D (differ.width / kBlockSize))) :
    ∃ diffInfo', differ.markRow full part rowStart (y * differ.diffInfoWidth) diffInfo = some diffInfo' ∧
      Grid differ.diffInfoWidth h diffInfo' (s ∪ {p | p.2 = y ∧ p.1 + 1 < differ.diffInfoWidth ∧ D p.1}) := by
  have hwidth := diffInfoWidth_eq differ
  have hfull₁ : ∀ i < differ.width / kBlockSize,
      ∃ b, full (rowStart + i * (differ.bytesPerPixel * kBlockSize)) = some b ∧ (b = true ↔ D (0 + i)) := by
    intro i hi
    rw [Nat.zero_add]
    exact hfull i hi
  obtain ⟨d₁, heq₁, hg₁⟩ := markBlocks_spec hg (show 0 + differ.width / kBlockSize ≤ differ.diffInfoWidth by omega) hy
    (fun a _ => hnew a) hfull₁
  rw [Nat.add_zero, Nat.zero_add] at heq₁
  rw [markRow, heq₁, bind_some]
  by_cases hp : differ.width - differ.width / kBlockSize * kBlockSize ≠ 0
  · rw [if_pos hp] at hwidth
    obtain ⟨b, hb, hiff⟩ := hpart hp
    have hnew₁ : (differ.width / kBlockSize, y) ∉
        s ∪ {p | p.2 = y ∧ 0 ≤ p.1 ∧ p.1 < 0 + differ.width / kBlockSize ∧ D p.1} := by
      rintro (hs | ⟨-, -, hlt, -⟩)
      · exact hnew _ hs
      · omega
    refine ⟨d₁.set (y * differ.diffInfoWidth + differ.width / kBlockSize) b, ?_, ?_⟩
    · dsimp only
      rw [if_pos hp, hb, bind_some, hg₁.storeBit (by omega) hy]
    · have hset : s ∪ {p | p.2 = y ∧ p.1 + 1 < differ.diffInfoWidth ∧ D p.1} =
          s ∪ {p | p.2 = y ∧ 0 ≤ p.1 ∧ p.1 < 0 + differ.width / kBlockSize ∧ D p.1} ∪
            {p | p = (differ.width / kBlockSize, y) ∧ b = true} := by
        ext ⟨p, q⟩
        simp only [Set.mem_union, Set.mem_ofPred_eq, Prod.mk.injEq, hiff, or_assoc]
        refine or_congr_right ⟨?_, ?_⟩
        · rintro ⟨hq, hlt, hD⟩
          by_cases hpx : p = differ.width / kBlockSize
          · exact .inr ⟨⟨hpx, hq⟩, hpx ▸ hD⟩
          · exact .inl ⟨hq, Nat.zero_le _, by omega, hD⟩
        · rintro (⟨hq, -, hlt, hD⟩ | ⟨⟨rfl, hq⟩, hD⟩)
          · exact ⟨hq, by omega, hD⟩
          · exact ⟨hq, by omega, hD⟩
      rw [hset]
      exact hg₁.set_new (by omega) hnew₁ b
  · rw [if_neg hp] at hwidth
    refine ⟨d₁, ?_, ?_⟩
    · dsimp only
      rw [if_neg hp]
    · have hset : s ∪ {p | p.2 = y ∧ p.1 + 1 < differ.diffInfoWidth ∧ D p.1} =
          s ∪ {p | p.2 = y ∧ 0 ≤ p.1 ∧ p.1 < 0 + differ.width / kBlockSize ∧ D p.1} := by
        ext ⟨p, q⟩
        simp only [Set.mem_union, Set.mem_ofPred_eq]
        refine or_congr_right (and_congr_right fun _ => ?_)
        constructor
        · rintro ⟨hlt, hD⟩
          exact ⟨Nat.zero_le _, by omega, hD⟩
        · rintro ⟨-, hlt, hD⟩
          exact ⟨by omega, hD⟩
      rw [hset]
      exact hg₁

theorem markRows_spec (full part : ℕ → Option Bool) (D : ℕ → ℕ → Prop) (rowStart : ℕ)
    (hg : Grid differ.diffInfoWidth h diffInfo s) (hy : y + count ≤ h) (hnew : ∀ p ∈ s, p.2 < y)
    (hfull : ∀ j < count, ∀ i < differ.width / kBlockSize,
      ∃ b, full (rowStart + j * (differ.width * differ.bytesPerPixel * kBlockSize) +
        i * (differ.bytesPerPixel * kBlockSize)) = some b ∧ (b = true ↔ D i (y + j)))
    (hpart : differ.width - differ.width / kBlockSize * kBlockSize ≠ 0 → ∀ j < count,
      ∃ b, part (rowStart + j * (differ.width * differ.bytesPerPixel * kBlockSize) +
        differ.width / kBlockSize * (differ.bytesPerPixel * kBlockSize)) = some b ∧
        (b = true ↔ D (differ.width / kBlockSize) (y + j))) :
    ∃ diffInfo', differ.markRows full part count rowStart (y * differ.diffInfoWidth) diffInfo =
        some (rowStart + count * (differ.width * differ.bytesPerPixel * kBlockSize),
          (y + count) * differ.diffInfoWidth, diffInfo') ∧
      Grid differ.diffInfoWidth h diffInfo'
        (s ∪ {p | y ≤ p.2 ∧ p.2 < y + count ∧ p.1 + 1 < differ.diffInfoWidth ∧ D p.1 p.2}) := by
  induction count generalizing rowStart y diffInfo s with
  | zero =>
    refine ⟨diffInfo, by rw [markRows, Nat.zero_mul]; rfl, ?_⟩
    have hempty : {p : ℕ × ℕ | y ≤ p.2 ∧ p.2 < y + 0 ∧ p.1 + 1 < differ.diffInfoWidth ∧ D p.1 p.2} = ∅ := by
      ext p
      simp
      omega
    rwa [hempty, Set.union_empty]
  | succ count ih =>
    generalize hrowBytes : differ.width * differ.bytesPerPixel * kBlockSize = rowBytes at *
    have hfull₀ : ∀ i < differ.width / kBlockSize,
        ∃ b, full (rowStart + i * (differ.bytesPerPixel * kBlockSize)) = some b ∧ (b = true ↔ D i y) := by
      intro i hi
      have := hfull 0 (Nat.succ_pos _) i hi
      rwa [Nat.zero_mul, Nat.add_zero, Nat.add_zero] at this
    have hpart₀ : differ.width - differ.width / kBlockSize * kBlockSize ≠ 0 →
        ∃ b, part (rowStart + differ.width / kBlockSize * (differ.bytesPerPixel * kBlockSize)) = some b ∧
          (b = true ↔ D (differ.width / kBlockSize) y) := by
      intro hp
      have := hpart hp 0 (Nat.succ_pos _)
      rwa [Nat.zero_mul, Nat.add_zero, Nat.add_zero] at this
    have hnew₀ : ∀ a, (a, y) ∉ s := fun a ha => absurd (hnew _ ha) (Nat.lt_irrefl y)
    obtain ⟨d₁, heq₁, hg₁⟩ := markRow_spec full part (D · y) rowStart hg (show y < h by omega) hnew₀ hfull₀ hpart₀
    have hshift : ∀ j, rowStart + rowBytes + j * rowBytes = rowStart + (j + 1) * rowBytes := by
      intro j
      rw [Nat.succ_mul]
      omega
    have hnew₁ : ∀ p ∈ s ∪ {p | p.2 = y ∧ p.1 + 1 < differ.diffInfoWidth ∧ D p.1 y}, p.2 < y + 1 := by
      rintro p (hp | ⟨hp, -⟩)
      · exact Nat.lt_succ_of_lt (hnew p hp)
      · omega
    have hfull₁ : ∀ j < count, ∀ i < differ.width / kBlockSize,
        ∃ b, full (rowStart + rowBytes + j * rowBytes + i * (differ.bytesPerPixel * kBlockSize)) = some b ∧
          (b = true ↔ D i (y + 1 + j)) := by
      intro j hj i hi
      have := hfull (j + 1) (Nat.succ_lt_succ hj) i hi
      rwa [← hshift, show y + (j + 1) = y + 1 + j by omega] at this
    have hpart₁ : differ.width - differ.width / kBlockSize * kBlockSize ≠ 0 → ∀ j < count,
        ∃ b, part (rowStart + rowBytes + j * rowBytes +
          differ.width / kBlockSize * (differ.bytesPerPixel * kBlockSize)) = some b ∧
            (b = true ↔ D (differ.width / kBlockSize) (y + 1 + j)) := by
      intro hp j hj
      have := hpart hp (j + 1) (Nat.succ_lt_succ hj)
      rwa [← hshift, show y + (j + 1) = y + 1 + j by omega] at this
    obtain ⟨d₂, heq₂, hg₂⟩ := ih (rowStart + rowBytes) hg₁ (show y + 1 + count ≤ h by omega) hnew₁ hfull₁ hpart₁
    refine ⟨d₂, ?_, ?_⟩
    · rw [markRows, heq₁, bind_some, hrowBytes, ← hshift, show y + (count + 1) = y + 1 + count by omega]
      rw [Nat.succ_mul y] at heq₂
      exact heq₂
    · have hset : s ∪ {p | y ≤ p.2 ∧ p.2 < y + (count + 1) ∧ p.1 + 1 < differ.diffInfoWidth ∧ D p.1 p.2} =
          s ∪ {p | p.2 = y ∧ p.1 + 1 < differ.diffInfoWidth ∧ D p.1 y} ∪
            {p | y + 1 ≤ p.2 ∧ p.2 < y + 1 + count ∧ p.1 + 1 < differ.diffInfoWidth ∧ D p.1 p.2} := by
        ext ⟨p, q⟩
        simp only [Set.mem_union, Set.mem_ofPred_eq, or_assoc]
        refine or_congr_right ⟨?_, ?_⟩
        · rintro ⟨hq, hlt, hp, hD⟩
          by_cases hqy : q = y
          · exact .inl ⟨hqy, hp, hqy ▸ hD⟩
          · exact .inr ⟨by omega, by omega, hp, hD⟩
        · rintro (⟨rfl, hp, hD⟩ | ⟨hq, hlt, hp, hD⟩)
          · exact ⟨Nat.le_refl _, by omega, hp, hD⟩
          · exact ⟨by omega, by omega, hp, hD⟩
      rw [hset]
      exact hg₂

/-! ## The blocks that are read -/

def blockWidth (differ : Differ) (x : ℕ) : ℕ := min kBlockSize (differ.width - x * kBlockSize)

def blockHeight (differ : Differ) (y : ℕ) : ℕ := min kBlockSize (differ.height - y * kBlockSize)

/-- Where `MarkDirtyBlocks` reads a block. -/
def readOffset (differ : Differ) (x y : ℕ) : ℕ :=
  y * (differ.width * differ.bytesPerPixel * kBlockSize) + x * (differ.bytesPerPixel * kBlockSize)

def ReadsDiffer (differ : Differ) (prev curr : List UInt8) (x y : ℕ) : Prop :=
  RowsDiffer prev curr (differ.readOffset x y) differ.bytesPerRow (differ.blockWidth x * differ.bytesPerPixel)
    (differ.blockHeight y)

theorem rowsInside (hstride : differ.width * differ.bytesPerPixel ≤ differ.bytesPerRow) {buffer : List UInt8}
    (hlen : buffer.length = differ.height * differ.bytesPerRow) (hx : x * kBlockSize ≤ differ.width)
    (hy : y * kBlockSize ≤ differ.height) :
    RowsInside buffer (differ.readOffset x y) differ.bytesPerRow (differ.blockWidth x * differ.bytesPerPixel)
      (differ.blockHeight y) := by
  intro r hr
  rw [blockHeight] at hr
  have hcolumn : (x * kBlockSize + differ.blockWidth x) * differ.bytesPerPixel ≤ differ.width * differ.bytesPerPixel :=
    Nat.mul_le_mul_right _ (by rw [blockWidth]; omega)
  have hrow : y * kBlockSize * (differ.width * differ.bytesPerPixel) ≤ y * kBlockSize * differ.bytesPerRow :=
    Nat.mul_le_mul_left _ hstride
  have hlast : (y * kBlockSize + r + 1) * differ.bytesPerRow ≤ differ.height * differ.bytesPerRow :=
    Nat.mul_le_mul_right _ (by omega)
  rw [hlen, readOffset]
  calc y * (differ.width * differ.bytesPerPixel * kBlockSize) + x * (differ.bytesPerPixel * kBlockSize) +
          r * differ.bytesPerRow + differ.blockWidth x * differ.bytesPerPixel
      = y * kBlockSize * (differ.width * differ.bytesPerPixel) +
          (x * kBlockSize + differ.blockWidth x) * differ.bytesPerPixel + r * differ.bytesPerRow := by ring
    _ ≤ y * kBlockSize * differ.bytesPerRow + differ.bytesPerRow + r * differ.bytesPerRow := by omega
    _ = (y * kBlockSize + r + 1) * differ.bytesPerRow := by ring
    _ ≤ differ.height * differ.bytesPerRow := hlast

theorem min_full {size i : ℕ} (h : i < size / kBlockSize) : min kBlockSize (size - i * kBlockSize) = kBlockSize := by
  simp only [kBlockSize] at *
  omega

theorem min_part (size : ℕ) : min kBlockSize (size - size / kBlockSize * kBlockSize) =
    size - size / kBlockSize * kBlockSize := by
  simp only [kBlockSize]
  omega

theorem blockWidth_full (hx : x < differ.width / kBlockSize) : differ.blockWidth x = kBlockSize := min_full hx

theorem blockWidth_part : differ.blockWidth (differ.width / kBlockSize) =
    differ.width - differ.width / kBlockSize * kBlockSize := min_part _

theorem blockHeight_full (hy : y < differ.height / kBlockSize) : differ.blockHeight y = kBlockSize := min_full hy

theorem blockHeight_part : differ.blockHeight (differ.height / kBlockSize) =
    differ.height - differ.height / kBlockSize * kBlockSize := min_part _

theorem diffPartialBlock_spec (hstride : differ.width * differ.bytesPerPixel ≤ differ.bytesPerRow)
    (hprev : prev.length = differ.height * differ.bytesPerRow)
    (hcurr : curr.length = differ.height * differ.bytesPerRow) (hx : x * kBlockSize ≤ differ.width)
    (hy : y * kBlockSize ≤ differ.height) :
    ∃ b, differ.diffPartialBlock prev curr (differ.readOffset x y) (differ.blockWidth x) (differ.blockHeight y) =
      some b ∧ (b = true ↔ differ.ReadsDiffer prev curr x y) :=
  diffRows_spec (rowsInside hstride hprev hx hy) (rowsInside hstride hcurr hx hy)

/-- **`MarkDirtyBlocks` marks the blocks that differ where they are read.** -/
theorem markDirtyBlocks_spec {blockDifference : BlockDifference}
    (hblock : ComparesBlocks differ.bytesPerPixel blockDifference)
    (hstride : differ.width * differ.bytesPerPixel ≤ differ.bytesPerRow)
    (hprev : prev.length = differ.height * differ.bytesPerRow)
    (hcurr : curr.length = differ.height * differ.bytesPerRow) :
    ∃ diffInfo, differ.markDirtyBlocks blockDifference prev curr = some diffInfo ∧
      Grid differ.diffInfoWidth differ.diffInfoHeight diffInfo
        {p | p.1 + 1 < differ.diffInfoWidth ∧ p.2 + 1 < differ.diffInfoHeight ∧
          differ.ReadsDiffer prev curr p.1 p.2} := by
  have hheight := diffInfoHeight_eq differ
  have hle : ∀ n i : ℕ, i ≤ n / kBlockSize → i * kBlockSize ≤ n := by
    intro n i hi
    exact (Nat.le_div_iff_mul_le (by decide)).1 hi
  have hfull : ∀ j < differ.height / kBlockSize, ∀ i < differ.width / kBlockSize,
      ∃ b, blockDifference prev curr (0 + j * (differ.width * differ.bytesPerPixel * kBlockSize) +
        i * (differ.bytesPerPixel * kBlockSize)) differ.bytesPerRow = some b ∧
        (b = true ↔ differ.ReadsDiffer prev curr i (0 + j)) := by
    intro j hj i hi
    have hinside : ∀ {buffer : List UInt8}, buffer.length = differ.height * differ.bytesPerRow →
        RowsInside buffer (differ.readOffset i j) differ.bytesPerRow (kBlockSize * differ.bytesPerPixel) kBlockSize := by
      intro buffer hlen
      have := rowsInside hstride hlen (hle _ i hi.le) (hle _ j hj.le)
      rwa [blockWidth_full hi, blockHeight_full hj] at this
    rw [Nat.zero_add, Nat.zero_add, ReadsDiffer, blockWidth_full hi, blockHeight_full hj]
    exact hblock prev curr _ _ (hinside hprev) (hinside hcurr)
  have hpart : differ.width - differ.width / kBlockSize * kBlockSize ≠ 0 → ∀ j < differ.height / kBlockSize,
      ∃ b, differ.diffPartialBlock prev curr (0 + j * (differ.width * differ.bytesPerPixel * kBlockSize) +
        differ.width / kBlockSize * (differ.bytesPerPixel * kBlockSize))
          (differ.width - differ.width / kBlockSize * kBlockSize) kBlockSize = some b ∧
        (b = true ↔ differ.ReadsDiffer prev curr (differ.width / kBlockSize) (0 + j)) := by
    intro _ j hj
    have := diffPartialBlock_spec hstride hprev hcurr (hle _ _ le_rfl) (hle _ j hj.le)
    rw [Nat.zero_add, Nat.zero_add]
    rwa [blockWidth_part, blockHeight_full hj, readOffset] at this
  have hstart : ∀ p ∈ (∅ : Set (ℕ × ℕ)), p.2 < 0 := fun p hp => absurd hp (Set.notMem_empty p)
  obtain ⟨d₁, heq₁, hg₁⟩ := markRows_spec
    (fun offset => blockDifference prev curr offset differ.bytesPerRow)
    (fun offset => differ.diffPartialBlock prev curr offset
      (differ.width - differ.width / kBlockSize * kBlockSize) kBlockSize)
    (differ.ReadsDiffer prev curr) 0
    (Grid.of_replicate differ.diffInfoWidth differ.diffInfoHeight) (show 0 + differ.height / kBlockSize ≤ differ.diffInfoHeight by omega) hstart hfull hpart
  rw [Nat.zero_mul, Nat.zero_add, Nat.zero_add] at heq₁
  rw [Nat.zero_add, Set.empty_union] at hg₁
  rw [markDirtyBlocks]
  dsimp only
  rw [heq₁, bind_some]
  by_cases hp : differ.height - differ.height / kBlockSize * kBlockSize ≠ 0
  · rw [if_pos hp] at hheight
    have hfull₁ : ∀ i < differ.width / kBlockSize, ∃ b, differ.diffPartialBlock prev curr
          (differ.height / kBlockSize * (differ.width * differ.bytesPerPixel * kBlockSize) +
            i * (differ.bytesPerPixel * kBlockSize)) kBlockSize
          (differ.height - differ.height / kBlockSize * kBlockSize) = some b ∧
          (b = true ↔ differ.ReadsDiffer prev curr i (differ.height / kBlockSize)) := by
      intro i hi
      have := diffPartialBlock_spec hstride hprev hcurr (hle _ i hi.le) (hle differ.height _ le_rfl)
      rwa [blockWidth_full hi, blockHeight_part, readOffset] at this
    have hpart₁ : differ.width - differ.width / kBlockSize * kBlockSize ≠ 0 →
        ∃ b, differ.diffPartialBlock prev curr
          (differ.height / kBlockSize * (differ.width * differ.bytesPerPixel * kBlockSize) +
            differ.width / kBlockSize * (differ.bytesPerPixel * kBlockSize))
          (differ.width - differ.width / kBlockSize * kBlockSize)
          (differ.height - differ.height / kBlockSize * kBlockSize) = some b ∧
          (b = true ↔ differ.ReadsDiffer prev curr (differ.width / kBlockSize) (differ.height / kBlockSize)) := by
      intro _
      have := diffPartialBlock_spec hstride hprev hcurr (hle differ.width _ le_rfl) (hle differ.height _ le_rfl)
      rwa [blockWidth_part, blockHeight_part, readOffset] at this
    have hnew₁ : ∀ a, (a, differ.height / kBlockSize) ∉ {p : ℕ × ℕ | 0 ≤ p.2 ∧ p.2 < differ.height / kBlockSize ∧
        p.1 + 1 < differ.diffInfoWidth ∧ differ.ReadsDiffer prev curr p.1 p.2} :=
      fun a ha => absurd ha.2.1 (Nat.lt_irrefl _)
    obtain ⟨d₂, heq₂, hg₂⟩ := markRow_spec
      (fun offset => differ.diffPartialBlock prev curr offset kBlockSize
        (differ.height - differ.height / kBlockSize * kBlockSize))
      (fun offset => differ.diffPartialBlock prev curr offset
        (differ.width - differ.width / kBlockSize * kBlockSize)
        (differ.height - differ.height / kBlockSize * kBlockSize))
      (differ.ReadsDiffer prev curr · (differ.height / kBlockSize)) _ hg₁ (show differ.height / kBlockSize < differ.diffInfoHeight by omega) hnew₁ hfull₁ hpart₁
    refine ⟨d₂, ?_, ?_⟩
    · rw [if_pos hp]
      exact heq₂
    · have hset : {p : ℕ × ℕ | p.1 + 1 < differ.diffInfoWidth ∧ p.2 + 1 < differ.diffInfoHeight ∧
            differ.ReadsDiffer prev curr p.1 p.2} =
          {p : ℕ × ℕ | 0 ≤ p.2 ∧ p.2 < differ.height / kBlockSize ∧ p.1 + 1 < differ.diffInfoWidth ∧
            differ.ReadsDiffer prev curr p.1 p.2} ∪
          {p : ℕ × ℕ | p.2 = differ.height / kBlockSize ∧ p.1 + 1 < differ.diffInfoWidth ∧
            differ.ReadsDiffer prev curr p.1 (differ.height / kBlockSize)} := by
        ext ⟨i, j⟩
        simp only [Set.mem_union, Set.mem_ofPred_eq]
        constructor
        · rintro ⟨hi, hj, hD⟩
          by_cases hjy : j = differ.height / kBlockSize
          · exact .inr ⟨hjy, hi, hjy ▸ hD⟩
          · exact .inl ⟨Nat.zero_le _, by omega, hi, hD⟩
        · rintro (⟨-, hj, hi, hD⟩ | ⟨rfl, hi, hD⟩)
          · exact ⟨hi, by omega, hD⟩
          · exact ⟨hi, by omega, hD⟩
      rw [hset]
      exact hg₂
  · rw [if_neg hp] at hheight
    refine ⟨d₁, by rw [if_neg hp], ?_⟩
    have hset : {p : ℕ × ℕ | p.1 + 1 < differ.diffInfoWidth ∧ p.2 + 1 < differ.diffInfoHeight ∧
          differ.ReadsDiffer prev curr p.1 p.2} =
        {p : ℕ × ℕ | 0 ≤ p.2 ∧ p.2 < differ.height / kBlockSize ∧ p.1 + 1 < differ.diffInfoWidth ∧
          differ.ReadsDiffer prev curr p.1 p.2} := by
      ext ⟨i, j⟩
      simp only [Set.mem_ofPred_eq]
      constructor
      · rintro ⟨hi, hj, hD⟩
        exact ⟨Nat.zero_le _, by omega, hi, hD⟩
      · rintro ⟨-, hj, hi, hD⟩
        exact ⟨hi, by omega, hD⟩
    rw [hset]
    exact hg₁

/-! ## Rectangles -/

end Differ

def SkIRect.pixels (r : SkIRect) : Set (ℕ × ℕ) :=
  {p | r.left ≤ p.1 ∧ p.1 < r.left + r.width ∧ r.top ≤ p.2 ∧ p.2 < r.top + r.height}

namespace Differ

variable {differ : Differ}

def blockOf (p : ℕ × ℕ) : ℕ × ℕ := (p.1 / kBlockSize, p.2 / kBlockSize)

theorem clip_eq (left size limit : ℕ) :
    (if left + size > limit then limit - left else size) = min size (limit - left) := by
  split
  · rw [Nat.min_eq_right]
    omega
  · rw [Nat.min_eq_left]
    omega

theorem rect_eq (g : Group) : differ.rect g =
    ⟨g.x * kBlockSize, g.y * kBlockSize, min (g.width * kBlockSize) (differ.width - g.x * kBlockSize),
      min (g.height * kBlockSize) (differ.height - g.y * kBlockSize)⟩ := by
  rw [rect, blockRect, clip_eq, clip_eq]

/-- **The rectangle of a group of blocks** has the pixels of the screen that are in the blocks. -/
theorem mem_pixels_rect {g : Group} (hpos : 0 < g.width ∧ 0 < g.height)
    (hinner : Inner differ.diffInfoWidth differ.diffInfoHeight g.cells) (p : ℕ × ℕ) :
    p ∈ (differ.rect g).pixels ↔ p.1 < differ.width ∧ p.2 < differ.height ∧ blockOf p ∈ g.cells := by
  obtain ⟨hx, hy⟩ := hinner (g.x, g.y) (by simp [Group.cells, cells, hpos])
  rw [rect_eq]
  simp only [SkIRect.pixels, blockOf, Group.cells, cells, Set.mem_ofPred_eq, diffInfoWidth, diffInfoHeight,
    kBlockSize] at *
  omega

theorem rect_inside {g : Group} (hpos : 0 < g.width ∧ 0 < g.height)
    (hinner : Inner differ.diffInfoWidth differ.diffInfoHeight g.cells) :
    0 < (differ.rect g).width ∧ 0 < (differ.rect g).height ∧
      (differ.rect g).left + (differ.rect g).width ≤ differ.width ∧
      (differ.rect g).top + (differ.rect g).height ≤ differ.height := by
  obtain ⟨hx, hy⟩ := hinner (g.x, g.y) (by simp [Group.cells, cells, hpos])
  rw [rect_eq]
  simp only [diffInfoWidth, diffInfoHeight, kBlockSize] at *
  omega

/-- **What `CalcDirtyRegion` returns**: rectangles in the screen, apart from each other, with the pixels of the blocks that
differ where they are read. -/
theorem calcDirtyRegion_spec {prev curr : List UInt8} {blockDifference : BlockDifference}
    (hblock : ComparesBlocks differ.bytesPerPixel blockDifference)
    (hstride : differ.width * differ.bytesPerPixel ≤ differ.bytesPerRow)
    (hprev : prev.length = differ.height * differ.bytesPerRow)
    (hcurr : curr.length = differ.height * differ.bytesPerRow) :
    ∃ region, differ.calcDirtyRegion blockDifference prev curr = some region ∧
      (∀ r ∈ region, 0 < r.width ∧ 0 < r.height ∧ r.left + r.width ≤ differ.width ∧ r.top + r.height ≤ differ.height) ∧
      (region.Pairwise fun r r' => Disjoint r.pixels r'.pixels) ∧
      ∀ p : ℕ × ℕ, (∃ r ∈ region, p ∈ r.pixels) ↔ p.1 < differ.width ∧ p.2 < differ.height ∧
        differ.ReadsDiffer prev curr (p.1 / kBlockSize) (p.2 / kBlockSize) := by
  obtain ⟨diffInfo, hmark, hg⟩ := markDirtyBlocks_spec hblock hstride hprev hcurr
  obtain ⟨groups, hmerge, hmem, hapart, hpos⟩ := mergeBlocks_spec hg fun p hp => ⟨hp.1, hp.2.1⟩
  have hinner : ∀ g ∈ groups, Inner differ.diffInfoWidth differ.diffInfoHeight g.cells := by
    intro g hgroup p hp
    have hp' := (hmem p).2 ⟨g, hgroup, hp⟩
    exact ⟨hp'.1, hp'.2.1⟩
  refine ⟨groups.map differ.rect, ?_, ?_, ?_, fun p => ?_⟩
  · rw [calcDirtyRegion, hmark, bind_some, hmerge]
  · intro r hr
    obtain ⟨g, hgroup, rfl⟩ := List.mem_map.1 hr
    exact rect_inside (hpos g hgroup) (hinner g hgroup)
  · rw [List.pairwise_map]
    refine hapart.imp_of_mem fun {g g'} hgroup hgroup' hdisjoint => ?_
    rw [Set.disjoint_left] at hdisjoint ⊢
    intro p hp hp'
    rw [mem_pixels_rect (hpos g hgroup) (hinner g hgroup)] at hp
    rw [mem_pixels_rect (hpos g' hgroup') (hinner g' hgroup')] at hp'
    exact hdisjoint hp.2.2 hp'.2.2
  · constructor
    · rintro ⟨r, hr, hp⟩
      obtain ⟨g, hgroup, rfl⟩ := List.mem_map.1 hr
      rw [mem_pixels_rect (hpos g hgroup) (hinner g hgroup)] at hp
      exact ⟨hp.1, hp.2.1, ((hmem _).2 ⟨g, hgroup, hp.2.2⟩).2.2⟩
    · rintro ⟨hx, hy, hD⟩
      have hbounds : p.1 / kBlockSize + 1 < differ.diffInfoWidth ∧ p.2 / kBlockSize + 1 < differ.diffInfoHeight := by
        simp only [diffInfoWidth, diffInfoHeight, kBlockSize]
        omega
      obtain ⟨g, hgroup, hp⟩ := (hmem (blockOf p)).1 ⟨hbounds.1, hbounds.2, hD⟩
      exact ⟨_, List.mem_map_of_mem hgroup, (mem_pixels_rect (hpos g hgroup) (hinner g hgroup) p).2 ⟨hx, hy, hp⟩⟩

/-! ## The dirty blocks -/

def PixelDiffers (differ : Differ) (prev curr : List UInt8) (p : ℕ × ℕ) : Prop :=
  ∃ c < differ.bytesPerPixel, prev[p.2 * differ.bytesPerRow + p.1 * differ.bytesPerPixel + c]? ≠
    curr[p.2 * differ.bytesPerRow + p.1 * differ.bytesPerPixel + c]?

def BlockDirty (differ : Differ) (prev curr : List UInt8) (b : ℕ × ℕ) : Prop :=
  ∃ p : ℕ × ℕ, p.1 < differ.width ∧ p.2 < differ.height ∧ blockOf p = b ∧ differ.PixelDiffers prev curr p

/-- **The rectangles cover the dirty blocks**, clipped to the screen, and no pixel twice. -/
structure CoversDirtyBlocks (differ : Differ) (prev curr : List UInt8) (region : List SkIRect) : Prop where
  inside : ∀ r ∈ region, 0 < r.width ∧ 0 < r.height ∧ r.left + r.width ≤ differ.width ∧ r.top + r.height ≤ differ.height
  apart : region.Pairwise fun r r' => Disjoint r.pixels r'.pixels
  mem_iff : ∀ p : ℕ × ℕ, (∃ r ∈ region, p ∈ r.pixels) ↔ p.1 < differ.width ∧ p.2 < differ.height ∧
    differ.BlockDirty prev curr (blockOf p)

variable {prev curr : List UInt8} {x y : ℕ}

theorem readOffset_eq (hrow : y * (differ.width * differ.bytesPerPixel * kBlockSize) = y * kBlockSize * differ.bytesPerRow)
    (r i c : ℕ) : differ.readOffset x y + r * differ.bytesPerRow + (i * differ.bytesPerPixel + c) =
      (y * kBlockSize + r) * differ.bytesPerRow + (x * kBlockSize + i) * differ.bytesPerPixel + c := by
  rw [readOffset, hrow]
  ring

/-- **A block is read at its place** when the rows of blocks are at their places. -/
theorem readsDiffer_iff (hbpp : 0 < differ.bytesPerPixel)
    (hrow : y * (differ.width * differ.bytesPerPixel * kBlockSize) = y * kBlockSize * differ.bytesPerRow) :
    differ.ReadsDiffer prev curr x y ↔ differ.BlockDirty prev curr (x, y) := by
  constructor
  · rintro ⟨r, hr, c, hc, hne⟩
    have hcolumn : c / differ.bytesPerPixel < differ.blockWidth x := Nat.div_lt_of_lt_mul (by rwa [Nat.mul_comm] at hc)
    have hc' : c = c / differ.bytesPerPixel * differ.bytesPerPixel + c % differ.bytesPerPixel :=
      (Nat.div_add_mod' c differ.bytesPerPixel).symm
    have haddress := readOffset_eq (x := x) hrow r (c / differ.bytesPerPixel) (c % differ.bytesPerPixel)
    rw [← hc'] at haddress
    rw [haddress] at hne
    generalize c / differ.bytesPerPixel = i at hcolumn hne
    simp only [blockHeight, blockWidth] at hr hcolumn
    have hpx : x * kBlockSize + i < differ.width := by omega
    have hpy : y * kBlockSize + r < differ.height := by omega
    refine ⟨(x * kBlockSize + i, y * kBlockSize + r), hpx, hpy, ?_, c % differ.bytesPerPixel, Nat.mod_lt _ hbpp, hne⟩
    simp only [blockOf, kBlockSize, Prod.mk.injEq] at *
    omega
  · rintro ⟨⟨px, py⟩, hpx, hpy, hblock, c, hc, hne⟩
    cases hblock
    dsimp only at *
    have hpx' : px / kBlockSize * kBlockSize + px % kBlockSize = px := Nat.div_add_mod' px kBlockSize
    have hpy' : py / kBlockSize * kBlockSize + py % kBlockSize = py := Nat.div_add_mod' py kBlockSize
    have hi : px % kBlockSize < kBlockSize := Nat.mod_lt _ (by decide)
    have hj : py % kBlockSize < kBlockSize := Nat.mod_lt _ (by decide)
    have haddress := readOffset_eq (x := px / kBlockSize) hrow (py % kBlockSize) (px % kBlockSize) c
    rw [hpx', hpy'] at haddress
    refine ⟨py % kBlockSize, ?_, px % kBlockSize * differ.bytesPerPixel + c, ?_, ?_⟩
    · rw [blockHeight]
      omega
    · have hwidth : px % kBlockSize + 1 ≤ differ.blockWidth (px / kBlockSize) := by
        rw [blockWidth]
        omega
      have hmul := Nat.mul_le_mul_right differ.bytesPerPixel hwidth
      rw [Nat.succ_mul] at hmul
      omega
    · rw [haddress]
      exact hne

def lastByte (differ : Differ) : ℕ :=
  (differ.height - 1) * differ.bytesPerRow + (differ.width - 1) * differ.bytesPerPixel + (differ.bytesPerPixel - 1)

/-- **The last byte is not read** when the rows are apart, and there is a second row of blocks. -/
theorem read_lt_lastByte (hwidth : 0 < differ.width) (hbpp : 0 < differ.bytesPerPixel)
    (hstride : differ.width * differ.bytesPerPixel < differ.bytesPerRow) (hheight : kBlockSize < differ.height)
    (hx : x * kBlockSize ≤ differ.width) {r c : ℕ} (hr : r < differ.blockHeight y)
    (hc : c < differ.blockWidth x * differ.bytesPerPixel) :
    differ.readOffset x y + r * differ.bytesPerRow + c < differ.lastByte := by
  have hcolumn : (x * kBlockSize + differ.blockWidth x) * differ.bytesPerPixel ≤ differ.width * differ.bytesPerPixel :=
    Nat.mul_le_mul_right _ (by rw [blockWidth]; omega)
  have hlast : (differ.width - 1) * differ.bytesPerPixel + (differ.bytesPerPixel - 1) + 1 =
      differ.width * differ.bytesPerPixel := by
    obtain ⟨n, hn⟩ : ∃ n, differ.width = n + 1 := ⟨differ.width - 1, by omega⟩
    rw [hn, Nat.succ_mul, Nat.add_sub_cancel]
    omega
  have hrow : y * kBlockSize * (differ.width * differ.bytesPerPixel) + r * differ.bytesPerRow <
      (differ.height - 1) * differ.bytesPerRow := by
    rw [blockHeight] at hr
    rcases Nat.eq_zero_or_pos y with rfl | hy
    · rw [Nat.zero_mul, Nat.zero_mul, Nat.zero_add]
      exact Nat.mul_lt_mul_of_pos_right (by omega) (by omega)
    · have hpos : 0 < y * kBlockSize := Nat.mul_pos hy (by decide)
      calc y * kBlockSize * (differ.width * differ.bytesPerPixel) + r * differ.bytesPerRow
          < y * kBlockSize * differ.bytesPerRow + r * differ.bytesPerRow :=
            Nat.add_lt_add_right (Nat.mul_lt_mul_of_pos_left hstride hpos) _
        _ = (y * kBlockSize + r) * differ.bytesPerRow := (Nat.add_mul _ _ _).symm
        _ ≤ (differ.height - 1) * differ.bytesPerRow := Nat.mul_le_mul_right _ (by omega)
  calc differ.readOffset x y + r * differ.bytesPerRow + c
      < y * kBlockSize * (differ.width * differ.bytesPerPixel) + r * differ.bytesPerRow +
          (x * kBlockSize + differ.blockWidth x) * differ.bytesPerPixel := by
        have hoffset : differ.readOffset x y = y * kBlockSize * (differ.width * differ.bytesPerPixel) +
            x * kBlockSize * differ.bytesPerPixel := by
          rw [readOffset]
          ring
        rw [hoffset, Nat.add_mul (x * kBlockSize)]
        omega
    _ ≤ y * kBlockSize * (differ.width * differ.bytesPerPixel) + r * differ.bytesPerRow +
          differ.width * differ.bytesPerPixel := Nat.add_le_add_left hcolumn _
    _ ≤ differ.lastByte := by
        rw [lastByte]
        omega

/-- **The region covers the dirty blocks**, whatever the buffers, exactly when the rows of pixels follow each other or there
is one row of blocks. -/
theorem calcDirtyRegion_iff (differ : Differ) (blockDifference : BlockDifference) (hwidth : 0 < differ.width)
    (hheight : 0 < differ.height) (hbpp : 0 < differ.bytesPerPixel)
    (hstride : differ.width * differ.bytesPerPixel ≤ differ.bytesPerRow)
    (hblock : ComparesBlocks differ.bytesPerPixel blockDifference) :
    (∀ prev curr : List UInt8, prev.length = differ.height * differ.bytesPerRow →
        curr.length = differ.height * differ.bytesPerRow →
        ∃ region, differ.calcDirtyRegion blockDifference prev curr = some region ∧
          differ.CoversDirtyBlocks prev curr region) ↔
      differ.bytesPerRow = differ.width * differ.bytesPerPixel ∨ differ.height ≤ kBlockSize := by
  constructor
  · intro hall
    by_contra hnot
    rw [not_or] at hnot
    have hlt : differ.width * differ.bytesPerPixel < differ.bytesPerRow := by omega
    -- the buffers differ in the last byte only
    have hlast : differ.lastByte < differ.height * differ.bytesPerRow := by
      obtain ⟨n, hn⟩ : ∃ n, differ.height = n + 1 := ⟨differ.height - 1, by omega⟩
      obtain ⟨m, hm⟩ : ∃ m, differ.width = m + 1 := ⟨differ.width - 1, by omega⟩
      rw [hm, Nat.succ_mul] at hlt
      rw [lastByte, hn, hm, Nat.succ_mul, Nat.add_sub_cancel, Nat.add_sub_cancel]
      omega
    have hlen : (List.replicate (differ.height * differ.bytesPerRow) (0 : UInt8)).length =
        differ.height * differ.bytesPerRow := List.length_replicate
    generalize hprev : List.replicate (differ.height * differ.bytesPerRow) (0 : UInt8) = prev at hlen
    have hlen' : (prev.set differ.lastByte 1).length = differ.height * differ.bytesPerRow := by
      rw [List.length_set, hlen]
    obtain ⟨region, hregion, hcovers⟩ := hall prev (prev.set differ.lastByte 1) hlen hlen'
    obtain ⟨region', hregion', -, -, hmem⟩ := calcDirtyRegion_spec hblock hstride hlen hlen'
    obtain rfl := Option.some.inj (hregion.symm.trans hregion')
    have hdirty : differ.BlockDirty prev (prev.set differ.lastByte 1)
        (blockOf (differ.width - 1, differ.height - 1)) := by
      refine ⟨_, Nat.sub_lt hwidth Nat.one_pos, Nat.sub_lt hheight Nat.one_pos, rfl, differ.bytesPerPixel - 1,
        Nat.sub_lt hbpp Nat.one_pos, ?_⟩
      change prev[differ.lastByte]? ≠ (prev.set differ.lastByte 1)[differ.lastByte]?
      rw [List.getElem?_set_self (by rwa [hlen]), ← hprev, List.getElem?_replicate, if_pos hlast]
      simp
    obtain ⟨-, -, r, hr, c, hc, hne⟩ := (hmem _).mp ((hcovers.mem_iff (differ.width - 1, differ.height - 1)).mpr
      ⟨Nat.sub_lt hwidth Nat.one_pos, Nat.sub_lt hheight Nat.one_pos, hdirty⟩)
    have hx : (differ.width - 1) / kBlockSize * kBlockSize ≤ differ.width :=
      Nat.le_trans (Nat.div_mul_le_self _ _) (Nat.sub_le _ _)
    have hread := read_lt_lastByte hwidth hbpp hlt (by omega) hx hr hc
    rw [List.getElem?_set_ne (Nat.ne_of_gt hread)] at hne
    exact hne rfl
  · intro hrows prev curr hprev hcurr
    obtain ⟨region, hregion, hinside, hapart, hmem⟩ := calcDirtyRegion_spec hblock hstride hprev hcurr
    refine ⟨region, hregion, hinside, hapart, fun p => ?_⟩
    rw [hmem]
    refine and_congr_right fun _ => and_congr_right fun hy => readsDiffer_iff hbpp ?_
    rcases hrows with hrows | hrows
    · rw [hrows]
      ring
    · have hzero : p.2 / kBlockSize = 0 := Nat.div_eq_of_lt (by omega)
      rw [hzero, Nat.zero_mul, Nat.zero_mul, Nat.zero_mul]

def compareRows (bytesPerPixel : ℕ) : BlockDifference := fun prev curr offset stride =>
  diffRows stride (kBlockSize * bytesPerPixel) prev curr offset kBlockSize

theorem comparesBlocks_compareRows (bytesPerPixel : ℕ) : ComparesBlocks bytesPerPixel (compareRows bytesPerPixel) :=
  fun _ _ _ _ hprev hcurr => diffRows_spec hprev hcurr

/-- A screen of 40 by 40 pixels whose rows follow each other, and one pixel of it that has changed. -/
theorem calcDirtyRegion_iff_packed : ∃ region, calcDirtyRegion ⟨40, 40, 4, 160⟩ (compareRows 4) (List.replicate 6400 0)
      ((List.replicate 6400 0).set 4321 1) = some region ∧
    CoversDirtyBlocks ⟨40, 40, 4, 160⟩ (List.replicate 6400 0) ((List.replicate 6400 0).set 4321 1) region :=
  (calcDirtyRegion_iff ⟨40, 40, 4, 160⟩ (compareRows 4) (by decide) (by decide) (by decide) (by decide)
    (comparesBlocks_compareRows 4)).mpr (.inl rfl) _ _ List.length_replicate
    (List.length_set.trans List.length_replicate)

/-- **A pixel is missed** on a screen of 33 rows of one byte, two bytes apart. -/
theorem not_coversDirtyBlocks : ¬∀ (differ : Differ) (blockDifference : BlockDifference), 0 < differ.width →
    0 < differ.height → 0 < differ.bytesPerPixel → differ.width * differ.bytesPerPixel ≤ differ.bytesPerRow →
    ComparesBlocks differ.bytesPerPixel blockDifference →
    ∀ prev curr : List UInt8, prev.length = differ.height * differ.bytesPerRow →
      curr.length = differ.height * differ.bytesPerRow →
      ∃ region, differ.calcDirtyRegion blockDifference prev curr = some region ∧
        differ.CoversDirtyBlocks prev curr region := by
  intro hall
  obtain ⟨region, hregion, hcovers⟩ := hall ⟨1, 33, 1, 2⟩ (compareRows 1) (by decide) (by decide) (by decide) (by decide)
    (comparesBlocks_compareRows 1) (List.replicate 66 0) ((List.replicate 66 0).set 64 1) (by simp) (by simp)
  have hnone : calcDirtyRegion ⟨1, 33, 1, 2⟩ (compareRows 1) (List.replicate 66 0) ((List.replicate 66 0).set 64 1) =
      some [] := by decide +kernel
  obtain rfl := Option.some.inj (hnone.symm.trans hregion)
  have hdirty : BlockDirty ⟨1, 33, 1, 2⟩ (List.replicate 66 0) ((List.replicate 66 0).set 64 1) (blockOf (0, 32)) :=
    ⟨(0, 32), by decide, by decide, rfl, 0, by decide, by decide⟩
  obtain ⟨r, hr, -⟩ := (hcovers.mem_iff (0, 32)).mpr ⟨by decide, by decide, hdirty⟩
  exact absurd hr List.not_mem_nil

end Differ

end Chromium.Remoting
