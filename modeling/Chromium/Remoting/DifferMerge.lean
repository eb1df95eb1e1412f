import Mathlib.Order.CompletePartialOrder
import Chromium.Remoting.Differ

/-!
# The rectangles of a region

`MergeBlocks` takes the marked blocks apart into rectangles of blocks: each rectangle is taken out of the marked blocks,
and the boundary, which is never marked, stops the loops.
-/

namespace Chromium.Remoting

open Lib
open Option (bind_some)

namespace Differ

variable {differ : Differ} {w h x y n fuel : ℕ} {diffInfo diffInfo' : List Bool} {s s' : Set (ℕ × ℕ)}
  {region : List SkIRect}

def Inner (w h : ℕ) (s : Set (ℕ × ℕ)) : Prop := ∀ p ∈ s, p.1 + 1 < w ∧ p.2 + 1 < h

theorem eraseRight_spec (hg : Grid w h diffInfo s) (hinner : Inner w h s) (hx : x < w) (hy : y < h)
    (hfuel : w - x ≤ fuel) (width : ℕ) :
    ∃ m diffInfo', eraseRight fuel diffInfo (y * w + x) width = some (diffInfo', width + m) ∧
      Grid w h diffInfo' (s \ cells x y m 1) ∧ cells x y m 1 ⊆ s := by
  induction fuel generalizing diffInfo s x width with
  | zero => omega
  | succ fuel ih =>
    by_cases hmem : (x, y) ∈ s
    · have hx' := (hinner _ hmem).1
      have hinner' : Inner w h (s \ {(x, y)}) := fun p hp => hinner p hp.1
      obtain ⟨m, diffInfo', heq, hg', hsub⟩ := ih (hg.set_false hx) hinner' (x := x + 1) (by omega) (by omega) (width + 1)
      refine ⟨m + 1, diffInfo', ?_, ?_, ?_⟩
      · rw [eraseRight, hg.get_of_mem hx hy hmem]
        change (storeBit _ _ _).bind _ = _
        rw [hg.storeBit hx hy, bind_some, Nat.add_assoc (y * w), heq, Nat.add_assoc, Nat.add_comm 1 m]
      · rwa [cells_succ, ← Set.sdiff_sdiff]
      · rw [cells_succ]
        exact Set.union_subset (Set.singleton_subset_iff.2 hmem) (hsub.trans Set.sdiff_subset)
    · refine ⟨0, diffInfo, ?_, ?_, ?_⟩
      · rw [eraseRight, hg.get_of_notMem hx hy hmem]
        rfl
      · rwa [cells_eq_empty, Set.sdiff_empty]
      · rw [cells_eq_empty]
        exact Set.empty_subset _

theorem foundNewRow_spec (hg : Grid w h diffInfo s) (hx : x + n ≤ w) (hy : y < h) (found : Bool) :
    ∃ b, foundNewRow diffInfo n (y * w + x) found = some b ∧ (b = true ↔ found = true ∧ cells x y n 1 ⊆ s) := by
  induction n generalizing x found with
  | zero =>
    refine ⟨found, rfl, ?_⟩
    rw [cells_eq_empty]
    simp
  | succ n ih =>
    obtain ⟨b, hb, hiff⟩ := hg.get x (by omega) y hy
    obtain ⟨b', hb', hiff'⟩ := ih (x := x + 1) (by omega) (if b then found else false)
    refine ⟨b', ?_, ?_⟩
    · rw [foundNewRow, hb, bind_some, Nat.add_assoc, hb']
    · rw [hiff', cells_succ, Set.union_subset_iff, Set.singleton_subset_iff, ← hiff]
      cases b <;> simp

theorem eraseRow_spec (hg : Grid w h diffInfo s) (hx : x + n ≤ w) (hy : y < h) :
    ∃ diffInfo', eraseRow n diffInfo (y * w + x) = some diffInfo' ∧ Grid w h diffInfo' (s \ cells x y n 1) := by
  induction n generalizing diffInfo s x with
  | zero =>
    refine ⟨diffInfo, rfl, ?_⟩
    rwa [cells_eq_empty, Set.sdiff_empty]
  | succ n ih =>
    obtain ⟨diffInfo', heq, hg'⟩ := ih (hg.set_false (x := x) (by omega)) (x := x + 1) (by omega)
    refine ⟨diffInfo', ?_, ?_⟩
    · rw [eraseRow, hg.storeBit (by omega) hy, bind_some, Nat.add_assoc, heq]
    · rwa [cells_succ, ← Set.sdiff_sdiff]

theorem eraseBelow_spec (hg : Grid w h diffInfo s) (hinner : Inner w h s) (hn : 0 < n) (hx : x + n ≤ w) (hy : y + 1 < h)
    (hfuel : h - y ≤ fuel) (height : ℕ) :
    ∃ m diffInfo', eraseBelow w n fuel diffInfo (y * w + x) height = some (diffInfo', height + m) ∧
      Grid w h diffInfo' (s \ cells x (y + 1) n m) ∧ cells x (y + 1) n m ⊆ s := by
  induction fuel generalizing diffInfo s y height with
  | zero => omega
  | succ fuel ih =>
    have hindex : y * w + x + w = (y + 1) * w + x := by
      rw [Nat.succ_mul]
      omega
    obtain ⟨b, hb, hiff⟩ := foundNewRow_spec hg hx hy true
    rw [eraseBelow, hindex, hb, bind_some]
    by_cases hrow : cells x (y + 1) n 1 ⊆ s
    · have hmem : (x, y + 1) ∈ s := hrow ⟨Nat.le_refl _, by simpa using hn, Nat.le_refl _, Nat.lt_succ_self _⟩
      have hy' := (hinner _ hmem).2
      obtain ⟨diffInfo₁, heq₁, hg₁⟩ := eraseRow_spec hg hx hy
      have hinner₁ : Inner w h (s \ cells x (y + 1) n 1) := fun p hp => hinner p hp.1
      obtain ⟨m, diffInfo', heq, hg', hsub⟩ := ih hg₁ hinner₁ hy' (by omega) (height + 1)
      refine ⟨m + 1, diffInfo', ?_, ?_, ?_⟩
      · rw [if_pos (hiff.2 ⟨rfl, hrow⟩), heq₁, bind_some, heq, Nat.add_assoc, Nat.add_comm 1 m]
      · rwa [cells_succ_rows, ← Set.sdiff_sdiff]
      · rw [cells_succ_rows]
        exact Set.union_subset hrow (hsub.trans Set.sdiff_subset)
    · refine ⟨0, diffInfo, ?_, ?_, ?_⟩
      · rw [if_neg fun hb => hrow (hiff.1 hb).2]
        rfl
      · rwa [cells_zero, Set.sdiff_empty]
      · rw [cells_zero]
        exact Set.empty_subset _

/-- A group of blocks: `width` blocks in a row, and `height` rows. -/
structure Group where
  x : ℕ
  y : ℕ
  width : ℕ
  height : ℕ

def Group.cells (g : Group) : Set (ℕ × ℕ) := Lib.cells g.x g.y g.width g.height

def rect (differ : Differ) (g : Group) : SkIRect := differ.blockRect g.x g.y g.width g.height

/-- **What the loops of `MergeBlocks` keep**: the blocks that were marked are still marked, or in one group. -/
structure Merged (differ : Differ) (s₀ : Set (ℕ × ℕ)) (diffInfo : List Bool) (s : Set (ℕ × ℕ)) (groups : List Group) :
    Prop where
  grid : Grid differ.diffInfoWidth differ.diffInfoHeight diffInfo s
  mem_iff : ∀ p, p ∈ s₀ ↔ p ∈ s ∨ ∃ g ∈ groups, p ∈ g.cells
  apart : groups.Pairwise fun g g' => Disjoint g.cells g'.cells
  erased : ∀ g ∈ groups, Disjoint g.cells s
  pos : ∀ g ∈ groups, 0 < g.width ∧ 0 < g.height

variable {s₀ : Set (ℕ × ℕ)} {groups : List Group}

theorem Merged.inner (h : Merged differ s₀ diffInfo s groups) (hinner : Inner w n s₀) : Inner w n s :=
  fun p hp => hinner p ((h.mem_iff p).2 (.inl hp))

theorem Merged.append (h : Merged differ s₀ diffInfo s groups) {g : Group} (hsub : g.cells ⊆ s)
    (hpos : 0 < g.width ∧ 0 < g.height)
    (hg : Grid differ.diffInfoWidth differ.diffInfoHeight diffInfo' (s \ g.cells)) :
    Merged differ s₀ diffInfo' (s \ g.cells) (groups ++ [g]) := by
  refine ⟨hg, fun p => ?_, ?_, fun g' hg' => ?_, fun g' hg' => ?_⟩
  · rw [h.mem_iff]
    constructor
    · rintro (hp | ⟨g', hg', hp⟩)
      · by_cases hgp : p ∈ g.cells
        · exact .inr ⟨g, by simp, hgp⟩
        · exact .inl ⟨hp, hgp⟩
      · exact .inr ⟨g', List.mem_append_left _ hg', hp⟩
    · rintro (hp | ⟨g', hg', hp⟩)
      · exact .inl hp.1
      · rcases List.mem_append.1 hg' with hold | hnew
        · exact .inr ⟨g', hold, hp⟩
        · rw [List.mem_singleton.1 hnew] at hp
          exact .inl (hsub hp)
  · rw [List.pairwise_append]
    refine ⟨h.apart, List.pairwise_singleton _ _, fun g₁ hg₁ g₂ hg₂ => ?_⟩
    rw [List.mem_singleton.1 hg₂]
    exact (h.erased g₁ hg₁).mono_right hsub
  · rcases List.mem_append.1 hg' with hold | hnew
    · exact (h.erased g' hold).mono_right Set.sdiff_subset
    · rw [List.mem_singleton.1 hnew]
      exact Set.disjoint_sdiff_right
  · rcases List.mem_append.1 hg' with hold | hnew
    · exact h.pos g' hold
    · rwa [List.mem_singleton.1 hnew]

/-- **One block of the loop**: it is not marked, or the group at it is taken out. -/
theorem Merged.mergeBlock (h : Merged differ s₀ diffInfo s groups)
    (hinner : Inner differ.diffInfoWidth differ.diffInfoHeight s₀) (hx : x < differ.diffInfoWidth)
    (hy : y < differ.diffInfoHeight) :
    ∃ diffInfo' s' groups', differ.mergeBlock x y (y * differ.diffInfoWidth + x) diffInfo (groups.map differ.rect) =
        some (diffInfo', groups'.map differ.rect) ∧
      Merged differ s₀ diffInfo' s' groups' ∧ s' ⊆ s ∧ (x, y) ∉ s' := by
  have hg := h.grid
  have hin := h.inner hinner
  generalize hw : differ.diffInfoWidth = w at *
  generalize hh : differ.diffInfoHeight = l at *
  by_cases hmem : (x, y) ∈ s
  · obtain ⟨hx', hy'⟩ := hin _ hmem
    have hg₁ := hg.set_false (y := y) hx
    have hin₁ : Inner w l (s \ {(x, y)}) := fun p hp => hin p hp.1
    have hlen₁ := hg₁.length
    have hfit : w ≤ w * l ∧ l ≤ w * l :=
      ⟨Nat.le_mul_of_pos_right w (by omega), Nat.le_mul_of_pos_left l (by omega)⟩
    have hfuel₁ : w - (x + 1) ≤ (diffInfo.set (y * w + x) false).length + 1 := by omega
    obtain ⟨m, diffInfo₂, heq₂, hg₂, hsub₂⟩ := eraseRight_spec hg₁ hin₁ hx' hy hfuel₁ 1
    have hin₂ : Inner w l ((s \ {(x, y)}) \ Lib.cells (x + 1) y m 1) := fun p hp => hin₁ p hp.1
    have hwidth : x + (1 + m) ≤ w := by
      rcases Nat.eq_zero_or_pos m with rfl | hm
      · omega
      · have hlast := hin₁ _ (hsub₂ (show (x + m, y) ∈ Lib.cells (x + 1) y m 1 by simp [Lib.cells]; omega))
        omega
    have hlen₂ := hg₂.length
    have hfuel₂ : l - y ≤ diffInfo₂.length + 1 := by omega
    have hpos : 0 < 1 + m := by omega
    obtain ⟨k, diffInfo₃, heq₃, hg₃, hsub₃⟩ := eraseBelow_spec hg₂ hin₂ hpos hwidth hy' hfuel₂ 1
    have hcells : Lib.cells x y (1 + m) (1 + k) =
        ({(x, y)} ∪ Lib.cells (x + 1) y m 1) ∪ Lib.cells x (y + 1) (1 + m) k := by
      rw [Nat.add_comm 1 k, cells_succ_rows, Nat.add_comm 1 m, cells_succ]
    have hsub : Group.cells ⟨x, y, 1 + m, 1 + k⟩ ⊆ s := by
      rw [Group.cells, hcells]
      refine Set.union_subset (Set.union_subset (Set.singleton_subset_iff.2 hmem) ?_) ?_
      · exact hsub₂.trans Set.sdiff_subset
      · exact hsub₃.trans (Set.sdiff_subset.trans Set.sdiff_subset)
    have hg' : Grid differ.diffInfoWidth differ.diffInfoHeight diffInfo₃ (s \ Group.cells ⟨x, y, 1 + m, 1 + k⟩) := by
      rw [hw, hh, Group.cells, hcells, ← Set.sdiff_sdiff, ← Set.sdiff_sdiff]
      exact hg₃
    have hsize : 0 < 1 + m ∧ 0 < 1 + k := ⟨hpos, by omega⟩
    refine ⟨diffInfo₃, _, groups ++ [⟨x, y, 1 + m, 1 + k⟩], ?_, h.append hsub hsize hg', Set.sdiff_subset, ?_⟩
    · rw [Differ.mergeBlock, hg.get_of_mem hx hy hmem]
      change (storeBit _ _ _).bind _ = _
      rw [hg.storeBit hx hy, bind_some, Nat.add_assoc, heq₂, bind_some]
      change (eraseBelow _ _ _ _ _ _).map _ = _
      rw [hw, heq₃, Option.map_some, List.map_append]
      rfl
    · exact fun hp => hp.2 (by simp [Group.cells, Lib.cells])
  · refine ⟨diffInfo, s, groups, ?_, h, subset_rfl, hmem⟩
    rw [Differ.mergeBlock, hg.get_of_notMem hx hy hmem]

theorem Merged.mergeRow (hinner : Inner differ.diffInfoWidth differ.diffInfoHeight s₀) (hy : y < differ.diffInfoHeight)
    (count : ℕ) : ∀ {x : ℕ} {diffInfo : List Bool} {s : Set (ℕ × ℕ)} {groups : List Group},
      Merged differ s₀ diffInfo s groups → x + count = differ.diffInfoWidth →
      ∃ diffInfo' s' groups',
        differ.mergeRow y count x (y * differ.diffInfoWidth + x) diffInfo (groups.map differ.rect) =
            some (diffInfo', groups'.map differ.rect) ∧
          Merged differ s₀ diffInfo' s' groups' ∧ s' ⊆ s ∧ ∀ a, x ≤ a → a < differ.diffInfoWidth → (a, y) ∉ s' := by
  induction count with
  | zero => exact fun h hcount => ⟨_, _, _, rfl, h, subset_rfl, fun a ha hlt => by omega⟩
  | succ count ih =>
    intro x diffInfo s groups h hcount
    obtain ⟨d₁, s₁, groups₁, heq₁, h₁, hsub₁, hnot₁⟩ := h.mergeBlock hinner (x := x) (by omega) hy
    obtain ⟨d₂, s₂, groups₂, heq₂, h₂, hsub₂, hnot₂⟩ := ih h₁ (x := x + 1) (by omega)
    refine ⟨d₂, s₂, groups₂, ?_, h₂, hsub₂.trans hsub₁, fun a ha hlt => ?_⟩
    · rw [Differ.mergeRow, heq₁]
      exact heq₂
    · by_cases hax : a = x
      · rw [hax]
        exact fun hp => hnot₁ (hsub₂ hp)
      · exact hnot₂ a (by omega) hlt

theorem Merged.mergeRows (hinner : Inner differ.diffInfoWidth differ.diffInfoHeight s₀) (count : ℕ) :
    ∀ {y : ℕ} {diffInfo : List Bool} {s : Set (ℕ × ℕ)} {groups : List Group},
      Merged differ s₀ diffInfo s groups → y + count = differ.diffInfoHeight →
      ∃ diffInfo' s' groups',
        differ.mergeRows count y (y * differ.diffInfoWidth) diffInfo (groups.map differ.rect) =
            some (diffInfo', groups'.map differ.rect) ∧
          Merged differ s₀ diffInfo' s' groups' ∧ s' ⊆ s ∧
          ∀ a b, a < differ.diffInfoWidth → y ≤ b → b < differ.diffInfoHeight → (a, b) ∉ s' := by
  induction count with
  | zero => exact fun h hcount => ⟨_, _, _, rfl, h, subset_rfl, fun a b _ hb hlt => by omega⟩
  | succ count ih =>
    intro y diffInfo s groups h hcount
    obtain ⟨d₁, s₁, groups₁, heq₁, h₁, hsub₁, hnot₁⟩ :=
      Merged.mergeRow hinner (y := y) (by omega) differ.diffInfoWidth h (x := 0) (Nat.zero_add _)
    obtain ⟨d₂, s₂, groups₂, heq₂, h₂, hsub₂, hnot₂⟩ := ih h₁ (y := y + 1) (by omega)
    refine ⟨d₂, s₂, groups₂, ?_, h₂, hsub₂.trans hsub₁, fun a b ha hb hlt => ?_⟩
    · rw [Nat.succ_mul] at heq₂
      rw [Differ.mergeRows]
      rw [Nat.add_zero] at heq₁
      rw [heq₁]
      exact heq₂
    · by_cases hby : b = y
      · rw [hby]
        exact fun hp => hnot₁ a (Nat.zero_le _) ha (hsub₂ hp)
      · exact hnot₂ a b ha (by omega) hlt

/-- **`MergeBlocks` takes the marked blocks apart into groups**, each block into one. -/
theorem mergeBlocks_spec (hg : Grid differ.diffInfoWidth differ.diffInfoHeight diffInfo s₀)
    (hinner : Inner differ.diffInfoWidth differ.diffInfoHeight s₀) :
    ∃ groups : List Group, differ.mergeBlocks diffInfo = some (groups.map differ.rect) ∧
      (∀ p, p ∈ s₀ ↔ ∃ g ∈ groups, p ∈ g.cells) ∧ (groups.Pairwise fun g g' => Disjoint g.cells g'.cells) ∧
      ∀ g ∈ groups, 0 < g.width ∧ 0 < g.height := by
  have hstart : Merged differ s₀ diffInfo s₀ [] := ⟨hg, by simp, List.Pairwise.nil, by simp, by simp⟩
  obtain ⟨diffInfo', s', groups, heq, h, hsub, hnot⟩ :=
    Merged.mergeRows hinner differ.diffInfoHeight hstart (y := 0) (Nat.zero_add _)
  refine ⟨groups, ?_, fun p => ?_, h.apart, h.pos⟩
  · rw [Nat.zero_mul] at heq
    rw [mergeBlocks]
    change (differ.mergeRows _ 0 0 diffInfo (List.map differ.rect [])).map _ = _
    rw [heq]
    rfl
  · rw [h.mem_iff]
    refine ⟨fun hor => hor.resolve_left fun hp => ?_, .inr⟩
    obtain ⟨ha, hb⟩ := h.inner hinner p hp
    exact hnot p.1 p.2 (by omega) (Nat.zero_le _) (by omega) hp

end Differ

end Chromium.Remoting
