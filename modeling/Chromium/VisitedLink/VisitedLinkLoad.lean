import Chromium.VisitedLink.VisitedLinkFile

/-!
# When a table has settled

`ResizeTableIfNecessary` gives a table a size by the number of its items, and looks at the load to tell whether it must.  The
sizes are about powers of two and more than three times the number of items, so the load of a new table may still be the
load of one that must shrink; the next call then makes the same table again.  `resizeTableIfNecessary_settles_iff`: when this
does not happen.
-/

namespace Chromium.VisitedLink

open Lib Lib.Binary32

namespace VisitedLinkMaster

variable {env : Environment} {m m' : VisitedLinkMaster} {S : Set UInt64} {n k L : ℕ}

/-! ## The load -/

def load (n L : ℕ) : Binary32 := (ofFraction n 1).div (ofFraction L 1)

theorem value_load_mono (hL : 0 < (ofFraction L 1).mantissa) (h : n ≤ k) : (load n L).value ≤ (load k L).value := by
  refine value_div_mono hL (value_ofFraction_mono one_pos one_pos ?_)
  rw [Nat.cast_one, div_one, div_one]
  exact Nat.cast_le.2 h

theorem load_bounds : ∀ L ∈ tableSizes, 0 < (ofFraction L.toNat 1).mantissa ∧
    (load ((L.toNat - 1) / 2) L.toNat).lt (ofFraction 1 2) = true ∧
    (load ((L.toNat - 1) / 2 + 1) L.toNat).lt (ofFraction 1 2) = false ∧
    (ofFraction 1 5).lt (load (L.toNat / 5) L.toNat) = false ∧
    (ofFraction 1 5).lt (load (L.toNat / 5 + 1) L.toNat) = true := by decide +kernel

/-- **The comparisons of the load are exact** for the sizes of the list. -/
theorem lt_load_iff (hL : (L : ℤ) ∈ tableSizes) (n : ℕ) :
    ((load n L).lt (ofFraction 1 2) = true ↔ 2 * n < L) ∧ ((ofFraction 1 5).lt (load n L) = true ↔ L < 5 * n) := by
  obtain ⟨hpos, hhalf, hhalf', hfifth, hfifth'⟩ := load_bounds L hL
  rw [Int.toNat_natCast] at *
  rw [← Bool.not_eq_true, lt_iff] at hhalf' hfifth
  rw [lt_iff] at hhalf hfifth'
  rw [lt_iff, lt_iff]
  have hpos' : 0 < L := by
    have hall : ∀ s ∈ tableSizes, (0 : ℤ) < s := by decide
    exact Int.natCast_pos.1 (hall L hL)
  refine ⟨⟨fun h => ?_, fun h => ?_⟩, fun h => ?_, fun h => ?_⟩
  · by_contra hge
    exact hhalf' ((value_load_mono hpos (by omega)).trans_lt h)
  · exact (value_load_mono hpos (by omega)).trans_lt hhalf
  · by_contra hge
    exact hfifth (h.trans_le (value_load_mono hpos (by omega)))
  · exact hfifth'.trans_le (value_load_mono hpos (by omega))

def KeepsSize (n L : ℕ) : Prop := 2 * n < L ∧ (L = kDefaultTableSize ∨ L < 5 * n)

theorem keepsSize_iff (hL : (m.tableLength : ℤ) ∈ tableSizes) :
    m.keepsSize = true ↔ KeepsSize m.usedItems.toNat m.tableLength := by
  obtain ⟨hhalf, hfifth⟩ := lt_load_iff hL m.usedItems.toNat
  have hsmall : m.tableLength ≤ kDefaultTableSize ↔ m.tableLength = kDefaultTableSize := by
    have hall : ∀ s ∈ tableSizes, (kDefaultTableSize : ℤ) ≤ s := by decide
    have hle := hall _ hL
    omega
  unfold keepsSize KeepsSize
  rw [← hhalf, ← hfifth, ← hsmall, Bool.and_eq_true, Bool.or_eq_true, decide_eq_true_eq]
  rfl

/-! ## A new table -/

theorem Represents.usedItems_resizeTable {size : ℤ} (h : m.Represents S)
    (hcan : CanCreate env { m with sharedMemorySerial := m.sharedMemorySerial + 1 } size)
    (hsize : m.usedItems ≤ size) (hsmall : size * 8 + 12 < 4294967296) :
    ∃ m', m.resizeTable env size = some m' ∧ m'.usedItems = m.usedItems ∧ (m'.tableLength : ℤ) = size := by
  have hused := h.used_eq
  have h0 : 0 ≤ size := by omega
  have hcreate : createURLTable env { m with sharedMemorySerial := m.sharedMemorySerial + 1 } size = some (true,
      { m with
        sharedMemorySerial := m.sharedMemorySerial + 1
        hashTable := List.replicate size.toNat 0
        usedItems := 0 }) := by
    have hallocates : env.allocates (m.sharedMemorySerial + 1) ((size * 8 + 12) % 4294967296).toNat = true := hcan
    dsimp only [createURLTable]
    rw [if_pos hallocates, if_pos ⟨h0, hsmall⟩]
  dsimp only [VisitedLinkMaster.resizeTable]
  rw [hcreate, Option.map_some, if_pos rfl]
  refine ⟨_, rfl, ?_⟩
  have hfps : ∀ fp ∈ m.hashTable.filter (· ≠ 0), fp ≠ 0 := fun fp hfp => of_decide_eq_true (List.mem_filter.1 hfp).2
  have hcount : (m.hashTable.filter (· ≠ 0)).length = taken 0 m.hashTable := List.countP_eq_length_filter.symm
  have hnodup : (m.hashTable.filter (· ≠ 0)).Nodup := by
    have hslot : ∀ (i : ℕ) (hi : i < m.hashTable.length), slotAt 0 m.hashTable i = m.hashTable[i] := by
      intro i hi
      rw [slotAt, Nat.mod_eq_of_lt hi, List.getD_eq_getElem _ _ hi]
    refine List.pairwise_filter.2 (List.pairwise_iff_getElem.2 fun i j hi hj hij hne _ heq => ?_)
    rw [← hslot i hi, ← hslot j hj] at heq
    rw [← hslot i hi] at hne
    exact hij.ne (h.found.unique i hi j hj (of_decide_eq_true hne) heq)
  have hlength : (List.replicate size.toNat (0 : UInt64)).length = size.toNat := List.length_replicate
  have htaken := (found_replicate size.toNat).taken_insertAll
    (fun fp hfp => ⟨hfps fp hfp, fun hmem => hfps fp hfp (List.eq_of_mem_replicate hmem)⟩) hnodup (by
      rw [hlength, taken_replicate, hcount]
      omega)
  rw [addFingerprints_eq _ hfps, (written_writeFullTable env _).usedItems_eq, tableLength,
    (written_writeFullTable env _).hashTable_eq]
  dsimp only [withTable]
  rw [htaken, hcount, taken_replicate, length_insertAll, hlength]
  omega

/-! ## The sizes -/

theorem newTableSizeForCount_cases (hn : n < 536870912) :
    (newTableSizeForCount n ∈ tableSizes ∧ 3 * (n : ℤ) < newTableSizeForCount n ∧
        ∀ s ∈ tableSizes, 3 * (n : ℤ) < s → newTableSizeForCount n ≤ s) ∨
      (∀ s ∈ tableSizes, s ≤ 3 * (n : ℤ)) ∧ newTableSizeForCount n = 2 * n - 1 := by
  have hsorted : tableSizes.Pairwise (· < ·) := by decide
  dsimp only [newTableSizeForCount]
  rw [toInt32_of_mem (by omega) (by omega)]
  split
  · next size hsize =>
    obtain ⟨hlt, as, bs, hsplit, has⟩ := List.find?_eq_some_iff_append.1 hsize
    have hlt := of_decide_eq_true hlt
    refine .inl ⟨List.mem_of_find?_eq_some hsize, by omega, fun s hs hless => ?_⟩
    rw [hsplit] at hs hsorted
    rcases List.mem_append.1 hs with hs | hs
    · have hnot := has s hs
      rw [Bool.not_eq_true', decide_eq_false_iff_not] at hnot
      omega
    · rcases List.mem_cons.1 hs with rfl | hs
      · exact le_rfl
      · exact (List.rel_of_pairwise_cons (List.pairwise_append.1 hsorted).2.1 hs).le
  · next hnone =>
    have hall := List.find?_eq_none.1 hnone
    refine .inr ⟨fun s hs => ?_, ?_⟩
    · have hnot := hall s hs
      rw [decide_eq_true_eq] at hnot
      omega
    · rw [toInt32_of_mem (by omega) (by omega)]
      omega

/-! ## Tables that settle -/

/-- The load is below a half, there are more slots than items, and the next call leaves the table as it is. -/
structure Settled (env : Environment) (m : VisitedLinkMaster) : Prop where
  load : 2 * m.usedItems < m.tableLength
  room : m.usedItems < m.tableLength
  again : m.resizeTableIfNecessary env = some (false, m)

/-- The size is kept, or there is one for the number of items whose load is large enough. -/
def Settles (n L : ℕ) : Prop :=
  KeepsSize n L ∨ 3 * n < kDefaultTableSize ∨ ∃ s ∈ tableSizes, 3 * (n : ℤ) < s ∧ s < 5 * n

theorem resizeTableIfNecessary_eq_self : m.resizeTableIfNecessary env = some (false, m) ↔ m.keepsSize = true := by
  unfold resizeTableIfNecessary
  split
  · next hkeep => exact iff_of_true rfl hkeep
  · next hkeep =>
    refine iff_of_false (fun h => ?_) hkeep
    obtain ⟨new, -, heq⟩ := Option.map_eq_some_iff.1 h
    cases heq

/-- **A call settles the table unless its new size has too small a load.** -/
theorem settles_iff (h : m.Represents S) (hL : (m.tableLength : ℤ) ∈ tableSizes) (hcan : CanResize env m) :
    (∃ resized m', m.resizeTableIfNecessary env = some (resized, m') ∧ Settled env m') ↔
      Settles m.usedItems.toNat m.tableLength := by
  have hle := taken_le_length 0 m.hashTable
  have hused := h.used_eq
  have hlarge : ∀ s ∈ tableSizes, s ≤ 33554347 := by decide
  have hlength := hlarge _ hL
  have hlist : m.hashTable.length = m.tableLength := rfl
  have hiff := keepsSize_iff hL
  obtain ⟨n, hn⟩ : ∃ n : ℕ, m.usedItems = n := ⟨_, hused⟩
  rw [hn, Int.toNat_natCast] at hiff ⊢
  by_cases hkeep : m.keepsSize = true
  · have heq : m.resizeTableIfNecessary env = some (false, m) := if_pos hkeep
    have hkeeps := hiff.1 hkeep
    have hhalf := hkeeps.1
    exact ⟨fun _ => .inl hkeeps, fun _ => ⟨false, m, heq, by omega, by omega, heq⟩⟩
  · obtain ⟨hlt, hsmall⟩ := newTableSizeForCount_spec (c := n) (by omega) (by omega)
    obtain ⟨m', hresize, hused', hlength'⟩ := h.usedItems_resizeTable hcan (by rw [hn]; exact hlt.le) (by rwa [hn])
    rw [hn] at hused' hlength'
    have heq : m.resizeTableIfNecessary env = some (true, m') := by
      unfold resizeTableIfNecessary
      rw [if_neg hkeep, hresize]
      rfl
    have hsettled : (∃ resized m', m.resizeTableIfNecessary env = some (resized, m') ∧ Settled env m') ↔
        Settled env m' := by
      rw [heq]
      exact ⟨fun ⟨_, _, hsome, hsettled⟩ => (Prod.mk.inj (Option.some.inj hsome)).2 ▸ hsettled, fun h => ⟨_, _, rfl, h⟩⟩
    rw [hsettled]
    rcases newTableSizeForCount_cases (n := n) (by omega) with ⟨hmem, hless, hleast⟩ | ⟨hall, htwice⟩
    · have hiff' := keepsSize_iff (m := m') (hlength' ▸ hmem)
      rw [hused', Int.toNat_natCast] at hiff'
      rw [← hlength'] at hmem hless hleast
      have hdefault : (kDefaultTableSize : ℤ) ∈ tableSizes ∧ ∀ s ∈ tableSizes, (kDefaultTableSize : ℤ) ≤ s := by decide
      have hge := hdefault.2 _ hmem
      constructor
      · intro hsettled
        rcases (hiff'.1 (resizeTableIfNecessary_eq_self.1 hsettled.again)).2 with hsmall | hload
        · exact .inr (.inl (by omega))
        · exact .inr (.inr ⟨_, hmem, hless, by omega⟩)
      · intro hsettles
        refine ⟨by omega, by omega, resizeTableIfNecessary_eq_self.2 (hiff'.2 ⟨by omega, ?_⟩)⟩
        rcases hsettles with hkeeps | hfew | ⟨s, hs, hlt, hload⟩
        · exact absurd (hiff.2 hkeeps) hkeep
        · have hle := hleast _ hdefault.1 (by omega)
          exact .inl (by omega)
        · have hle := hleast s hs hlt
          exact .inr (by omega)
    · have hdefault := hall kDefaultTableSize (by decide)
      constructor
      · intro hsettled
        have hload := hsettled.load
        omega
      · rintro (hkeeps | hfew | ⟨s, hs, hlt, -⟩)
        · exact absurd (hiff.2 hkeeps) hkeep
        · omega
        · exact absurd (hall s hs) (by omega)

def filled (n L : ℕ) : VisitedLinkMaster :=
  addFingerprints ⟨List.replicate L 0, 0, [], false, ⟨[], 0⟩, [], false, ∅, ∅, 0⟩ ((List.range n).map fun i => UInt64.ofNat (i + 1))

theorem represents_filled (hn : n ≤ L) (hL : L < 18446744073709551615) :
    ∃ S, (filled n L).Represents S ∧ (filled n L).usedItems = n ∧ (filled n L).tableLength = L := by
  have hvalue : ∀ i < n, (UInt64.ofNat (i + 1)).toNat = i + 1 := fun i hi => Nat.mod_eq_of_lt (by omega)
  have hfps : ∀ fp ∈ (List.range n).map (fun i => UInt64.ofNat (i + 1)), fp ≠ 0 := by
    rintro fp hfp rfl
    obtain ⟨i, hi, heq⟩ := List.mem_map.1 hfp
    have hzero := hvalue i (List.mem_range.1 hi)
    rw [heq] at hzero
    exact absurd hzero (Nat.succ_ne_zero i).symm
  have hnodup : ((List.range n).map fun i => UInt64.ofNat (i + 1)).Nodup := by
    refine List.Nodup.map_on (fun i hi j hj heq => ?_) List.nodup_range
    have hi' := hvalue i (List.mem_range.1 hi)
    rw [heq, hvalue j (List.mem_range.1 hj)] at hi'
    omega
  have hlength : (List.replicate L (0 : UInt64)).length = L := List.length_replicate
  have hroom : taken 0 (List.replicate L (0 : UInt64)) + ((List.range n).map fun i => UInt64.ofNat (i + 1)).length ≤
      (List.replicate L (0 : UInt64)).length := by
    rw [taken_replicate, List.length_map, List.length_range, hlength]
    omega
  refine ⟨_, (represents_empty rfl rfl).addFingerprints hfps (.inl hroom), ?_⟩
  rw [filled, addFingerprints_eq _ hfps, tableLength]
  dsimp only [withTable]
  rw [(found_replicate L).taken_insertAll (fun fp hfp =>
      ⟨hfps fp hfp, fun hmem => hfps fp hfp (List.eq_of_mem_replicate hmem)⟩) hnodup hroom,
    taken_replicate, List.length_map, List.length_range, length_insertAll, hlength]
  omega

def envWithMemory : Environment := ⟨fun _ _ => 0, fun _ _ => true, false, 0, false⟩

end VisitedLinkMaster

end Chromium.VisitedLink
