import Mathlib.Data.List.Sort

/-!
# The selection of a tab strip

`chrome/browser/tabs/tab_strip_selection_model.cc` keeps the selection as positions: the selected indices in ascending
order, the active index and the anchor.  Every edit of the strip renumbers them.
-/

namespace Chromium.Tabs

def kUnselectedIndex : Int := -1

structure TabStripSelectionModel where
  selectedIndices : List Int
  active : Int
  anchor : Int
deriving DecidableEq, Repr

def incrementFromImpl (index value : Int) : Int := if value ≥ index then value + 1 else value

def decrementFromImpl (index value : Int) : Int × Bool :=
  if value = index then (kUnselectedIndex, true)
  else if value > index then (value - 1, false)
  else (value, false)

/-- `std::sort` of the indices. -/
def sortIndices (l : List Int) : List Int := l.insertionSort (· ≤ ·)

def indicesBetween (index anchor : Int) : List Int :=
  (List.range ((index - anchor).natAbs + 1)).map fun i : ℕ => (i : Int) + min index anchor

/-- One turn of the loop of `AddSelectionFromAnchorTo`. -/
def pushUnselected (l : List Int) (i : Int) : List Int := if !l.contains i then l ++ [i] else l

namespace TabStripSelectionModel

def new : TabStripSelectionModel := ⟨[], kUnselectedIndex, kUnselectedIndex⟩

def incrementFrom (m : TabStripSelectionModel) (index : Int) : TabStripSelectionModel where
  selectedIndices := m.selectedIndices.map (incrementFromImpl index)
  anchor := incrementFromImpl index m.anchor
  active := incrementFromImpl index m.active

def decrementFrom (m : TabStripSelectionModel) (index : Int) : TabStripSelectionModel where
  selectedIndices := m.selectedIndices.filterMap fun i =>
    if (decrementFromImpl index i).2 then none else some (decrementFromImpl index i).1
  anchor := (decrementFromImpl index m.anchor).1
  active := (decrementFromImpl index m.active).1

def setSelectedIndex (_ : TabStripSelectionModel) (index : Int) : TabStripSelectionModel where
  anchor := index
  active := index
  selectedIndices := if index ≠ kUnselectedIndex then [index] else []

def isSelected (m : TabStripSelectionModel) (index : Int) : Bool := m.selectedIndices.contains index

def addIndexToSelection (m : TabStripSelectionModel) (index : Int) : TabStripSelectionModel :=
  if !m.isSelected index then { m with selectedIndices := sortIndices (m.selectedIndices ++ [index]) } else m

def removeIndexFromSelection (m : TabStripSelectionModel) (index : Int) : TabStripSelectionModel :=
  { m with selectedIndices := m.selectedIndices.erase index }

def setSelectionFromAnchorTo (m : TabStripSelectionModel) (index : Int) : TabStripSelectionModel :=
  if m.anchor = kUnselectedIndex then m.setSelectedIndex index
  else { m with selectedIndices := indicesBetween index m.anchor, active := index }

def addSelectionFromAnchorTo (m : TabStripSelectionModel) (index : Int) : TabStripSelectionModel :=
  if m.anchor = kUnselectedIndex then m.setSelectedIndex index
  else { m with
    selectedIndices := sortIndices ((indicesBetween index m.anchor).foldl pushUnselected m.selectedIndices),
    active := index }

def move (m : TabStripSelectionModel) (source target : Int) : TabStripSelectionModel :=
  let wasAnchor := source = m.anchor
  let wasActive := source = m.active
  let wasSelected := m.isSelected source
  let m :=
    if target < source then (m.incrementFrom target).decrementFrom (source + 1)
    else (m.decrementFrom source).incrementFrom target
  let m := if wasActive then { m with active := target } else m
  let m := if wasAnchor then { m with anchor := target } else m
  if wasSelected then m.addIndexToSelection target else m

def clear (_ : TabStripSelectionModel) : TabStripSelectionModel := new

end TabStripSelectionModel

/-! ## The sorted indices -/

variable {l a b : List Int} {i x n index source target : Int}

theorem mem_sortIndices : i ∈ sortIndices l ↔ i ∈ l := List.mem_insertionSort _

theorem pairwise_sortIndices (hl : l.Nodup) : (sortIndices l).Pairwise (· < ·) := by
  have hnodup : (sortIndices l).Nodup := (List.perm_insertionSort _ l).nodup_iff.2 hl
  have hsorted : (sortIndices l).Pairwise (· ≤ ·) := List.pairwise_insertionSort (· ≤ ·) l
  exact hsorted.imp₂ (fun x y hle hne => lt_of_le_of_ne hle hne) hnodup

theorem mem_indicesBetween {anchor : Int} :
    i ∈ indicesBetween index anchor ↔ min index anchor ≤ i ∧ i ≤ max index anchor := by
  rw [indicesBetween, List.mem_map]
  constructor
  · rintro ⟨k, hk, rfl⟩
    rw [List.mem_range] at hk
    omega
  · rintro ⟨hmin, hmax⟩
    refine ⟨(i - min index anchor).toNat, ?_, ?_⟩
    · rw [List.mem_range]
      omega
    · omega

theorem pairwise_indicesBetween (index anchor : Int) : (indicesBetween index anchor).Pairwise (· < ·) := by
  rw [indicesBetween, List.pairwise_map]
  exact List.pairwise_lt_range.imp fun h => by omega

theorem foldl_pushUnselected (is : List Int) (hl : l.Nodup) :
    (is.foldl pushUnselected l).Nodup ∧ ∀ i, i ∈ is.foldl pushUnselected l ↔ i ∈ l ∨ i ∈ is := by
  induction is generalizing l with
  | nil => exact ⟨hl, fun i => by simp⟩
  | cons j is ih =>
    rw [List.foldl_cons, pushUnselected]
    by_cases hj : j ∈ l
    · rw [if_neg (by simpa using hj)]
      obtain ⟨hnodup, hmem⟩ := ih hl
      refine ⟨hnodup, fun i => ?_⟩
      rw [hmem, List.mem_cons]
      constructor
      · rintro (h | h)
        · exact .inl h
        · exact .inr (.inr h)
      · rintro (h | rfl | h)
        · exact .inl h
        · exact .inl hj
        · exact .inr h
    · rw [if_pos (by simpa using hj)]
      obtain ⟨hnodup, hmem⟩ := ih (l := l ++ [j]) (by
        rw [List.nodup_append]
        refine ⟨hl, List.nodup_singleton j, ?_⟩
        rintro i hi _ hj' rfl
        rw [List.mem_singleton] at hj'
        exact hj (hj' ▸ hi))
      refine ⟨hnodup, fun i => ?_⟩
      rw [hmem, List.mem_append, List.mem_singleton, List.mem_cons, or_assoc]

/-! ## What every selection keeps -/

namespace TabStripSelectionModel

variable {m : TabStripSelectionModel}

/-- The positions of a strip of `n` tabs: the indices ascend and are positions, and the anchor is one or none. -/
structure Numbered (m : TabStripSelectionModel) (n : Int) : Prop where
  increasing : m.selectedIndices.Pairwise (· < ·)
  inRange : ∀ i ∈ m.selectedIndices, 0 ≤ i ∧ i < n
  anchor : m.anchor = kUnselectedIndex ∨ 0 ≤ m.anchor ∧ m.anchor < n

structure Valid (m : TabStripSelectionModel) (n : Int) : Prop extends Numbered m n where
  active : m.active ∈ m.selectedIndices

theorem Valid.active_lt (h : Valid m n) : 0 ≤ m.active ∧ m.active < n := h.inRange _ h.active

theorem isSelected_iff : m.isSelected i = true ↔ i ∈ m.selectedIndices := by
  rw [isSelected, List.contains_iff_mem]

theorem valid_setSelectedIndex (m : TabStripSelectionModel) (hi : 0 ≤ index ∧ index < n) :
    Valid (m.setSelectedIndex index) n := by
  have hne : index ≠ kUnselectedIndex := by
    unfold kUnselectedIndex
    omega
  have hsel : (m.setSelectedIndex index).selectedIndices = [index] := if_pos hne
  refine ⟨⟨?_, fun i h => ?_, .inr hi⟩, ?_⟩
  · rw [hsel]
    exact List.pairwise_singleton _ _
  · rw [hsel, List.mem_singleton] at h
    exact h ▸ hi
  · rw [hsel]
    exact List.mem_singleton_self index

/-! ### Increment and decrement -/

theorem decrementFromImpl_snd (index i : Int) : (decrementFromImpl index i).2 = decide (i = index) := by
  unfold decrementFromImpl
  split_ifs with h h'
  · exact (decide_eq_true h).symm
  · exact (decide_eq_false h).symm
  · exact (decide_eq_false h).symm

theorem mem_incrementFrom : i ∈ (m.incrementFrom index).selectedIndices ↔
    ∃ j ∈ m.selectedIndices, incrementFromImpl index j = i := List.mem_map

theorem mem_decrementFrom : i ∈ (m.decrementFrom index).selectedIndices ↔
    ∃ j ∈ m.selectedIndices, j ≠ index ∧ (decrementFromImpl index j).1 = i := by
  rw [decrementFrom, List.mem_filterMap]
  refine exists_congr fun j => and_congr_right fun _ => ?_
  by_cases h : j = index <;> simp [decrementFromImpl_snd, h]

theorem Valid.incrementFrom (h : Valid m n) (hi : 0 ≤ index ∧ index ≤ n) : Valid (m.incrementFrom index) (n + 1) := by
  refine ⟨⟨?_, fun i hmem => ?_, ?_⟩, List.mem_map_of_mem h.active⟩
  · rw [TabStripSelectionModel.incrementFrom, List.pairwise_map]
    refine h.increasing.imp fun hlt => ?_
    unfold incrementFromImpl
    split_ifs <;> omega
  · obtain ⟨j, hj, rfl⟩ := mem_incrementFrom.1 hmem
    have := h.inRange j hj
    unfold incrementFromImpl
    split_ifs <;> omega
  · have := h.anchor
    simp only [TabStripSelectionModel.incrementFrom, incrementFromImpl, kUnselectedIndex] at this ⊢
    split_ifs <;> omega

theorem Numbered.decrementFrom (h : Numbered m n) (hi : 0 ≤ index ∧ index < n) :
    Numbered (m.decrementFrom index) (n - 1) := by
  refine ⟨?_, fun i hmem => ?_, ?_⟩
  · refine h.increasing.filterMap _ fun i j hlt i' hi' j' hj' => ?_
    unfold decrementFromImpl at hi' hj'
    grind
  · obtain ⟨j, hj, hne, rfl⟩ := mem_decrementFrom.1 hmem
    have := h.inRange j hj
    unfold decrementFromImpl
    split_ifs <;> dsimp only <;> omega
  · have := h.anchor
    simp only [TabStripSelectionModel.decrementFrom, decrementFromImpl, kUnselectedIndex] at this ⊢
    split_ifs <;> dsimp only <;> omega

theorem Valid.decrementFrom (h : Valid m n) (hi : 0 ≤ index ∧ index < n) (hne : m.active ≠ index) :
    Valid (m.decrementFrom index) (n - 1) :=
  ⟨h.toNumbered.decrementFrom hi, mem_decrementFrom.2 ⟨m.active, h.active, hne, rfl⟩⟩

/-! ### Selecting and deselecting -/

theorem mem_addIndexToSelection :
    i ∈ (m.addIndexToSelection index).selectedIndices ↔ i ∈ m.selectedIndices ∨ i = index := by
  rw [addIndexToSelection]
  split
  · rw [mem_sortIndices, List.mem_append, List.mem_singleton]
  · next h =>
    rw [Bool.not_eq_true', Bool.not_eq_false, isSelected_iff] at h
    constructor
    · exact .inl
    · rintro (hi | rfl)
      · exact hi
      · exact h

theorem addIndexToSelection_active (m : TabStripSelectionModel) (index : Int) :
    (m.addIndexToSelection index).active = m.active := by
  rw [addIndexToSelection]
  split <;> rfl

theorem addIndexToSelection_anchor (m : TabStripSelectionModel) (index : Int) :
    (m.addIndexToSelection index).anchor = m.anchor := by
  rw [addIndexToSelection]
  split <;> rfl

theorem Numbered.nodup_append (h : Numbered m n) (hsel : index ∉ m.selectedIndices) :
    (m.selectedIndices ++ [index]).Nodup := by
  rw [List.nodup_append]
  refine ⟨h.increasing.imp fun hlt => ne_of_lt hlt, List.nodup_singleton index, ?_⟩
  rintro i hi _ hindex rfl
  rw [List.mem_singleton] at hindex
  exact hsel (hindex ▸ hi)

theorem Numbered.addIndexToSelection (h : Numbered m n) (hi : 0 ≤ index ∧ index < n) :
    Numbered (m.addIndexToSelection index) n := by
  refine ⟨?_, fun i hmem => ?_, ?_⟩
  · rw [TabStripSelectionModel.addIndexToSelection]
    split
    · next hsel =>
      rw [Bool.not_eq_true', ← Bool.not_eq_true, isSelected_iff] at hsel
      exact pairwise_sortIndices (h.nodup_append hsel)
    · exact h.increasing
  · rcases mem_addIndexToSelection.1 hmem with hmem | rfl
    · exact h.inRange i hmem
    · exact hi
  · rw [addIndexToSelection_anchor]
    exact h.anchor

theorem Numbered.removeIndexFromSelection (h : Numbered m n) : Numbered (m.removeIndexFromSelection index) n :=
  ⟨h.increasing.sublist List.erase_sublist, fun i hmem => h.inRange i (List.mem_of_mem_erase hmem), h.anchor⟩

theorem Numbered.mem_removeIndexFromSelection (h : Numbered m n) :
    i ∈ (m.removeIndexFromSelection index).selectedIndices ↔ i ≠ index ∧ i ∈ m.selectedIndices :=
  List.Nodup.mem_erase_iff (h.increasing.imp fun hlt => ne_of_lt hlt)

theorem Numbered.setSelectionFromAnchorTo (h : Numbered m n) (hi : 0 ≤ index ∧ index < n) :
    Valid (m.setSelectionFromAnchorTo index) n := by
  rw [TabStripSelectionModel.setSelectionFromAnchorTo]
  split
  · exact valid_setSelectedIndex m hi
  · next hne =>
    have hanchor := h.anchor.resolve_left hne
    refine ⟨⟨pairwise_indicesBetween _ _, fun i hmem => ?_, h.anchor⟩, ?_⟩
    · have := mem_indicesBetween.1 hmem
      omega
    · refine mem_indicesBetween.2 ?_
      dsimp only
      omega

theorem Numbered.addSelectionFromAnchorTo (h : Numbered m n) (hi : 0 ≤ index ∧ index < n) :
    Valid (m.addSelectionFromAnchorTo index) n := by
  rw [TabStripSelectionModel.addSelectionFromAnchorTo]
  split
  · exact valid_setSelectedIndex m hi
  · next hne =>
    have hanchor := h.anchor.resolve_left hne
    obtain ⟨hnodup, hmem⟩ := foldl_pushUnselected (indicesBetween index m.anchor)
      (h.increasing.imp fun hlt => ne_of_lt hlt)
    refine ⟨⟨pairwise_sortIndices hnodup, fun i hi' => ?_, h.anchor⟩, ?_⟩
    · rw [mem_sortIndices, hmem, mem_indicesBetween] at hi'
      rcases hi' with hi' | hi'
      · exact h.inRange i hi'
      · omega
    · rw [mem_sortIndices, hmem, mem_indicesBetween]
      dsimp only
      exact .inr (by omega)

/-! ### Moving -/

/-- Where the tab at `i` is after the one at `source` has moved to `target`. -/
def relocate (source target i : Int) : Int :=
  if i = source then target
  else if source < i ∧ i ≤ target then i - 1
  else if target ≤ i ∧ i < source then i + 1
  else i

theorem relocate_self (source target : Int) : relocate source target source = target := if_pos rfl

theorem relocate_lt (hs : 0 ≤ source ∧ source < n) (ht : 0 ≤ target ∧ target < n) (hi : 0 ≤ i ∧ i < n) :
    0 ≤ relocate source target i ∧ relocate source target i < n := by
  unfold relocate
  grind

theorem relocate_lt_relocate {j : Int} (hi : i ≠ source) (hj : j ≠ source) (hlt : i < j) :
    relocate source target i < relocate source target j := by
  unfold relocate
  grind

/-- The selection of `Move` before the moved tab is put back. -/
def shift (m : TabStripSelectionModel) (source target : Int) : TabStripSelectionModel :=
  if target < source then (m.incrementFrom target).decrementFrom (source + 1)
  else (m.decrementFrom source).incrementFrom target

theorem decrementFromImpl_incrementFromImpl (hlt : target < source) (hne : i ≠ source) :
    decrementFromImpl (source + 1) (incrementFromImpl target i) = (relocate source target i, false) := by
  unfold decrementFromImpl incrementFromImpl relocate
  grind

theorem decrementFromImpl_of_le (hle : source ≤ target) (hne : i ≠ source) :
    (decrementFromImpl source i).2 = false ∧
      incrementFromImpl target (decrementFromImpl source i).1 = relocate source target i := by
  unfold decrementFromImpl incrementFromImpl relocate
  grind

theorem shift_selectedIndices (m : TabStripSelectionModel) (source target : Int) :
    (m.shift source target).selectedIndices =
      (m.selectedIndices.filter (· ≠ source)).map (relocate source target) := by
  rw [shift]
  split
  · next hlt =>
    change (m.selectedIndices.map (incrementFromImpl target)).filterMap _ = _
    rw [List.filterMap_map, ← List.filterMap_eq_map (f := relocate source target), List.filterMap_filter]
    refine List.filterMap_congr fun i _ => ?_
    by_cases h : i = source
    · have hgoes : incrementFromImpl target i = source + 1 := by
        rw [incrementFromImpl, if_pos (by omega), h]
      rw [Function.comp_apply, decrementFromImpl_snd, if_pos (decide_eq_true hgoes), if_neg (by simpa using h)]
    · rw [Function.comp_apply, decrementFromImpl_incrementFromImpl hlt h, if_neg Bool.false_ne_true,
        if_pos (decide_eq_true h)]
      rfl
  · next hlt =>
    change (m.selectedIndices.filterMap _).map (incrementFromImpl target) = _
    rw [List.map_filterMap, ← List.filterMap_eq_map (f := relocate source target), List.filterMap_filter]
    refine List.filterMap_congr fun i _ => ?_
    by_cases h : i = source
    · rw [decrementFromImpl_snd, if_pos (decide_eq_true h), if_neg (by simpa using h)]
      rfl
    · obtain ⟨hfalse, hvalue⟩ := decrementFromImpl_of_le (not_lt.1 hlt) h
      rw [hfalse, if_neg Bool.false_ne_true, Option.map_some, hvalue, if_pos (decide_eq_true h)]
      rfl

theorem shift_active (h : m.active ≠ source) : (m.shift source target).active = relocate source target m.active := by
  rw [shift]
  split
  · next hlt => exact congrArg Prod.fst (decrementFromImpl_incrementFromImpl hlt h)
  · next hlt => exact (decrementFromImpl_of_le (not_lt.1 hlt) h).2

theorem shift_anchor (h : m.anchor ≠ source) : (m.shift source target).anchor = relocate source target m.anchor := by
  rw [shift]
  split
  · next hlt => exact congrArg Prod.fst (decrementFromImpl_incrementFromImpl hlt h)
  · next hlt => exact (decrementFromImpl_of_le (not_lt.1 hlt) h).2

/-- **A move takes the active index and the anchor along**, and puts the moved tab back where it was selected. -/
theorem move_eq (m : TabStripSelectionModel) (source target : Int) : m.move source target =
      if m.isSelected source then
        addIndexToSelection ⟨(m.selectedIndices.filter (· ≠ source)).map (relocate source target),
          relocate source target m.active, relocate source target m.anchor⟩ target
      else ⟨(m.selectedIndices.filter (· ≠ source)).map (relocate source target),
        relocate source target m.active, relocate source target m.anchor⟩ := by
  have hshift : (if source = m.anchor then
      { (if source = m.active then { m.shift source target with active := target } else m.shift source target) with
        anchor := target }
      else if source = m.active then { m.shift source target with active := target } else m.shift source target) =
      ⟨(m.selectedIndices.filter (· ≠ source)).map (relocate source target),
        relocate source target m.active, relocate source target m.anchor⟩ := by
    rw [← shift_selectedIndices]
    by_cases hactive : source = m.active
    · by_cases hanchor : source = m.anchor
      · rw [if_pos hanchor, if_pos hactive, ← hactive, ← hanchor, relocate_self]
      · rw [if_neg hanchor, if_pos hactive, ← shift_anchor (Ne.symm hanchor), ← hactive, relocate_self]
    · by_cases hanchor : source = m.anchor
      · rw [if_pos hanchor, if_neg hactive, ← shift_active (Ne.symm hactive), ← hanchor, relocate_self]
      · rw [if_neg hanchor, if_neg hactive, ← shift_active (Ne.symm hactive), ← shift_anchor (Ne.symm hanchor)]
  rw [← hshift]
  rfl

theorem move_active (m : TabStripSelectionModel) (source target : Int) :
    (m.move source target).active = relocate source target m.active := by
  rw [move_eq]
  split
  · exact addIndexToSelection_active _ _
  · rfl

theorem mem_move : i ∈ (m.move source target).selectedIndices ↔
    ∃ j ∈ m.selectedIndices, relocate source target j = i := by
  have hmem : i ∈ (m.selectedIndices.filter (· ≠ source)).map (relocate source target) ↔
      ∃ j ∈ m.selectedIndices, j ≠ source ∧ relocate source target j = i := by
    rw [List.mem_map]
    refine exists_congr fun j => ?_
    rw [List.mem_filter, decide_eq_true_iff, and_assoc]
  rw [move_eq]
  split
  · next hsel =>
    rw [isSelected_iff] at hsel
    rw [mem_addIndexToSelection, hmem]
    constructor
    · rintro (⟨j, hj, -, hij⟩ | rfl)
      · exact ⟨j, hj, hij⟩
      · exact ⟨source, hsel, relocate_self _ _⟩
    · rintro ⟨j, hj, rfl⟩
      by_cases h : j = source
      · exact .inr (by rw [h, relocate_self])
      · exact .inl ⟨j, hj, h, rfl⟩
  · next hsel =>
    rw [isSelected_iff] at hsel
    rw [hmem]
    constructor
    · rintro ⟨j, hj, -, hij⟩
      exact ⟨j, hj, hij⟩
    · rintro ⟨j, hj, hij⟩
      exact ⟨j, hj, fun h => hsel (h ▸ hj), hij⟩

theorem Numbered.move (h : Numbered m n) (hs : 0 ≤ source ∧ source < n) (ht : 0 ≤ target ∧ target < n) :
    Numbered (m.move source target) n := by
  have hshift : Numbered ⟨(m.selectedIndices.filter (· ≠ source)).map (relocate source target),
      relocate source target m.active, relocate source target m.anchor⟩ n := by
    refine ⟨?_, fun i hmem => ?_, ?_⟩
    · rw [List.pairwise_map, List.pairwise_filter]
      refine h.increasing.imp fun hlt hi hj => ?_
      exact relocate_lt_relocate (of_decide_eq_true hi) (of_decide_eq_true hj) hlt
    · obtain ⟨j, hj, rfl⟩ := List.mem_map.1 hmem
      exact relocate_lt hs ht (h.inRange j (List.mem_of_mem_filter hj))
    · rcases h.anchor with hanchor | hanchor
      · left
        dsimp only
        rw [hanchor]
        unfold relocate kUnselectedIndex
        split_ifs <;> omega
      · exact .inr (relocate_lt hs ht hanchor)
  rw [move_eq]
  split
  · exact hshift.addIndexToSelection ht
  · exact hshift

theorem Valid.move (h : Valid m n) (hs : 0 ≤ source ∧ source < n) (ht : 0 ≤ target ∧ target < n) :
    Valid (m.move source target) n := by
  refine ⟨h.toNumbered.move hs ht, ?_⟩
  rw [move_active]
  exact mem_move.2 ⟨m.active, h.active, rfl⟩

theorem Numbered.move_selectedIndices (h : Numbered m n) (hs : 0 ≤ source ∧ source < n) (ht : 0 ≤ target ∧ target < n)
    (hl : l.Pairwise (· < ·)) (hperm : l.Perm (m.selectedIndices.map (relocate source target))) :
    (m.move source target).selectedIndices = l := by
  have hmove := (h.move hs ht).increasing
  refine List.Perm.eq_of_pairwise' (r := (· ≤ ·)) (hmove.imp fun h => Int.le_of_lt h) (hl.imp fun h => Int.le_of_lt h) ?_
  rw [List.perm_ext_iff_of_nodup (hmove.imp fun h => ne_of_lt h) (hl.imp fun h => ne_of_lt h)]
  intro i
  rw [mem_move, hperm.mem_iff, List.mem_map]

end TabStripSelectionModel

end Chromium.Tabs
