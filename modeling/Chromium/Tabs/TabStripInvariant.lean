import Chromium.Tabs.TabStripTabs

/-!
# What the operations of a tab strip keep

`Invariant`: the mini-tabs come first, openers and groups are other tabs of the strip, and the selection numbers the
tabs and has the active one.  A notification only forgets openers and groups (`OnlyForgets`), so it keeps the
invariant; each operation is then an edit of the tabs, the renumbering that goes with it, and a notification.
-/

namespace Chromium.Tabs

open Lib
open Option (bind_eq_bind bind_some map_some or_eq_some_iff)

section

variable {α : Type*} {l : List α} {x : α} {i : Int}

theorem itemAt_eq_some : itemAt l i = some x ↔ 0 ≤ i ∧ l[i.toNat]? = some x := by
  rw [itemAt]
  split
  · next h => exact (and_iff_right h).symm
  · next h => exact iff_of_false (Option.some_ne_none x).symm (fun hand => h hand.1)

theorem exists_itemAt (h : 0 ≤ i ∧ i < l.length) : ∃ x, itemAt l i = some x ∧ l[i.toNat]? = some x := by
  have hx := List.getElem?_eq_getElem (l := l) (i := i.toNat) (by omega)
  exact ⟨_, itemAt_eq_some.2 ⟨h.1, hx⟩, hx⟩

theorem eraseItem_of_lt (h : 0 ≤ i ∧ i < l.length) : eraseItem l i = some (l.eraseIdx i.toNat) := if_pos h

theorem insertItem_of_le (h : 0 ≤ i ∧ i ≤ l.length) : insertItem l i x = some (l.insertIdx i.toNat x) := if_pos h

end

namespace TabStripModel

variable {s s' : TabStripModel} {index : Int} {userGesture : Bool}

variable {k : ℕ} {toPosition : Int} {m : TabStripSelectionModel}

structure Invariant (s : TabStripModel) : Prop where
  mini : ∃ k, MiniBelow s.contentsData k
  references : References s.contentsData
  selection : s.contentsData = [] ∧ s.selectionModel = .new ∨ s.selectionModel.Valid s.count

theorem invariant_new : Invariant new :=
  ⟨⟨0, le_rfl, fun p d hd => absurd hd (by simp [new])⟩, fun p d c hd => absurd hd (by simp [new]), .inl ⟨rfl, rfl⟩⟩

theorem Invariant.valid (h : s.Invariant) (hne : s.contentsData ≠ []) : s.selectionModel.Valid s.count :=
  h.selection.resolve_left fun hnil => hne hnil.1

theorem Invariant.indexOfFirstNonMiniTab (h : s.Invariant) :
    ∃ k : ℕ, s.indexOfFirstNonMiniTab = k ∧ MiniBelow s.contentsData k := by
  obtain ⟨k, hk⟩ := h.mini
  exact ⟨k, congrArg Nat.cast hk.findIdx_eq, hk⟩

theorem containsIndex_iff : s.containsIndex index = true ↔ 0 ≤ index ∧ index < s.count := decide_eq_true_iff

theorem contentsData_ne_nil (h : 0 ≤ index ∧ index < s.count) : s.contentsData ≠ [] := by
  intro hnil
  rw [count, hnil] at h
  simp only [List.length_nil] at h
  omega

/-- Only openers and groups are forgotten. -/
structure OnlyForgets (s s' : TabStripModel) : Prop where
  selectionModel : s'.selectionModel = s.selectionModel
  forgets : Forgets s.contentsData s'.contentsData

theorem OnlyForgets.refl (s : TabStripModel) : s.OnlyForgets s := ⟨rfl, .refl _⟩

theorem OnlyForgets.trans {s'' : TabStripModel} (h : s.OnlyForgets s') (h' : s'.OnlyForgets s'') : s.OnlyForgets s'' :=
  ⟨h'.selectionModel.trans h.selectionModel, h.forgets.trans h'.forgets⟩

theorem OnlyForgets.count (h : s.OnlyForgets s') : s'.count = s.count := congrArg Nat.cast h.forgets.length_eq

theorem OnlyForgets.invariant (h : s.OnlyForgets s') (hs : s.Invariant) : s'.Invariant := by
  obtain ⟨k, hk⟩ := hs.mini
  refine ⟨⟨k, h.forgets.miniBelow hk⟩, h.forgets.references hs.references, ?_⟩
  rw [h.selectionModel, h.count]
  refine hs.selection.imp_left fun ⟨hnil, hnew⟩ => ⟨?_, hnew⟩
  rw [← List.length_eq_zero_iff, h.forgets.length_eq, hnil]
  rfl

theorem onlyForgets_forgetAllOpeners (s : TabStripModel) : s.OnlyForgets s.forgetAllOpeners :=
  ⟨rfl, forgets_map TabContentsData.forgets_forgetOpener _⟩

/-! ### Notifications -/

theorem leaveTab_spec (s : TabStripModel) (oldContents : Option TabContentsWrapper) :
    ∃ s' opener, s.leaveTab oldContents = some (s', opener) ∧ s.OnlyForgets s' := by
  cases oldContents with
  | none => exact ⟨s, none, rfl, .refl s⟩
  | some old =>
    cases hindex : s.getIndexOfTabContents old with
    | none =>
      refine ⟨s, none, ?_, .refl s⟩
      simp only [leaveTab, hindex]
    | some i =>
      obtain ⟨hlt, -⟩ := List.findIdx?_eq_some_iff_getElem.1 hindex
      have hd := List.getElem?_eq_getElem hlt
      have hforgets := forgets_modify TabContentsData.forgets_setGroup s.contentsData i
      simp only [leaveTab, hindex, hd, bind_eq_bind, bind_some, forgetGroup, map_some]
      split
      · exact ⟨_, _, rfl, rfl, hforgets⟩
      · exact ⟨_, _, rfl, .refl s⟩

theorem isOther_some (c : TabContentsWrapper) (opener : Option NavigationController) :
    isOther (some c) opener = some (opener != some c.controller) := rfl

/-- **The order controller only forgets** when a tab was active, or the change is no gesture of the user. -/
theorem activeTabChanged_spec {oldContents : Option TabContentsWrapper} (newContents : TabContentsWrapper)
    (hold : oldContents = none → userGesture = false) (hindex : 0 ≤ index ∧ index < s.count) :
    ∃ s', s.activeTabChanged oldContents (some newContents) index userGesture = some s' ∧ s.OnlyForgets s' := by
  obtain ⟨s₁, oldOpener, hleave, hforgets⟩ := s.leaveTab_spec oldContents
  have hcount := hforgets.count
  obtain ⟨d, hd, -⟩ := exists_itemAt (l := s₁.contentsData) (i := index) (by rw [← count, hcount]; exact hindex)
  rw [activeTabChanged, hleave]
  simp only [bind_eq_bind, bind_some, hd, isOther_some]
  split
  · next hgesture =>
    cases oldContents with
    | none =>
      rw [hold rfl] at hgesture
      cases hgesture
    | some old =>
      rw [isOther_some, bind_some]
      split
      · split
        · exact ⟨_, rfl, hforgets.trans (onlyForgets_forgetAllOpeners s₁)⟩
        · exact ⟨_, rfl, hforgets⟩
      · exact ⟨_, rfl, hforgets⟩
  · exact ⟨_, rfl, hforgets⟩

theorem notifyIfActiveTabChanged_spec (s : TabStripModel) (oldContents : Option TabContentsWrapper)
    (hold : oldContents = none → userGesture = false) (hactive : 0 ≤ s.activeIndex ∧ s.activeIndex < s.count) :
    ∃ s', s.notifyIfActiveTabChanged oldContents userGesture = some s' ∧ s.OnlyForgets s' := by
  obtain ⟨d, hd, -⟩ := exists_itemAt (l := s.contentsData) hactive
  rw [notifyIfActiveTabChanged, getContentsAt, hd]
  simp only [map_some, bind_eq_bind, bind_some]
  split
  · obtain ⟨s₁, hchanged, hforgets⟩ := activeTabChanged_spec d.contents hold hactive
    rw [hchanged, bind_some]
    refine ⟨_, rfl, hforgets.trans ⟨rfl, ?_⟩⟩
    exact forgets_modify TabContentsData.forgets_discarded _ _
  · exact ⟨s, rfl, .refl s⟩

theorem exists_getActiveTabContents (hactive : 0 ≤ s.activeIndex ∧ s.activeIndex < s.count) :
    ∃ d ∈ s.contentsData, s.getActiveTabContents = some d.contents := by
  obtain ⟨d, hd, hget⟩ := exists_itemAt (l := s.contentsData) hactive
  refine ⟨d, List.mem_of_getElem? hget, ?_⟩
  rw [getActiveTabContents, getTabContentsAt, if_pos (containsIndex_iff.2 hactive), getContentsAt, hd]
  rfl

theorem Invariant.select (h : s.Invariant) (hne : s.contentsData ≠ [])
    (hactive : 0 ≤ m.active ∧ m.active < s.count) (userGesture : Bool) :
    ∃ s', s.select m userGesture = some s' ∧ OnlyForgets ⟨s.contentsData, m⟩ s' := by
  obtain ⟨d, -, hold⟩ := exists_getActiveTabContents (h.valid hne).active_lt
  refine notifyIfActiveTabChanged_spec _ _ (fun hnone => ?_) hactive
  rw [hold] at hnone
  cases hnone

theorem Invariant.select_valid (h : s.Invariant) (hne : s.contentsData ≠ [])
    (hm : m.Valid s.count) (userGesture : Bool) : ∃ s', s.select m userGesture = some s' ∧ s'.Invariant := by
  obtain ⟨s', hs', hforgets⟩ := h.select hne hm.active_lt userGesture
  exact ⟨s', hs', hforgets.invariant ⟨h.mini, h.references, .inr hm⟩⟩

/-! ### Inserting -/

theorem exists_inheritOpener (s : TabStripModel) (data : TabContentsData) (addTypes : ℕ)
    (hdata : ∀ c, ¬data.Refers c) :
    ∃ s₁ data', s.inheritOpener data addTypes = (s₁, data') ∧ s.OnlyForgets s₁ ∧ data'.isMini = data.isMini ∧
      ∀ c, data'.Refers c → ∃ d ∈ s₁.contentsData, d.contents.controller = c := by
  have hforgotten : s.OnlyForgets (if addTypes &&& ADD_ACTIVE != 0 then s.forgetAllOpeners else s) := by
    split
    · exact onlyForgets_forgetAllOpeners s
    · exact .refl s
  by_cases hactive : s.containsIndex s.activeIndex
  · obtain ⟨d, hd, hselected⟩ := exists_getActiveTabContents (containsIndex_iff.1 hactive)
    obtain ⟨p, hp⟩ := List.mem_iff_getElem?.1 hd
    obtain ⟨d', hd', hforgets⟩ := hforgotten.forgets.after hp
    have hmem := List.mem_of_getElem? hd'
    have hcontroller : d'.contents.controller = d.contents.controller := by rw [hforgets.contents]
    rw [inheritOpener, hselected]
    dsimp only
    split
    · refine ⟨_, _, rfl, hforgotten, rfl, fun c hc => ⟨d', hmem, hcontroller.trans ?_⟩⟩
      rcases hc with hc | hc <;> exact Option.some.inj hc
    · split
      · refine ⟨_, _, rfl, hforgotten, rfl, fun c hc => ⟨d', hmem, hcontroller.trans ?_⟩⟩
        rcases hc with hc | hc
        · exact Option.some.inj hc
        · exact absurd (.inr hc) (hdata c)
      · exact ⟨_, _, rfl, .refl s, rfl, fun c hc => absurd hc (hdata c)⟩
  · have hnone : s.getActiveTabContents = none := by
      rw [getActiveTabContents, getTabContentsAt, if_neg hactive]
    rw [inheritOpener, hnone]
    exact ⟨_, _, rfl, .refl s, rfl, fun c hc => absurd hc (hdata c)⟩

theorem constrainInsertionIndex_spec (data : TabContentsData) (hk : MiniBelow s.contentsData k) (index : Int) :
    ∃ i : ℕ, s.constrainInsertionIndex index data.isMini = i ∧ i ≤ s.contentsData.length ∧
      ∃ k', MiniBelow (s.contentsData.insertIdx i data) k' := by
  have hle := hk.1
  have hfirst : s.indexOfFirstNonMiniTab = k := congrArg Nat.cast hk.findIdx_eq
  cases hmini : data.isMini with
  | true =>
    refine ⟨min index.toNat k, ?_, by omega, k + 1, hk.insertIdx_mini hmini (by omega)⟩
    rw [constrainInsertionIndex, if_pos rfl, hfirst]
    omega
  | false =>
    refine ⟨min s.contentsData.length (max index.toNat k), ?_, by omega, k,
      hk.insertIdx_of_not hmini (by omega) (by omega)⟩
    rw [constrainInsertionIndex, if_neg Bool.false_ne_true, hfirst, count]
    omega

theorem OnlyForgets.constrainInsertionIndex (h : s.OnlyForgets s') (hs : s.Invariant) (index : Int) (miniTab : Bool) :
    s'.constrainInsertionIndex index miniTab = s.constrainInsertionIndex index miniTab := by
  obtain ⟨k, hk⟩ := hs.mini
  have hfirst : s'.indexOfFirstNonMiniTab = s.indexOfFirstNonMiniTab := by
    rw [TabStripModel.indexOfFirstNonMiniTab, TabStripModel.indexOfFirstNonMiniTab, hk.findIdx_eq,
      (h.forgets.miniBelow hk).findIdx_eq]
  rw [TabStripModel.constrainInsertionIndex, TabStripModel.constrainInsertionIndex, h.count, hfirst]

/-- **An insertion keeps the invariant**, but for the first tab that is not inserted active. -/
theorem Invariant.insertTabContentsAt (h : s.Invariant) (index : Int) (contents : TabContentsWrapper) (addTypes : ℕ) :
    ∃ s', s.insertTabContentsAt index contents addTypes = some s' ∧
      (s.contentsData ≠ [] ∨ addTypes &&& ADD_ACTIVE ≠ 0 → s'.Invariant) ∧
      (s.contentsData = [] → addTypes &&& ADD_ACTIVE = 0 → s'.contentsData ≠ [] ∧ s'.activeIndex < 0) := by
  obtain ⟨s₁, data, hinherit, hforgets, hmini, hrefers⟩ := s.exists_inheritOpener
    { TabContentsData.new contents with pinned := contents.isApp || addTypes &&& ADD_PINNED != 0 } addTypes
    (fun c hc => by simp [TabContentsData.Refers, TabContentsData.new] at hc)
  have hpin : data.isMini = (contents.isApp || addTypes &&& ADD_PINNED != 0) := by
    rw [hmini, TabContentsData.isMini, TabContentsData.new]
    cases contents.isApp <;> simp
  have hinv := hforgets.invariant h
  obtain ⟨k, hk⟩ := hinv.mini
  obtain ⟨i, hi, hle, hmini'⟩ := constrainInsertionIndex_spec data hk index
  have hconstrain : s.constrainInsertionIndex index (contents.isApp || addTypes &&& ADD_PINNED != 0) = i := by
    rw [← hi, ← hpin, hforgets.constrainInsertionIndex h]
  have hinsert : insertItem s₁.contentsData (i : Int) data = some (s₁.contentsData.insertIdx i data) :=
    insertItem_of_le ⟨Int.natCast_nonneg i, Int.ofNat_le.2 hle⟩
  have hrefs := hinv.references.insertIdx hle hrefers
  have hlen : (s₁.contentsData.insertIdx i data).length = s₁.contentsData.length + 1 :=
    List.length_insertIdx_of_le_length hle data
  have hne : s₁.contentsData.insertIdx i data ≠ [] := by
    intro hnil
    rw [hnil] at hlen
    simp at hlen
  simp only [TabStripModel.insertTabContentsAt, hconstrain, hinherit, hinsert, bind_eq_bind, bind_some]
  by_cases hactive : addTypes &&& ADD_ACTIVE = 0
  · rw [if_neg (by simpa using hactive)]
    refine ⟨_, rfl, fun hor => ?_, fun hnil _ => ⟨hne, ?_⟩⟩
    · have hindex : 0 ≤ (i : Int) ∧ (i : Int) ≤ s.count := by
        rw [← hforgets.count]
        exact ⟨Int.natCast_nonneg i, Int.ofNat_le.2 hle⟩
      have hvalid := (h.valid (hor.resolve_right (not_not_intro hactive))).incrementFrom hindex
      refine ⟨hmini', hrefs, .inr ?_⟩
      rw [hforgets.selectionModel, count, hlen, Int.natCast_add, Int.natCast_one]
      rwa [← hforgets.count] at hvalid
    · have hnew := (h.selection.resolve_right fun hvalid => contentsData_ne_nil hvalid.active_lt hnil).2
      rw [hforgets.selectionModel, hnew, activeIndex]
      simp only [TabStripSelectionModel.incrementFrom, TabStripSelectionModel.new, incrementFromImpl, kUnselectedIndex]
      split_ifs <;> omega
  · rw [if_pos (by simpa using hactive)]
    have hindex : 0 ≤ (i : Int) ∧ (i : Int) < (s₁.contentsData.insertIdx i data).length := by
      rw [hlen]
      omega
    have hvalid := TabStripSelectionModel.valid_setSelectedIndex (s₁.selectionModel.incrementFrom i) hindex
    obtain ⟨s', hs', hforgets'⟩ := notifyIfActiveTabChanged_spec
      ⟨s₁.contentsData.insertIdx i data, (s₁.selectionModel.incrementFrom i).setSelectedIndex i⟩
      s.getActiveTabContents (fun _ => rfl) hvalid.active_lt
    exact ⟨s', hs', fun _ => hforgets'.invariant ⟨hmini', hrefs, .inr hvalid⟩, fun _ hzero => absurd hzero hactive⟩

/-! ### Detaching -/

theorem getIndexOfNextTabContentsOpenedBy_spec {opener : NavigationController} {start i : ℕ}
    (h : s.getIndexOfNextTabContentsOpenedBy opener start = some i) (hstart : start < s.contentsData.length) :
    i ≠ start ∧ i < s.contentsData.length := by
  rw [getIndexOfNextTabContentsOpenedBy, or_eq_some_iff] at h
  rcases h with h | ⟨-, h⟩
  · have := List.mem_range'_1.1 (List.mem_of_find?_eq_some h)
    omega
  · have := List.mem_range.1 (List.mem_reverse.1 (List.mem_of_find?_eq_some h))
    omega

theorem getValidIndex_spec {i removing n : ℕ} (hi : i ≠ removing) (hlt : i < n) (hremoving : removing < n) :
    0 ≤ getValidIndex i removing ∧ getValidIndex i removing < (n : Int) - 1 := by
  unfold getValidIndex
  split <;> omega

theorem Invariant.determineNewSelectedIndex (h : s.Invariant) {i : ℕ} (hi : i < s.contentsData.length)
    (hactive : s.activeIndex = i) (htwo : 2 ≤ s.contentsData.length) :
    ∃ next, s.determineNewSelectedIndex i = some next ∧ 0 ≤ next ∧ next < s.count - 1 := by
  have hd := List.getElem?_eq_getElem hi
  have hitem : itemAt s.contentsData (i : Int) = some s.contentsData[i] :=
    itemAt_eq_some.2 ⟨Int.natCast_nonneg i, hd⟩
  have hvalid : ∀ found : ℕ, found < s.contentsData.length → (found ≠ i ∨ i + 1 < s.contentsData.length) →
      0 ≤ getValidIndex found i ∧ getValidIndex found i < s.count - 1 := by
    intro found hlt hor
    by_cases hne : found = i
    · rw [hne, getValidIndex, if_neg (lt_irrefl _), count]
      omega
    · exact getValidIndex_spec hne hlt hi
  rw [TabStripModel.determineNewSelectedIndex, hitem]
  simp only [bind_eq_bind, bind_some, Int.toNat_natCast]
  split
  · next found hfound =>
    refine ⟨_, rfl, ?_⟩
    rw [or_eq_some_iff, Option.bind_eq_some_iff] at hfound
    rcases hfound with hfound | ⟨-, parentOpener, hparent, hfound⟩
    · obtain ⟨hne, hlt⟩ := getIndexOfNextTabContentsOpenedBy_spec hfound hi
      exact hvalid found hlt (.inl hne)
    · rw [or_eq_some_iff] at hfound
      rcases hfound with hfound | ⟨-, hfound⟩
      · obtain ⟨hne, hlt⟩ := getIndexOfNextTabContentsOpenedBy_spec hfound hi
        exact hvalid found hlt (.inl hne)
      · -- a tab that is its own opener has another tab of its contents behind it
        obtain ⟨hlt, -, hfirst⟩ := List.findIdx?_eq_some_iff_getElem.1 hfound
        refine hvalid found hlt ?_
        by_cases hne : found = i
        · right
          obtain ⟨q, e, hq, he, hcontroller⟩ := h.references i _ parentOpener hd (.inl hparent)
          obtain ⟨hqlt, heq⟩ := List.getElem?_eq_some_iff.1 he
          have hle : ¬q < found := by
            intro hlt'
            refine hfirst q hlt' ?_
            rw [heq]
            exact decide_eq_true hcontroller
          omega
        · exact .inl hne
  · rw [hactive]
    split
    all_goals refine ⟨_, rfl, ?_⟩
    · rw [count] at *
      omega
    · rw [count] at *
      omega

theorem valid_moveActive {n next : Int} (h : m.Numbered n)
    (hnext : 0 ≤ next ∧ next < n) : (moveActive m next).Valid n := by
  cases hsel : m.selectedIndices with
  | nil =>
    rw [moveActive, hsel]
    exact TabStripSelectionModel.valid_setSelectedIndex m hnext
  | cons first rest =>
    have hfirst : first ∈ m.selectedIndices := by
      rw [hsel]
      exact List.mem_cons_self
    rw [moveActive, hsel]
    dsimp only
    rw [← hsel]
    exact ⟨⟨h.increasing, h.inRange, .inr (h.inRange first hfirst)⟩, hfirst⟩

theorem Invariant.detachTabContentsAt (h : s.Invariant) (hindex : 0 ≤ index ∧ index < s.count) :
    ∃ s', s.detachTabContentsAt index = some s' ∧ s'.Invariant := by
  have hne := contentsData_ne_nil hindex
  have hvalid := h.valid hne
  obtain ⟨k, hk⟩ := h.mini
  obtain ⟨i, rfl⟩ := Int.eq_ofNat_of_zero_le hindex.1
  have hi : i < s.contentsData.length := Int.ofNat_lt.1 hindex.2
  have hd := List.getElem?_eq_getElem hi
  have hitem : itemAt s.contentsData (i : Int) = some s.contentsData[i] :=
    itemAt_eq_some.2 ⟨Int.natCast_nonneg i, hd⟩
  have hlen := List.length_eraseIdx_of_lt hi
  have hmini := (hk.eraseIdx hi).map_forgetReferencing s.contentsData[i].contents.controller
  have hrefs := h.references.eraseIdx hd
  have hnext : ∃ next, s.determineNewSelectedIndex i = some next ∧
      (s.activeIndex = i → 2 ≤ s.contentsData.length → 0 ≤ next ∧ next < s.count - 1) := by
    by_cases hactive : s.activeIndex = i ∧ 2 ≤ s.contentsData.length
    · obtain ⟨next, hnext, hle⟩ := h.determineNewSelectedIndex hi hactive.1 hactive.2
      exact ⟨next, hnext, fun _ _ => hle⟩
    · rw [TabStripModel.determineNewSelectedIndex, hitem]
      simp only [bind_eq_bind, bind_some]
      split
      · exact ⟨_, rfl, fun h₁ h₂ => absurd ⟨h₁, h₂⟩ hactive⟩
      · split <;> exact ⟨_, rfl, fun h₁ h₂ => absurd ⟨h₁, h₂⟩ hactive⟩
  obtain ⟨next, hnext, hle⟩ := hnext
  rw [TabStripModel.detachTabContentsAt, if_neg hne, getContentsAt, hitem, hnext, eraseItem_of_lt hindex]
  simp only [map_some, bind_eq_bind, bind_some, Int.toNat_natCast]
  have hlength : ((s.contentsData.eraseIdx i).map
      (·.forgetReferencing s.contentsData[i].contents.controller)).length = s.contentsData.length - 1 := by
    rw [List.length_map, hlen]
  generalize (s.contentsData.eraseIdx i).map (·.forgetReferencing s.contentsData[i].contents.controller) = l
    at hmini hrefs hlength ⊢
  have hcount : (l.length : Int) = s.count - 1 := by
    rw [hlength, count]
    omega
  split
  · next hnil => exact ⟨_, rfl, ⟨_, hmini⟩, hrefs, .inl ⟨hnil, rfl⟩⟩
  · next hcons =>
    have htwo : 2 ≤ s.contentsData.length := by
      have := List.length_pos_iff.2 hcons
      omega
    split
    · next hactive =>
      have hm := valid_moveActive (hvalid.toNumbered.decrementFrom hindex) (hle hactive.symm htwo)
      rw [← hcount] at hm
      obtain ⟨s', hs', hforgets⟩ := notifyIfActiveTabChanged_spec
        ⟨l, moveActive (s.selectionModel.decrementFrom i) next⟩ (some s.contentsData[i].contents) (fun _ => rfl)
        hm.active_lt
      exact ⟨s', hs', hforgets.invariant ⟨⟨_, hmini⟩, hrefs, .inr hm⟩⟩
    · next hactive =>
      have hm := hvalid.decrementFrom hindex (fun heq => hactive heq.symm)
      rw [← hcount] at hm
      exact ⟨_, rfl, ⟨_, hmini⟩, hrefs, .inr hm⟩

/-! ### Moving -/

/-- **A move takes one tab to its place and renumbers the selection.** -/
theorem moveTabContentsAtImpl_spec (s : TabStripModel) {index : Int} (selectAfterMove : Bool)
    {d : TabContentsData} (hd : s.contentsData[index.toNat]? = some d) (hindex : 0 ≤ index ∧ index < s.count)
    (hto : 0 ≤ toPosition ∧ toPosition < s.count) :
    ∃ s', s.moveTabContentsAtImpl index toPosition selectAfterMove = some s' ∧
      s'.contentsData = (s.contentsData.eraseIdx index.toNat).insertIdx toPosition.toNat d ∧
      (s.selectionModel.Valid s.count → s'.selectionModel.Valid s'.count) ∧
      (selectAfterMove = false → s'.selectionModel = s.selectionModel.move index toPosition) := by
  have hitem : itemAt s.contentsData index = some d := itemAt_eq_some.2 ⟨hindex.1, hd⟩
  have hlen := List.length_eraseIdx_of_lt (l := s.contentsData) (i := index.toNat) (by rw [count] at hindex; omega)
  have hle : 0 ≤ toPosition ∧ toPosition ≤ (s.contentsData.eraseIdx index.toNat).length := by
    rw [hlen]
    rw [count] at hto hindex
    omega
  have hcount : (((s.contentsData.eraseIdx index.toNat).insertIdx toPosition.toNat d).length : Int) = s.count := by
    rw [count, length_move (by rw [count] at hindex; omega) (by rw [count] at hto; omega)]
  have hmoved : ∀ m : TabStripSelectionModel, m.Valid s.count →
      m.Valid (count ⟨(s.contentsData.eraseIdx index.toNat).insertIdx toPosition.toNat d, m⟩) := by
    intro m hm
    rwa [count, hcount]
  rw [moveTabContentsAtImpl, hitem, eraseItem_of_lt hindex]
  simp only [bind_eq_bind, bind_some, insertItem_of_le hle]
  cases selectAfterMove with
  | false =>
    rw [Bool.and_false, if_neg Bool.false_ne_true]
    exact ⟨_, rfl, rfl, fun hvalid => hmoved _ (hvalid.move hindex hto), fun _ => rfl⟩
  | true =>
    by_cases hselect : (s.selectionModel.move index toPosition).isSelected 1 = true
    · rw [if_pos rfl, hselect, Bool.not_true, Bool.false_and, if_neg Bool.false_ne_true]
      exact ⟨_, rfl, rfl, fun hvalid => hmoved _ (hvalid.move hindex hto), fun _ => rfl⟩
    · rw [if_pos rfl, Bool.and_true, if_pos (by simpa using hselect)]
      have hselected := TabStripSelectionModel.valid_setSelectedIndex (s.selectionModel.move index toPosition) hto
      exact ⟨_, rfl, rfl, fun _ => hmoved _ hselected, fun hfalse => nomatch hfalse.symm⟩

theorem exists_tab (hindex : 0 ≤ index ∧ index < s.count) : ∃ d, s.contentsData[index.toNat]? = some d := by
  obtain ⟨d, -, hd⟩ := exists_itemAt (l := s.contentsData) hindex
  exact ⟨d, hd⟩

theorem Invariant.moveTabContentsAtImpl (h : s.Invariant) (selectAfterMove : Bool)
    (hindex : 0 ≤ index ∧ index < s.count) (hto : 0 ≤ toPosition ∧ toPosition < s.count)
    (hside : index < s.indexOfFirstNonMiniTab ↔ toPosition < s.indexOfFirstNonMiniTab) :
    ∃ s', s.moveTabContentsAtImpl index toPosition selectAfterMove = some s' ∧ s'.Invariant ∧ s'.count = s.count ∧
      s'.indexOfFirstNonMiniTab = s.indexOfFirstNonMiniTab ∧
      (selectAfterMove = false → s'.selectionModel = s.selectionModel.move index toPosition) := by
  obtain ⟨d, hd⟩ := exists_tab hindex
  obtain ⟨s', hs', htabs, hvalid, hselection⟩ := s.moveTabContentsAtImpl_spec selectAfterMove hd hindex hto
  obtain ⟨k, hfirst, hk⟩ := h.indexOfFirstNonMiniTab
  have hlt : toPosition.toNat < s.contentsData.length := by
    rw [count] at hto
    omega
  have hk' := hk.move hd hlt (by omega)
  rw [← htabs] at hk'
  refine ⟨s', hs', ⟨⟨k, hk'⟩, ?_, .inr (hvalid (h.valid (contentsData_ne_nil hindex)))⟩, ?_, ?_, hselection⟩
  · rw [htabs]
    exact h.references.move hd hlt
  · rw [count, count, htabs, length_move (List.getElem?_eq_some_iff.1 hd).1 hlt]
  · rw [hfirst, TabStripModel.indexOfFirstNonMiniTab, hk'.findIdx_eq]

theorem Invariant.moveTabContentsAt (h : s.Invariant) (selectAfterMove : Bool)
    (hindex : 0 ≤ index ∧ index < s.count) (hto : 0 ≤ toPosition ∧ toPosition < s.count) :
    ∃ s', s.moveTabContentsAt index toPosition selectAfterMove = some s' ∧ s'.Invariant := by
  rw [TabStripModel.moveTabContentsAt]
  split
  · exact ⟨s, rfl, h⟩
  · dsimp only
    split
    · exact ⟨s, rfl, h⟩
    · obtain ⟨s', hs', hinv, -⟩ := h.moveTabContentsAtImpl selectAfterMove hindex hto (by omega)
      exact ⟨s', hs', hinv⟩

/-! ### Pinning -/

theorem setPinned_count (s : TabStripModel) (index : Int) (pinned : Bool) : (s.setPinned index pinned).count = s.count :=
  congrArg Nat.cast (List.length_modify ..)

theorem Invariant.setPinned_move (h : s.Invariant) {pinned : Bool} {d : TabContentsData}
    (hindex : 0 ≤ index ∧ index < s.count) (hto : 0 ≤ toPosition ∧ toPosition < s.count)
    (hd : s.contentsData[index.toNat]? = some d)
    (hk : MiniBelow ((s.contentsData.eraseIdx index.toNat).insertIdx toPosition.toNat (d.setPinned pinned)) k) :
    ∃ s', (s.setPinned index pinned).moveTabContentsAtImpl index toPosition false = some s' ∧ s'.Invariant := by
  have hd' : (s.setPinned index pinned).contentsData[index.toNat]? = some (d.setPinned pinned) := by
    rw [setPinned, List.getElem?_modify_eq, hd]
    rfl
  have hcount := s.setPinned_count index pinned
  have hlt : toPosition.toNat < (s.setPinned index pinned).contentsData.length := by
    rw [← hcount, count] at hto
    omega
  obtain ⟨s', hs', htabs, hvalid, -⟩ := (s.setPinned index pinned).moveTabContentsAtImpl_spec false hd'
    (hcount ▸ hindex) (hcount ▸ hto)
  refine ⟨s', hs', ⟨k, ?_⟩, ?_, .inr (hvalid (hcount ▸ h.valid (contentsData_ne_nil hindex)))⟩
  · rw [htabs, setPinned, List.eraseIdx_modify_of_eq]
    exact hk
  · rw [htabs]
    exact (h.references.modify_setPinned index.toNat pinned).move hd' hlt

theorem Invariant.setPinned (h : s.Invariant) {pinned : Bool} (hindex : 0 ≤ index ∧ index < s.count)
    (hk : MiniBelow (s.setPinned index pinned).contentsData k) : (s.setPinned index pinned).Invariant := by
  refine ⟨⟨k, hk⟩, h.references.modify_setPinned index.toNat pinned, .inr ?_⟩
  rw [setPinned_count]
  exact h.valid (contentsData_ne_nil hindex)

theorem Invariant.setTabPinned (h : s.Invariant) (hindex : 0 ≤ index ∧ index < s.count) (pinned : Bool) :
    ∃ s', s.setTabPinned index pinned = some s' ∧ s'.Invariant := by
  obtain ⟨d, hd⟩ := exists_tab hindex
  obtain ⟨k, hfirst, hk⟩ := h.indexOfFirstNonMiniTab
  have hlt := (List.getElem?_eq_some_iff.1 hd).1
  have hle := hk.1
  have hcount : s.count = s.contentsData.length := rfl
  rw [TabStripModel.setTabPinned, itemAt_eq_some.2 ⟨hindex.1, hd⟩]
  simp only [bind_eq_bind, bind_some, hfirst]
  split
  · exact ⟨s, rfl, h⟩
  · next hchange =>
    split
    · next happ =>
      split
      · exact ⟨s, rfl, h⟩
      · exact ⟨_, rfl, h.setPinned hindex (hk.modify_setPinned hd happ pinned)⟩
    · next happ =>
      rw [Bool.not_eq_true] at happ
      have hmini : (d.setPinned pinned).isMini = pinned := by
        rw [TabContentsData.isMini, TabContentsData.setPinned, happ, Bool.or_false]
      have hold : d.isMini = !pinned := by
        rw [TabContentsData.isMini, happ, Bool.or_false]
        exact Bool.eq_not.2 hchange
      have hside := hk.2 _ d hd
      rw [hold] at hside
      have heq := modify_eq_insertIdx hd (·.setPinned pinned)
      cases pinned with
      | true =>
        have hge : k ≤ index.toNat := not_lt.1 (mt hside.2 Bool.false_ne_true)
        have hk' := hk.move_pinned hd hge hmini
        by_cases hne : index = k
        · rw [if_neg (by simp [hne]), if_neg (by simp)]
          refine ⟨_, rfl, h.setPinned hindex (k := k + 1) ?_⟩
          rw [TabStripModel.setPinned, heq]
          rwa [show index.toNat = k by omega] at hk' ⊢
        · rw [if_pos ⟨rfl, hne⟩]
          exact h.setPinned_move hindex (by omega) hd hk'
      | false =>
        have hlt' : index.toNat < k := hside.1 rfl
        have hk' := hk.move_unpinned hd hlt' hmini
        rw [if_neg (by simp)]
        by_cases hne : index + 1 = k
        · rw [if_neg (by simp [hne])]
          refine ⟨_, rfl, h.setPinned hindex (k := k - 1) ?_⟩
          rw [TabStripModel.setPinned, heq]
          rwa [show index.toNat = k - 1 by omega] at hk' ⊢
        · rw [if_pos ⟨rfl, hne⟩]
          refine h.setPinned_move (k := k - 1) hindex (by omega) hd ?_
          rwa [show ((k : Int) - 1).toNat = k - 1 by omega]

/-! ### Selecting -/

theorem Invariant.activateTabAt (h : s.Invariant) (hindex : 0 ≤ index ∧ index < s.count) (userGesture : Bool) :
    ∃ s', s.activateTabAt index userGesture = some s' ∧ s'.Invariant :=
  h.select_valid (contentsData_ne_nil hindex) (TabStripSelectionModel.valid_setSelectedIndex _ hindex) userGesture

theorem Invariant.addTabAtToSelection (h : s.Invariant) (hindex : 0 ≤ index ∧ index < s.count) :
    ∃ s', s.addTabAtToSelection index = some s' ∧ s'.Invariant := by
  have hvalid := h.valid (contentsData_ne_nil hindex)
  refine h.select_valid (contentsData_ne_nil hindex) ⟨hvalid.toNumbered.addIndexToSelection hindex, ?_⟩ false
  rw [TabStripSelectionModel.addIndexToSelection_active]
  exact TabStripSelectionModel.mem_addIndexToSelection.2 (.inl hvalid.active)

theorem Invariant.extendSelectionTo (h : s.Invariant) (hindex : 0 ≤ index ∧ index < s.count) :
    ∃ s', s.extendSelectionTo index = some s' ∧ s'.Invariant :=
  h.select_valid (contentsData_ne_nil hindex)
    ((h.valid (contentsData_ne_nil hindex)).toNumbered.setSelectionFromAnchorTo hindex) false

theorem Invariant.addSelectionFromAnchorTo (h : s.Invariant) (hindex : 0 ≤ index ∧ index < s.count) :
    ∃ s', s.addSelectionFromAnchorTo index = some s' ∧ s'.Invariant :=
  h.select_valid (contentsData_ne_nil hindex)
    ((h.valid (contentsData_ne_nil hindex)).toNumbered.addSelectionFromAnchorTo hindex) false

def DeselectsActive (s : TabStripModel) (index : Int) : Prop :=
  index = s.activeIndex ∧ s.selectionModel.selectedIndices.length ≠ 1

/-- **Toggling keeps the invariant**, but where it deselects the active tab. -/
theorem Invariant.toggleSelectionAt (h : s.Invariant) (hindex : 0 ≤ index ∧ index < s.count) :
    ∃ s', s.toggleSelectionAt index = some s' ∧ (¬s.DeselectsActive index → s'.Invariant) ∧
      (s.DeselectsActive index → s'.contentsData ≠ [] ∧ s'.activeIndex ∉ s'.selectionModel.selectedIndices) := by
  have hne := contentsData_ne_nil hindex
  have hvalid := h.valid hne
  rw [TabStripModel.toggleSelectionAt]
  split
  · split
    · next hone => exact ⟨s, rfl, fun _ => h, fun hdeselects => absurd hone hdeselects.2⟩
    · next hsize =>
      have hactive : (s.selectionModel.removeIndexFromSelection index).active ≠ kUnselectedIndex := by
        have := hvalid.active_lt
        change s.selectionModel.active ≠ kUnselectedIndex
        unfold kUnselectedIndex
        omega
      have hnumbered : TabStripSelectionModel.Numbered
          { s.selectionModel.removeIndexFromSelection index with anchor := index } s.count :=
        ⟨hvalid.toNumbered.removeIndexFromSelection.increasing, hvalid.toNumbered.removeIndexFromSelection.inRange,
          .inr hindex⟩
      have hmem : s.activeIndex ∈ (s.selectionModel.removeIndexFromSelection index).selectedIndices ↔
          s.activeIndex ≠ index ∧ s.activeIndex ∈ s.selectionModel.selectedIndices :=
        hvalid.toNumbered.mem_removeIndexFromSelection
      dsimp only
      rw [if_neg hactive]
      obtain ⟨s', hs', hforgets⟩ := h.select hne
        (m := { s.selectionModel.removeIndexFromSelection index with anchor := index }) hvalid.active_lt false
      refine ⟨s', hs', fun hkeeps => hforgets.invariant ⟨h.mini, h.references, .inr ⟨hnumbered, ?_⟩⟩, fun hdeselects => ?_⟩
      · exact hmem.2 ⟨fun heq => hkeeps ⟨heq.symm, hsize⟩, hvalid.active⟩
      · refine ⟨fun hnil => hne ?_, ?_⟩
        · rw [← List.length_eq_zero_iff, ← hforgets.forgets.length_eq, hnil]
          rfl
        · rw [activeIndex, hforgets.selectionModel]
          exact fun hsel => (hmem.1 hsel).1 hdeselects.1.symm
  · next hsel =>
    have hnumbered := hvalid.toNumbered.addIndexToSelection hindex
    obtain ⟨s', hs', hinv⟩ := h.select_valid hne
      (m := { s.selectionModel.addIndexToSelection index with anchor := index, active := index })
      ⟨⟨hnumbered.increasing, hnumbered.inRange, .inr hindex⟩,
        TabStripSelectionModel.mem_addIndexToSelection.2 (.inr rfl)⟩ false
    refine ⟨s', hs', fun _ => hinv, fun hdeselects => absurd ?_ hsel⟩
    rw [hdeselects.1]
    exact TabStripSelectionModel.isSelected_iff.2 hvalid.active

end TabStripModel

end Chromium.Tabs
