import Chromium.Lib.TransSys
import Chromium.Tabs.TabStripMoveSelected

/-!
# Runs of a tab strip

The operations on a strip as the steps of a transition system, from the empty strip.  `InRange` is what the callers
promise: an index of a tab, and for `MoveSelectedTabsTo` a place of the strip without the selected tabs.  The four
invariants hold in every run in which no tab is put into an empty strip in the background and no active tab is
deselected.
-/

namespace Chromium.Tabs

open Lib

inductive TabStripOperation where
  | insertTabContentsAt (index : Int) (contents : TabContentsWrapper) (addTypes : ℕ)
  | detachTabContentsAt (index : Int)
  | moveTabContentsAt (index toPosition : Int) (selectAfterMove : Bool)
  | moveSelectedTabsTo (index : Int)
  | setTabPinned (index : Int) (pinned : Bool)
  | activateTabAt (index : Int) (userGesture : Bool)
  | addTabAtToSelection (index : Int)
  | extendSelectionTo (index : Int)
  | addSelectionFromAnchorTo (index : Int)
  | toggleSelectionAt (index : Int)

namespace TabStripModel

/-- `none` is undefined behaviour or a failed `CHECK`. -/
def perform (s : TabStripModel) : TabStripOperation → Option TabStripModel
  | .insertTabContentsAt index contents addTypes => s.insertTabContentsAt index contents addTypes
  | .detachTabContentsAt index => s.detachTabContentsAt index
  | .moveTabContentsAt index toPosition selectAfterMove => s.moveTabContentsAt index toPosition selectAfterMove
  | .moveSelectedTabsTo index => s.moveSelectedTabsTo index
  | .setTabPinned index pinned => s.setTabPinned index pinned
  | .activateTabAt index userGesture => s.activateTabAt index userGesture
  | .addTabAtToSelection index => s.addTabAtToSelection index
  | .extendSelectionTo index => s.extendSelectionTo index
  | .addSelectionFromAnchorTo index => s.addSelectionFromAnchorTo index
  | .toggleSelectionAt index => s.toggleSelectionAt index

def InRange (s : TabStripModel) : TabStripOperation → Prop
  | .insertTabContentsAt _ _ _ => True
  | .moveTabContentsAt index toPosition _ => (0 ≤ index ∧ index < s.count) ∧ 0 ≤ toPosition ∧ toPosition < s.count
  | .moveSelectedTabsTo index => 0 ≤ index ∧ index + s.selectionModel.selectedIndices.length ≤ s.count
  | .detachTabContentsAt index | .setTabPinned index _ | .activateTabAt index _ | .addTabAtToSelection index
  | .extendSelectionTo index | .addSelectionFromAnchorTo index | .toggleSelectionAt index =>
    0 ≤ index ∧ index < s.count

def KeepsActive (s : TabStripModel) : TabStripOperation → Prop
  | .insertTabContentsAt _ _ addTypes => s.contentsData ≠ [] ∨ addTypes &&& ADD_ACTIVE ≠ 0
  | .toggleSelectionAt index => ¬s.DeselectsActive index
  | _ => True

def system : TransSys TabStripModel TabStripOperation where
  init s := s = new
  step s op s' := s.InRange op ∧ s.perform op = some s'

structure WellFormed (s : TabStripModel) : Prop where
  miniTabsFirst : ∀ i j : ℕ, ∀ d e : TabContentsData, i < j → s.contentsData[i]? = some d →
    s.contentsData[j]? = some e → e.isMini = true → d.isMini = true
  increasing : s.selectionModel.selectedIndices.Pairwise (· < ·)
  inRange : ∀ i ∈ s.selectionModel.selectedIndices, 0 ≤ i ∧ i < s.count
  active : s.contentsData ≠ [] →
    (0 ≤ s.activeIndex ∧ s.activeIndex < s.count) ∧ s.activeIndex ∈ s.selectionModel.selectedIndices
  opener : ∀ d ∈ s.contentsData, ∀ c, d.opener = some c → ∃ e ∈ s.contentsData, e.contents.controller = c
  group : ∀ d ∈ s.contentsData, ∀ c, d.group = some c → ∃ e ∈ s.contentsData, e.contents.controller = c

variable {s : TabStripModel} {ops : List TabStripOperation}

theorem Invariant.wellFormed (h : s.Invariant) : s.WellFormed := by
  obtain ⟨k, hk⟩ := h.mini
  have hrefers : ∀ d ∈ s.contentsData, ∀ c, d.Refers c → ∃ e ∈ s.contentsData, e.contents.controller = c := by
    intro d hd c hc
    obtain ⟨p, hp⟩ := List.mem_iff_getElem?.1 hd
    obtain ⟨q, e, -, he, hcontroller⟩ := h.references p d c hp hc
    exact ⟨e, List.mem_of_getElem? he, hcontroller⟩
  have hselection : s.selectionModel.selectedIndices.Pairwise (· < ·) ∧
      ∀ i ∈ s.selectionModel.selectedIndices, 0 ≤ i ∧ i < s.count := by
    rcases h.selection with ⟨-, hnew⟩ | hvalid
    · rw [hnew]
      exact ⟨List.Pairwise.nil, fun i hi => nomatch hi⟩
    · exact ⟨hvalid.increasing, hvalid.inRange⟩
  refine ⟨fun i j d e hlt hd he hmini => ?_, hselection.1, hselection.2, fun hne => ?_,
    fun d hd c hc => hrefers d hd c (.inl hc), fun d hd c hc => hrefers d hd c (.inr hc)⟩
  · have hj := (hk.2 j e he).1 hmini
    exact (hk.2 i d hd).2 (by omega)
  · have hvalid := h.valid hne
    exact ⟨hvalid.active_lt, hvalid.active⟩

theorem not_wellFormed_of_active (hne : s.contentsData ≠ [])
    (hactive : s.activeIndex < 0 ∨ s.activeIndex ∉ s.selectionModel.selectedIndices) : ¬s.WellFormed := by
  intro h
  obtain ⟨⟨hnonneg, -⟩, hmem⟩ := h.active hne
  rcases hactive with hneg | hnot
  · omega
  · exact hnot hmem

/-- **Every operation within range has a result**, and it keeps the invariants exactly when it keeps a selected tab
active. -/
theorem Invariant.perform (h : s.Invariant) {op : TabStripOperation} (hrange : s.InRange op) :
    ∃ s', s.perform op = some s' ∧ (s.KeepsActive op → s'.Invariant) ∧ (¬s.KeepsActive op → ¬s'.WellFormed) := by
  have hkeeps : s.KeepsActive op → (∃ s', s.perform op = some s' ∧ s'.Invariant) →
      ∃ s', s.perform op = some s' ∧ (s.KeepsActive op → s'.Invariant) ∧ (¬s.KeepsActive op → ¬s'.WellFormed) := by
    rintro hactive ⟨s', hs', hinv⟩
    exact ⟨s', hs', fun _ => hinv, fun hnot => absurd hactive hnot⟩
  cases op with
  | insertTabContentsAt index contents addTypes =>
    obtain ⟨s', hs', hinv, hbad⟩ := h.insertTabContentsAt index contents addTypes
    refine ⟨s', hs', hinv, fun hnot => ?_⟩
    rw [KeepsActive, not_or, not_not, not_not] at hnot
    obtain ⟨hne, hneg⟩ := hbad hnot.1 hnot.2
    exact not_wellFormed_of_active hne (.inl hneg)
  | detachTabContentsAt index => exact hkeeps trivial (h.detachTabContentsAt hrange)
  | moveTabContentsAt index toPosition selectAfterMove =>
    exact hkeeps trivial (h.moveTabContentsAt selectAfterMove hrange.1 hrange.2)
  | moveSelectedTabsTo index => exact hkeeps trivial (h.moveSelectedTabsTo hrange)
  | setTabPinned index pinned => exact hkeeps trivial (h.setTabPinned hrange pinned)
  | activateTabAt index userGesture => exact hkeeps trivial (h.activateTabAt hrange userGesture)
  | addTabAtToSelection index => exact hkeeps trivial (h.addTabAtToSelection hrange)
  | extendSelectionTo index => exact hkeeps trivial (h.extendSelectionTo hrange)
  | addSelectionFromAnchorTo index => exact hkeeps trivial (h.addSelectionFromAnchorTo hrange)
  | toggleSelectionAt index =>
    obtain ⟨s', hs', hinv, hbad⟩ := h.toggleSelectionAt hrange
    refine ⟨s', hs', hinv, fun hnot => ?_⟩
    obtain ⟨hne, hnot'⟩ := hbad (not_not.1 hnot)
    exact not_wellFormed_of_active hne (.inr hnot')

theorem invariant_of_run (h : (system.restrict KeepsActive).Run ops s) : s.Invariant := by
  refine TransSys.Run.invariant (fun s hinit => ?_) (fun s op s' hs hstep => ?_) h
  · rw [show s = new from hinit]
    exact invariant_new
  · obtain ⟨hkeeps, hrange, hs'⟩ := hstep
    obtain ⟨s₁, hs₁, hinv, -⟩ := hs.perform hrange
    obtain rfl := Option.some.inj (hs₁.symm.trans hs')
    exact hinv hkeeps

/-- **A strip whose active tab is never deselected keeps its invariants**, and the next operation keeps them exactly
when it does not deselect the active tab either. -/
theorem wellFormed_of_run (ops : List TabStripOperation) (s : TabStripModel)
    (h : (system.restrict KeepsActive).Run ops s) :
    s.WellFormed ∧ ∀ op, s.InRange op → ∃ s', s.perform op = some s' ∧ (s'.WellFormed ↔ s.KeepsActive op) := by
  have hinv := invariant_of_run h
  refine ⟨hinv.wellFormed, fun op hrange => ?_⟩
  obtain ⟨s', hs', hgood, hbad⟩ := hinv.perform hrange
  exact ⟨s', hs', fun hwell => by_contra fun hnot => hbad hnot hwell, fun hkeeps => (hgood hkeeps).wellFormed⟩

/-- Two tabs, the second opened by the first, and the first put into the selection as the active one. -/
theorem wellFormed_of_run_toggle : ∃ s, (system.restrict KeepsActive).Run
      [.insertTabContentsAt 0 ⟨1, false⟩ ADD_ACTIVE,
        .insertTabContentsAt 1 ⟨2, false⟩ (ADD_ACTIVE + ADD_INHERIT_OPENER), .toggleSelectionAt 0] s ∧
    s.activeIndex = 0 ∧ s.WellFormed := by
  have h₁ : (system.restrict KeepsActive).Run ([] ++ [.insertTabContentsAt 0 ⟨1, false⟩ ADD_ACTIVE])
      ⟨[.new ⟨1, false⟩], ⟨[0], 0, 0⟩⟩ := .step (.init rfl) ⟨.inr (by decide), trivial, by decide⟩
  have h₂ : (system.restrict KeepsActive).Run (([] ++ [.insertTabContentsAt 0 ⟨1, false⟩ ADD_ACTIVE]) ++
        [.insertTabContentsAt 1 ⟨2, false⟩ (ADD_ACTIVE + ADD_INHERIT_OPENER)])
      ⟨[.new ⟨1, false⟩, { TabContentsData.new ⟨2, false⟩ with opener := some 1 }], ⟨[1], 1, 1⟩⟩ :=
    h₁.step ⟨.inl (by decide), trivial, by decide⟩
  have h₃ : (system.restrict KeepsActive).Run ((([] ++ [.insertTabContentsAt 0 ⟨1, false⟩ ADD_ACTIVE]) ++
        [.insertTabContentsAt 1 ⟨2, false⟩ (ADD_ACTIVE + ADD_INHERIT_OPENER)]) ++ [.toggleSelectionAt 0])
      ⟨[.new ⟨1, false⟩, { TabContentsData.new ⟨2, false⟩ with opener := some 1 }], ⟨[0, 1], 0, 0⟩⟩ :=
    h₂.step ⟨fun hdeselects => absurd hdeselects.1 (by decide), ⟨by decide, by decide⟩, by decide⟩
  exact ⟨_, h₃, rfl, (wellFormed_of_run _ _ h₃).1⟩

/-- **The active tab is left unselected** where it is taken out of a selection of two tabs. -/
theorem not_wellFormed_of_run : ¬∀ (index : Int) (contents : TabContentsWrapper) (addTypes : ℕ)
    (ops : List TabStripOperation) (s : TabStripModel), addTypes &&& ADD_ACTIVE ≠ 0 →
    system.Run (.insertTabContentsAt index contents addTypes :: ops) s → s.WellFormed := by
  intro hall
  have h₁ : system.Run ([] ++ [.insertTabContentsAt 0 ⟨1, false⟩ ADD_ACTIVE]) ⟨[.new ⟨1, false⟩], ⟨[0], 0, 0⟩⟩ :=
    .step (.init rfl) ⟨trivial, by decide⟩
  have h₂ : system.Run (([] ++ [.insertTabContentsAt 0 ⟨1, false⟩ ADD_ACTIVE]) ++
        [.insertTabContentsAt 1 ⟨2, false⟩ ADD_ACTIVE])
      ⟨[.new ⟨1, false⟩, .new ⟨2, false⟩], ⟨[1], 1, 1⟩⟩ := h₁.step ⟨trivial, by decide⟩
  have h₃ : system.Run ((([] ++ [.insertTabContentsAt 0 ⟨1, false⟩ ADD_ACTIVE]) ++
        [.insertTabContentsAt 1 ⟨2, false⟩ ADD_ACTIVE]) ++ [.addTabAtToSelection 0])
      ⟨[.new ⟨1, false⟩, .new ⟨2, false⟩], ⟨[0, 1], 1, 1⟩⟩ := h₂.step ⟨⟨by decide, by decide⟩, by decide⟩
  have h₄ : system.Run (((([] ++ [.insertTabContentsAt 0 ⟨1, false⟩ ADD_ACTIVE]) ++
        [.insertTabContentsAt 1 ⟨2, false⟩ ADD_ACTIVE]) ++ [.addTabAtToSelection 0]) ++ [.toggleSelectionAt 1])
      ⟨[.new ⟨1, false⟩, .new ⟨2, false⟩], ⟨[0], 1, 1⟩⟩ := h₃.step ⟨⟨by decide, by decide⟩, by decide⟩
  have hactive := (hall 0 ⟨1, false⟩ ADD_ACTIVE _ _ (by decide) h₄).active (List.cons_ne_nil _ _)
  exact absurd hactive.2 (by decide)

end TabStripModel

end Chromium.Tabs
