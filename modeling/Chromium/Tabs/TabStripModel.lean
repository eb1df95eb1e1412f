import Chromium.Tabs.TabStripSelectionModel

/-!
# The tab strip

`chrome/browser/tabs/tab_strip_model.cc` with its order controller, `tab_strip_model_order_controller.cc`.  A tab is the
object of its contents: the address of its `NavigationController`, and whether it is an app.  The order controller is
the observer that the strip itself installs, and its `ActiveTabChanged` is run where the strip notifies; the other
observers do not change the strip.

An operation gives `none` where the source indexes outside of a vector, fails a `CHECK` or dereferences a null pointer.
-/

namespace Chromium.Tabs

abbrev NavigationController := ℕ

structure TabContentsWrapper where
  controller : NavigationController
  /-- `extension_tab_helper()->is_app()` -/
  isApp : Bool
deriving DecidableEq, Repr

structure TabContentsData where
  contents : TabContentsWrapper
  group : Option NavigationController
  opener : Option NavigationController
  resetGroupOnSelect : Bool
  pinned : Bool
  discarded : Bool
deriving DecidableEq, Repr

namespace TabContentsData

def setGroup (d : TabContentsData) (group : Option NavigationController) : TabContentsData :=
  { d with group := group, opener := group }

def forgetOpener (d : TabContentsData) : TabContentsData := { d with opener := none }

def setPinned (d : TabContentsData) (pinned : Bool) : TabContentsData := { d with pinned := pinned }

def new (contents : TabContentsWrapper) : TabContentsData where
  contents := contents
  group := none
  opener := none
  resetGroupOnSelect := false
  pinned := false
  discarded := false

def isMini (d : TabContentsData) : Bool := d.pinned || d.contents.isApp

/-- The turn of `ForgetOpenersAndGroupsReferencing` for one tab. -/
def forgetReferencing (tab : NavigationController) (d : TabContentsData) : TabContentsData where
  contents := d.contents
  group := if d.group = some tab then none else d.group
  opener := if d.opener = some tab then none else d.opener
  resetGroupOnSelect := d.resetGroupOnSelect
  pinned := d.pinned
  discarded := d.discarded

end TabContentsData

/-! ## A vector at an `int` -/

section

variable {α : Type*}

/-- `v[index]` -/
def itemAt (l : List α) (index : Int) : Option α := if 0 ≤ index then l[index.toNat]? else none

/-- `v.erase(v.begin() + index)` -/
def eraseItem (l : List α) (index : Int) : Option (List α) :=
  if 0 ≤ index ∧ index < l.length then some (l.eraseIdx index.toNat) else none

/-- `v.insert(v.begin() + index, x)` -/
def insertItem (l : List α) (index : Int) (x : α) : Option (List α) :=
  if 0 ≤ index ∧ index ≤ l.length then some (l.insertIdx index.toNat x) else none

end

def ADD_ACTIVE : ℕ := 1
def ADD_PINNED : ℕ := 2
def ADD_INHERIT_GROUP : ℕ := 8
def ADD_INHERIT_OPENER : ℕ := 16

structure TabStripModel where
  contentsData : List TabContentsData
  selectionModel : TabStripSelectionModel
deriving DecidableEq, Repr

namespace TabStripModel

def new : TabStripModel := ⟨[], .new⟩

def count (s : TabStripModel) : Int := s.contentsData.length

def activeIndex (s : TabStripModel) : Int := s.selectionModel.active

def containsIndex (s : TabStripModel) (index : Int) : Bool := decide (0 ≤ index ∧ index < s.count)

/-- The `CHECK` fails at `none`. -/
def getContentsAt (s : TabStripModel) (index : Int) : Option TabContentsWrapper :=
  (itemAt s.contentsData index).map (·.contents)

/-- `NULL` is `none`. -/
def getTabContentsAt (s : TabStripModel) (index : Int) : Option TabContentsWrapper :=
  if s.containsIndex index then s.getContentsAt index else none

def getActiveTabContents (s : TabStripModel) : Option TabContentsWrapper := s.getTabContentsAt s.activeIndex

/-- `kNoTab` is `none`. -/
def getIndexOfTabContents (s : TabStripModel) (contents : TabContentsWrapper) : Option ℕ :=
  s.contentsData.findIdx? fun d => d.contents = contents

/-- `kNoTab` is `none`. -/
def getIndexOfController (s : TabStripModel) (controller : NavigationController) : Option ℕ :=
  s.contentsData.findIdx? fun d => d.contents.controller = controller

def isMiniTab (s : TabStripModel) (index : Int) : Option Bool := (itemAt s.contentsData index).map (·.isMini)

def indexOfFirstNonMiniTab (s : TabStripModel) : Int := s.contentsData.findIdx fun d => !d.isMini

def constrainInsertionIndex (s : TabStripModel) (index : Int) (miniTab : Bool) : Int :=
  if miniTab then min (max 0 index) s.indexOfFirstNonMiniTab
  else min s.count (max index s.indexOfFirstNonMiniTab)

/-! ### Openers and groups -/

def forgetAllOpeners (s : TabStripModel) : TabStripModel :=
  { s with contentsData := s.contentsData.map (·.forgetOpener) }

def forgetGroup (s : TabStripModel) (contents : TabContentsWrapper) : Option TabStripModel :=
  (s.getIndexOfTabContents contents).map fun index =>
    { s with contentsData := s.contentsData.modify index fun d => (d.setGroup none).forgetOpener }

/-- The tabs behind `start` first, then the tabs before it from behind; `kNoTab` is `none`. -/
def getIndexOfNextTabContentsOpenedBy (s : TabStripModel) (opener : NavigationController) (start : ℕ) : Option ℕ :=
  let matching := fun i => (s.contentsData[i]?.bind (·.opener)) = some opener
  ((List.range' (start + 1) (s.contentsData.length - (start + 1))).find? fun i => decide (matching i)).or
    ((List.range start).reverse.find? fun i => decide (matching i))

def getValidIndex (index removingIndex : Int) : Int :=
  if removingIndex < index then max 0 (index - 1) else index

def determineNewSelectedIndex (s : TabStripModel) (removingIndex : Int) : Option Int := do
  let d ← itemAt s.contentsData removingIndex
  let next := fun opener => s.getIndexOfNextTabContentsOpenedBy opener removingIndex.toNat
  let found := (next d.contents.controller).or
    (d.opener.bind fun parentOpener => (next parentOpener).or (s.getIndexOfController parentOpener))
  match found with
  | some index => some (getValidIndex index removingIndex)
  | none => if s.activeIndex ≥ s.count - 1 then some (s.activeIndex - 1) else some s.activeIndex

/-! ### Notifications -/

/-- The first half of `ActiveTabChanged` of the order controller: the opener of the old tab, whose group may go. -/
def leaveTab (s : TabStripModel) (oldContents : Option TabContentsWrapper) :
    Option (TabStripModel × Option NavigationController) :=
  match oldContents with
  | none => some (s, none)
  | some old =>
    match s.getIndexOfTabContents old with
    | none => some (s, none)
    | some index => do
      let d ← s.contentsData[index]?
      let s ← if d.resetGroupOnSelect then s.forgetGroup old else some s
      some (s, d.opener)

/-- `(contents == NULL && opener == NULL) || opener != &contents->controller()` -/
def isOther (contents : Option TabContentsWrapper) (opener : Option NavigationController) : Option Bool :=
  match contents with
  | some c => some (opener != some c.controller)
  | none => if opener.isNone then some true else none

def activeTabChanged (s : TabStripModel) (oldContents newContents : Option TabContentsWrapper) (index : Int)
    (userGesture : Bool) : Option TabStripModel := do
  let (s, oldOpener) ← s.leaveTab oldContents
  let d ← itemAt s.contentsData index
  if userGesture && d.opener != oldOpener then do
    if ← isOther oldContents d.opener then
      if ← isOther newContents oldOpener then some s.forgetAllOpeners else some s
    else some s
  else some s

def notifyIfActiveTabChanged (s : TabStripModel) (oldContents : Option TabContentsWrapper) (userGesture : Bool) :
    Option TabStripModel := do
  let newContents ← s.getContentsAt s.activeIndex
  if oldContents ≠ some newContents then do
    let s ← s.activeTabChanged oldContents (some newContents) s.activeIndex userGesture
    some { s with contentsData := s.contentsData.modify s.activeIndex.toNat fun d => { d with discarded := false } }
  else some s

/-- The order controller does not listen to `TabSelectionChanged`. -/
def notifyIfActiveOrSelectionChanged (s : TabStripModel) (oldContents : Option TabContentsWrapper)
    (userGesture : Bool) : Option TabStripModel := s.notifyIfActiveTabChanged oldContents userGesture

/-! ### Inserting, detaching and moving -/

def inheritOpener (s : TabStripModel) (data : TabContentsData) (addTypes : ℕ) : TabStripModel × TabContentsData :=
  let forgotten := if addTypes &&& ADD_ACTIVE != 0 then s.forgetAllOpeners else s
  match s.getActiveTabContents with
  | some selected =>
    if addTypes &&& ADD_INHERIT_GROUP != 0 then (forgotten, data.setGroup (some selected.controller))
    else if addTypes &&& ADD_INHERIT_OPENER != 0 then (forgotten, { data with opener := some selected.controller })
    else (s, data)
  | none => (s, data)

def insertTabContentsAt (s : TabStripModel) (index : Int) (contents : TabContentsWrapper) (addTypes : ℕ) :
    Option TabStripModel := do
  let active := addTypes &&& ADD_ACTIVE != 0
  let pin := contents.isApp || addTypes &&& ADD_PINNED != 0
  let index := s.constrainInsertionIndex index pin
  let selectedContents := s.getActiveTabContents
  let (s, data) := s.inheritOpener { TabContentsData.new contents with pinned := pin } addTypes
  let contentsData ← insertItem s.contentsData index data
  let selectionModel := s.selectionModel.incrementFrom index
  if active then
    TabStripModel.notifyIfActiveOrSelectionChanged ⟨contentsData, selectionModel.setSelectedIndex index⟩
      selectedContents false
  else some ⟨contentsData, selectionModel⟩

/-- The active tab was removed: the first tab that is still selected is active, or the next one alone. -/
def moveActive (m : TabStripSelectionModel) (nextSelectedIndex : Int) : TabStripSelectionModel :=
  match m.selectedIndices with
  | first :: _ => { m with active := first, anchor := first }
  | [] => m.setSelectedIndex nextSelectedIndex

def detachTabContentsAt (s : TabStripModel) (index : Int) : Option TabStripModel :=
  if s.contentsData = [] then some s else do
    let removedContents ← s.getContentsAt index
    let nextSelectedIndex ← s.determineNewSelectedIndex index
    let contentsData ← eraseItem s.contentsData index
    let contentsData := contentsData.map (·.forgetReferencing removedContents.controller)
    if contentsData = [] then some ⟨contentsData, s.selectionModel.clear⟩
    else
      let oldActive := s.activeIndex
      let selectionModel := s.selectionModel.decrementFrom index
      if index = oldActive then
        TabStripModel.notifyIfActiveTabChanged ⟨contentsData, moveActive selectionModel nextSelectedIndex⟩
          (some removedContents) false
      else some ⟨contentsData, selectionModel⟩

/-- `IsSelected` is asked for the flag, as the source has it. -/
def moveTabContentsAtImpl (s : TabStripModel) (index toPosition : Int) (selectAfterMove : Bool) :
    Option TabStripModel := do
  let movedData ← itemAt s.contentsData index
  let contentsData ← eraseItem s.contentsData index
  let contentsData ← insertItem contentsData toPosition movedData
  let selectionModel := s.selectionModel.move index toPosition
  if !selectionModel.isSelected (if selectAfterMove then 1 else 0) && selectAfterMove then
    some ⟨contentsData, selectionModel.setSelectedIndex toPosition⟩
  else some ⟨contentsData, selectionModel⟩

def moveTabContentsAt (s : TabStripModel) (index toPosition : Int) (selectAfterMove : Bool) : Option TabStripModel :=
  if index = toPosition then some s
  else
    let firstNonMiniTab := s.indexOfFirstNonMiniTab
    if (index < firstNonMiniTab ∧ toPosition ≥ firstNonMiniTab) ∨
        (toPosition < firstNonMiniTab ∧ index ≥ firstNonMiniTab) then some s
    else s.moveTabContentsAtImpl index toPosition selectAfterMove

/-! ### Moving the selected tabs -/

/-- The first loop of `MoveSelectedTabsTo` over the selected indices. -/
def countMini (s : TabStripModel) : List Int → Option ℕ
  | [] => some 0
  | i :: is => do
    if ← s.isMiniTab i then
      let n ← s.countMini is
      some (n + 1)
    else some 0

/-- The loop that counts the selected tabs before the target, with the turns that are left. -/
def countBeforeIndex (s : TabStripModel) (index : Int) : (i count : ℕ) → (turns : ℕ) → Option ℕ
  | _, count, 0 => some count
  | i, count, turns + 1 => do
    let selected ← s.selectionModel.selectedIndices[i]?
    if selected < index + count then s.countBeforeIndex index (i + 1) (count + 1) turns else some count

/-- The loop that moves the selected tabs before the target, with the turns that are left. -/
def moveThoseBefore (index targetIndex : Int) (start : ℕ) : (turns : ℕ) → TabStripModel → Option (TabStripModel × ℕ)
  | 0, s => some (s, 0)
  | turns + 1, s => do
    let selected ← s.selectionModel.selectedIndices[start]?
    if selected < index then do
      let s ← s.moveTabContentsAt selected (targetIndex - 1) false
      moveThoseBefore index targetIndex start turns s
    else some (s, turns + 1)

def moveThoseAfter : (tabIndex : ℕ) → (targetIndex : Int) → (turns : ℕ) → TabStripModel → Option TabStripModel
  | _, _, 0, s => some s
  | tabIndex, targetIndex, turns + 1, s => do
    let selected ← s.selectionModel.selectedIndices[tabIndex]?
    let s ← if selected ≠ targetIndex then s.moveTabContentsAt selected targetIndex false else some s
    moveThoseAfter (tabIndex + 1) (targetIndex + 1) turns s

def moveSelectedTabsToImpl (s : TabStripModel) (index : Int) (start length : ℕ) : Option TabStripModel := do
  let countBeforeIndex ← s.countBeforeIndex index start 0 length
  let targetIndex := index + countBeforeIndex
  let (s, turns) ← moveThoseBefore index targetIndex start length s
  moveThoseAfter (start + length - turns) targetIndex turns s

def moveSelectedTabsTo (s : TabStripModel) (index : Int) : Option TabStripModel := do
  let totalMiniCount := s.indexOfFirstNonMiniTab
  let selectedCount := s.selectionModel.selectedIndices.length
  let selectedMiniCount ← s.countMini s.selectionModel.selectedIndices
  let s ←
    if selectedMiniCount > 0 then
      s.moveSelectedTabsToImpl (min (totalMiniCount - selectedMiniCount) index) 0 selectedMiniCount
    else some s
  let index :=
    if selectedMiniCount > 0 ∧ index > totalMiniCount - selectedMiniCount then index + selectedMiniCount else index
  if selectedMiniCount = selectedCount then some s
  else s.moveSelectedTabsToImpl (max index totalMiniCount) selectedMiniCount (selectedCount - selectedMiniCount)

/-! ### Pinning and selecting -/

def setPinned (s : TabStripModel) (index : Int) (pinned : Bool) : TabStripModel :=
  { s with contentsData := s.contentsData.modify index.toNat (·.setPinned pinned) }

def setTabPinned (s : TabStripModel) (index : Int) (pinned : Bool) : Option TabStripModel := do
  let d ← itemAt s.contentsData index
  if d.pinned = pinned then some s
  else if d.contents.isApp then
    if !pinned then some s else some (s.setPinned index pinned)
  else
    let nonMiniTabIndex := s.indexOfFirstNonMiniTab
    let s := s.setPinned index pinned
    if pinned ∧ index ≠ nonMiniTabIndex then s.moveTabContentsAtImpl index nonMiniTabIndex false
    else if !pinned ∧ index + 1 ≠ nonMiniTabIndex then s.moveTabContentsAtImpl index (nonMiniTabIndex - 1) false
    else some s

def select (s : TabStripModel) (selectionModel : TabStripSelectionModel) (userGesture : Bool) : Option TabStripModel :=
  TabStripModel.notifyIfActiveOrSelectionChanged ⟨s.contentsData, selectionModel⟩ s.getActiveTabContents userGesture

def activateTabAt (s : TabStripModel) (index : Int) (userGesture : Bool) : Option TabStripModel :=
  s.select (s.selectionModel.setSelectedIndex index) userGesture

def addTabAtToSelection (s : TabStripModel) (index : Int) : Option TabStripModel :=
  s.select (s.selectionModel.addIndexToSelection index) false

def extendSelectionTo (s : TabStripModel) (index : Int) : Option TabStripModel :=
  s.select (s.selectionModel.setSelectionFromAnchorTo index) false

def addSelectionFromAnchorTo (s : TabStripModel) (index : Int) : Option TabStripModel :=
  s.select (s.selectionModel.addSelectionFromAnchorTo index) false

def toggleSelectionAt (s : TabStripModel) (index : Int) : Option TabStripModel :=
  if s.selectionModel.isSelected index then
    if s.selectionModel.selectedIndices.length = 1 then some s
    else do
      let selectionModel := { s.selectionModel.removeIndexFromSelection index with anchor := index }
      let selectionModel ←
        if selectionModel.active = kUnselectedIndex then
          selectionModel.selectedIndices[0]?.map fun first => { selectionModel with active := first }
        else some selectionModel
      s.select selectionModel false
  else s.select { s.selectionModel.addIndexToSelection index with anchor := index, active := index } false

end TabStripModel

end Chromium.Tabs
