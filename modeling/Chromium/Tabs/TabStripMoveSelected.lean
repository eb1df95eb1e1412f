import Mathlib.Tactic.Ring
import Chromium.Tabs.TabStripInvariant

/-!
# Moving the selected tabs

`MoveSelectedTabsTo` moves the selected mini-tabs and then the other selected tabs, each part to one block of places.
The tabs before the target are moved behind the ones that follow them, so the first selected index is read again and
again; the tabs behind the target are moved one by one.  The loops keep the indices of the selection in closed form.
-/

namespace Chromium.Tabs

open List (append_assoc append_nil cons_append length_append length_cons map_append map_congr_left
  map_cons map_id map_id' map_map mem_append mem_append_left mem_cons mem_cons_self mem_map
  nil_append not_mem_nil pairwise_append pairwise_cons singleton_append)
open Option (bind_eq_bind bind_some)
open TabStripSelectionModel (relocate relocate_self)

/-- The `n` indices from `a`. -/
def interval (a : Int) : ℕ → List Int
  | 0 => []
  | n + 1 => a :: interval (a + 1) n

variable {a i lo hi index target : Int} {n : ℕ} {l pre post lows highs : List Int}

theorem length_interval (a : Int) (n : ℕ) : (interval a n).length = n := by
  induction n generalizing a with
  | zero => rfl
  | succ n ih => rw [interval, length_cons, ih]

theorem mem_interval : i ∈ interval a n ↔ a ≤ i ∧ i < a + n := by
  induction n generalizing a with
  | zero =>
    rw [interval]
    exact iff_of_false not_mem_nil (by omega)
  | succ n ih =>
    rw [interval, mem_cons, ih]
    push_cast
    omega

theorem pairwise_interval (a : Int) (n : ℕ) : (interval a n).Pairwise (· < ·) := by
  induction n generalizing a with
  | zero => exact List.Pairwise.nil
  | succ n ih =>
    rw [interval, pairwise_cons]
    refine ⟨fun i hi => ?_, ih (a + 1)⟩
    have := mem_interval.1 hi
    omega

theorem interval_add (a : Int) (m n : ℕ) : interval a (m + n) = interval a m ++ interval (a + m) n := by
  induction m generalizing a with
  | zero => rw [Nat.zero_add, Nat.cast_zero, add_zero, interval, nil_append]
  | succ m ih =>
    rw [Nat.succ_add, interval, interval, ih, cons_append, Nat.cast_succ, add_assoc a 1, add_comm 1 (m : Int)]

theorem interval_succ_eq_append (a : Int) (n : ℕ) : interval a (n + 1) = interval a n ++ [a + n] := interval_add a n 1

theorem map_pred_interval (a : Int) (n : ℕ) : (interval a n).map (· - 1) = interval (a - 1) n := by
  induction n generalizing a with
  | zero => rfl
  | succ n ih =>
    rw [interval, interval, map_cons, ih]
    congr 2
    ring

theorem length_le_of_pairwise (hl : l.Pairwise (· < ·)) (hmem : ∀ i ∈ l, lo ≤ i ∧ i < hi) (hle : lo ≤ hi) :
    lo + l.length ≤ hi := by
  induction l generalizing lo with
  | nil => simpa using hle
  | cons x xs ih =>
    rw [pairwise_cons] at hl
    have hx := hmem x mem_cons_self
    have htail : ∀ i ∈ xs, x + 1 ≤ i ∧ i < hi := by
      intro i hi
      have := hl.1 i hi
      have := hmem i (List.mem_cons_of_mem x hi)
      omega
    have := ih hl.2 htail (by omega)
    rw [length_cons]
    push_cast
    omega

open Lib

namespace TabStripModel

variable {s s' : TabStripModel}

/-- The places of the mini-tabs, or those of the other tabs. -/
structure Side (s : TabStripModel) (lo hi : Int) : Prop where
  nonneg : 0 ≤ lo
  le_count : hi ≤ s.count
  same : ∀ i j, lo ≤ i ∧ i < hi → lo ≤ j ∧ j < hi → (i < s.indexOfFirstNonMiniTab ↔ j < s.indexOfFirstNonMiniTab)

/-- What the moves need: the mini-tabs come first, and the selection is places of the strip. -/
structure MiniFirst (s : TabStripModel) : Prop where
  mini : ∃ k, MiniBelow s.contentsData k
  numbered : s.selectionModel.Numbered s.count

theorem Invariant.miniFirst (h : s.Invariant) : s.MiniFirst := by
  refine ⟨h.mini, ?_⟩
  rcases h.selection with ⟨-, hnew⟩ | hvalid
  · rw [hnew]
    exact ⟨List.Pairwise.nil, fun i hi => (nomatch hi), .inl rfl⟩
  · exact hvalid.toNumbered

/-- **What the loops do to a strip**: the tab at `i` comes to `place i`, and no unselected tab passes another. -/
structure Moved (s s' : TabStripModel) (place : Int → Int) : Prop where
  miniFirst : s'.MiniFirst
  count : s'.count = s.count
  first : s'.indexOfFirstNonMiniTab = s.indexOfFirstNonMiniTab
  tabs : ∀ i, 0 ≤ i ∧ i < s.count →
    (0 ≤ place i ∧ place i < s.count) ∧ itemAt s'.contentsData (place i) = itemAt s.contentsData i
  injective : Function.Injective place
  unselected : ∀ i j, i ∉ s.selectionModel.selectedIndices → j ∉ s.selectionModel.selectedIndices → i < j →
    place i < place j
  selected : s'.selectionModel.selectedIndices.Perm (s.selectionModel.selectedIndices.map place)
  active : s'.selectionModel.active = place s.selectionModel.active
  invariant : s.Invariant → s'.Invariant

theorem Moved.refl (h : s.MiniFirst) : s.Moved s id :=
  ⟨h, rfl, rfl, fun _ hi => ⟨hi, rfl⟩, Function.injective_id, fun _ _ _ _ hlt => hlt, by rw [map_id], rfl, id⟩

theorem Moved.trans {s'' : TabStripModel} {place place' : Int → Int} (h : s.Moved s' place) (h' : s'.Moved s'' place') :
    s.Moved s'' (place' ∘ place) := by
  have hnot : ∀ i, i ∉ s.selectionModel.selectedIndices → place i ∉ s'.selectionModel.selectedIndices := fun i hi => by
    rwa [h.selected.mem_iff, List.mem_map_of_injective h.injective]
  refine ⟨h'.miniFirst, h'.count.trans h.count, h'.first.trans h.first, fun i hi => ?_, h'.injective.comp h.injective,
    fun i j hi hj hlt => h'.unselected _ _ (hnot i hi) (hnot j hj) (h.unselected i j hi hj hlt), ?_,
    h'.active.trans (congrArg place' h.active), h'.invariant ∘ h.invariant⟩
  · have hplace := h.tabs i hi
    rw [← h.count] at hplace ⊢
    have hplace' := h'.tabs _ hplace.1
    exact ⟨hplace'.1, hplace'.2.trans hplace.2⟩
  · rw [← map_map]
    exact h'.selected.trans (h.selected.map place')

theorem Side.of_moved {place : Int → Int} (h : s.Side lo hi) (hs : s.Moved s' place) : s'.Side lo hi := by
  refine ⟨h.nonneg, hs.count ▸ h.le_count, ?_⟩
  rw [hs.first]
  exact h.same

theorem Side.moveTabContentsAt (h : s.Side lo hi) (hm : s.MiniFirst) (source target : Int)
    (hmem : source ∈ s.selectionModel.selectedIndices) (hs : lo ≤ source ∧ source < hi)
    (ht : lo ≤ target ∧ target < hi) (hne : source ≠ target) :
    ∃ s', s.moveTabContentsAt source target false = some s' ∧ s.Moved s' (relocate source target) ∧
      ∀ l : List Int, l.Pairwise (· < ·) →
        l.Perm (s.selectionModel.selectedIndices.map (relocate source target)) →
        s'.selectionModel.selectedIndices = l := by
  have hnonneg := h.nonneg
  have hle := h.le_count
  have hside := h.same source target hs ht
  have hsource : 0 ≤ source ∧ source < s.count := by omega
  have htarget : 0 ≤ target ∧ target < s.count := by omega
  obtain ⟨d, hd⟩ := exists_tab hsource
  obtain ⟨s', hs', htabs, -, hselection⟩ := s.moveTabContentsAtImpl_spec false hd hsource htarget
  have hmove := hselection rfl
  obtain ⟨k, hk⟩ := hm.mini
  have hfirst : s.indexOfFirstNonMiniTab = k := congrArg Nat.cast hk.findIdx_eq
  have hlt : target.toNat < s.contentsData.length := by
    rw [count] at htarget
    omega
  have hk' := hk.move hd hlt (by omega)
  rw [← htabs] at hk'
  have hcount : s'.count = s.count := by
    rw [count, count, htabs, length_move (List.getElem?_eq_some_iff.1 hd).1 hlt]
  have hnumbered := hm.numbered.move hsource htarget
  have hinj : Function.Injective (relocate source target) := by
    intro i j hij
    unfold relocate at hij
    grind
  refine ⟨s', ?_, ⟨⟨⟨k, hk'⟩, ?_⟩, hcount, ?_, fun i hi => ?_, hinj, fun i j hi hj hlt => ?_, ?_, ?_, fun hinv => ?_⟩,
    fun l hl hperm => ?_⟩
  · rw [TabStripModel.moveTabContentsAt, if_neg hne]
    dsimp only
    rw [if_neg (by omega), hs']
  · rw [hmove, hcount]
    exact hnumbered
  · rw [hfirst, indexOfFirstNonMiniTab, hk'.findIdx_eq]
  · have hplace := TabStripSelectionModel.relocate_lt hsource htarget hi
    refine ⟨hplace, ?_⟩
    rw [itemAt, itemAt, if_pos hi.1, if_pos hplace.1, htabs, getElem?_move hd hlt]
    have horigin : origin source.toNat target.toNat (relocate source target i).toNat = i.toNat := by
      unfold origin up down relocate
      split_ifs <;> omega
    rw [horigin]
  · exact TabStripSelectionModel.relocate_lt_relocate (fun h => hi (h ▸ hmem)) (fun h => hj (h ▸ hmem)) hlt
  · rw [hmove, List.perm_ext_iff_of_nodup (hnumbered.increasing.imp fun h => ne_of_lt h)
      (List.Nodup.map hinj (hm.numbered.increasing.imp fun h => ne_of_lt h))]
    intro i
    rw [TabStripSelectionModel.mem_move, mem_map]
  · rw [hmove, TabStripSelectionModel.move_active]
  · obtain ⟨s'', hs'', hinv', -⟩ := hinv.moveTabContentsAtImpl false hsource htarget hside
    obtain rfl := Option.some.inj (hs'.symm.trans hs'')
    exact hinv'
  · rw [hmove]
    exact hm.numbered.move_selectedIndices hsource htarget hl hperm

/-! ### The loops -/

/-- The loop that counts splits the part of the selection where the tabs no longer lie before the target. -/
theorem countBeforeIndex_spec (s : TabStripModel) (index : Int) (part post : List Int) (c : ℕ) (i : ℕ)
    (hdrop : s.selectionModel.selectedIndices.drop i = part ++ post) :
    ∃ lows highs, part = lows ++ highs ∧ s.countBeforeIndex index i c part.length = some (c + lows.length) ∧
      (∀ (j : ℕ) x, lows[j]? = some x → x < index + c + j) ∧ (∀ x, highs.head? = some x → index + c + lows.length ≤ x) := by
  induction part generalizing c i with
  | nil => exact ⟨[], [], rfl, rfl, fun j x hx => (nomatch hx), fun x hx => nomatch hx⟩
  | cons y part ih =>
    have hget : s.selectionModel.selectedIndices[i]? = some y := by
      rw [← Nat.add_zero i, ← List.getElem?_drop, hdrop]
      rfl
    have hdrop' : s.selectionModel.selectedIndices.drop (i + 1) = part ++ post := by
      rw [← List.drop_drop, hdrop]
      rfl
    rw [length_cons, countBeforeIndex, hget]
    simp only [bind_eq_bind, bind_some]
    split
    · next hlt =>
      obtain ⟨lows, highs, hpart, hcount, hlows, hhighs⟩ := ih (c + 1) (i + 1) hdrop'
      refine ⟨y :: lows, highs, by rw [hpart, cons_append], ?_, fun j x hx => ?_, fun x hx => ?_⟩
      · rw [hcount, length_cons]
        congr 1
        omega
      · cases j with
        | zero =>
          cases hx
          omega
        | succ j =>
          have := hlows j x hx
          push_cast at this ⊢
          omega
      · have := hhighs x hx
        rw [length_cons]
        push_cast at this ⊢
        omega
    · next hge =>
      refine ⟨[], y :: part, rfl, rfl, fun j x hx => (nomatch hx), fun x hx => ?_⟩
      cases hx
      rw [List.length_nil]
      omega

theorem getElem?_append_length (pre l : List Int) : (pre ++ l)[pre.length]? = l[0]? := by
  rw [List.getElem?_append_right le_rfl, Nat.sub_self]

/-- **The tabs before the target** are moved behind the tabs that follow them. -/
theorem moveThoseBefore_spec (hhi : target ≤ hi) (hhighs : ∀ i ∈ highs ++ post, target ≤ i) (t : ℕ)
    (hm : s.MiniFirst) (hside : s.Side lo hi)
    (hsel : s.selectionModel.selectedIndices = pre ++ (lows ++ (interval (target - t) t ++ (highs ++ post))))
    (hlows : ∀ (j : ℕ) x, lows[j]? = some x → x < index + j) (htarget : target = index + t + lows.length)
    (hmem : ∀ i ∈ lows, lo ≤ i) :
    ∃ s' place, moveThoseBefore index target pre.length (lows.length + highs.length) s = some (s', highs.length) ∧
      s.Moved s' place ∧
      s'.selectionModel.selectedIndices = pre ++ (interval index (t + lows.length) ++ (highs ++ post)) ∧
      (pre ++ (interval (target - t) t ++ (lows ++ (highs ++ post)))).map place =
        pre ++ (interval index (t + lows.length) ++ (highs ++ post)) := by
  -- the induction is on the number of tabs before the target, since the others are renumbered by each move
  generalize hn : lows.length = n at htarget ⊢
  induction n generalizing s t lows with
  | zero =>
    obtain rfl := List.length_eq_zero_iff.1 hn
    rw [Nat.cast_zero, add_zero] at htarget
    have hstart : target - t = index := by omega
    rw [nil_append, hstart] at hsel
    refine ⟨s, id, ?_, .refl hm, hsel, by rw [map_id, hstart]; rfl⟩
    rw [Nat.zero_add]
    cases highs with
    | nil => rfl
    | cons h highs =>
      obtain ⟨v, hv, hle⟩ : ∃ v, (interval index t ++ (h :: highs ++ post))[0]? = some v ∧ index ≤ v := by
        cases t with
        | zero => exact ⟨h, rfl, by have := hhighs h (by simp); omega⟩
        | succ t => exact ⟨index, rfl, le_rfl⟩
      rw [length_cons, moveThoseBefore, hsel, getElem?_append_length, hv]
      simp only [bind_eq_bind, bind_some]
      rw [if_neg (by omega)]
  | succ n ih =>
    obtain ⟨x, lows, rfl⟩ := List.exists_cons_of_length_eq_add_one hn
    rw [length_cons, Nat.add_right_cancel_iff] at hn
    have hx : x < index := by simpa using hlows 0 x rfl
    have hlox := hmem x mem_cons_self
    push_cast at htarget
    have hnonneg := hside.nonneg
    have hcount := hside.le_count
    have hsorted := hm.numbered.increasing
    rw [hsel, pairwise_append, cons_append, pairwise_cons, pairwise_append] at hsorted
    obtain ⟨hpre, ⟨hxlt, hlowsinc, hrest, hlowslt⟩, hprelt⟩ := hsorted
    have hbound : ∀ y ∈ lows, y < index + n + 1 := by
      intro y hy
      obtain ⟨j, hj⟩ := List.mem_iff_getElem?.1 hy
      have := hlows (j + 1) y hj
      have := (List.getElem?_eq_some_iff.1 hj).1
      push_cast at *
      omega
    have hlowsgt : ∀ y ∈ lows, x < y := fun y hy => hxlt y (mem_append_left _ hy)
    have hprex : ∀ y ∈ pre, y < x := fun y hy => hprelt y hy x mem_cons_self
    have hhighs' : (highs ++ post).Pairwise (· < ·) := (pairwise_append.1 hrest).2.1
    obtain ⟨s₁, hs₁, hmoved, hsel₁⟩ := hside.moveTabContentsAt hm x (target - 1) (hsel ▸ by simp) (by omega)
      (by omega) (by omega)
    have hmapPre : pre.map (relocate x (target - 1)) = pre := by
      refine (map_congr_left fun y hy => ?_).trans (map_id' _)
      have := hprex y hy
      unfold relocate
      split_ifs <;> omega
    have hmapLows : lows.map (relocate x (target - 1)) = lows.map (· - 1) := by
      refine map_congr_left fun y hy => ?_
      have := hlowsgt y hy
      have := hbound y hy
      unfold relocate
      split_ifs <;> omega
    have hmapBlock : (interval (target - t) t).map (relocate x (target - 1)) =
        interval (target - (t + 1 : ℕ)) t := by
      have hstart : target - (t + 1 : ℕ) = target - t - 1 := by
        push_cast
        omega
      rw [hstart, ← map_pred_interval]
      refine map_congr_left fun y hy => ?_
      have := mem_interval.1 hy
      unfold relocate
      split_ifs <;> omega
    have hmapRest : (highs ++ post).map (relocate x (target - 1)) = highs ++ post := by
      refine (map_congr_left fun y hy => ?_).trans (map_id' _)
      have := hhighs y hy
      unfold relocate
      split_ifs <;> omega
    have hlast : target - (t + 1 : ℕ) + t = target - 1 := by
      push_cast
      omega
    have hnew := hsel₁ (pre ++ (lows.map (· - 1) ++ (interval (target - (t + 1 : ℕ)) (t + 1) ++ (highs ++ post)))) ?_ ?_
    · have hlows' : ∀ (j : ℕ) y, (lows.map (· - 1))[j]? = some y → y < index + j := by
        intro j y hy
        rw [List.getElem?_map] at hy
        obtain ⟨z, hz, rfl⟩ := Option.map_eq_some_iff.1 hy
        have := hlows (j + 1) z hz
        push_cast at this
        omega
      have hmem' : ∀ y ∈ lows.map (· - 1), lo ≤ y := by
        intro y hy
        obtain ⟨z, hz, rfl⟩ := mem_map.1 hy
        have := hlowsgt z hz
        omega
      have htarget' : target = index + (t + 1 : ℕ) + n := by
        push_cast
        omega
      obtain ⟨s', place, hs', hmoved', hsel', hplace⟩ := ih (t + 1) hmoved.miniFirst (hside.of_moved hmoved) hnew hlows'
        hmem' (by rw [List.length_map, hn]) htarget'
      refine ⟨s', _, ?_, hmoved.trans hmoved', ?_, ?_⟩
      · rw [Nat.succ_add, moveThoseBefore, hsel, getElem?_append_length]
        simp only [cons_append, List.getElem?_cons_zero, bind_eq_bind, bind_some]
        rw [if_pos hx, hs₁, bind_some, hs']
      · rw [hsel', Nat.add_assoc, Nat.add_comm 1 n]
      · rw [interval_succ_eq_append, hlast, Nat.add_assoc, Nat.add_comm 1 n] at hplace
        rw [← hplace, ← map_map]
        simp only [map_append, cons_append, map_cons, hmapPre, hmapLows, hmapBlock, hmapRest,
          relocate_self, append_assoc, nil_append]
    · rw [pairwise_append, pairwise_append, pairwise_append, List.pairwise_map]
      refine ⟨hpre, ⟨hlowsinc.imp fun h => by omega, ⟨pairwise_interval _ _, hhighs', fun y hy z hz => ?_⟩,
        fun y hy z hz => ?_⟩, fun y hy z hz => ?_⟩
      · have := mem_interval.1 hy
        have := hhighs z hz
        push_cast at *
        omega
      · obtain ⟨y', hy', rfl⟩ := mem_map.1 hy
        have := hbound y' hy'
        rcases mem_append.1 hz with hz | hz
        · have := mem_interval.1 hz
          push_cast at *
          omega
        · have := hhighs z hz
          omega
      · have := hprex y hy
        rcases mem_append.1 hz with hz | hz
        · obtain ⟨z', hz', rfl⟩ := mem_map.1 hz
          have := hlowsgt z' hz'
          omega
        · rcases mem_append.1 hz with hz | hz
          · have := mem_interval.1 hz
            push_cast at *
            omega
          · have := hhighs z hz
            omega
    · rw [hsel, map_append, cons_append, map_cons, map_append, map_append, hmapPre, hmapLows,
        hmapBlock, hmapRest, relocate_self, interval_succ_eq_append, hlast]
      refine List.Perm.append_left pre ?_
      rw [append_assoc, singleton_append, ← append_assoc, ← append_assoc]
      exact List.perm_middle

/-- **The tabs behind the target** are moved to the places from the target on. -/
theorem moveThoseAfter_spec (hlo : lo ≤ target) (hhi : target + highs.length ≤ hi) (hm : s.MiniFirst)
    (hside : s.Side lo hi) (hsel : s.selectionModel.selectedIndices = pre ++ (highs ++ post))
    (hpre : ∀ i ∈ pre, i < target) (hhead : ∀ x, highs.head? = some x → target ≤ x) (hmem : ∀ i ∈ highs, i < hi) :
    ∃ s' place, moveThoseAfter pre.length target highs.length s = some s' ∧ s.Moved s' place ∧
      s'.selectionModel.selectedIndices = pre ++ (interval target highs.length ++ post) ∧
      s'.selectionModel.selectedIndices = s.selectionModel.selectedIndices.map place := by
  induction highs generalizing s pre target with
  | nil => exact ⟨s, id, rfl, .refl hm, hsel, by rw [map_id]⟩
  | cons x highs ih =>
    have hx := hhead x rfl
    have hxhi := hmem x mem_cons_self
    rw [length_cons] at hhi
    push_cast at hhi
    have hnonneg := hside.nonneg
    have hcount := hside.le_count
    have hsorted := hm.numbered.increasing
    rw [hsel, pairwise_append, cons_append, pairwise_cons] at hsorted
    obtain ⟨hpreinc, ⟨hxlt, hrest⟩, hprelt⟩ := hsorted
    have hmoved : ∃ s₁ place, (if x ≠ target then s.moveTabContentsAt x target false else some s) = some s₁ ∧
        s.Moved s₁ place ∧ s₁.selectionModel.selectedIndices = (pre ++ [target]) ++ (highs ++ post) ∧
        s₁.selectionModel.selectedIndices = s.selectionModel.selectedIndices.map place := by
      by_cases hne : x = target
      · rw [if_neg (not_not_intro hne)]
        refine ⟨s, id, rfl, .refl hm, ?_, by rw [map_id]⟩
        rw [hsel, hne, append_assoc]
        rfl
      · rw [if_pos hne]
        obtain ⟨s₁, hs₁, hshape, hsel₁⟩ := hside.moveTabContentsAt hm x target (hsel ▸ by simp) (by omega)
          (by omega) hne
        have hmap : s.selectionModel.selectedIndices.map (relocate x target) =
            (pre ++ [target]) ++ (highs ++ post) := by
          have hmapPre : pre.map (relocate x target) = pre := by
            refine (map_congr_left fun y hy => ?_).trans (map_id' _)
            have := hpre y hy
            unfold relocate
            split_ifs <;> omega
          have hmapRest : (highs ++ post).map (relocate x target) = highs ++ post := by
            refine (map_congr_left fun y hy => ?_).trans (map_id' _)
            have := hxlt y hy
            unfold relocate
            split_ifs <;> omega
          rw [hsel, map_append, cons_append, map_cons, hmapPre, hmapRest,
            relocate_self, append_assoc, singleton_append]
        have hnew := hsel₁ _ ?_ (List.Perm.of_eq hmap.symm)
        · exact ⟨s₁, _, hs₁, hshape, hnew, hnew.trans hmap.symm⟩
        · rw [append_assoc, singleton_append, pairwise_append, pairwise_cons]
          refine ⟨hpreinc, ⟨fun y hy => ?_, hrest⟩, fun y hy z hz => ?_⟩
          · have := hxlt y hy
            omega
          · have := hpre y hy
            rcases mem_cons.1 hz with rfl | hz
            · exact this
            · have := hxlt z hz
              omega
    obtain ⟨s₁, place₁, hs₁, hmoved₁, hsel₁, hmap₁⟩ := hmoved
    have hhead' : ∀ y, highs.head? = some y → target + 1 ≤ y := by
      intro y hy
      have := hxlt y (mem_append_left post (List.mem_of_head? hy))
      omega
    have hpre' : ∀ y ∈ pre ++ [target], y < target + 1 := by
      intro y hy
      rcases mem_append.1 hy with hy | hy
      · have := hpre y hy
        omega
      · rw [List.mem_singleton.1 hy]
        omega
    obtain ⟨s', place, hs', hmoved', hsel', hmap'⟩ := ih (by omega) (by omega) hmoved₁.miniFirst
      (hside.of_moved hmoved₁) hsel₁ hpre' hhead' (fun y hy => hmem y (List.mem_cons_of_mem x hy))
    refine ⟨s', _, ?_, hmoved₁.trans hmoved', ?_, by rw [hmap', hmap₁, map_map]⟩
    · rw [length_append, List.length_singleton] at hs'
      rw [length_cons, moveThoseAfter, hsel, getElem?_append_length]
      simp only [cons_append, List.getElem?_cons_zero, bind_eq_bind, bind_some]
      split
      · next hne =>
        rw [if_pos hne] at hs₁
        rw [hs₁, bind_some, hs']
      · next hne =>
        rw [if_neg hne] at hs₁
        cases hs₁
        exact hs'
    · rw [hsel', length_cons, interval, append_assoc, singleton_append, cons_append]

theorem MiniFirst.moveSelectedTabsToImpl (hm : s.MiniFirst) (index : Int) (hside : s.Side lo hi) {part : List Int}
    (hsel : s.selectionModel.selectedIndices = pre ++ (part ++ post)) (hlo : lo ≤ index)
    (hhi : index + part.length ≤ hi) (hpre : ∀ i ∈ pre, i < lo) (hmem : ∀ i ∈ part, lo ≤ i ∧ i < hi)
    (hpost : ∀ i ∈ post, hi ≤ i) :
    ∃ s' place, s.moveSelectedTabsToImpl index pre.length part.length = some s' ∧ s.Moved s' place ∧
      s'.selectionModel.selectedIndices = pre ++ (interval index part.length ++ post) ∧
      s'.selectionModel.selectedIndices = s.selectionModel.selectedIndices.map place := by
  have hdrop : s.selectionModel.selectedIndices.drop pre.length = part ++ post := by
    rw [hsel, List.drop_left]
  obtain ⟨lows, highs, rfl, hcount, hlows, hhead⟩ := s.countBeforeIndex_spec index part post 0 pre.length hdrop
  rw [Nat.cast_zero, add_zero] at hlows
  simp only [Nat.cast_zero, add_zero] at hhead
  rw [Nat.zero_add] at hcount
  rw [length_append] at hhi ⊢
  push_cast at hhi
  have hsorted := hm.numbered.increasing
  rw [hsel, append_assoc, pairwise_append, pairwise_append] at hsorted
  have hrest : (highs ++ post).Pairwise (· < ·) := hsorted.2.1.2.1
  have hhighs : ∀ i ∈ highs ++ post, index + lows.length ≤ i := by
    intro i hi
    cases highs with
    | nil =>
      have := hpost i hi
      rw [List.length_nil] at hhi
      omega
    | cons x highs =>
      have hx := hhead x rfl
      rw [cons_append, pairwise_cons] at hrest
      rcases mem_cons.1 hi with rfl | hi
      · exact hx
      · have := hrest.1 i hi
        omega
  have hsel₀ : s.selectionModel.selectedIndices =
      pre ++ (lows ++ (interval (index + lows.length - (0 : ℕ)) 0 ++ (highs ++ post))) := by
    rw [hsel, interval, nil_append, append_assoc]
  obtain ⟨s₁, place₁, hs₁, hmoved, hsel₁, hmap₁⟩ := moveThoseBefore_spec (by omega) hhighs 0 hm hside hsel₀ hlows
    (by rw [Nat.cast_zero, add_zero]) (fun i hi => (hmem i (mem_append_left highs hi)).1)
  rw [interval, nil_append, ← append_assoc lows, ← hsel, ← hsel₁] at hmap₁
  rw [Nat.zero_add, ← append_assoc] at hsel₁
  have hpre' : ∀ i ∈ pre ++ interval index lows.length, i < index + lows.length := by
    intro i hi
    rcases mem_append.1 hi with hi | hi
    · have := hpre i hi
      omega
    · exact (mem_interval.1 hi).2
  obtain ⟨s', place', hs', hmoved', hsel', hmap'⟩ := moveThoseAfter_spec (by omega) (by omega) hmoved.miniFirst
    (hside.of_moved hmoved) hsel₁ hpre' hhead (fun i hi => (hmem i (List.mem_append_right lows hi)).2)
  refine ⟨s', _, ?_, hmoved.trans hmoved', ?_, by rw [hmap', ← hmap₁, map_map]⟩
  · have htab : pre.length + (lows.length + highs.length) - highs.length =
        (pre ++ interval index lows.length).length := by
      rw [length_append, length_interval]
      omega
    rw [TabStripModel.moveSelectedTabsToImpl, ← length_append, hcount, length_append]
    simp only [bind_eq_bind, bind_some, hs₁]
    rw [htab, hs']
  · rw [hsel', append_assoc, interval_add, append_assoc]

theorem countMini_spec {k : ℕ} (hk : MiniBelow s.contentsData k) (hl : l.Pairwise (· < ·))
    (hmem : ∀ i ∈ l, 0 ≤ i ∧ i < s.count) :
    ∃ minis others, l = minis ++ others ∧ s.countMini l = some minis.length ∧ (∀ i ∈ minis, i < k) ∧
      ∀ i ∈ others, k ≤ i := by
  induction l with
  | nil => exact ⟨[], [], rfl, rfl, fun i hi => (nomatch hi), fun i hi => nomatch hi⟩
  | cons x l ih =>
    rw [pairwise_cons] at hl
    have hx := hmem x mem_cons_self
    obtain ⟨d, hitem, hd⟩ := exists_itemAt (l := s.contentsData) hx
    have hside := hk.2 _ d hd
    obtain ⟨minis, others, rfl, hcount, hminis, hothers⟩ := ih hl.2 fun i hi => hmem i (List.mem_cons_of_mem x hi)
    rw [countMini, isMiniTab, hitem]
    simp only [Option.map_some, bind_eq_bind, bind_some]
    by_cases hmini : d.isMini = true
    · rw [if_pos hmini, hcount]
      refine ⟨x :: minis, others, rfl, rfl, fun i hi => ?_, hothers⟩
      rcases mem_cons.1 hi with rfl | hi
      · have := hside.1 hmini
        omega
      · exact hminis i hi
    · rw [if_neg hmini]
      refine ⟨[], x :: (minis ++ others), rfl, rfl, fun i hi => (nomatch hi), fun i hi => ?_⟩
      have hge := mt hside.2 hmini
      rcases mem_cons.1 hi with rfl | hi
      · omega
      · have := hl.1 i hi
        omega

/-- **The selected tabs are moved to one block of mini-tabs and one of other tabs**, where the index is a place of the
strip without the selected tabs. -/
theorem MiniFirst.moveSelectedTabsTo (hm : s.MiniFirst) {k : ℕ} (hk : MiniBelow s.contentsData k)
    (hindex : 0 ≤ index ∧ index + s.selectionModel.selectedIndices.length ≤ s.count) :
    ∃ (s' : TabStripModel) (place : Int → Int) (m : ℕ), s.moveSelectedTabsTo index = some s' ∧ s.Moved s' place ∧
      m = (s.selectionModel.selectedIndices.filter (· < (k : Int))).length ∧
      s'.selectionModel.selectedIndices = s.selectionModel.selectedIndices.map place ∧
      s'.selectionModel.selectedIndices = interval (min (k - m) index) m ++
        interval (max (if index > k - m then index + m else index) k) (s.selectionModel.selectedIndices.length - m) := by
  have hfirst : s.indexOfFirstNonMiniTab = k := congrArg Nat.cast hk.findIdx_eq
  have hkle : (k : Int) ≤ s.count := Int.ofNat_le.2 hk.1
  have hinc := hm.numbered.increasing
  have hrange := hm.numbered.inRange
  obtain ⟨minis, others, hsel, hcount, hminis, hothers⟩ := countMini_spec hk hinc hrange
  rw [hsel] at hinc hrange
  rw [pairwise_append] at hinc
  have hminisLen : (minis.length : Int) ≤ k := by
    have hplaces : ∀ i ∈ minis, 0 ≤ i ∧ i < (k : Int) :=
      fun i hi => ⟨(hrange i (mem_append_left others hi)).1, hminis i hi⟩
    have := length_le_of_pairwise hinc.1 hplaces (Int.natCast_nonneg k)
    omega
  have hothersLen : (k : Int) + others.length ≤ s.count :=
    length_le_of_pairwise hinc.2.1
      (fun i hi => ⟨hothers i hi, (hrange i (List.mem_append_right minis hi)).2⟩) hkle
  have hsideMini : s.Side 0 k := ⟨le_rfl, hkle, fun i j hi hj => by rw [hfirst]; exact iff_of_true hi.2 hj.2⟩
  have hsideOther : s.Side k s.count :=
    ⟨Int.natCast_nonneg k, le_rfl, fun i j hi hj => by rw [hfirst]; exact iff_of_false (by omega) (by omega)⟩
  have hfilter : s.selectionModel.selectedIndices.filter (· < (k : Int)) = minis := by
    rw [hsel, List.filter_append, List.filter_eq_self.2 fun i hi => decide_eq_true (hminis i hi),
      List.filter_eq_nil_iff.2 fun i hi => by simpa using hothers i hi, append_nil]
  have hlen : s.selectionModel.selectedIndices.length - minis.length = others.length := by
    rw [hsel, length_append, Nat.add_sub_cancel_left]
  rw [hsel, length_append] at hindex
  push_cast at hindex
  -- the mini-tabs come first
  have hfirstPart : ∃ s₁ place₁, (if minis.length > 0 then
        s.moveSelectedTabsToImpl (min (k - minis.length) index) 0 minis.length else some s) = some s₁ ∧
      s.Moved s₁ place₁ ∧
      s₁.selectionModel.selectedIndices = interval (min (k - minis.length) index) minis.length ++ others ∧
      s₁.selectionModel.selectedIndices = s.selectionModel.selectedIndices.map place₁ := by
    split
    · have hsel₀ : s.selectionModel.selectedIndices = [] ++ (minis ++ others) := hsel
      exact hm.moveSelectedTabsToImpl (min (k - minis.length) index) hsideMini hsel₀ (by omega) (by omega)
        (fun i hi => nomatch hi)
        (fun i hi => ⟨(hrange i (mem_append_left others hi)).1, hminis i hi⟩) hothers
    · obtain rfl := List.length_eq_zero_iff.1 (Nat.eq_zero_of_not_pos ‹_›)
      exact ⟨s, id, rfl, .refl hm, hsel, by rw [map_id]⟩
  obtain ⟨s₁, place₁, hs₁, hmoved₁, hsel₁, hmap₁⟩ := hfirstPart
  obtain ⟨index', hindex', htarget⟩ : ∃ index',
      index' = (if minis.length > 0 ∧ index > k - minis.length then index + minis.length else index) ∧
      index' = if index > (k : Int) - minis.length then index + minis.length else index := by
    refine ⟨_, rfl, ?_⟩
    split_ifs <;> omega
  have hsecondPart : ∃ s' place', (if minis.length = s.selectionModel.selectedIndices.length then some s₁
        else s₁.moveSelectedTabsToImpl (max index' k) minis.length
          (s.selectionModel.selectedIndices.length - minis.length)) = some s' ∧ s₁.Moved s' place' ∧
      s'.selectionModel.selectedIndices = interval (min (k - minis.length) index) minis.length ++
        interval (max index' k) others.length ∧
      s'.selectionModel.selectedIndices = s₁.selectionModel.selectedIndices.map place' := by
    split
    · obtain rfl : others = [] := List.length_eq_zero_iff.1 (by omega)
      exact ⟨s₁, id, rfl, .refl hmoved₁.miniFirst, hsel₁, by rw [map_id]⟩
    · rw [← append_nil others] at hsel₁
      obtain ⟨s', place', hs', hmoved', hsel', hmap'⟩ := hmoved₁.miniFirst.moveSelectedTabsToImpl (max index' k)
        (hsideOther.of_moved hmoved₁) hsel₁ (by omega)
        (by rw [htarget]; split_ifs <;> omega) (fun i hi => by have := mem_interval.1 hi; omega)
        (fun i hi => ⟨hothers i hi, (hrange i (List.mem_append_right minis hi)).2⟩)
        (fun i hi => nomatch hi)
      rw [length_interval] at hs'
      rw [append_nil] at hsel'
      rw [hlen]
      exact ⟨s', place', hs', hmoved', hsel', hmap'⟩
  obtain ⟨s', place', hs', hmoved', hsel', hmap'⟩ := hsecondPart
  refine ⟨s', _, minis.length, ?_, hmoved₁.trans hmoved', by rw [hfilter], by rw [hmap', hmap₁, map_map], ?_⟩
  · rw [TabStripModel.moveSelectedTabsTo, hcount]
    simp only [bind_eq_bind, bind_some, hfirst]
    rw [← hindex']
    split
    · next hpos =>
      rw [if_pos hpos] at hs₁
      rw [hs₁, bind_some]
      exact hs'
    · next hpos =>
      rw [if_neg hpos] at hs₁
      cases hs₁
      exact hs'
  · rw [hsel', htarget, hlen]

theorem Invariant.moveSelectedTabsTo (hinv : s.Invariant)
    (hindex : 0 ≤ index ∧ index + s.selectionModel.selectedIndices.length ≤ s.count) :
    ∃ s', s.moveSelectedTabsTo index = some s' ∧ s'.Invariant := by
  obtain ⟨k, hk⟩ := hinv.mini
  obtain ⟨s', place, m, hs', hmoved, -⟩ := hinv.miniFirst.moveSelectedTabsTo hk hindex
  exact ⟨s', hs', hmoved.invariant hinv⟩

/-- **The tabs are in the documented order**: the unselected tabs in theirs, the selected mini-tabs in one block, and the
other selected tabs in one block; the same tabs are selected, and the same tab is active. -/
theorem moveSelectedTabsTo_places {k : ℕ} (hk : MiniBelow s.contentsData k)
    (hsel : s.selectionModel.Numbered s.count)
    (hindex : 0 ≤ index ∧ index + s.selectionModel.selectedIndices.length ≤ s.count) :
    ∃ (s' : TabStripModel) (place : Int → Int) (m : ℕ), s.moveSelectedTabsTo index = some s' ∧
      m = (s.selectionModel.selectedIndices.filter (· < (k : Int))).length ∧
      s'.count = s.count ∧ Function.Injective place ∧
      (∀ i, 0 ≤ i ∧ i < s.count →
        (0 ≤ place i ∧ place i < s.count) ∧ itemAt s'.contentsData (place i) = itemAt s.contentsData i) ∧
      (∀ i j, i ∉ s.selectionModel.selectedIndices → j ∉ s.selectionModel.selectedIndices → i < j →
        place i < place j) ∧
      s'.selectionModel.active = place s.selectionModel.active ∧
      s'.selectionModel.selectedIndices = s.selectionModel.selectedIndices.map place ∧
      s'.selectionModel.selectedIndices = interval (min (k - m) index) m ++
        interval (max (if index > k - m then index + m else index) k)
          (s.selectionModel.selectedIndices.length - m) := by
  obtain ⟨s', place, m, hs', hmoved, hm, hmap, hplaces⟩ := MiniFirst.moveSelectedTabsTo ⟨⟨k, hk⟩, hsel⟩ hk hindex
  exact ⟨s', place, m, hs', hm, hmoved.count, hmoved.injective, hmoved.tabs, hmoved.unselected, hmoved.active, hmap,
    hplaces⟩

/-- A pinned tab and another one, which is selected and moved to the front. -/
theorem moveSelectedTabsTo_places_two : ∃ s', moveSelectedTabsTo
    ⟨[⟨⟨1, false⟩, none, none, false, true, false⟩, .new ⟨2, false⟩], ⟨[1], 1, 1⟩⟩ 0 = some s' ∧
      s'.selectionModel.selectedIndices = [1] := by
  have hmini : MiniBelow [⟨⟨1, false⟩, none, none, false, true, false⟩, .new ⟨2, false⟩] 1 := by
    refine ⟨by decide, fun p d hd => ?_⟩
    match p, hd with
    | 0, rfl => decide
    | 1, rfl => decide
  obtain ⟨s', -, m, hs', rfl, -, -, -, -, -, -, hplaces⟩ := moveSelectedTabsTo_places
    (s := ⟨[⟨⟨1, false⟩, none, none, false, true, false⟩, .new ⟨2, false⟩], ⟨[1], 1, 1⟩⟩) hmini
    ⟨List.pairwise_singleton _ _, by decide, .inr (by decide)⟩ (by decide : (0 : Int) ≤ 0 ∧ (0 : Int) + (1 : ℕ) ≤ (2 : ℕ))
  exact ⟨s', hs', hplaces.trans (by decide)⟩

end TabStripModel

end Chromium.Tabs
