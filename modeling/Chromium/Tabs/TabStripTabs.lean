import Chromium.Lib.Positions
import Chromium.Tabs.TabStripModel

/-!
# The tabs of a strip

Two facts about the tabs by their positions.  `MiniBelow l k`: the mini-tabs are the first `k` tabs.  `References l`:
an opener or a group is the controller of another tab of the strip.  Each edit keeps them with the right `k`, and
forgetting openers keeps both.
-/

namespace Chromium.Tabs

open Lib

variable {l l' : List TabContentsData} {d d' e : TabContentsData} {i j k p source target : ℕ}

variable {f : TabContentsData → TabContentsData}

/-- The tab was opened by the tab of `c`, or is in its group. -/
def TabContentsData.Refers (d : TabContentsData) (c : NavigationController) : Prop :=
  d.opener = some c ∨ d.group = some c

/-- The mini-tabs are the first `k` tabs. -/
def MiniBelow (l : List TabContentsData) (k : ℕ) : Prop :=
  k ≤ l.length ∧ ∀ p d, l[p]? = some d → (d.isMini = true ↔ p < k)

def References (l : List TabContentsData) : Prop :=
  ∀ (p : ℕ) (d : TabContentsData) (c : NavigationController), l[p]? = some d → d.Refers c →
    ∃ (q : ℕ) (e : TabContentsData), q ≠ p ∧ l[q]? = some e ∧ e.contents.controller = c

/-! ## Forgetting -/

/-- What forgetting openers and groups may change of a tab. -/
structure TabContentsData.Forgets (d d' : TabContentsData) : Prop where
  contents : d'.contents = d.contents
  pinned : d'.pinned = d.pinned
  refers : ∀ c, d'.Refers c → d.Refers c

theorem TabContentsData.Forgets.isMini (h : d.Forgets d') : d'.isMini = d.isMini := by
  rw [TabContentsData.isMini, h.pinned, h.contents]
  rfl

theorem TabContentsData.Forgets.refl (d : TabContentsData) : d.Forgets d := ⟨rfl, rfl, fun _ h => h⟩

theorem TabContentsData.forgets_forgetOpener (d : TabContentsData) : d.Forgets d.forgetOpener := by
  refine ⟨rfl, rfl, fun c h => .inr ?_⟩
  rcases h with h | h
  · exact absurd h (by simp [forgetOpener])
  · exact h

theorem TabContentsData.forgets_setGroup (d : TabContentsData) : d.Forgets (d.setGroup none).forgetOpener := by
  refine ⟨rfl, rfl, fun c h => ?_⟩
  rcases h with h | h
  · exact absurd h (by simp [forgetOpener])
  · exact absurd h (by simp [forgetOpener, setGroup])

theorem TabContentsData.forgets_discarded (d : TabContentsData) : d.Forgets { d with discarded := false } :=
  ⟨rfl, rfl, fun _ hc => hc⟩

theorem TabContentsData.refers_forgetReferencing {tab c : NavigationController}
    (h : (d.forgetReferencing tab).Refers c) : d.Refers c ∧ c ≠ tab := by
  unfold Refers forgetReferencing at h
  unfold Refers
  grind

theorem TabContentsData.forgets_forgetReferencing (tab : NavigationController) (d : TabContentsData) :
    d.Forgets (d.forgetReferencing tab) :=
  ⟨rfl, rfl, fun _ hc => (refers_forgetReferencing hc).1⟩

structure Forgets (l l' : List TabContentsData) : Prop where
  length_eq : l'.length = l.length
  at_pos : ∀ (p : ℕ) (d d' : TabContentsData), l[p]? = some d → l'[p]? = some d' → d.Forgets d'

theorem Forgets.refl (l : List TabContentsData) : Forgets l l := by
  refine ⟨rfl, fun p d d' hd hd' => ?_⟩
  obtain rfl := Option.some.inj (hd.symm.trans hd')
  exact .refl d

theorem Forgets.before (h : Forgets l l') (hd' : l'[p]? = some d') : ∃ d, l[p]? = some d ∧ d.Forgets d' := by
  obtain ⟨hlt, -⟩ := List.getElem?_eq_some_iff.1 hd'
  have hd := List.getElem?_eq_getElem (h.length_eq ▸ hlt)
  exact ⟨_, hd, h.at_pos p _ _ hd hd'⟩

theorem Forgets.after (h : Forgets l l') (hd : l[p]? = some d) : ∃ d', l'[p]? = some d' ∧ d.Forgets d' := by
  obtain ⟨hlt, -⟩ := List.getElem?_eq_some_iff.1 hd
  have hd' := List.getElem?_eq_getElem (h.length_eq.symm ▸ hlt)
  exact ⟨_, hd', h.at_pos p _ _ hd hd'⟩

theorem Forgets.trans {l'' : List TabContentsData} (h : Forgets l l') (h' : Forgets l' l'') : Forgets l l'' := by
  refine ⟨h'.length_eq.trans h.length_eq, fun p d d'' hd hd'' => ?_⟩
  obtain ⟨d', hd', hforgets⟩ := h.after hd
  have hforgets' := h'.at_pos p d' d'' hd' hd''
  exact ⟨hforgets'.contents.trans hforgets.contents, hforgets'.pinned.trans hforgets.pinned,
    fun c hc => hforgets.refers c (hforgets'.refers c hc)⟩

theorem forgets_map (hf : ∀ d : TabContentsData, d.Forgets (f d)) (l : List TabContentsData) :
    Forgets l (l.map f) := by
  refine ⟨List.length_map f, fun p d d' hd hd' => ?_⟩
  rw [List.getElem?_map, hd] at hd'
  cases hd'
  exact hf d

theorem forgets_modify (hf : ∀ d : TabContentsData, d.Forgets (f d)) (l : List TabContentsData)
    (i : ℕ) : Forgets l (l.modify i f) := by
  refine ⟨List.length_modify .., fun p d d' hd hd' => ?_⟩
  rw [List.getElem?_modify, hd] at hd'
  cases hd'
  split
  · exact hf d
  · exact .refl d

theorem MiniBelow.of_at (h : MiniBelow l k) (hlen : l'.length = l.length)
    (hat : ∀ (p : ℕ) (d' : TabContentsData), l'[p]? = some d' → ∃ d, l[p]? = some d ∧ d'.isMini = d.isMini) :
    MiniBelow l' k := by
  refine ⟨hlen ▸ h.1, fun p d' hd' => ?_⟩
  obtain ⟨d, hd, hmini⟩ := hat p d' hd'
  rw [hmini]
  exact h.2 p d hd

theorem References.of_at (h : References l) (hlen : l'.length = l.length)
    (hat : ∀ (p : ℕ) (d' : TabContentsData), l'[p]? = some d' →
      ∃ d, l[p]? = some d ∧ d'.contents = d.contents ∧ ∀ c, d'.Refers c → d.Refers c) : References l' := by
  intro p d' c hd' hc
  obtain ⟨d, hd, -, hrefers⟩ := hat p d' hd'
  obtain ⟨q, e, hne, he, hcontroller⟩ := h p d c hd (hrefers c hc)
  have he' := List.getElem?_eq_getElem (hlen.symm ▸ (List.getElem?_eq_some_iff.1 he).1 : q < l'.length)
  obtain ⟨e₀, he₀, hcontents, -⟩ := hat q _ he'
  obtain rfl := Option.some.inj (he.symm.trans he₀)
  exact ⟨q, _, hne, he', by rw [hcontents, hcontroller]⟩

theorem Forgets.miniBelow (h : Forgets l l') (hl : MiniBelow l k) : MiniBelow l' k := by
  refine hl.of_at h.length_eq fun p d' hd' => ?_
  obtain ⟨d, hd, hforgets⟩ := h.before hd'
  exact ⟨d, hd, hforgets.isMini⟩

theorem Forgets.references (h : Forgets l l') (hl : References l) : References l' := by
  refine hl.of_at h.length_eq fun p d' hd' => ?_
  obtain ⟨d, hd, hforgets⟩ := h.before hd'
  exact ⟨d, hd, hforgets.contents, hforgets.refers⟩

/-! ## Pinning -/

theorem getElem?_modify_cases (hd' : (l.modify i f)[p]? = some d') :
    ∃ d, l[p]? = some d ∧ (p = i ∧ d' = f d ∨ p ≠ i ∧ d' = d) := by
  rw [List.getElem?_modify] at hd'
  obtain ⟨d, hd, rfl⟩ := Option.map_eq_some_iff.1 hd'
  refine ⟨d, hd, ?_⟩
  split
  · next h => exact .inl ⟨h.symm, rfl⟩
  · next h => exact .inr ⟨Ne.symm h, rfl⟩

theorem References.modify_setPinned (h : References l) (i : ℕ) (pinned : Bool) :
    References (l.modify i (·.setPinned pinned)) := by
  refine h.of_at (List.length_modify ..) fun p d' hd' => ?_
  obtain ⟨d, hd, ⟨-, rfl⟩ | ⟨-, rfl⟩⟩ := getElem?_modify_cases hd'
  · exact ⟨d, hd, rfl, fun c hc => hc⟩
  · exact ⟨_, hd, rfl, fun c hc => hc⟩

theorem MiniBelow.modify_setPinned (h : MiniBelow l k) (hd : l[i]? = some d) (happ : d.contents.isApp = true)
    (pinned : Bool) : MiniBelow (l.modify i (·.setPinned pinned)) k := by
  refine h.of_at (List.length_modify ..) fun p e' he' => ?_
  obtain ⟨e, he, ⟨rfl, rfl⟩ | ⟨-, rfl⟩⟩ := getElem?_modify_cases he'
  · obtain rfl := Option.some.inj (hd.symm.trans he)
    refine ⟨d, hd, ?_⟩
    rw [TabContentsData.isMini, TabContentsData.isMini, TabContentsData.setPinned, happ, Bool.or_true, Bool.or_true]
  · exact ⟨_, he, rfl⟩

theorem modify_eq_insertIdx (hd : l[i]? = some d) (f : TabContentsData → TabContentsData) :
    l.modify i f = (l.eraseIdx i).insertIdx i (f d) := by
  obtain ⟨hlt, -⟩ := List.getElem?_eq_some_iff.1 hd
  have hle : i ≤ (l.eraseIdx i).length := by
    rw [List.length_eraseIdx_of_lt hlt]
    omega
  refine List.ext_getElem? fun p => ?_
  by_cases hp : i = p
  · rw [← hp, List.getElem?_modify_eq, hd, getElem?_insertIdx_at hle]
    rfl
  · rw [List.getElem?_modify_ne _ _ hp, ← up_down (Ne.symm hp), getElem?_insertIdx_up, getElem?_eraseIdx_eq_up]

/-! ## Inserting -/

theorem getElem?_insertIdx_cases (hi : i ≤ l.length) (hd : (l.insertIdx i e)[p]? = some d) :
    p = i ∧ d = e ∨ ∃ q, p = up i q ∧ l[q]? = some d := by
  by_cases hp : p = i
  · rw [hp, getElem?_insertIdx_at hi] at hd
    exact .inl ⟨hp, (Option.some.inj hd).symm⟩
  · rw [← up_down hp, getElem?_insertIdx_up] at hd
    exact .inr ⟨_, (up_down hp).symm, hd⟩

theorem MiniBelow.insertIdx_mini (h : MiniBelow l k) (he : e.isMini = true) (hi : i ≤ k) :
    MiniBelow (l.insertIdx i e) (k + 1) := by
  have hle := h.1
  refine ⟨?_, fun p d hd => ?_⟩
  · rw [List.length_insertIdx_of_le_length (by omega)]
    omega
  · rcases getElem?_insertIdx_cases (by omega) hd with ⟨rfl, rfl⟩ | ⟨q, rfl, hq⟩
    · exact iff_of_true he (by omega)
    · rw [h.2 q d hq]
      unfold up
      split <;> omega

theorem MiniBelow.insertIdx_of_not (h : MiniBelow l k) (he : e.isMini = false) (hi : k ≤ i) (hlen : i ≤ l.length) :
    MiniBelow (l.insertIdx i e) k := by
  refine ⟨?_, fun p d hd => ?_⟩
  · rw [List.length_insertIdx_of_le_length hlen]
    exact Nat.le_succ_of_le h.1
  · rcases getElem?_insertIdx_cases hlen hd with ⟨rfl, rfl⟩ | ⟨q, rfl, hq⟩
    · exact iff_of_false (by rw [he]; exact Bool.false_ne_true) (by omega)
    · rw [h.2 q d hq]
      unfold up
      split <;> omega

theorem References.insertIdx (h : References l) (hi : i ≤ l.length)
    (he : ∀ c, e.Refers c → ∃ d ∈ l, d.contents.controller = c) : References (l.insertIdx i e) := by
  intro p d c hd hc
  rcases getElem?_insertIdx_cases hi hd with ⟨rfl, rfl⟩ | ⟨q, rfl, hq⟩
  · obtain ⟨d', hmem, hcontroller⟩ := he c hc
    obtain ⟨r, hr⟩ := List.mem_iff_getElem?.1 hmem
    exact ⟨up p r, d', up_ne p r, by rw [getElem?_insertIdx_up, hr], hcontroller⟩
  · obtain ⟨r, d', hne, hr, hcontroller⟩ := h q d c hq hc
    exact ⟨up i r, d', fun heq => hne (up_inj heq), by rw [getElem?_insertIdx_up, hr], hcontroller⟩

/-! ## Detaching -/

theorem MiniBelow.eraseIdx (h : MiniBelow l k) (hi : i < l.length) :
    MiniBelow (l.eraseIdx i) (if i < k then k - 1 else k) := by
  have hle := h.1
  refine ⟨?_, fun p d hd => ?_⟩
  · rw [List.length_eraseIdx_of_lt hi]
    split <;> omega
  · rw [getElem?_eraseIdx_eq_up] at hd
    rw [h.2 _ d hd]
    unfold up
    split_ifs <;> omega

/-- **A detached tab is forgotten**: the others refer to tabs that are left. -/
theorem References.eraseIdx (h : References l) (hd : l[i]? = some d) :
    References ((l.eraseIdx i).map (·.forgetReferencing d.contents.controller)) := by
  intro p f' c hf' hc
  rw [List.getElem?_map, getElem?_eraseIdx_eq_up] at hf'
  obtain ⟨f, hf, rfl⟩ := Option.map_eq_some_iff.1 hf'
  obtain ⟨hrefers, hother⟩ := TabContentsData.refers_forgetReferencing hc
  obtain ⟨q, e, hne, he, hcontroller⟩ := h _ f c hf hrefers
  have hqi : q ≠ i := by
    rintro rfl
    obtain rfl := Option.some.inj (hd.symm.trans he)
    exact hother hcontroller.symm
  refine ⟨down i q, e.forgetReferencing d.contents.controller, fun heq => hne ?_, ?_, hcontroller⟩
  · rw [← up_down hqi, heq]
  · rw [List.getElem?_map, getElem?_eraseIdx_eq_up, up_down hqi, he]
    rfl

theorem MiniBelow.map_forgetReferencing (h : MiniBelow l k) (tab : NavigationController) :
    MiniBelow (l.map (·.forgetReferencing tab)) k :=
  (forgets_map (TabContentsData.forgets_forgetReferencing tab) l).miniBelow h

/-! ## Moving -/

theorem References.move (h : References l) (hd : l[source]? = some d) (ht : target < l.length) :
    References ((l.eraseIdx source).insertIdx target d) := by
  intro p f c hf hc
  rw [getElem?_move hd ht] at hf
  obtain ⟨q, e, hne, he, hcontroller⟩ := h _ f c hf hc
  refine ⟨origin target source q, e, fun heq => hne ?_, ?_, hcontroller⟩
  · rw [← heq, origin_origin]
  · rw [getElem?_move hd ht, origin_origin, he]

/-- **A move on one side of the boundary** leaves the mini-tabs in front. -/
theorem MiniBelow.move (h : MiniBelow l k) (hd : l[source]? = some d) (ht : target < l.length)
    (hside : source < k ↔ target < k) : MiniBelow ((l.eraseIdx source).insertIdx target d) k := by
  obtain ⟨hs, -⟩ := List.getElem?_eq_some_iff.1 hd
  refine ⟨by rw [length_move hs ht]; exact h.1, fun p f hf => ?_⟩
  rw [getElem?_move hd ht] at hf
  rw [h.2 _ f hf]
  unfold origin up down
  split_ifs <;> omega

theorem MiniBelow.move_pinned (h : MiniBelow l k) (hd : l[source]? = some d) (hs : k ≤ source)
    (hd' : d'.isMini = true) :
    MiniBelow ((l.eraseIdx source).insertIdx k d') (k + 1) := by
  obtain ⟨hlt, -⟩ := List.getElem?_eq_some_iff.1 hd
  have herase := h.eraseIdx hlt
  rw [if_neg (by omega)] at herase
  exact herase.insertIdx_mini hd' le_rfl

theorem MiniBelow.move_unpinned (h : MiniBelow l k) (hd : l[source]? = some d) (hs : source < k)
    (hd' : d'.isMini = false) :
    MiniBelow ((l.eraseIdx source).insertIdx (k - 1) d') (k - 1) := by
  obtain ⟨hlt, -⟩ := List.getElem?_eq_some_iff.1 hd
  have hle := h.1
  have herase := h.eraseIdx hlt
  rw [if_pos hs] at herase
  refine herase.insertIdx_of_not hd' le_rfl ?_
  rw [List.length_eraseIdx_of_lt hlt]
  omega

theorem MiniBelow.findIdx_eq (h : MiniBelow l k) : l.findIdx (fun d => !d.isMini) = k := by
  rcases Nat.lt_or_ge k l.length with hk | hk
  · rw [List.findIdx_eq hk]
    refine ⟨?_, fun j hj => ?_⟩
    · rw [Bool.not_eq_true', ← Bool.not_eq_true, h.2 k _ (List.getElem?_eq_getElem hk)]
      exact lt_irrefl k
    · rw [Bool.not_eq_false', h.2 j _ (List.getElem?_eq_getElem (by omega))]
      exact hj
  · obtain rfl : k = l.length := le_antisymm h.1 hk
    rw [List.findIdx_eq_length]
    intro d hd
    obtain ⟨p, hp⟩ := List.mem_iff_getElem?.1 hd
    rw [Bool.not_eq_false', h.2 p d hp]
    exact (List.getElem?_eq_some_iff.1 hp).1

end Chromium.Tabs
