import Chromium.Sync.Syncable.ChildOrder

/-!
# Placing children

`PutPredecessor`, and what is built on it: a new entry, another parent, deleting and undeleting, and purging.  Each
keeps the order of the children (`Ordered`), and the lists say what becomes of it.
-/

namespace Chromium.Sync

open Lib
open Function (update update_apply update_of_ne update_self)

variable {P : Type} {k k' : Kernel P} {h : ℤ} {e e' : EntryKernel P} {id : Id} {order : Id → List Id}

/-! ## Between two neighbours -/

theorem Kernel.found_of_shape (hshape : k'.shape = k.shape) (hfound : k.getEntryById id = some (h, e)) :
    ∃ e', k'.getEntryById id = some (h, e') ∧ e'.parentId = e.parentId ∧ e'.isDel = e.isDel ∧
      e'.specificsFields = e.specificsFields := by
  have hsame : k'.shape id = some (h, e.parentId, e.isDel, e.specificsFields) := by
    rw [hshape, Kernel.shape, hfound]
    rfl
  obtain ⟨⟨h', e'⟩, hfound', heq⟩ := Option.map_eq_some_iff.1 hsame
  simp only [Prod.mk.injEq] at heq
  obtain ⟨rfl, hparent, hdel, hspecifics⟩ := heq
  exact ⟨e', hfound', hparent, hdel, hspecifics⟩

theorem Kernel.Live.found {parentId : Id} (hlive : k.Live id parentId) :
    ∃ h e, k.getEntryById id = some (h, e) ∧ e.parentId = parentId ∧ e.isDel = false := by
  obtain ⟨-, h, specifics, hshape⟩ := hlive
  obtain ⟨⟨h', e⟩, hfound, heq⟩ := Option.map_eq_some_iff.1 hshape
  simp only [Prod.mk.injEq] at heq
  exact ⟨h', e, hfound, heq.2.1, heq.2.2.1⟩

theorem relinks_putLinks (hk : Indexed k) (hfound : k.getEntryById id = some (h, e)) (predecessorId successorId : Id) :
    ∃ k', k.putLinks h predecessorId successorId = some (k', true) ∧
      Relinks k k' (update (k.link .prevId) id predecessorId)
        (update (k.link .nextId) id successorId) := by
  obtain ⟨k₁, hput₁, hlinks₁⟩ := (relinks_putLink hk hfound predecessorId).1
  obtain ⟨e₁, hfound₁, -⟩ := Kernel.found_of_shape hlinks₁.shape hfound
  obtain ⟨k₂, hput₂, hlinks₂⟩ := (relinks_putLink hlinks₁.indexed hfound₁ successorId).2
  refine ⟨k₂, ?_, ?_⟩
  · rw [Kernel.putLinks, hput₁]
    change (k₁.putLink h .nextId successorId).bind (fun k => some (k, true)) = _
    rw [hput₂, Option.bind_some]
  · rw [hlinks₁.prev, hlinks₁.next] at hlinks₂
    exact hlinks₁.trans hlinks₂

theorem relinks_putSuccessor (predecessorId : Id) {successorId : Id} (hk : Indexed k)
    (hfound : k.getEntryById id = some (h, e')) (hid : e.id = id)
    (hsuccessor : successorId ≠ .root → ∃ hs s, k.getEntryById successorId = some (hs, s) ∧ s.parentId = e.parentId) :
    ∃ k', k.putSuccessor h e predecessorId successorId = some (k', true) ∧ Relinks k k'
        (update (if successorId = .root then k.link .prevId
          else update (k.link .prevId) successorId id) id predecessorId)
        (update (k.link .nextId) id successorId) := by
  unfold Kernel.putSuccessor
  split
  · exact relinks_putLinks hk hfound predecessorId successorId
  · rename_i hroot
    obtain ⟨hs, s, hfounds, hparent⟩ := hsuccessor hroot
    rw [hfounds]
    dsimp only
    rw [if_pos hparent, hid]
    obtain ⟨k₁, hput₁, hlinks₁⟩ := (relinks_putLink hk hfounds id).1
    obtain ⟨e₁, hfound₁, -⟩ := Kernel.found_of_shape hlinks₁.shape hfound
    obtain ⟨k₂, hput₂, hlinks₂⟩ := relinks_putLinks hlinks₁.indexed hfound₁ predecessorId successorId
    refine ⟨k₂, ?_, ?_⟩
    · rw [hput₁]
      exact hput₂
    · rw [hlinks₁.prev, hlinks₁.next] at hlinks₂
      exact hlinks₁.trans hlinks₂

/-- **An entry that is loose goes into the list of its parent**, between two neighbours. -/
theorem OrderedBut.place {q : Id} {l r : List Id} (ho : OrderedBut k (· = id) order) (hlive : k.Live id q)
    (hmem : ∀ p, id ∉ order p) (hsplit : order q = l ++ r)
    (hlinks : Relinks k k'
      (update (if after .root r = .root then k.link .prevId
        else update (k.link .prevId) (after .root r) id) id (before .root l))
      (update (if before .root l = .root then k.link .nextId
        else update (k.link .nextId) (before .root l) id) id (after .root r))) :
    Ordered k' (update order q (l ++ id :: r)) := by
  have hlinked := ho.linked q
  rw [hsplit] at hlinked
  have hsibling : ∀ {a}, a ∈ l ∨ a ∈ r → a ≠ id ∧ k.Live a q := by
    intro a ha
    have hin : a ∈ order q := hsplit ▸ List.mem_append.2 ha
    have hne : a ≠ id := fun heq => hmem _ (heq ▸ hin)
    exact ⟨hne, (ho.mem_iff hne _).1 hin⟩
  have hjoin : ∀ {link : Id → Id} {neighbour other a : Id}, a ≠ id → a ≠ .root →
      update (if neighbour = .root then link else update link neighbour id) id other a =
        if a = neighbour then id else link a := by
    intro link neighbour other a hne hroot
    rw [update_of_ne hne]
    split
    · rename_i hn
      rw [if_neg fun heq => hroot (heq.trans hn)]
    · exact update_apply _ _ _ _
  constructor
  · intro p
    rw [hlinks.prev, hlinks.next]
    by_cases hp : p = q
    · subst hp
      rw [update_self]
      refine hlinked.insert (hsplit ▸ hmem p) hlive.1 (update_self _ _ _) (update_self _ _ _)
        (fun b hroot hne => hjoin hne hroot) fun b hroot hne => hjoin hne hroot
    · rw [update_of_ne hp]
      refine (ho.linked p).congr fun a ha => ?_
      have hne : a ≠ id := fun heq => hmem p (heq ▸ ha)
      have hroot : a ≠ .root := fun heq => (ho.linked p).root_notMem (heq ▸ ha)
      have haway : ¬ (a ∈ l ∨ a ∈ r) := fun hin => hp (((ho.mem_iff hne p).1 ha).parent_eq (hsibling hin).2)
      rw [hjoin hne hroot, hjoin hne hroot, if_neg, if_neg]
      · exact ⟨rfl, rfl⟩
      · rintro rfl
        exact haway (.inl (before_mem hroot))
      · rintro rfl
        exact haway (.inr (after_mem hroot))
  · intro id' _ p
    rw [Kernel.live_congr hlinks.shape]
    by_cases hid : id' = id
    · subst hid
      by_cases hp : p = q
      · subst hp
        rw [update_self]
        exact iff_of_true (List.mem_append_right l List.mem_cons_self) hlive
      · rw [update_of_ne hp]
        exact iff_of_false (hmem p) fun hlive' => hp (hlive'.parent_eq hlive)
    · refine Iff.trans ?_ (ho.mem_iff hid p)
      by_cases hp : p = q
      · subst hp
        rw [update_self, hsplit, List.mem_append, List.mem_append, List.mem_cons, or_iff_right hid]
      · rw [update_of_ne hp]
  · intro id' _ hdead
    have hdead' : ∀ p, ¬ k.Live id' p := fun p hl => hdead p ((Kernel.live_congr hlinks.shape).2 hl)
    have hne : id' ≠ id := by
      rintro rfl
      exact hdead' q hlive
    obtain ⟨hprev, hnext⟩ := ho.loops hne hdead'
    rw [hlinks.prev, hlinks.next]
    by_cases hroot : id' = .root
    · have hskip : ∀ {link : Id → Id} {neighbour other : Id},
          update (if neighbour = .root then link else update link neighbour id) id other id' =
            link id' := by
        intro link neighbour other
        rw [update_of_ne hne]
        split
        · rfl
        · rename_i hn
          exact update_of_ne (fun heq => hn (heq.symm.trans hroot)) _ _
      rw [hskip, hskip]
      exact ⟨hprev, hnext⟩
    · rw [hjoin hne hroot, hjoin hne hroot, if_neg, if_neg]
      · exact ⟨hprev, hnext⟩
      · rintro rfl
        exact hdead' q (hsibling (.inl (before_mem hroot))).2
      · rintro rfl
        exact hdead' q (hsibling (.inr (after_mem hroot))).2

/-- Where an entry may be placed: in the front of a list, or after an element. -/
theorem exists_split_of_predecessor {xs : List Id} {predecessorId : Id} (hroot : Id.root ∉ xs)
    (hmem : predecessorId = .root ∨ predecessorId ∈ xs) :
    ∃ l r, xs = l ++ r ∧ before .root l = predecessorId ∧ (predecessorId ≠ .root →
      ∃ l', xs = l' ++ predecessorId :: r) := by
  rcases hmem with rfl | hmem
  · exact ⟨[], xs, rfl, rfl, fun hne => absurd rfl hne⟩
  · obtain ⟨l', r, rfl⟩ := List.append_of_mem hmem
    refine ⟨l' ++ [predecessorId], r, ?_, ?_, fun _ => ⟨l', rfl⟩⟩
    · rw [List.append_assoc, List.singleton_append]
    · rw [before, List.getLast?_concat, Option.getD_some]

/-- **`PutPredecessor`, once the entry is out of its list.** -/
theorem OrderedBut.putPredecessor {k₀ : Kernel P} {predecessorId : Id} (hunlink : k₀.unlinkEntryFromOrder h = some k)
    (ho : OrderedBut k (· = id) order) (hk : Indexed k) (hfound : k.getEntryById id = some (h, e))
    (hdel : e.isDel = false) (hroot : id ≠ .root) (hprev : k.link .prevId id = id) (hnext : k.link .nextId id = id)
    (hmem : ∀ p, id ∉ order p) (hpredecessor : predecessorId = .root ∨ predecessorId ∈ order e.parentId) :
    ∃ k' l r, k₀.putPredecessor h predecessorId = some (k', true) ∧ Indexed k' ∧ k'.shape = k.shape ∧
      order e.parentId = l ++ r ∧ before .root l = predecessorId ∧
      Ordered k' (update order e.parentId (l ++ id :: r)) := by
  obtain ⟨hentry, hid⟩ := hk.getEntryById_eq_some_iff.1 hfound
  have hself : k.Live id e.parentId := by
    refine ⟨hroot, h, e.specificsFields, ?_⟩
    rw [Kernel.shape, hfound, Option.map_some, hdel]
  have hlinked := ho.linked e.parentId
  obtain ⟨l, r, hsplit, hbefore, hafter⟩ := exists_split_of_predecessor hlinked.root_notMem hpredecessor
  have hsibling : ∀ {a}, a ∈ order e.parentId → a ≠ id ∧ k.Live a e.parentId := fun ha =>
    have hne : _ ≠ id := fun heq => hmem _ (heq ▸ ha)
    ⟨hne, (ho.mem_iff hne _).1 ha⟩
  have hsuccessor : ∀ {k₁ : Kernel P}, k₁.shape = k.shape → after .root r ≠ .root →
      ∃ hs s, k₁.getEntryById (after .root r) = some (hs, s) ∧ s.parentId = e.parentId := by
    intro k₁ hshape hne
    have hlive := (hsibling (hsplit ▸ List.mem_append_right l (after_mem hne))).2
    obtain ⟨hs, s, hfounds, hparent, -⟩ := ((Kernel.live_congr hshape).2 hlive).found
    exact ⟨hs, s, hfounds, hparent⟩
  rw [Kernel.putPredecessor, hunlink]
  change ∃ k' l r, ((k.getEntryByHandle h).bind fun e => _) = some (k', true) ∧ _
  rw [hentry, Option.bind_some, hdel, if_neg Bool.false_ne_true]
  by_cases hfront : predecessorId = .root
  · have hl : l = [] := by
      refine eq_nil_of_before_eq_root (fun hin => hlinked.root_notMem ?_) (hbefore.trans hfront)
      exact hsplit ▸ List.mem_append_left r hin
    have hfirst : k.getFirstChildId e.parentId = some (after .root r) := by
      rw [(ho.childId_spec hk e.parentId fun id' heq => heq ▸ ⟨hmem _, hprev, hnext⟩).1, hsplit, hl, List.nil_append]
    obtain ⟨k', hput, hlinks⟩ := relinks_putSuccessor predecessorId hk hfound hid (hsuccessor rfl)
    refine ⟨k', l, r, ?_, hlinks.indexed, hlinks.shape, hsplit, hbefore, ho.place hself hmem hsplit ?_⟩
    · rw [if_pos hfront, hfirst]
      exact hput
    · rw [hbefore, if_pos hfront]
      exact hlinks
  · have hin := hpredecessor.resolve_left hfront
    obtain ⟨l', hsplit'⟩ := hafter hfront
    obtain ⟨hp, p, hfoundp, hparent, -⟩ := (hsibling hin).2.found
    have hnextp : p.nextId = after .root r := by
      rw [hsplit'] at hlinked
      exact (Kernel.link_of_found hfoundp).symm.trans hlinked.links.2
    obtain ⟨k₁, hput₁, hlinks₁⟩ := (relinks_putLink hk hfoundp id).2
    obtain ⟨e₁, hfound₁, -⟩ := Kernel.found_of_shape hlinks₁.shape hfound
    obtain ⟨k', hput, hlinks⟩ := relinks_putSuccessor predecessorId hlinks₁.indexed hfound₁ hid
      (hsuccessor hlinks₁.shape)
    rw [hlinks₁.prev, hlinks₁.next] at hlinks
    have hboth := hlinks₁.trans hlinks
    refine ⟨k', l, r, ?_, hboth.indexed, hboth.shape, hsplit, hbefore, ho.place hself hmem hsplit ?_⟩
    · rw [if_neg hfront, hfoundp]
      dsimp only
      rw [if_pos hparent, hid, hnextp, hput₁]
      exact hput
    · rw [hbefore, if_neg hfront]
      exact hboth

/-! ## Entries that change otherwise -/

theorem OrderedBut.settle (ho : OrderedBut k (· = id) order) (hmem : ∀ p, id ∉ order p) (hdead : ∀ p, ¬ k.Live id p)
    (hprev : k.link .prevId id = id) (hnext : k.link .nextId id = id) : Ordered k order where
  linked := ho.linked
  mem_iff {id'} _ p := by
    by_cases heq : id' = id
    · exact heq ▸ iff_of_false (hmem p) (hdead p)
    · exact ho.mem_iff heq p
  loops {id'} _ hdead' := by
    by_cases heq : id' = id
    · exact heq ▸ ⟨hprev, hnext⟩
    · exact ho.loops heq hdead'

theorem OrderedBut.congr (ho : OrderedBut k (· = id) order)
    (hlink : ∀ id', id' ≠ id ∨ (∃ p, id' ∈ order p) →
      k'.link .prevId id' = k.link .prevId id' ∧ k'.link .nextId id' = k.link .nextId id')
    (hshape : ∀ id', id' ≠ id → k'.shape id' = k.shape id') : OrderedBut k' (· = id) order := by
  have hlive : ∀ {id' p}, id' ≠ id → (k'.Live id' p ↔ k.Live id' p) := by
    intro id' p hne
    rw [Kernel.Live, Kernel.Live, hshape id' hne]
  constructor
  · exact fun p => (ho.linked p).congr fun a ha => hlink a (.inr ⟨p, ha⟩)
  · exact fun hne p => (ho.mem_iff hne p).trans (hlive hne).symm
  · intro id' hne hdead
    rw [(hlink id' (.inl hne)).1, (hlink id' (.inl hne)).2]
    exact ho.loops hne fun p hl => hdead p ((hlive hne).2 hl)

/-- An operation that changes one entry, but for its links. -/
structure Reshapes (k k' : Kernel P) (id : Id) (h : ℤ) (e : EntryKernel P) : Prop where
  indexed : Indexed k'
  found : k'.getEntryById id = some (h, e)
  prev : k'.link .prevId = k.link .prevId
  next : k'.link .nextId = k.link .nextId
  shape : ∀ id', id' ≠ id → k'.shape id' = k.shape id'

theorem Reshapes.orderedBut (hk : Reshapes k k' id h e) (ho : OrderedBut k (· = id) order) :
    OrderedBut k' (· = id) order :=
  ho.congr (fun id' _ => ⟨congrFun hk.prev id', congrFun hk.next id'⟩) hk.shape

/-- **An entry is changed, with its place in the index of the children.** -/
theorem reshapes_reindex (e' : EntryKernel P) (hk : Indexed k) (hfound : k.getEntryById id = some (h, e)) (hid : e'.id = e.id)
    (hmeta : e'.metaHandle = e.metaHandle) (hprev : e'.prevId = e.prevId) (hnext : e'.nextId = e.nextId) :
    ∃ index, parentIdAndHandleIndexer.reindex k.parentIdChildIndex h e e' = some index ∧
      Reshapes k ({ k with parentIdChildIndex := index }.markDirty h e') id h { e' with dirty := true } := by
  obtain ⟨hentry, hid₀⟩ := hk.getEntryById_eq_some_iff.1 hfound
  obtain ⟨index, hindex, hconsistent, hsorted⟩ :=
    Indexer.reindex_spec hk.children hk.sorted hentry (hk.children_free hentry hid)
  refine ⟨index, hindex, ?_⟩
  have hentries : ({ k with parentIdChildIndex := index }.markDirty h e').getEntryByHandle =
      update k.getEntryByHandle h (some { e' with dirty := true }) := k.getEntryByHandle_set h _
  have hk' : Indexed ({ k with parentIdChildIndex := index }.markDirty h e') := by
    refine hk.change { e' with dirty := true } hentry hmeta hid hentries rfl ?_ hsorted rfl rfl
    have hmarked := hconsistent.congr { e' with dirty := true } (update_self _ _ _) rfl rfl
    rw [Function.update_idem] at hmarked
    rw [hentries]
    exact hmarked
  have hfind := hk.getEntryById_change { e' with dirty := true } hk' hfound hid hentries
  have hlink : ∀ {field}, e'.idFields field = e.idFields field →
      ({ k with parentIdChildIndex := index }.markDirty h e').link field = k.link field := by
    intro field hfield
    funext id'
    rw [Kernel.link, hfind, update_apply]
    split
    · rename_i heq
      rw [heq, Kernel.link_of_found hfound]
      exact hfield
    · rfl
  refine ⟨hk', ?_, hlink hprev, hlink hnext, fun id' hne => ?_⟩
  · rw [hfind, update_self]
  · rw [Kernel.shape, hfind, update_of_ne hne]
    rfl

theorem reshapes_setIsDel (hk : Indexed k) (hfound : k.getEntryById id = some (h, e)) (isDel : Bool) :
    ∃ k' e', k.setIsDel h isDel = some k' ∧ Reshapes k k' id h e' ∧ e'.isDel = isDel ∧ e'.parentId = e.parentId := by
  obtain ⟨hentry, -⟩ := hk.getEntryById_eq_some_iff.1 hfound
  obtain ⟨index, hindex, hreshapes⟩ := reshapes_reindex { e with isDel := isDel } hk hfound rfl rfl rfl rfl
  refine ⟨_, _, ?_, hreshapes, rfl, rfl⟩
  rw [Kernel.setIsDel, hentry]
  change (parentIdAndHandleIndexer.reindex k.parentIdChildIndex h e { e with isDel := isDel }).bind _ = _
  rw [hindex, Option.bind_some]

theorem reshapes_putParentIdPropertyOnly (hk : Indexed k) (hfound : k.getEntryById id = some (h, e)) (parentId : Id) :
    ∃ k' e', k.putParentIdPropertyOnly h parentId = some k' ∧ Reshapes k k' id h e' ∧ e'.isDel = e.isDel ∧
      e'.parentId = parentId := by
  obtain ⟨hentry, -⟩ := hk.getEntryById_eq_some_iff.1 hfound
  obtain ⟨index, hindex, hreshapes⟩ := reshapes_reindex (e.putId .parentId parentId) hk hfound rfl rfl rfl rfl
  refine ⟨_, _, ?_, hreshapes, rfl, rfl⟩
  rw [Kernel.putParentIdPropertyOnly, hentry]
  change (parentIdAndHandleIndexer.reindex k.parentIdChildIndex h e (e.putId .parentId parentId)).bind _ = _
  rw [hindex, Option.bind_some]

end Chromium.Sync
