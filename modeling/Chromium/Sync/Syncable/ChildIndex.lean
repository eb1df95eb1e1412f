import Chromium.Sync.Syncable.Edits

/-!
# The indices of a sync directory

`Indexed k`: the index of the ids and the index of the children have what their indexers include of the entries, and
nothing else.  Then an id finds its entry (`Indexed.getEntryById_eq_some_iff`), and a `ScopedIndexUpdater` around an
entry whose new key is free does not fail (`Indexer.reindex_spec`).
-/

namespace Chromium.Sync

open Lib
open Function (update update_apply update_of_ne update_self)

variable {P K : Type} [LinearOrder K] {I : Indexer P K} {index : List (K × ℤ)} {entries : ℤ → Option (EntryKernel P)}
  {h : ℤ} {e e' : EntryKernel P} {k k' : Kernel P} {id : Id}

/-! ## One index -/

namespace Indexer

def Consistent (I : Indexer P K) (index : List (K × ℤ)) (entries : ℤ → Option (EntryKernel P)) : Prop :=
  ∀ key h, SortedMap.get? key index = some h ↔ ∃ e, entries h = some e ∧ I.shouldInclude e = true ∧ I.key e = key

def Free (I : Indexer P K) (entries : ℤ → Option (EntryKernel P)) (h : ℤ) (e : EntryKernel P) : Prop :=
  ∀ h' e', h' ≠ h → entries h' = some e' → I.shouldInclude e' = true → I.key e' ≠ I.key e

theorem Consistent.inj (hc : I.Consistent index entries) {h' : ℤ} (hentry : entries h = some e)
    (hentry' : entries h' = some e') (hin : I.shouldInclude e = true) (hin' : I.shouldInclude e' = true)
    (hkey : I.key e = I.key e') : h = h' := by
  have hget := (hc (I.key e') h).2 ⟨e, hentry, hin, hkey⟩
  have hget' := (hc (I.key e') h').2 ⟨e', hentry', hin', rfl⟩
  exact Option.some.inj (hget.symm.trans hget')

theorem Consistent.erase (hc : I.Consistent index entries) (hentry : entries h = some e) (hfree : I.Free entries h e) :
    I.Consistent (SortedMap.erase (I.key e) index) (update entries h none) := by
  intro key h'
  rw [SortedMap.get?_erase]
  constructor
  · intro hget
    split at hget
    · cases hget
    · rename_i hne
      obtain ⟨e', hentry', hin', hkey'⟩ := (hc key h').1 hget
      refine ⟨e', ?_, hin', hkey'⟩
      rw [update_of_ne, hentry']
      rintro rfl
      rw [hentry] at hentry'
      cases hentry'
      exact hne hkey'
  · rintro ⟨e', hentry', hin', hkey'⟩
    by_cases heq : h' = h
    · rw [heq, update_self] at hentry'
      cases hentry'
    · rw [update_of_ne heq] at hentry'
      rw [if_neg fun hkey => hfree h' e' heq hentry' hin' (hkey'.trans hkey.symm)]
      exact (hc key h').2 ⟨e', hentry', hin', hkey'⟩

theorem Consistent.forget (hc : I.Consistent index entries) (hentry : ∀ e, entries h = some e → I.shouldInclude e = false) :
    I.Consistent index (update entries h none) := by
  intro key h'
  refine (hc key h').trans ⟨?_, ?_⟩
  all_goals rintro ⟨e', hentry', hin', hkey'⟩
  · refine ⟨e', ?_, hin', hkey'⟩
    rw [update_of_ne, hentry']
    rintro rfl
    rw [hentry e' hentry'] at hin'
    cases hin'
  · by_cases heq : h' = h
    · rw [heq, update_self] at hentry'
      cases hentry'
    · rw [update_of_ne heq] at hentry'
      exact ⟨e', hentry', hin', hkey'⟩

theorem Consistent.set (hc : I.Consistent index (update entries h none)) (hin : I.shouldInclude e = true)
    (hfree : I.Free entries h e) :
    I.Consistent (SortedMap.set (I.key e) h index) (update entries h (some e)) := by
  intro key h'
  rw [SortedMap.get?_set]
  by_cases hkey : I.key e = key
  · rw [if_pos hkey]
    constructor
    · intro heq
      cases heq
      exact ⟨e, update_self h (some e) entries, hin, hkey⟩
    · rintro ⟨e', hentry', hin', hkey'⟩
      by_contra hne
      have hne' : h' ≠ h := fun heq => hne (congrArg some heq.symm)
      rw [update_of_ne hne'] at hentry'
      exact hfree h' e' hne' hentry' hin' (hkey'.trans hkey.symm)
  · rw [if_neg hkey]
    refine (hc key h').trans ?_
    by_cases heq : h' = h
    · subst heq
      constructor
      · rintro ⟨e', hentry', -⟩
        rw [update_self] at hentry'
        cases hentry'
      · rintro ⟨e', hentry', -, hkey'⟩
        rw [update_self] at hentry'
        cases hentry'
        exact absurd hkey' hkey
    · rw [update_of_ne heq, update_of_ne heq]

theorem Consistent.skip (hc : I.Consistent index (update entries h none)) (hout : I.shouldInclude e = false) :
    I.Consistent index (update entries h (some e)) := by
  intro key h'
  refine (hc key h').trans ?_
  by_cases heq : h' = h
  · subst heq
    rw [update_self, update_self]
    constructor
    · rintro ⟨e', hentry', -⟩
      cases hentry'
    · rintro ⟨e', hentry', hin', -⟩
      cases hentry'
      rw [hout] at hin'
      cases hin'
  · rw [update_of_ne heq, update_of_ne heq]

theorem Consistent.congr (e' : EntryKernel P) (hc : I.Consistent index entries) (hentry : entries h = some e)
    (hin : I.shouldInclude e' = I.shouldInclude e) (hkey : I.key e' = I.key e) :
    I.Consistent index (update entries h (some e')) := by
  intro key h'
  refine (hc key h').trans ?_
  by_cases heq : h' = h
  · subst heq
    rw [hentry, update_self]
    constructor
    all_goals rintro ⟨e'', hentry'', hin'', hkey''⟩
    · cases hentry''
      exact ⟨e', rfl, hin.trans hin'', hkey.trans hkey''⟩
    · cases hentry''
      exact ⟨e, rfl, hin.symm.trans hin'', hkey.symm.trans hkey''⟩
  · rw [update_of_ne heq]

/-- **A `ScopedIndexUpdater` does not fail**, when the new key of the entry is free. -/
theorem reindex_spec (hc : I.Consistent index entries) (hsorted : SortedMap.Sorted index) (hentry : entries h = some e)
    (hfree : I.Free entries h e') :
    ∃ index', I.reindex index h e e' = some index' ∧ I.Consistent index' (update entries h (some e')) ∧
      SortedMap.Sorted index' := by
  have herase : ∃ index₁, I.erase index e = some index₁ ∧ I.Consistent index₁ (update entries h none) ∧
      SortedMap.Sorted index₁ := by
    unfold Indexer.erase
    split
    · rename_i hin
      have hget := (hc (I.key e) h).2 ⟨e, hentry, hin, rfl⟩
      rw [hget]
      refine ⟨_, rfl, hc.erase hentry fun h' e'' hne hentry'' hin'' hkey => ?_, hsorted.erase _⟩
      exact hne (hc.inj hentry'' hentry hin'' hin hkey)
    · rename_i hout
      refine ⟨index, rfl, hc.forget fun e'' hentry'' => ?_, hsorted⟩
      rw [hentry] at hentry''
      cases hentry''
      exact Bool.eq_false_iff.2 hout
  obtain ⟨index₁, herase, hc₁, hsorted₁⟩ := herase
  rw [reindex, herase, Option.bind_some, Indexer.insert]
  split
  · rename_i hin
    have hnone : SortedMap.get? (I.key e') index₁ = none := by
      refine Option.eq_none_iff_forall_ne_some.2 fun h' hget => ?_
      obtain ⟨e'', hentry'', hin'', hkey''⟩ := (hc₁ (I.key e') h').1 hget
      by_cases heq : h' = h
      · rw [heq, update_self] at hentry''
        cases hentry''
      · rw [update_of_ne heq] at hentry''
        exact hfree h' e'' heq hentry'' hin'' hkey''
    rw [hnone]
    exact ⟨_, rfl, hc₁.set hin hfree, hsorted₁.set _ _⟩
  · rename_i hout
    exact ⟨index₁, rfl, hc₁.skip (Bool.eq_false_iff.2 hout), hsorted₁⟩

end Indexer

/-! ## The indices of a directory -/

/-- The indices have the entries, and the ids of new entries will be new. -/
structure Indexed (k : Kernel P) : Prop where
  metaHandle : ∀ {h e}, k.getEntryByHandle h = some e → e.metaHandle = h
  ids : idIndexer.Consistent k.idsIndex k.getEntryByHandle
  children : parentIdAndHandleIndexer.Consistent k.parentIdChildIndex k.getEntryByHandle
  sorted : SortedMap.Sorted k.parentIdChildIndex
  lt_next : ∀ {h e}, k.getEntryByHandle h = some e → h < k.nextMetahandle
  fresh : ∀ {h e}, k.getEntryByHandle h = some e → ∀ n ≤ k.nextId, e.id ≠ .createFromClientString (decimalInt n)
  nextId_neg : k.nextId < 0

theorem Indexed.getEntryById_eq_some_iff (hk : Indexed k) :
    k.getEntryById id = some (h, e) ↔ k.getEntryByHandle h = some e ∧ e.id = id := by
  rw [Kernel.getEntryById_eq_some_iff]
  constructor
  · rintro ⟨hget, hentry⟩
    obtain ⟨e', hentry', -, hid⟩ := (hk.ids id h).1 hget
    obtain rfl := Option.some.inj (hentry.symm.trans hentry')
    exact ⟨hentry, hid⟩
  · rintro ⟨hentry, hid⟩
    exact ⟨(hk.ids id h).2 ⟨e, hentry, rfl, hid⟩, hentry⟩

theorem Indexed.inj (hk : Indexed k) {h' : ℤ} (hentry : k.getEntryByHandle h = some e)
    (hentry' : k.getEntryByHandle h' = some e') (hid : e.id = e'.id) : h = h' :=
  hk.ids.inj hentry hentry' rfl rfl hid

/-- The key of an entry among the children is that of no other, as its id is in it. -/
theorem Indexed.children_free (hk : Indexed k) (hentry : k.getEntryByHandle h = some e) (hid : e'.id = e.id) :
    parentIdAndHandleIndexer.Free k.getEntryByHandle h e' := by
  intro h' e'' hne hentry'' _ hkey
  have hsame : e''.id = e'.id := congrArg (fun key : ChildKey => (ofLex (ofLex key).2).2) hkey
  exact hne (hk.inj hentry'' hentry (hsame.trans hid))

theorem Kernel.getEntryByHandle_set (k : Kernel P) (h : ℤ) (e : EntryKernel P) :
    (fun h' => SortedMap.get? h' (SortedMap.set h e k.metahandlesIndex)) =
      update k.getEntryByHandle h (some e) := by
  funext h'
  rw [SortedMap.get?_set, update_apply]
  exact if_congr eq_comm rfl rfl

theorem Indexed.change (e' : EntryKernel P) (hk : Indexed k) (hentry : k.getEntryByHandle h = some e) (hmeta : e'.metaHandle = e.metaHandle)
    (hid : e'.id = e.id)
    (hentries : k'.getEntryByHandle = update k.getEntryByHandle h (some e')) (hids : k'.idsIndex = k.idsIndex)
    (hchildren : parentIdAndHandleIndexer.Consistent k'.parentIdChildIndex k'.getEntryByHandle)
    (hsorted : SortedMap.Sorted k'.parentIdChildIndex) (hnext : k'.nextMetahandle = k.nextMetahandle)
    (hnextId : k'.nextId = k.nextId) : Indexed k' := by
  have hback : ∀ {h' e''}, k'.getEntryByHandle h' = some e'' → ∃ e₀, k.getEntryByHandle h' = some e₀ ∧
      e''.metaHandle = e₀.metaHandle ∧ e''.id = e₀.id := by
    intro h' e'' hentry''
    rw [hentries] at hentry''
    by_cases heq : h' = h
    · rw [heq, update_self] at hentry''
      cases hentry''
      exact ⟨e, heq ▸ hentry, hmeta, hid⟩
    · rw [update_of_ne heq] at hentry''
      exact ⟨e'', hentry'', rfl, rfl⟩
  constructor
  · intro h' e'' hentry''
    obtain ⟨e₀, hentry₀, hmeta₀, -⟩ := hback hentry''
    exact hmeta₀.trans (hk.metaHandle hentry₀)
  · rw [hids, hentries]
    exact hk.ids.congr e' hentry rfl hid
  · exact hchildren
  · exact hsorted
  · intro h' e'' hentry''
    obtain ⟨e₀, hentry₀, -⟩ := hback hentry''
    exact hnext ▸ hk.lt_next hentry₀
  · intro h' e'' hentry'' n hn
    obtain ⟨e₀, hentry₀, -, hid₀⟩ := hback hentry''
    rw [hid₀]
    exact hk.fresh hentry₀ n (hnextId ▸ hn)
  · exact hnextId ▸ hk.nextId_neg

theorem Indexed.getEntryById_change (e' : EntryKernel P) (hk : Indexed k) (hk' : Indexed k') (hfound : k.getEntryById id = some (h, e))
    (hid : e'.id = e.id) (hentries : k'.getEntryByHandle = update k.getEntryByHandle h (some e')) :
    k'.getEntryById = update k.getEntryById id (some (h, e')) := by
  obtain ⟨hentry, hid₀⟩ := hk.getEntryById_eq_some_iff.1 hfound
  funext id'
  refine Option.ext fun r => ?_
  obtain ⟨h', e''⟩ := r
  rw [hk'.getEntryById_eq_some_iff, hentries]
  by_cases heq : id' = id
  · subst heq
    rw [update_self, Option.some.injEq, Prod.mk.injEq]
    constructor
    · rintro ⟨hentry'', hid''⟩
      by_cases hh : h' = h
      · rw [hh, update_self] at hentry''
        exact ⟨hh.symm, Option.some.inj hentry''⟩
      · rw [update_of_ne hh] at hentry''
        exact absurd (hk.inj hentry'' hentry (hid''.trans hid₀.symm)) hh
    · rintro ⟨rfl, rfl⟩
      exact ⟨update_self _ _ _, hid.trans hid₀⟩
  · rw [update_of_ne heq, hk.getEntryById_eq_some_iff]
    by_cases hh : h' = h
    · rw [hh, update_self, hentry]
      constructor
      all_goals rintro ⟨hentry'', hid''⟩
      · cases hentry''
        exact absurd (hid''.symm.trans (hid.trans hid₀)) heq
      · cases hentry''
        exact absurd (hid''.symm.trans hid₀) heq
    · rw [update_of_ne hh]

/-! ## The shape and the links -/

namespace Kernel

variable (k : Kernel P)

/-- What an id has but its links: the metahandle, the parent, whether it is deleted, and the specifics. -/
def shape (id : Id) : Option (ℤ × Id × Bool × (ProtoField → P)) :=
  (k.getEntryById id).map fun r => (r.1, r.2.parentId, r.2.isDel, r.2.specificsFields)

def link (field : IdField) (id : Id) : Id := ((k.getEntryById id).map fun r => r.2.idFields field).getD id

end Kernel

/-- An operation that only changes the links: what they are then. -/
structure Relinks (k k' : Kernel P) (prev next : Id → Id) : Prop where
  indexed : Indexed k'
  shape : k'.shape = k.shape
  prev : k'.link .prevId = prev
  next : k'.link .nextId = next

theorem Relinks.refl (hk : Indexed k) : Relinks k k (k.link .prevId) (k.link .nextId) := ⟨hk, rfl, rfl, rfl⟩

theorem Relinks.trans {k'' : Kernel P} {prev next prev' next' : Id → Id} (hk : Relinks k k' prev next)
    (hk' : Relinks k' k'' prev' next') : Relinks k k'' prev' next' :=
  ⟨hk'.indexed, hk'.shape.trans hk.shape, hk'.prev, hk'.next⟩

theorem relinks_markDirty (e' : EntryKernel P) (hk : Indexed k) (hfound : k.getEntryById id = some (h, e))
    (hsame : ∀ field, field ≠ .prevId → field ≠ .nextId → e'.idFields field = e.idFields field)
    (hrest : (e'.metaHandle, e'.isDel, e'.specificsFields, e'.int64Fields) =
      (e.metaHandle, e.isDel, e.specificsFields, e.int64Fields)) :
    Relinks k (k.markDirty h e') (update (k.link .prevId) id e'.prevId)
      (update (k.link .nextId) id e'.nextId) := by
  obtain ⟨hentry, hid⟩ := hk.getEntryById_eq_some_iff.1 hfound
  simp only [Prod.mk.injEq] at hrest
  obtain ⟨hmeta, hdel, hspecifics, hint⟩ := hrest
  have hid' : e'.id = e.id := hsame .id nofun nofun
  have hparent : e'.parentId = e.parentId := hsame .parentId nofun nofun
  have hentries : (k.markDirty h e').getEntryByHandle =
      update k.getEntryByHandle h (some { e' with dirty := true }) := k.getEntryByHandle_set h _
  have hkey : parentIdAndHandleIndexer.key { e' with dirty := true } = parentIdAndHandleIndexer.key e := by
    change toLex (e'.parentId, toLex (e'.int64Fields .serverPositionInParent, e'.id)) = _
    rw [hparent, hint, hid']
    rfl
  have hin : parentIdAndHandleIndexer.shouldInclude { e' with dirty := true } =
      parentIdAndHandleIndexer.shouldInclude e := by
    change (!e'.isDel && !e'.id.isRoot) = _
    rw [hdel, hid']
    rfl
  have hk' : Indexed (k.markDirty h e') := by
    refine hk.change { e' with dirty := true } hentry hmeta hid' hentries rfl ?_ hk.sorted rfl rfl
    rw [hentries]
    exact hk.children.congr _ hentry hin hkey
  have hfind := hk.getEntryById_change { e' with dirty := true } hk' hfound hid' hentries
  have hlink : ∀ field, (k.markDirty h e').link field = update (k.link field) id (e'.idFields field) := by
    intro field
    funext id'
    rw [Kernel.link, hfind, update_apply, update_apply]
    split <;> rfl
  refine ⟨hk', ?_, hlink .prevId, hlink .nextId⟩
  funext id'
  rw [Kernel.shape, hfind, update_apply]
  split
  · rename_i heq
    rw [Kernel.shape, heq, hfound]
    change some (h, e'.parentId, e'.isDel, e'.specificsFields) = some (h, e.parentId, e.isDel, e.specificsFields)
    rw [hparent, hdel, hspecifics]
  · rfl

end Chromium.Sync
