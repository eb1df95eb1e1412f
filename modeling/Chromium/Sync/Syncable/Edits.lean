import Chromium.Sync.Syncable.Directory

/-!
# What an operation does to the entries and their dirty bits

`Edits purges k k'` says what the work on a directory can do to it: under each metahandle the row and the dirty bit are
as before, or the entry is dirty now, or it was purged, if `purges` says so.  Each operation of `MutableEntry` edits
without purging (`Op.edits`), and edits in a row are one edit (`Edits.trans`).
-/

namespace Chromium.Sync

open Lib
open Option (bind_eq_some_iff)

variable {P : Type} {k k' k'' : Kernel P} {h h' : ℤ} {e e' : EntryKernel P} {purges : Prop}

/-! ## Entries -/

namespace Kernel

theorem getEntryByHandle_markDirty (k : Kernel P) (h h' : ℤ) (e : EntryKernel P) :
    (k.markDirty h e).getEntryByHandle h' = if h = h' then some { e with dirty := true } else k.getEntryByHandle h' :=
  SortedMap.get?_set h h' _ _

theorem getEntryById_eq_some_iff {id : Id} :
    k.getEntryById id = some (h, e) ↔ SortedMap.get? id k.idsIndex = some h ∧ k.getEntryByHandle h = some e := by
  unfold getEntryById
  simp only [Option.bind_eq_bind, bind_eq_some_iff, Option.some.injEq, Prod.mk.injEq]
  constructor
  · rintro ⟨h, hids, e, hentry, rfl, rfl⟩
    exact ⟨hids, hentry⟩
  · rintro ⟨hids, hentry⟩
    exact ⟨h, hids, e, hentry, rfl, rfl⟩

/-- What a directory keeps to about its metahandles. -/
structure WellFormed (k : Kernel P) : Prop where
  metaHandle : ∀ {h e}, k.getEntryByHandle h = some e → e.metaHandle = h
  lt_next : ∀ {h e}, k.getEntryByHandle h = some e → h < k.nextMetahandle
  dirty : ∀ {h e}, k.getEntryByHandle h = some e → e.dirty = true → h ∈ k.dirtyMetahandles
  purged : ∀ {h}, h ∈ k.metahandlesToPurge → k.getEntryByHandle h = none ∧ h < k.nextMetahandle

def kept (k : Kernel P) (h : ℤ) : Option (Row P × Bool) := (k.getEntryByHandle h).map fun e => (e.row, e.dirty)

def Open (k : Kernel P) (h : ℤ) : Prop := k.getEntryByHandle h ≠ none ∨ k.nextMetahandle ≤ h

theorem open_of_entry (hentry : k.getEntryByHandle h = some e) : k.Open h := by
  left
  rw [hentry]
  exact Option.some_ne_none e

end Kernel

variable {value : Bool} {predecessorId parentId : Id} {S : EntitySpecifics P}
  {result : Kernel P × Bool}

/-! ## Edits -/

inductive Edited (purges : Prop) (k k' : Kernel P) (h : ℤ) : Prop
  | kept (heq : k'.kept h = k.kept h)
  | dirtied {e : EntryKernel P} (hentry : k'.getEntryByHandle h = some e) (hdirty : e.dirty = true) (hopen : k.Open h)
  | purged (hpurges : purges) (hnone : k'.getEntryByHandle h = none) (hpurge : h ∈ k'.metahandlesToPurge)
      (hopen : k.Open h)

structure Edits (purges : Prop) (k k' : Kernel P) : Prop where
  edited : ∀ h, Edited purges k k' h
  next_le : k.nextMetahandle ≤ k'.nextMetahandle
  toPurge_subset : k.metahandlesToPurge ⊆ k'.metahandlesToPurge
  open_of_toPurge : ∀ {h}, h ∈ k'.metahandlesToPurge → h ∈ k.metahandlesToPurge ∨ k.Open h
  wellFormed : k.WellFormed → k'.WellFormed

theorem kept_eq_none_iff : k.kept h = none ↔ k.getEntryByHandle h = none := Option.map_eq_none_iff

theorem Edits.open (hk : Edits purges k k') (hopen : k'.Open h) : k.Open h := by
  rcases hopen with hentry | hnext
  · cases hk.edited h with
    | kept heq => exact .inl fun hnone => hentry (kept_eq_none_iff.1 (heq.trans (kept_eq_none_iff.2 hnone)))
    | dirtied _ _ hopen => exact hopen
    | purged _ hnone => exact absurd hnone hentry
  · exact .inr (hk.next_le.trans hnext)

theorem Edits.refl (k : Kernel P) : Edits purges k k where
  edited _ := .kept rfl
  next_le := le_rfl
  toPurge_subset := List.Subset.refl _
  open_of_toPurge hmem := .inl hmem
  wellFormed hk := hk

theorem Edits.trans (hk : Edits purges k k') (hk' : Edits purges k' k'') : Edits purges k k'' where
  edited h := by
    cases hk'.edited h with
    | dirtied hentry hdirty hopen => exact .dirtied hentry hdirty (hk.open hopen)
    | purged hpurges hnone hpurge hopen => exact .purged hpurges hnone hpurge (hk.open hopen)
    | kept heq =>
      cases hk.edited h with
      | kept heq' => exact .kept (heq.trans heq')
      | purged hpurges hnone hpurge hopen =>
        exact .purged hpurges (kept_eq_none_iff.1 (heq.trans (kept_eq_none_iff.2 hnone)))
          (hk'.toPurge_subset hpurge) hopen
      | dirtied hentry hdirty hopen =>
        rw [Kernel.kept, Kernel.kept, hentry] at heq
        obtain ⟨e'', hentry'', hsame⟩ := Option.map_eq_some_iff.1 heq
        exact .dirtied hentry'' ((congrArg Prod.snd hsame).trans hdirty) hopen
  next_le := hk.next_le.trans hk'.next_le
  toPurge_subset := List.Subset.trans hk.toPurge_subset hk'.toPurge_subset
  open_of_toPurge hmem := by
    rcases hk'.open_of_toPurge hmem with hmem | hopen
    · exact hk.open_of_toPurge hmem
    · exact .inr (hk.open hopen)
  wellFormed hwf := hk'.wellFormed (hk.wellFormed hwf)

/-- The entries with what counts for them are the same. -/
structure SameEntries (k k' : Kernel P) : Prop where
  metahandlesIndex : k'.metahandlesIndex = k.metahandlesIndex
  dirtyMetahandles : k'.dirtyMetahandles = k.dirtyMetahandles
  metahandlesToPurge : k'.metahandlesToPurge = k.metahandlesToPurge
  nextMetahandle : k'.nextMetahandle = k.nextMetahandle

theorem SameEntries.getEntryByHandle (hsame : SameEntries k k') (h : ℤ) :
    k'.getEntryByHandle h = k.getEntryByHandle h := congrArg (SortedMap.get? h) hsame.metahandlesIndex

/-- **What is put into an entry that is marked is an edit**, whatever happens to the indices. -/
theorem edits_markDirty (hsame : SameEntries k k') (hentry : k.getEntryByHandle h = some e)
    (hmeta : e'.metaHandle = e.metaHandle) (hdirty : e'.dirty = e.dirty) : Edits purges k (k'.markDirty h e') where
  edited h' := by
    by_cases heq : h = h'
    · subst heq
      exact .dirtied ((k'.getEntryByHandle_markDirty h h e').trans (if_pos rfl)) rfl (Kernel.open_of_entry hentry)
    · refine .kept ?_
      rw [Kernel.kept, Kernel.getEntryByHandle_markDirty, if_neg heq, hsame.getEntryByHandle]
      rfl
  next_le := hsame.nextMetahandle.ge
  toPurge_subset _ hmem := hsame.metahandlesToPurge.symm ▸ hmem
  open_of_toPurge hmem := .inl (hsame.metahandlesToPurge ▸ hmem)
  wellFormed hwf := by
    have hmetaHandle : e'.metaHandle = h := hmeta.trans (hwf.metaHandle hentry)
    have hmark : ∀ {h'}, h' ∈ k.dirtyMetahandles → h' ∈ (k'.markDirty h e').dirtyMetahandles := by
      intro h' hmem
      rw [Kernel.markDirty, hsame.dirtyMetahandles]
      dsimp only
      split
      · exact hmem
      · exact List.mem_insert_of_mem hmem
    constructor
    · intro h' e'' hget
      rw [Kernel.getEntryByHandle_markDirty] at hget
      split at hget
      · rename_i heq
        cases hget
        exact hmetaHandle.trans heq
      · exact hwf.metaHandle ((hsame.getEntryByHandle h').symm.trans hget)
    · intro h' e'' hget
      refine lt_of_lt_of_eq ?_ hsame.nextMetahandle.symm
      rw [Kernel.getEntryByHandle_markDirty] at hget
      split at hget
      · rename_i heq
        exact heq ▸ hwf.lt_next hentry
      · exact hwf.lt_next ((hsame.getEntryByHandle h').symm.trans hget)
    · intro h' e'' hget hdirty''
      rw [Kernel.getEntryByHandle_markDirty] at hget
      split at hget
      · rename_i heq
        subst heq
        rw [Kernel.markDirty, hmetaHandle, hsame.dirtyMetahandles]
        dsimp only
        split
        · rename_i hwas
          exact hwf.dirty hentry (hdirty.symm.trans hwas)
        · exact List.mem_insert_self
      · exact hmark (hwf.dirty ((hsame.getEntryByHandle h').symm.trans hget) hdirty'')
    · intro h' hmem
      obtain ⟨hnone, hlt⟩ := hwf.purged (hsame.metahandlesToPurge ▸ hmem)
      refine ⟨?_, lt_of_lt_of_eq hlt hsame.nextMetahandle.symm⟩
      rw [Kernel.getEntryByHandle_markDirty, if_neg, hsame.getEntryByHandle]
      · exact hnone
      · rintro rfl
        rw [hentry] at hnone
        cases hnone

theorem SameEntries.refl (k : Kernel P) : SameEntries k k := ⟨rfl, rfl, rfl, rfl⟩

theorem edits_putMarked {same : EntryKernel P → Prop} [DecidablePred same] {put : EntryKernel P → EntryKernel P}
    (hput : (do
      let e ← k.getEntryByHandle h
      if same e then some k else some (k.markDirty h (put e))) = some k')
    (hmeta : ∀ e, (put e).metaHandle = e.metaHandle) (hdirty : ∀ e, (put e).dirty = e.dirty) : Edits purges k k' := by
  obtain ⟨e, hentry, hput⟩ := bind_eq_some_iff.1 hput
  split at hput
  · cases hput
    exact .refl k
  · cases hput
    exact edits_markDirty (.refl k) hentry (hmeta e) (hdirty e)

theorem edits_putLink {field : IdField} {value : Id} (hput : k.putLink h field value = some k') :
    Edits purges k k' := edits_putMarked hput (fun _ => rfl) fun _ => rfl

/-! ## The order of the children -/

theorem edits_unlinkNext {oldPrevious oldNext : Id} (hunlink : k.unlinkNext oldPrevious oldNext = some k') :
    Edits purges k k' := by
  unfold Kernel.unlinkNext at hunlink
  split at hunlink
  · cases hunlink
    exact .refl k
  · obtain ⟨⟨h, e⟩, hfound, hunlink⟩ := bind_eq_some_iff.1 hunlink
    cases hunlink
    exact edits_markDirty (.refl k) (Kernel.getEntryById_eq_some_iff.1 hfound).2 rfl rfl

theorem edits_unlinkNeighbours {id oldPrevious oldNext : Id}
    (hunlink : k.unlinkNeighbours id oldPrevious oldNext = some k') : Edits purges k k' := by
  unfold Kernel.unlinkNeighbours at hunlink
  split at hunlink
  · exact edits_unlinkNext hunlink
  · split at hunlink
    · split at hunlink
      · cases hunlink
        exact .refl k
      · cases hunlink
    · obtain ⟨⟨hprevious, previous⟩, hfound, hunlink⟩ := bind_eq_some_iff.1 hunlink
      have hprev : Edits purges k (k.markDirty hprevious (previous.putId .nextId oldNext)) :=
        edits_markDirty (.refl k) (Kernel.getEntryById_eq_some_iff.1 hfound).2 rfl rfl
      exact hprev.trans (edits_unlinkNext hunlink)

theorem edits_unlinkEntryFromOrder (hunlink : k.unlinkEntryFromOrder h = some k') : Edits purges k k' := by
  obtain ⟨e, hentry, hunlink⟩ := bind_eq_some_iff.1 hunlink
  have hloop : Edits purges k (k.markDirty h ((e.putId .nextId e.id).putId .prevId e.id)) :=
    edits_markDirty (.refl k) hentry rfl rfl
  exact hloop.trans (edits_unlinkNeighbours hunlink)

theorem edits_putLinks {successorId : Id}
    (hput : k.putLinks h predecessorId successorId = some result) : Edits purges k result.1 := by
  obtain ⟨k₁, hprev, hput⟩ := bind_eq_some_iff.1 hput
  obtain ⟨k₂, hnext, hput⟩ := bind_eq_some_iff.1 hput
  cases hput
  exact (edits_putLink hprev).trans (edits_putLink hnext)

theorem edits_putSuccessor {successorId : Id}
    (hput : k.putSuccessor h e predecessorId successorId = some result) : Edits purges k result.1 := by
  unfold Kernel.putSuccessor at hput
  split at hput
  · exact edits_putLinks hput
  · split at hput
    · cases hput
      exact .refl k
    · split at hput
      · obtain ⟨k₁, hprev, hput⟩ := bind_eq_some_iff.1 hput
        exact (edits_putLink hprev).trans (edits_putLinks hput)
      · cases hput
        exact .refl k

theorem edits_putPredecessor
    (hput : k.putPredecessor h predecessorId = some result) : Edits purges k result.1 := by
  obtain ⟨k₁, hunlink, hput⟩ := bind_eq_some_iff.1 hput
  obtain ⟨e, -, hput⟩ := bind_eq_some_iff.1 hput
  refine (edits_unlinkEntryFromOrder hunlink).trans ?_
  split at hput
  · cases hput
    exact .refl k₁
  · split at hput
    · obtain ⟨successorId, -, hput⟩ := bind_eq_some_iff.1 hput
      exact edits_putSuccessor hput
    · split at hput
      · cases hput
        exact .refl k₁
      · split at hput
        · obtain ⟨k₂, hlink, hput⟩ := bind_eq_some_iff.1 hput
          exact (edits_putLink hlink).trans (edits_putSuccessor hput)
        · cases hput
          exact .refl k₁

theorem edits_setIsDel {isDel : Bool} (hput : k.setIsDel h isDel = some k') : Edits purges k k' := by
  obtain ⟨e, hentry, hput⟩ := bind_eq_some_iff.1 hput
  obtain ⟨index, -, hput⟩ := bind_eq_some_iff.1 hput
  cases hput
  exact edits_markDirty ⟨rfl, rfl, rfl, rfl⟩ hentry rfl rfl

theorem edits_putIsDel {isDel : Bool} (hput : k.putIsDel h isDel = some k') : Edits purges k k' := by
  obtain ⟨e, -, hput⟩ := bind_eq_some_iff.1 hput
  split at hput
  · cases hput
    exact .refl k
  · split at hput
    · obtain ⟨k₁, hunlink, hput⟩ := bind_eq_some_iff.1 hput
      exact (edits_unlinkEntryFromOrder hunlink).trans (edits_setIsDel hput)
    · obtain ⟨k₁, hset, hput⟩ := bind_eq_some_iff.1 hput
      obtain ⟨result, hfront, hput⟩ := bind_eq_some_iff.1 hput
      cases hput
      exact (edits_setIsDel hset).trans (edits_putPredecessor hfront)

/-! ## The other fields -/

theorem edits_putInt64 {field : Int64Field} {value : ℤ} (hput : k.putInt64 h field value = some k') :
    Edits purges k k' := by
  obtain ⟨e, hentry, hput⟩ := bind_eq_some_iff.1 hput
  split at hput
  · cases hput
    exact .refl k
  · split at hput
    · obtain ⟨index, -, hput⟩ := bind_eq_some_iff.1 hput
      cases hput
      exact edits_markDirty ⟨rfl, rfl, rfl, rfl⟩ hentry rfl rfl
    · cases hput
      exact edits_markDirty (.refl k) hentry rfl rfl

theorem edits_putTime {field : TimeField} {value : ℤ} (hput : k.putTime h field value = some k') :
    Edits purges k k' :=
  edits_putMarked hput (fun _ => rfl) fun _ => rfl

theorem edits_reindexId {newId : Id} (hput : k.reindexId h newId = some result) :
    Edits purges k result.1 := by
  obtain ⟨e, hentry, hput⟩ := bind_eq_some_iff.1 hput
  split at hput
  · cases hput
    exact .refl k
  · obtain ⟨ids, -, hput⟩ := bind_eq_some_iff.1 hput
    obtain ⟨children, -, hput⟩ := bind_eq_some_iff.1 hput
    cases hput
    exact edits_markDirty ⟨rfl, rfl, rfl, rfl⟩ hentry rfl rfl

theorem edits_putParentIdPropertyOnly (hput : k.putParentIdPropertyOnly h parentId = some k') :
    Edits purges k k' := by
  obtain ⟨e, hentry, hput⟩ := bind_eq_some_iff.1 hput
  obtain ⟨children, -, hput⟩ := bind_eq_some_iff.1 hput
  cases hput
  exact edits_markDirty ⟨rfl, rfl, rfl, rfl⟩ hentry rfl rfl

theorem edits_putParentId (hput : k.putParentId h parentId = some k') : Edits purges k k' := by
  obtain ⟨k₁, hparent, hput⟩ := bind_eq_some_iff.1 hput
  obtain ⟨result, hfront, hput⟩ := bind_eq_some_iff.1 hput
  obtain ⟨e, hentry, hput⟩ := bind_eq_some_iff.1 hput
  cases hput
  have hfirst : Edits purges k result.1 := (edits_putParentIdPropertyOnly hparent).trans (edits_putPredecessor hfront)
  exact hfirst.trans (edits_markDirty (.refl _) hentry rfl rfl)

theorem edits_putId {field : IdField} {value : Id}
    (hput : k.putId h field value = some result) : Edits purges k result.1 := by
  obtain ⟨e, hentry, hput⟩ := bind_eq_some_iff.1 hput
  split at hput
  · cases hput
    exact .refl k
  · split at hput
    · exact edits_reindexId hput
    · obtain ⟨k₁, hparent, hput⟩ := bind_eq_some_iff.1 hput
      cases hput
      exact edits_putParentId hparent
    · cases hput
      exact edits_markDirty (.refl k) hentry rfl rfl

theorem edits_putBaseVersion {value : ℤ} (hput : k.putBaseVersion h value = some k') : Edits purges k k' :=
  edits_putMarked hput (fun _ => rfl) fun _ => rfl

theorem edits_putUniqueClientTag {newTag : List UInt8}
    (hput : k.putUniqueClientTag h newTag = some result) : Edits purges k result.1 := by
  obtain ⟨e, hentry, hput⟩ := bind_eq_some_iff.1 hput
  split at hput
  · cases hput
    exact .refl k
  · split at hput
    · cases hput
      exact .refl k
    · obtain ⟨index, -, hput⟩ := bind_eq_some_iff.1 hput
      cases hput
      exact edits_markDirty ⟨rfl, rfl, rfl, rfl⟩ hentry rfl rfl

theorem edits_putString {field : StringField} {value : List UInt8}
    (hput : k.putString h field value = some result) : Edits purges k result.1 := by
  unfold Kernel.putString at hput
  split at hput
  · exact edits_putUniqueClientTag hput
  · obtain ⟨e, hentry, hput⟩ := bind_eq_some_iff.1 hput
    split at hput
    · cases hput
      exact .refl k
    · cases hput
      exact edits_markDirty (.refl k) hentry rfl rfl

theorem edits_putProto {field : ProtoField} {value : P}
    (hput : k.putProto S h field value = some k') : Edits purges k k' :=
  edits_putMarked hput (fun _ => rfl) fun _ => rfl

theorem edits_putBit {field : BitField} (hput : k.putBit h field value = some k') : Edits purges k k' :=
  edits_putMarked hput (fun _ => rfl) fun _ => rfl

theorem edits_putIndexedBit {field : IndexedBitField}
    (hput : k.putIndexedBit h field value = some k') : Edits purges k k' := by
  obtain ⟨e, hentry, hput⟩ := bind_eq_some_iff.1 hput
  split at hput
  · cases hput
    exact .refl k
  · split at hput
    all_goals
      obtain ⟨index, -, hput⟩ := bind_eq_some_iff.1 hput
      cases hput
      exact edits_markDirty ⟨rfl, rfl, rfl, rfl⟩ hentry rfl rfl

theorem edits_putSyncing (hput : k.putSyncing h value = some k') : Edits purges k k' := by
  obtain ⟨e, hentry, hput⟩ := bind_eq_some_iff.1 hput
  cases hput
  have hget : ∀ h', SortedMap.get? h' (SortedMap.set h { e with syncing := value } k.metahandlesIndex) =
      if h = h' then some { e with syncing := value } else k.getEntryByHandle h' :=
    fun h' => SortedMap.get?_set h h' _ _
  have hback : ∀ {h' e'}, SortedMap.get? h' (SortedMap.set h { e with syncing := value } k.metahandlesIndex) = some e' →
      ∃ e₀, k.getEntryByHandle h' = some e₀ ∧ e'.metaHandle = e₀.metaHandle ∧ e'.dirty = e₀.dirty := by
    intro h' e' he'
    rw [hget] at he'
    split at he'
    · rename_i heq
      cases he'
      exact ⟨e, heq ▸ hentry, rfl, rfl⟩
    · exact ⟨e', he', rfl, rfl⟩
  constructor
  · intro h'
    refine .kept ?_
    rw [Kernel.kept, Kernel.kept, Kernel.getEntryByHandle, hget]
    split
    · rename_i heq
      subst heq
      rw [hentry]
      rfl
    · rfl
  · exact le_rfl
  · exact List.Subset.refl _
  · exact .inl
  · intro hwf
    constructor
    · intro h' e' he'
      obtain ⟨e₀, hentry₀, hmeta, -⟩ := hback he'
      exact hmeta.trans (hwf.metaHandle hentry₀)
    · intro h' e' he'
      obtain ⟨e₀, hentry₀, -⟩ := hback he'
      exact hwf.lt_next hentry₀
    · intro h' e' he' hdirty
      obtain ⟨e₀, hentry₀, -, hsame⟩ := hback he'
      exact hwf.dirty hentry₀ (hsame.symm.trans hdirty)
    · intro h' hmem
      obtain ⟨hnone, hlt⟩ := hwf.purged hmem
      refine ⟨?_, hlt⟩
      rw [Kernel.getEntryByHandle, hget, if_neg]
      · exact hnone
      · rintro rfl
        rw [hentry] at hnone
        cases hnone

/-! ## New entries -/

theorem edits_insertEntry {nextId : ℤ} (hinsert : (k.nextDirty nextId).insertEntry k.nextMetahandle e = some k')
    (hmeta : e.metaHandle = k.nextMetahandle) (hdirty : e.dirty = true) : Edits purges k k' := by
  unfold Kernel.insertEntry at hinsert
  split at hinsert
  · cases hinsert
  split at hinsert
  · cases hinsert
  split at hinsert
  · cases hinsert
  split at hinsert
  · cases hinsert
  cases hinsert
  have hget : ∀ h', SortedMap.get? h' (SortedMap.set k.nextMetahandle e (k.nextDirty nextId).metahandlesIndex) =
      if k.nextMetahandle = h' then some e else k.getEntryByHandle h' := fun h' => SortedMap.get?_set _ h' _ _
  constructor
  · intro h'
    by_cases heq : k.nextMetahandle = h'
    · exact .dirtied ((hget h').trans (if_pos heq)) hdirty (.inr heq.le)
    · refine .kept ?_
      rw [Kernel.kept, Kernel.getEntryByHandle, hget, if_neg heq]
      rfl
  · exact (lt_add_one k.nextMetahandle).le
  · exact List.Subset.refl _
  · exact .inl
  · intro hwf
    constructor
    · intro h' e' he'
      rw [Kernel.getEntryByHandle, hget] at he'
      split at he'
      · rename_i heq
        cases he'
        exact hmeta.trans heq
      · exact hwf.metaHandle he'
    · intro h' e' he'
      rw [Kernel.getEntryByHandle, hget] at he'
      split at he'
      · rename_i heq
        exact lt_of_eq_of_lt heq.symm (lt_add_one k.nextMetahandle)
      · exact (hwf.lt_next he').trans (lt_add_one k.nextMetahandle)
    · intro h' e' he' hdirty'
      rw [Kernel.getEntryByHandle, hget] at he'
      split at he'
      · rename_i heq
        exact heq ▸ List.mem_insert_self
      · exact List.mem_insert_of_mem (hwf.dirty he' hdirty')
    · intro h' hmem
      obtain ⟨hnone, hlt⟩ := hwf.purged hmem
      refine ⟨?_, hlt.trans (lt_add_one k.nextMetahandle)⟩
      rw [Kernel.getEntryByHandle, hget, if_neg hlt.ne']
      exact hnone

theorem edits_create {name : List UInt8} {now : ℤ}
    (hcreate : k.create S parentId name now = some k') : Edits purges k k' :=
  edits_insertEntry hcreate rfl rfl

theorem edits_createNewUpdateItem {id : Id}
    (hcreate : k.createNewUpdateItem S id = some k') : Edits purges k k' := by
  unfold Kernel.createNewUpdateItem at hcreate
  split at hcreate
  · cases hcreate
    exact .refl k
  · exact edits_insertEntry hcreate rfl rfl

/-! ## Purging -/

theorem edits_purgeEntry {types : List ModelType}
    (hpurge : k.purgeEntry S types h = some k') (hk : k.WellFormed) : Edits True k k' := by
  unfold Kernel.purgeEntry at hpurge
  split at hpurge
  · cases hpurge
    exact .refl k
  split at hpurge
  · obtain ⟨k₁, hunlink, hpurge⟩ := bind_eq_some_iff.1 hpurge
    obtain ⟨e, hentry, hpurge⟩ := bind_eq_some_iff.1 hpurge
    cases hpurge
    have hk₁ : Edits True k k₁ := edits_unlinkEntryFromOrder hunlink
    have hmeta : e.metaHandle = h := (hk₁.wellFormed hk).metaHandle hentry
    refine hk₁.trans ?_
    have hget : ∀ h', SortedMap.get? h' (SortedMap.erase h k₁.metahandlesIndex) =
        if h = h' then none else k₁.getEntryByHandle h' := fun h' => SortedMap.get?_erase h h' _
    have hback : ∀ {h' e'}, SortedMap.get? h' (SortedMap.erase h k₁.metahandlesIndex) = some e' →
        k₁.getEntryByHandle h' = some e' := by
      intro h' e' he'
      rw [hget] at he'
      split at he'
      · cases he'
      · exact he'
    constructor
    · intro h'
      by_cases heq : h = h'
      · subst heq
        exact .purged trivial ((hget h).trans (if_pos rfl)) (hmeta ▸ List.mem_insert_self)
          (Kernel.open_of_entry hentry)
      · refine .kept ?_
        rw [Kernel.kept, Kernel.getEntryByHandle, hget, if_neg heq]
        rfl
    · exact le_rfl
    · exact fun h' hmem => List.mem_insert_of_mem hmem
    · intro h' hmem
      rcases List.mem_insert_iff.1 hmem with heq | hmem
      · rw [heq, hmeta]
        exact .inr (Kernel.open_of_entry hentry)
      · exact .inl hmem
    · intro hwf
      constructor
      · exact fun he' => hwf.metaHandle (hback he')
      · exact fun he' => hwf.lt_next (hback he')
      · exact fun he' => hwf.dirty (hback he')
      · intro h' hmem
        rcases List.mem_insert_iff.1 hmem with heq | hmem
        · rw [heq, hmeta]
          exact ⟨(hget h).trans (if_pos rfl), hwf.lt_next hentry⟩
        · obtain ⟨hnone, hlt⟩ := hwf.purged hmem
          refine ⟨?_, hlt⟩
          rw [Kernel.getEntryByHandle, hget]
          exact ite_eq_left_iff.2 fun _ => hnone
  · cases hpurge
    exact .refl k

/-- **Purging is an edit**, by induction on the entries that the loop comes to. -/
theorem edits_purgeEntriesWithTypeIn {types : List ModelType}
    (hpurge : k.purgeEntriesWithTypeIn S types = some k') (hk : k.WellFormed) : Edits True k k' := by
  unfold Kernel.purgeEntriesWithTypeIn at hpurge
  split at hpurge
  · cases hpurge
    exact .refl _
  · have hall : ∀ (hs : List ℤ) {k : Kernel P}, k.WellFormed →
        hs.foldlM (fun k h => k.purgeEntry S types h) k = some k' → Edits True k k' := by
      intro hs
      induction hs with
      | nil =>
        intro k _ hrun
        cases hrun
        exact .refl _
      | cons h hs ih =>
        intro k hk hrun
        obtain ⟨k₁, hone, hrun⟩ := bind_eq_some_iff.1 hrun
        have hk₁ := edits_purgeEntry hone hk
        exact hk₁.trans (ih (hk₁.wellFormed hk) hrun)
    exact hall _ hk hpurge

end Chromium.Sync
