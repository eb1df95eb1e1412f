import Chromium.Lib.TransSys
import Chromium.Sync.Syncable.ChildPlacing

/-!
# Runs of a sync directory that move its children

The system `children`: creating an entry and placing it, `PutPredecessor`, `Put(PARENT_ID)`, `PutIsDel` and
`PurgeEntriesWithTypeIn`, each on an entry that is not the root item.  In every state that it reaches there is one
order of the children, whose ends `GetFirstChildId` and `GetLastChildId` find, and every further move succeeds and
leaves the order of the other children as it is (`children_spec`).
-/

namespace Chromium.Sync

open Lib
open Function (update update_apply update_eq_self update_of_ne update_self)
open Option (bind_some isSome_iff_ne_none map_some)

variable {P : Type} {k k' : Kernel P} {h : ℤ} {e e' : EntryKernel P} {id : Id} {loose : Id → Prop}
  {order : Id → List Id}

variable (S : EntitySpecifics P)

/-! ## Out of a list and into one -/

def Placed (k : Kernel P) (order : Id → List Id) (id : Id) : Prop :=
  (∃ q, id ∈ order q ∧ ∀ p, p ≠ q → id ∉ order p) ∨
    (∀ p, id ∉ order p) ∧ (k.link .prevId id = .root ∧ k.link .nextId id = .root ∨
      k.link .prevId id = id ∧ k.link .nextId id = id)

theorem Ordered.placed (ho : Ordered k order) (id : Id) : Placed k order id := by
  by_cases hlive : ∃ q, k.Live id q
  · obtain ⟨q, hlive⟩ := hlive
    exact .inl ⟨q, (ho.mem_iff not_false q).2 hlive, fun p hne hmem =>
      hne (((ho.mem_iff not_false p).1 hmem).parent_eq hlive)⟩
  · rw [not_exists] at hlive
    exact .inr ⟨fun p hmem => hlive p ((ho.mem_iff not_false p).1 hmem), .inr (ho.loops not_false hlive)⟩

theorem OrderedBut.unlink (ho : OrderedBut k loose order) (hk : Indexed k) (hfound : k.getEntryById id = some (h, e))
    (hloose : ∀ id', loose id' → id' = id) (hplaced : Placed k order id) :
    ∃ k', k.unlinkEntryFromOrder h = some k' ∧ Indexed k' ∧ k'.shape = k.shape ∧
      OrderedBut k' (· = id) (fun p => (order p).erase id) ∧ k'.link .prevId id = id ∧ k'.link .nextId id = id := by
  rcases hplaced with ⟨q, hmem, hother⟩ | ⟨hmem, hlone⟩
  · exact ho.unlink_of_mem hk hfound hloose hmem hother
  · rw [Kernel.link_of_found hfound, Kernel.link_of_found hfound] at hlone
    have hsame : (fun p => (order p).erase id) = order := funext fun p => List.erase_of_not_mem (hmem p)
    rw [hsame]
    exact ho.unlink_of_notMem hk hfound hloose hmem hlone

/-- **`PutPredecessor`.**  The entry is directly after its predecessor then, and the order of the others is as it was;
a deleted entry is in no list, before and after. -/
theorem OrderedBut.putPredecessor_spec (predecessorId : Id) (ho : OrderedBut k loose order) (hk : Indexed k)
    (hfound : k.getEntryById id = some (h, e)) (hroot : id ≠ .root) (hloose : ∀ id', loose id' → id' = id)
    (hplaced : Placed k order id)
    (hpredecessor : e.isDel = false → predecessorId = .root ∨ predecessorId ∈ (order e.parentId).erase id) :
    ∃ k' order', k.putPredecessor h predecessorId = some (k', true) ∧ Indexed k' ∧ k'.shape = k.shape ∧
      Ordered k' order' ∧ (∀ p, (order' p).erase id = (order p).erase id) ∧
      (e.isDel = false → ∃ l r, order' e.parentId = l ++ id :: r ∧ before .root l = predecessorId) := by
  obtain ⟨k₁, hunlink, hk₁, hshape₁, ho₁, hprev, hnext⟩ := ho.unlink hk hfound hloose hplaced
  obtain ⟨e₁, hfound₁, hparent, hdel, -⟩ := Kernel.found_of_shape hshape₁ hfound
  have hout : ∀ p, id ∉ (order p).erase id := fun p => (ho.linked p).nodup.not_mem_erase
  cases hdead : e.isDel with
  | true =>
    have hlive : ∀ p, ¬ k₁.Live id p := by
      intro p hl
      obtain ⟨h', e', hfound', -, hdel'⟩ := hl.found
      rw [hfound₁] at hfound'
      cases hfound'
      rw [hdel, hdead] at hdel'
      cases hdel'
    refine ⟨k₁, fun p => (order p).erase id, ?_, hk₁, hshape₁, ho₁.settle hout hlive hprev hnext, fun p => ?_, nofun⟩
    · rw [Kernel.putPredecessor, hunlink]
      change ((k₁.getEntryByHandle h).bind fun e => _) = _
      rw [(hk₁.getEntryById_eq_some_iff.1 hfound₁).1, bind_some, hdel, hdead, if_pos rfl]
    · exact List.erase_of_not_mem (hout p)
  | false =>
    rw [← hparent] at hpredecessor ⊢
    obtain ⟨k', l, r, hput, hk', hshape', hsplit, hbefore, ho'⟩ := ho₁.putPredecessor hunlink hk₁ hfound₁
      (hdel.trans hdead) hroot hprev hnext hout (hpredecessor hdead)
    refine ⟨k', _, hput, hk', hshape'.trans hshape₁, ho', fun p => ?_, fun _ => ⟨l, r, update_self _ _ _, hbefore⟩⟩
    by_cases hp : p = e₁.parentId
    · subst hp
      have hidl : id ∉ l := fun hmem => hout _ (hsplit.symm ▸ List.mem_append_left r hmem)
      rw [update_self, List.erase_append_right _ hidl, List.erase_cons_head, hsplit]
    · rw [update_of_ne hp, List.erase_of_not_mem (hout p)]

/-! ## The moves -/

theorem Ordered.putIsDel_spec (ho : Ordered k order) (hk : Indexed k) (hfound : k.getEntryById id = some (h, e))
    (hroot : id ≠ .root) (isDel : Bool) :
    ∃ k' order', k.putIsDel h isDel = some k' ∧ Indexed k' ∧ Ordered k' order' ∧
      ∀ p, (order' p).erase id = (order p).erase id := by
  have hentry := (hk.getEntryById_eq_some_iff.1 hfound).1
  have hput : k.putIsDel h isDel = if isDel = e.isDel then some k else
      if isDel = true then (k.unlinkEntryFromOrder h).bind fun k => k.setIsDel h true
      else (k.setIsDel h false).bind fun k => (k.putPredecessor h .root).bind fun result => some result.1 := by
    rw [Kernel.putIsDel, hentry]
    rfl
  rw [hput]
  split
  · exact ⟨k, order, rfl, hk, ho, fun _ => rfl⟩
  · split
    · obtain ⟨k₁, hunlink, hk₁, hshape₁, ho₁, hprev, hnext⟩ :=
        OrderedBut.unlink ho hk hfound (fun _ hl => hl.elim) (Ordered.placed ho id)
      obtain ⟨e₁, hfound₁, -⟩ := Kernel.found_of_shape hshape₁ hfound
      obtain ⟨k₂, e₂, hset, hk₂, hdel₂, -⟩ := reshapes_setIsDel hk₁ hfound₁ true
      have hout : ∀ p, id ∉ (order p).erase id := fun p => (ho.linked p).nodup.not_mem_erase
      refine ⟨k₂, fun p => (order p).erase id, ?_, hk₂.indexed, ?_, fun p => List.erase_of_not_mem (hout p)⟩
      · rw [hunlink, bind_some, hset]
      · refine (hk₂.orderedBut ho₁).settle hout (fun p hl => ?_) ?_ ?_
        · obtain ⟨h', e', hfound', -, hdel'⟩ := hl.found
          rw [hk₂.found] at hfound'
          cases hfound'
          rw [hdel₂] at hdel'
          cases hdel'
        · rw [hk₂.prev, hprev]
        · rw [hk₂.next, hnext]
    · obtain ⟨k₁, e₁, hset, hk₁, hdel₁, -⟩ := reshapes_setIsDel hk hfound false
      have ho₁ : OrderedBut k₁ (· = id) order := hk₁.orderedBut (ho.mono fun _ hl => hl.elim)
      have hplaced : Placed k₁ order id := by
        rw [Placed, hk₁.prev, hk₁.next]
        exact Ordered.placed ho id
      obtain ⟨k₂, order', hput₂, hk₂, -, ho₂, hsame, -⟩ := ho₁.putPredecessor_spec .root hk₁.indexed
        hk₁.found hroot (fun _ heq => heq) hplaced fun _ => .inl rfl
      refine ⟨k₂, order', ?_, hk₂, ho₂, hsame⟩
      rw [hset, bind_some, hput₂, bind_some]

theorem Ordered.putParentId_spec (ho : Ordered k order) (hk : Indexed k) (hfound : k.getEntryById id = some (h, e))
    (hroot : id ≠ .root) (parentId : Id) :
    ∃ k' order', k.putId h .parentId parentId = some (k', true) ∧ Indexed k' ∧ Ordered k' order' ∧
      ∀ p, (order' p).erase id = (order p).erase id := by
  have hentry := (hk.getEntryById_eq_some_iff.1 hfound).1
  have hput : k.putId h .parentId parentId = if e.parentId = parentId then some (k, true) else
      (k.putParentId h parentId).bind fun k => some (k, true) := by
    rw [Kernel.putId, hentry]
    rfl
  rw [hput]
  split
  · exact ⟨k, order, rfl, hk, ho, fun _ => rfl⟩
  · obtain ⟨k₁, e₁, hproperty, hk₁, -⟩ := reshapes_putParentIdPropertyOnly hk hfound parentId
    have ho₁ : OrderedBut k₁ (· = id) order := hk₁.orderedBut (ho.mono fun _ hl => hl.elim)
    have hplaced : Placed k₁ order id := by
      rw [Placed, hk₁.prev, hk₁.next]
      exact Ordered.placed ho id
    obtain ⟨k₂, order', hput₂, hk₂, hshape₂, ho₂, hsame, -⟩ := ho₁.putPredecessor_spec .root
      hk₁.indexed hk₁.found hroot (fun _ heq => heq) hplaced fun _ => .inl rfl
    obtain ⟨e₂, hfound₂, -⟩ := Kernel.found_of_shape hshape₂ hk₁.found
    have hmark := relinks_markDirty e₂ hk₂ hfound₂ (fun _ _ _ => rfl) rfl
    rw [show e₂.prevId = k₂.link .prevId id from (Kernel.link_of_found hfound₂).symm,
      show e₂.nextId = k₂.link .nextId id from (Kernel.link_of_found hfound₂).symm, update_eq_self,
      update_eq_self] at hmark
    refine ⟨_, order', ?_, hmark.indexed, ?_, hsame⟩
    · rw [Kernel.putParentId, hproperty]
      change ((k₁.putPredecessor h .root).bind fun result => _).bind _ = _
      rw [hput₂, bind_some, (hk₂.getEntryById_eq_some_iff.1 hfound₂).1]
      rfl
    · constructor
      · rw [hmark.prev, hmark.next]
        exact ho₂.linked
      · exact fun hl p => (ho₂.mem_iff hl p).trans (Kernel.live_congr hmark.shape).symm
      · rw [hmark.prev, hmark.next]
        exact fun hl hdead => ho₂.loops hl fun p hlive => hdead p ((Kernel.live_congr hmark.shape).2 hlive)

def Kernel.nextNewId (k : Kernel P) : Id := .createFromClientString (decimalInt k.nextId)

theorem indexed_create (parentId : Id) (name : List UInt8) (now : ℤ) (hk : Indexed k) :
    ∃ k', k.create S parentId name now = some k' ∧ Indexed k' ∧
      k'.getEntryById = update k.getEntryById k.nextNewId
        (some (k.nextMetahandle, k.newEntry S parentId name now)) := by
  have hroot : k.nextNewId ≠ .root := Id.createFromClientString_ne_root hk.nextId_neg
  have hnone : k.getEntryByHandle k.nextMetahandle = none :=
    Option.eq_none_iff_forall_ne_some.2 fun e hentry => (hk.lt_next hentry).false
  have hnew : ∀ {h e}, k.getEntryByHandle h = some e → e.id ≠ k.nextNewId := fun hentry =>
    hk.fresh hentry k.nextId le_rfl
  have hfreeIds : idIndexer.Free k.getEntryByHandle k.nextMetahandle (k.newEntry S parentId name now) :=
    fun h' e' _ hentry' _ hkey => hnew hentry' hkey
  have hfree : parentIdAndHandleIndexer.Free k.getEntryByHandle k.nextMetahandle (k.newEntry S parentId name now) :=
    fun h' e' _ hentry' _ hkey => hnew hentry' (congrArg (fun key : ChildKey => (ofLex (ofLex key).2).2) hkey)
  have hchild : SortedMap.get? (parentIdAndHandleIndexer.key (k.newEntry S parentId name now)) k.parentIdChildIndex =
      none := by
    refine Option.eq_none_iff_forall_ne_some.2 fun h' hget => ?_
    obtain ⟨e', hentry', -, hkey⟩ := (hk.children _ h').1 hget
    exact hnew hentry' (congrArg (fun key : ChildKey => (ofLex (ofLex key).2).2) hkey)
  have hids : SortedMap.get? (k.newEntry S parentId name now).id k.idsIndex = none := by
    refine Option.eq_none_iff_forall_ne_some.2 fun h' hget => ?_
    obtain ⟨e', hentry', -, hkey⟩ := (hk.ids _ h').1 hget
    exact hnew hentry' hkey
  have hforget : ∀ {K : Type} [LinearOrder K] {I : Indexer P K} {index : List (K × ℤ)},
      I.Consistent index k.getEntryByHandle →
      I.Consistent index (update k.getEntryByHandle k.nextMetahandle none) := fun hc =>
    hc.forget fun e hentry => by
      rw [hnone] at hentry
      cases hentry
  have hcreate : k.create S parentId name now = some { k.nextDirty (k.nextId - 1) with
      metahandlesIndex := SortedMap.set k.nextMetahandle (k.newEntry S parentId name now) k.metahandlesIndex
      parentIdChildIndex := SortedMap.set (parentIdAndHandleIndexer.key (k.newEntry S parentId name now))
        k.nextMetahandle k.parentIdChildIndex
      idsIndex := SortedMap.set (k.newEntry S parentId name now).id k.nextMetahandle k.idsIndex } := by
    unfold Kernel.create Kernel.insertEntry
    rw [if_neg, if_neg, if_neg, if_neg]
    · rfl
    · exact Bool.false_ne_true
    · exact fun hsome => isSome_iff_ne_none.1 hsome hids
    · exact fun hand => isSome_iff_ne_none.1 (Bool.and_eq_true_iff.1 hand).2 hchild
    · exact fun hsome => isSome_iff_ne_none.1 hsome hnone
  have hentries := k.getEntryByHandle_set k.nextMetahandle (k.newEntry S parentId name now)
  have hin : parentIdAndHandleIndexer.shouldInclude (k.newEntry S parentId name now) = true := by
    change (!false && !k.nextNewId.isRoot) = true
    rw [Bool.not_false, Bool.true_and, Bool.not_eq_true', Bool.eq_false_iff, Ne, Id.isRoot_iff]
    exact hroot
  have hk' : Indexed { k.nextDirty (k.nextId - 1) with
      metahandlesIndex := SortedMap.set k.nextMetahandle (k.newEntry S parentId name now) k.metahandlesIndex
      parentIdChildIndex := SortedMap.set (parentIdAndHandleIndexer.key (k.newEntry S parentId name now))
        k.nextMetahandle k.parentIdChildIndex
      idsIndex := SortedMap.set (k.newEntry S parentId name now).id k.nextMetahandle k.idsIndex } := by
    constructor
    · intro h e hentry
      rw [Kernel.getEntryByHandle, congrFun hentries h, update_apply] at hentry
      split at hentry
      · rename_i heq
        cases hentry
        exact heq.symm
      · exact hk.metaHandle hentry
    · have hset := (hforget hk.ids).set (e := k.newEntry S parentId name now) rfl hfreeIds
      rw [← hentries] at hset
      exact hset
    · have hset := (hforget hk.children).set hin hfree
      rw [← hentries] at hset
      exact hset
    · exact hk.sorted.set _ _
    · intro h e hentry
      rw [Kernel.getEntryByHandle, congrFun hentries h, update_apply] at hentry
      split at hentry
      · rename_i heq
        exact lt_of_eq_of_lt heq (lt_add_one k.nextMetahandle)
      · exact (hk.lt_next hentry).trans (lt_add_one k.nextMetahandle)
    · intro h e hentry n hn
      have hlt : n < k.nextId := lt_of_le_of_lt hn (sub_one_lt k.nextId)
      rw [Kernel.getEntryByHandle, congrFun hentries h, update_apply] at hentry
      split at hentry
      · cases hentry
        exact fun heq => hlt.ne' (Id.createFromClientString_inj hk.nextId_neg (hlt.trans hk.nextId_neg) heq)
      · exact hk.fresh hentry n hlt.le
    · exact (sub_one_lt k.nextId).trans hk.nextId_neg
  refine ⟨_, hcreate, hk', funext fun id => Option.ext fun r => ?_⟩
  obtain ⟨h, e⟩ := r
  rw [hk'.getEntryById_eq_some_iff, Kernel.getEntryByHandle, congrFun hentries h, update_apply,
    update_apply]
  by_cases heq : id = k.nextNewId
  · rw [if_pos heq, Option.some.injEq, Prod.mk.injEq]
    constructor
    · rintro ⟨hentry, hide⟩
      split at hentry
      · rename_i hh
        exact ⟨hh.symm, Option.some.inj hentry⟩
      · exact absurd (hide.trans heq) (hnew hentry)
    · rintro ⟨rfl, rfl⟩
      exact ⟨if_pos rfl, heq.symm⟩
  · rw [if_neg heq, hk.getEntryById_eq_some_iff]
    split
    · rename_i hh
      rw [hh, hnone]
      constructor
      · rintro ⟨hentry, hide⟩
        cases hentry
        exact absurd hide.symm heq
      · rintro ⟨hentry, -⟩
        cases hentry
    · rfl

theorem Ordered.create_spec {parentId predecessorId : Id} (name : List UInt8) (now : ℤ)
    (ho : Ordered k order) (hk : Indexed k) (hpredecessor : predecessorId = .root ∨ k.Live predecessorId parentId) :
    ∃ k' order', ((k.create S parentId name now).bind fun k₁ => k₁.putPredecessor k.nextMetahandle predecessorId) =
        some (k', true) ∧ Indexed k' ∧ Ordered k' order' ∧
      (∀ p, (order' p).erase k.nextNewId = (order p).erase k.nextNewId) ∧
      ∃ l r, order' parentId = l ++ k.nextNewId :: r ∧ before .root l = predecessorId := by
  obtain ⟨k₁, hcreate, hk₁, hfind⟩ := indexed_create S parentId name now hk
  have hroot : k.nextNewId ≠ .root := Id.createFromClientString_ne_root hk.nextId_neg
  have hfound : k₁.getEntryById k.nextNewId = some (k.nextMetahandle, k.newEntry S parentId name now) := by
    rw [hfind, update_self]
  have hmem : ∀ p, k.nextNewId ∉ order p := by
    intro p hin
    obtain ⟨h, e, hold, -⟩ := ((ho.mem_iff not_false p).1 hin).found
    obtain ⟨hentry, hid⟩ := hk.getEntryById_eq_some_iff.1 hold
    exact hk.fresh hentry k.nextId le_rfl hid
  have hother : ∀ id', id' ≠ k.nextNewId → k₁.getEntryById id' = k.getEntryById id' := fun id' hne => by
    rw [hfind, update_of_ne hne]
  have ho₁ : OrderedBut k₁ (· = k.nextNewId) order := by
    refine OrderedBut.congr (ho.mono fun _ hl => hl.elim) (fun id' hor => ?_) fun id' hne => ?_
    · have hne : id' ≠ k.nextNewId := by
        rcases hor with hne | ⟨p, hin⟩
        · exact hne
        · exact fun heq => hmem p (heq ▸ hin)
      rw [Kernel.link, Kernel.link, Kernel.link, Kernel.link, hother id' hne]
      exact ⟨rfl, rfl⟩
    · rw [Kernel.shape, Kernel.shape, hother id' hne]
  have hplaced : Placed k₁ order k.nextNewId := by
    refine .inr ⟨hmem, .inl ?_⟩
    rw [Kernel.link_of_found hfound, Kernel.link_of_found hfound]
    exact ⟨rfl, rfl⟩
  obtain ⟨k', order', hput, hk', -, ho', hsame, hplace⟩ := ho₁.putPredecessor_spec predecessorId hk₁
    hfound hroot (fun _ heq => heq) hplaced fun _ => hpredecessor.imp_right fun hlive => by
      have hin := (ho.mem_iff not_false parentId).2 hlive
      have hne : predecessorId ≠ k.nextNewId := fun heq => hmem parentId (heq ▸ hin)
      exact (List.mem_erase_of_ne hne).2 hin
  refine ⟨k', order', ?_, hk', ho', hsame, hplace rfl⟩
  rw [hcreate, bind_some, hput]

/-! ## Purging -/

/-- `PurgeEntriesWithTypeIn` is to drop an entry with these specifics. -/
def doomed (S : EntitySpecifics P) (types : List ModelType) (specifics : ProtoField → P) : Bool :=
  S.getModelType (specifics .specifics) ∈ types || S.getModelType (specifics .serverSpecifics) ∈ types

/-- What is left of an id when the entries that are doomed have gone, those of them whose handles were come to. -/
def survives (S : EntitySpecifics P) (types : List ModelType) (hs : List ℤ)
    (s : ℤ × Id × Bool × (ProtoField → P)) : Bool :=
  !(decide (s.1 ∈ hs) && doomed S types s.2.2.2)

theorem OrderedBut.drop (k' : Kernel P) (ho : OrderedBut k (· = id) order) (hk : Indexed k) (hfound : k.getEntryById id = some (h, e))
    (hmem : ∀ p, id ∉ order p) (hentries : k'.getEntryByHandle = update k.getEntryByHandle h none)
    (hids : k'.idsIndex = SortedMap.erase e.id k.idsIndex)
    (hchildren : k'.parentIdChildIndex = SortedMap.erase (parentIdAndHandleIndexer.key e) k.parentIdChildIndex)
    (hnext : k'.nextMetahandle = k.nextMetahandle) (hnextId : k'.nextId = k.nextId) :
    Indexed k' ∧ Ordered k' order ∧ k'.shape = update k.shape id none := by
  obtain ⟨hentry, hid⟩ := hk.getEntryById_eq_some_iff.1 hfound
  have hold : ∀ {h' e'}, k'.getEntryByHandle h' = some e' → h' ≠ h ∧ k.getEntryByHandle h' = some e' := by
    intro h' e' hentry'
    rw [hentries, update_apply] at hentry'
    split at hentry'
    · cases hentry'
    · rename_i hne
      exact ⟨hne, hentry'⟩
  have hk' : Indexed k' := by
    constructor
    · exact fun hentry' => hk.metaHandle (hold hentry').2
    · rw [hids, hentries]
      exact hk.ids.erase hentry fun h' e' hne hentry' _ hkey => hne (hk.inj hentry' hentry hkey)
    · rw [hchildren, hentries]
      exact hk.children.erase hentry (hk.children_free hentry rfl)
    · rw [hchildren]
      exact hk.sorted.erase _
    · exact fun hentry' => hnext ▸ hk.lt_next (hold hentry').2
    · exact fun hentry' n hn => hk.fresh (hold hentry').2 n (hnextId ▸ hn)
    · exact hnextId ▸ hk.nextId_neg
  have hfind : k'.getEntryById = update k.getEntryById id none := by
    refine funext fun id' => Option.ext fun r => ?_
    obtain ⟨h', e'⟩ := r
    rw [hk'.getEntryById_eq_some_iff, update_apply]
    split
    · rename_i heq
      constructor
      · rintro ⟨hentry', hid'⟩
        obtain ⟨hne, hentry₀⟩ := hold hentry'
        exact absurd (hk.inj hentry₀ hentry ((hid'.trans heq).trans hid.symm)) hne
      · nofun
    · rename_i hne
      rw [hk.getEntryById_eq_some_iff, hentries, update_apply]
      split
      · rename_i hh
        rw [hh, hentry]
        constructor
        · exact fun hor => nomatch hor.1
        · rintro ⟨hentry', hid'⟩
          cases hentry'
          exact absurd (hid'.symm.trans hid) hne
      · rfl
  have hshape : k'.shape = update k.shape id none := by
    funext id'
    rw [Kernel.shape, hfind, update_apply, update_apply]
    split <;> rfl
  have hlink : ∀ field, k'.link field id = id := by
    intro field
    rw [Kernel.link, hfind, update_self]
    rfl
  refine ⟨hk', ?_, hshape⟩
  refine OrderedBut.settle (ho.congr (fun id' hor => ?_) fun id' hne => ?_) hmem (fun p hl => ?_) (hlink _) (hlink _)
  · have hne : id' ≠ id := by
      rcases hor with hne | ⟨p, hin⟩
      · exact hne
      · exact fun heq => hmem p (heq ▸ hin)
    rw [Kernel.link, Kernel.link, Kernel.link, Kernel.link, hfind, update_of_ne hne]
    exact ⟨rfl, rfl⟩
  · rw [hshape, update_of_ne hne]
  · obtain ⟨-, h', specifics, hsome⟩ := hl
    rw [hshape, update_self] at hsome
    cases hsome

theorem Indexed.entry_of_shape (hk : Indexed k) {parentId : Id} {isDel : Bool} {specifics : ProtoField → P}
    (hshape : k.shape id = some (h, parentId, isDel, specifics)) :
    ∃ e, k.getEntryByHandle h = some e ∧ e.id = id ∧ e.specificsFields = specifics := by
  obtain ⟨⟨h', e⟩, hfound, heq⟩ := Option.map_eq_some_iff.1 hshape
  simp only [Prod.mk.injEq] at heq
  obtain ⟨rfl, -, -, hspecifics⟩ := heq
  obtain ⟨hentry, hid⟩ := hk.getEntryById_eq_some_iff.1 hfound
  exact ⟨e, hentry, hid, hspecifics⟩

theorem filter_survives_eq {S : EntitySpecifics P} {types : List ModelType} {hs : List ℤ}
    {o : Option (ℤ × Id × Bool × (ProtoField → P))}
    (ho : ∀ h parentId isDel specifics, o = some (h, parentId, isDel, specifics) → h ∈ hs →
      doomed S types specifics = false) : o.filter (survives S types hs) = o := by
  cases o with
  | none => rfl
  | some s =>
    rw [Option.filter_some, if_pos]
    by_cases hmem : s.1 ∈ hs
    · rw [survives, ho _ _ _ _ rfl hmem, Bool.and_false, Bool.not_false]
    · rw [survives, decide_eq_false hmem, Bool.false_and, Bool.not_false]

theorem OrderedBut.isSome_shape {p : Id} (ho : Ordered k order) (hmem : id ∈ order p) : (k.shape id).isSome = true :=
  isSome_iff_ne_none.2 (ho.shape_ne_none hmem not_false)

/-- One turn of the loop of `PurgeEntriesWithTypeIn`. -/
theorem Ordered.purgeEntry_spec (types : List ModelType) (ho : Ordered k order)
    (hk : Indexed k) (h : ℤ) :
    ∃ k' order', k.purgeEntry S types h = some k' ∧ Indexed k' ∧ Ordered k' order' ∧
      (∀ id, k'.shape id = (k.shape id).filter (survives S types [h])) ∧
      ∀ p, order' p = (order p).filter fun id => (k'.shape id).isSome := by
  have hstay : (∀ e, k.getEntryByHandle h = some e → doomed S types e.specificsFields = false) →
      (∀ id, k.shape id = (k.shape id).filter (survives S types [h])) ∧
        ∀ p, order p = (order p).filter fun id => (k.shape id).isSome := by
    intro hno
    refine ⟨fun id => (filter_survives_eq fun h' parentId isDel specifics hshape hmem => ?_).symm, fun p => ?_⟩
    · obtain ⟨e, hentry, -, hspecifics⟩ := hk.entry_of_shape hshape
      exact hspecifics ▸ hno e (List.mem_singleton.1 hmem ▸ hentry)
    · exact (List.filter_eq_self.2 fun id hmem => OrderedBut.isSome_shape ho hmem).symm
  cases hentry : k.getEntryByHandle h with
  | none =>
    obtain ⟨hshape, horder⟩ := hstay fun e he => by
      rw [hentry] at he
      cases he
    refine ⟨k, order, ?_, hk, ho, hshape, horder⟩
    rw [Kernel.purgeEntry, hentry]
  | some e =>
    cases hdoomed : doomed S types e.specificsFields with
    | false =>
      obtain ⟨hshape, horder⟩ := hstay fun e' he => by
        rw [hentry] at he
        cases he
        exact hdoomed
      refine ⟨k, order, ?_, hk, ho, hshape, horder⟩
      rw [doomed, Bool.or_eq_false_iff, decide_eq_false_iff_not, decide_eq_false_iff_not] at hdoomed
      rw [Kernel.purgeEntry, hentry]
      exact if_neg (not_or.2 hdoomed)
    | true =>
      have hfound : k.getEntryById e.id = some (h, e) := hk.getEntryById_eq_some_iff.2 ⟨hentry, rfl⟩
      obtain ⟨k₁, hunlink, hk₁, hshape₁, ho₁, -⟩ :=
        OrderedBut.unlink ho hk hfound (fun _ hl => hl.elim) (Ordered.placed ho e.id)
      obtain ⟨e₁, hfound₁, -⟩ := Kernel.found_of_shape hshape₁ hfound
      obtain ⟨hentry₁, hid₁⟩ := hk₁.getEntryById_eq_some_iff.1 hfound₁
      have hout : ∀ p, e.id ∉ (order p).erase e.id := fun p => (ho.linked p).nodup.not_mem_erase
      have herase : ∀ (k₁ : Kernel P), (fun h' => SortedMap.get? h' (SortedMap.erase h k₁.metahandlesIndex)) =
          update k₁.getEntryByHandle h none := by
        intro k₁
        funext h'
        rw [SortedMap.get?_erase, update_apply]
        exact if_congr eq_comm rfl rfl
      obtain ⟨hk', ho', hshape'⟩ := ho₁.drop { k₁ with
        metahandlesToPurge := k₁.metahandlesToPurge.insert e₁.metaHandle
        idsIndex := SortedMap.erase e₁.id k₁.idsIndex
        clientTagIndex := SortedMap.erase (e₁.stringFields .uniqueClientTag) k₁.clientTagIndex
        unsyncedMetahandles := k₁.unsyncedMetahandles.filter (· ≠ e₁.metaHandle)
        unappliedUpdateMetahandles := k₁.unappliedUpdateMetahandles.filter (· ≠ e₁.metaHandle)
        parentIdChildIndex := SortedMap.erase (parentIdAndHandleIndexer.key e₁) k₁.parentIdChildIndex
        metahandlesIndex := SortedMap.erase h k₁.metahandlesIndex } hk₁ hfound₁ hout (herase k₁) rfl rfl rfl rfl
      refine ⟨_, _, ?_, hk', ho', fun id => ?_, fun p => ?_⟩
      · rw [Kernel.purgeEntry, hentry]
        dsimp only
        rw [doomed, Bool.or_eq_true, decide_eq_true_iff, decide_eq_true_iff] at hdoomed
        rw [if_pos hdoomed, hunlink]
        change (k₁.getEntryByHandle h).bind _ = _
        rw [hentry₁, bind_some]
      · rw [hshape', hshape₁, update_apply]
        split
        · rename_i heq
          rw [heq, Kernel.shape, hfound, map_some, Option.filter_some, if_neg]
          rw [survives, hdoomed, decide_eq_true (List.mem_singleton_self h)]
          exact Bool.false_ne_true
        · rename_i hne
          refine (filter_survives_eq fun h' parentId isDel specifics hshape hmem => ?_).symm
          obtain ⟨e', hentry', hid', -⟩ := hk.entry_of_shape hshape
          rw [List.mem_singleton.1 hmem, hentry] at hentry'
          cases hentry'
          exact absurd hid'.symm hne
      · rw [(ho.linked p).nodup.erase_eq_filter]
        refine List.filter_congr fun a ha => ?_
        rw [hshape', hshape₁, update_apply]
        split
        · rename_i heq
          rw [heq, bne_self_eq_false]
          rfl
        · rename_i hne
          rw [OrderedBut.isSome_shape ho ha, bne_iff_ne.2 hne]

/-- **`PurgeEntriesWithTypeIn`**, by induction on the handles that the loop comes to: the entries that are doomed are
gone, and the order of the others is as it was. -/
theorem Ordered.purge_spec (types : List ModelType) (hs : List ℤ) (ho : Ordered k order)
    (hk : Indexed k) :
    ∃ k' order', hs.foldlM (fun k h => k.purgeEntry S types h) k = some k' ∧ Indexed k' ∧ Ordered k' order' ∧
      (∀ id, k'.shape id = (k.shape id).filter (survives S types hs)) ∧
      ∀ p, order' p = (order p).filter fun id => (k'.shape id).isSome := by
  induction hs generalizing k order with
  | nil =>
    refine ⟨k, order, rfl, hk, ho, fun id => (filter_survives_eq fun _ _ _ _ _ hmem => ?_).symm, fun p => ?_⟩
    · cases hmem
    · exact (List.filter_eq_self.2 fun id hmem => OrderedBut.isSome_shape ho hmem).symm
  | cons h hs ih =>
    obtain ⟨k₁, order₁, hone, hk₁, ho₁, hshape₁, horder₁⟩ := Ordered.purgeEntry_spec S types ho hk h
    obtain ⟨k', order', hrun, hk', ho', hshape', horder'⟩ := ih ho₁ hk₁
    refine ⟨k', order', ?_, hk', ho', fun id => ?_, fun p => ?_⟩
    · rw [List.foldlM_cons, hone]
      exact hrun
    · rw [hshape', hshape₁, Option.filter_filter]
      refine congrFun (congrArg Option.filter (funext fun s => ?_)) _
      rw [survives, survives, survives, ← Bool.not_or, ← Bool.and_or_distrib_right, ← Bool.decide_or]
      simp only [List.mem_cons, List.not_mem_nil, or_false]
    · rw [horder', horder₁, List.filter_filter]
      refine List.filter_congr fun a _ => ?_
      rw [hshape']
      cases hshape : k₁.shape a with
      | none => rfl
      | some s => rw [Option.isSome_some, Bool.and_true]

/-! ## Runs -/

/-- The operations that place children. -/
inductive Move
  | create (parentId : Id) (name : List UInt8) (now : ℤ) (predecessorId : Id)
  | putPredecessor (h : ℤ) (predecessorId : Id)
  | putParentId (h : ℤ) (parentId : Id)
  | putIsDel (h : ℤ) (isDel : Bool)
  | purge (types : List ModelType)

namespace Move

def run (S : EntitySpecifics P) (k : Kernel P) : Move → Option (Kernel P)
  | create parentId name now predecessorId =>
    ((k.create S parentId name now).bind fun k₁ => k₁.putPredecessor k.nextMetahandle predecessorId).map Prod.fst
  | putPredecessor h predecessorId => (k.putPredecessor h predecessorId).map Prod.fst
  | putParentId h parentId => (k.putId h .parentId parentId).map Prod.fst
  | putIsDel h isDel => k.putIsDel h isDel
  | purge types => k.purgeEntriesWithTypeIn S types

/-- The entry that is placed is there and is not the root item, and its predecessor is the root id or a live child of
the same parent, other than the entry. -/
def Valid (k : Kernel P) : Move → Prop
  | create parentId _ _ predecessorId => predecessorId = .root ∨ k.Live predecessorId parentId
  | putPredecessor h predecessorId => ∃ e, k.getEntryByHandle h = some e ∧ e.id ≠ .root ∧
      (predecessorId = .root ∨ k.Live predecessorId e.parentId ∧ predecessorId ≠ e.id)
  | putParentId h _ => ∃ e, k.getEntryByHandle h = some e ∧ e.id ≠ .root
  | putIsDel h _ => ∃ e, k.getEntryByHandle h = some e ∧ e.id ≠ .root
  | purge _ => True

/-- What an operation does to the order: but for the entry that it is about, or those that it purges, the children stay
in their order; and an entry that is given a predecessor is directly after it. -/
def Reorders (S : EntitySpecifics P) (k : Kernel P) (order order' : Id → List Id) : Move → Prop
  | create parentId _ _ predecessorId =>
    (∀ p, (order' p).erase k.nextNewId = (order p).erase k.nextNewId) ∧
      ∃ l r, order' parentId = l ++ k.nextNewId :: r ∧ before .root l = predecessorId
  | putPredecessor h predecessorId => ∀ e, k.getEntryByHandle h = some e →
    (∀ p, (order' p).erase e.id = (order p).erase e.id) ∧
      (e.isDel = false → ∃ l r, order' e.parentId = l ++ e.id :: r ∧ before .root l = predecessorId)
  | putParentId h _ => ∀ e, k.getEntryByHandle h = some e → ∀ p, (order' p).erase e.id = (order p).erase e.id
  | putIsDel h _ => ∀ e, k.getEntryByHandle h = some e → ∀ p, (order' p).erase e.id = (order p).erase e.id
  | purge types => ∀ p, order' p = (order p).filter fun id =>
      (k.getEntryById id).all fun r => types.contains .unspecified || types.contains .topLevelFolder ||
        !doomed S types r.2.specificsFields

theorem run_spec (S : EntitySpecifics P) {move : Move} (ho : Ordered k order) (hk : Indexed k) (hvalid : move.Valid k) :
    ∃ k' order', move.run S k = some k' ∧ Indexed k' ∧ Ordered k' order' ∧ move.Reorders S k order order' := by
  cases move with
  | create parentId name now predecessorId =>
    obtain ⟨k', order', hrun, hk', ho', hsame, hplace⟩ := Ordered.create_spec S name now ho hk hvalid
    exact ⟨k', order', congrArg (Option.map Prod.fst) hrun, hk', ho', hsame, hplace⟩
  | putPredecessor h predecessorId =>
    obtain ⟨e, hentry, hroot, hpredecessor⟩ := hvalid
    have hfound := hk.getEntryById_eq_some_iff.2 ⟨hentry, rfl⟩
    obtain ⟨k', order', hrun, hk', -, ho', hsame, hplace⟩ := OrderedBut.putPredecessor_spec
      predecessorId ho hk hfound hroot (fun _ hl => hl.elim) (Ordered.placed ho e.id) fun _ =>
        hpredecessor.imp_right fun hlive => (List.mem_erase_of_ne hlive.2).2 ((ho.mem_iff not_false _).2 hlive.1)
    refine ⟨k', order', congrArg (Option.map Prod.fst) hrun, hk', ho', fun e' hentry' => ?_⟩
    obtain rfl := Option.some.inj (hentry.symm.trans hentry')
    exact ⟨hsame, hplace⟩
  | putParentId h parentId =>
    obtain ⟨e, hentry, hroot⟩ := hvalid
    have hfound := hk.getEntryById_eq_some_iff.2 ⟨hentry, rfl⟩
    obtain ⟨k', order', hrun, hk', ho', hsame⟩ := Ordered.putParentId_spec ho hk hfound hroot parentId
    refine ⟨k', order', congrArg (Option.map Prod.fst) hrun, hk', ho', fun e' hentry' => ?_⟩
    obtain rfl := Option.some.inj (hentry.symm.trans hentry')
    exact hsame
  | putIsDel h isDel =>
    obtain ⟨e, hentry, hroot⟩ := hvalid
    have hfound := hk.getEntryById_eq_some_iff.2 ⟨hentry, rfl⟩
    obtain ⟨k', order', hrun, hk', ho', hsame⟩ := Ordered.putIsDel_spec ho hk hfound hroot isDel
    refine ⟨k', order', hrun, hk', ho', fun e' hentry' => ?_⟩
    obtain rfl := Option.some.inj (hentry.symm.trans hentry')
    exact hsame
  | purge types =>
    change ∃ k' order', k.purgeEntriesWithTypeIn S types = some k' ∧ Indexed k' ∧ Ordered k' order' ∧
      ∀ p, order' p = (order p).filter fun id => (k.getEntryById id).all fun r =>
        types.contains .unspecified || types.contains .topLevelFolder || !doomed S types r.2.specificsFields
    unfold Kernel.purgeEntriesWithTypeIn
    split
    · rename_i hunsupported
      have htrue : (types.contains .unspecified || types.contains .topLevelFolder) = true := by
        rw [Bool.or_eq_true, List.contains_iff_mem, List.contains_iff_mem]
        exact hunsupported
      refine ⟨k, order, rfl, hk, ho, fun p => (List.filter_eq_self.2 fun id _ => ?_).symm⟩
      rw [htrue]
      cases k.getEntryById id with
      | none | some r => rfl
    · rename_i hsupported
      have hfalse : (types.contains .unspecified || types.contains .topLevelFolder) = false := by
        rw [Bool.eq_false_iff, Ne, Bool.or_eq_true, List.contains_iff_mem, List.contains_iff_mem]
        exact hsupported
      obtain ⟨k', order', hrun, hk', ho', hshape, horder⟩ := Ordered.purge_spec S types
        (k.metahandlesIndex.map Prod.fst) ho hk
      refine ⟨k', order', hrun, hk', ho', fun p => (horder p).trans (List.filter_congr fun id hmem => ?_)⟩
      obtain ⟨h, e, hfound⟩ := Kernel.exists_of_shape (ho.shape_ne_none hmem not_false)
      have hkey : h ∈ k.metahandlesIndex.map Prod.fst :=
        List.mem_map_of_mem (SortedMap.mem_of_get? (hk.getEntryById_eq_some_iff.1 hfound).1)
      rw [hshape, Kernel.shape, hfound, hfalse, map_some, Option.isSome_filter, Option.any_some, survives,
        decide_eq_true hkey, Bool.true_and, Option.all_some, Bool.false_or]

end Move

def children (S : EntitySpecifics P) : TransSys (Kernel P) Move where
  init k := Indexed k ∧ ∃ order, Ordered k order
  step k move k' := move.Valid k ∧ move.run S k = some k'

theorem Ordered.unique {order' : Id → List Id} (ho : Ordered k order) (ho' : Ordered k order') : order' = order :=
  funext fun p => (ho'.linked p).unique (ho.linked p) fun _ =>
    (ho'.mem_iff not_false p).trans (ho.mem_iff not_false p).symm

theorem ordered_of_run {S : EntitySpecifics P} {moves : List Move} (hrun : (children S).Run moves k) :
    Indexed k ∧ ∃ order, Ordered k order := by
  refine hrun.invariant (I := fun k => Indexed k ∧ ∃ order, Ordered k order) (fun _ hinit => hinit) ?_
  rintro k move k' ⟨hk, order, ho⟩ ⟨hvalid, hrun⟩
  obtain ⟨k'', order', hrun', hk', ho', -⟩ := Move.run_spec S ho hk hvalid
  obtain rfl := Option.some.inj (hrun'.symm.trans hrun)
  exact ⟨hk', order', ho'⟩

/-- **The order of the children.**  In every state that is reached, the live children of each parent make exactly one
list through their links, deleted entries are self-looped, `GetFirstChildId` and `GetLastChildId` find the ends of the
list; and each further operation succeeds, and leaves the order of the other children as it is. -/
theorem children_spec {S : EntitySpecifics P} {moves : List Move} (hrun : (children S).Run moves k) :
    ∃ order, Ordered k order ∧ (∀ order', Ordered k order' → order' = order) ∧
      (∀ h e, k.getEntryByHandle h = some e → e.isDel = true → e.prevId = e.id ∧ e.nextId = e.id) ∧
      (∀ p, k.getFirstChildId p = some (after .root (order p)) ∧ k.getLastChildId p = some (before .root (order p))) ∧
      ∀ move : Move, move.Valid k →
        ∃ k' order', move.run S k = some k' ∧ Ordered k' order' ∧ move.Reorders S k order order' := by
  obtain ⟨hk, order, ho⟩ := ordered_of_run hrun
  refine ⟨order, ho, fun order' ho' => Ordered.unique ho ho', fun h e hentry hdel => ?_, fun p => ?_, fun move hvalid => ?_⟩
  · have hfound := hk.getEntryById_eq_some_iff.mpr ⟨hentry, rfl⟩
    have hloops : k.link .prevId e.id = e.id ∧ k.link .nextId e.id = e.id := ho.loops not_false fun p hlive => by
      obtain ⟨h', e', hfound', -, hdel'⟩ := hlive.found
      rw [hfound] at hfound'
      cases hfound'
      rw [hdel] at hdel'
      cases hdel'
    rwa [Kernel.link_of_found hfound, Kernel.link_of_found hfound] at hloops
  · exact ho.childId_spec hk p fun _ hl => hl.elim
  · obtain ⟨k', order', hmove, -, ho', hreorders⟩ := Move.run_spec S ho hk hvalid
    exact ⟨k', order', hmove, ho', hreorders⟩

def rootItem (S : EntitySpecifics P) : EntryKernel P :=
  { (EntryKernel.new S).putBit .isDir true with metaHandle := 1, baseVersion := Kernel.changesVersion }

def newDirectory (S : EntitySpecifics P) : Kernel P where
  metahandlesIndex := [(1, rootItem S)]
  parentIdChildIndex := []
  idsIndex := [(.root, 1)]
  clientTagIndex := []
  unappliedUpdateMetahandles := []
  unsyncedMetahandles := []
  dirtyMetahandles := []
  metahandlesToPurge := []
  nextId := -2
  nextMetahandle := 2

theorem getEntryByHandle_newDirectory {S : EntitySpecifics P} :
    (newDirectory S).getEntryByHandle h = some e ↔ h = 1 ∧ e = rootItem S := by
  change (if 1 = h then some (rootItem S) else none) = some e ↔ _
  split
  · rename_i heq
    rw [Option.some.injEq]
    exact ⟨fun h => ⟨heq.symm, h.symm⟩, fun h => h.2.symm⟩
  · rename_i hne
    exact ⟨nofun, fun h => absurd h.1.symm hne⟩

theorem init_newDirectory (S : EntitySpecifics P) : (children S).init (newDirectory S) := by
  have neg_two_lt_zero : (-2 : ℤ) < 0 := by decide
  have hids : ∀ {key h}, SortedMap.get? key (newDirectory S).idsIndex = some h ↔ key = .root ∧ h = 1 := by
    intro key h
    rw [newDirectory, SortedMap.get?, SortedMap.get?]
    split
    · rename_i heq
      rw [Option.some.injEq]
      exact ⟨fun h => ⟨heq.symm, h.symm⟩, fun h => h.2.symm⟩
    · rename_i hne
      exact ⟨fun h => (by cases h), fun h => absurd h.1.symm hne⟩
  have hk : Indexed (newDirectory S) := by
    constructor
    · intro h e hentry
      obtain ⟨rfl, rfl⟩ := getEntryByHandle_newDirectory.1 hentry
      rfl
    · intro key h
      rw [hids]
      constructor
      · rintro ⟨rfl, rfl⟩
        exact ⟨rootItem S, rfl, rfl, rfl⟩
      · rintro ⟨e, hentry, -, rfl⟩
        obtain ⟨rfl, rfl⟩ := getEntryByHandle_newDirectory.1 hentry
        exact ⟨rfl, rfl⟩
    · intro key h
      refine iff_of_false (fun h => by cases h) ?_
      rintro ⟨e, hentry, hin, -⟩
      obtain ⟨rfl, rfl⟩ := getEntryByHandle_newDirectory.1 hentry
      cases hin
    · exact List.Pairwise.nil
    · intro h e hentry
      obtain ⟨rfl, rfl⟩ := getEntryByHandle_newDirectory.1 hentry
      exact one_lt_two
    · intro h e hentry n hn heq
      obtain ⟨rfl, rfl⟩ := getEntryByHandle_newDirectory.1 hentry
      exact Id.createFromClientString_ne_root (lt_of_le_of_lt hn neg_two_lt_zero) heq.symm
    · exact neg_two_lt_zero
  have hfound : ∀ {id h e}, (newDirectory S).getEntryById id = some (h, e) → id = .root ∧ e = rootItem S := by
    intro id h e hfound
    obtain ⟨hentry, rfl⟩ := hk.getEntryById_eq_some_iff.1 hfound
    obtain ⟨rfl, rfl⟩ := getEntryByHandle_newDirectory.1 hentry
    exact ⟨rfl, rfl⟩
  refine ⟨hk, fun _ => [], ?_⟩
  constructor
  · refine fun p => ⟨List.nodup_nil, List.not_mem_nil, List.isChain_pair.2 ⟨?_, ?_⟩⟩
    · exact fun hne => absurd rfl hne
    · exact fun hne => absurd rfl hne
  · intro id _ p
    refine iff_of_false List.not_mem_nil fun hlive => ?_
    obtain ⟨h, e, hfound', -⟩ := hlive.found
    exact hlive.1 (hfound hfound').1
  · intro id _ _
    cases hfind : (newDirectory S).getEntryById id with
    | none =>
      rw [Kernel.link, Kernel.link, hfind]
      exact ⟨rfl, rfl⟩
    | some r =>
      obtain ⟨h, e⟩ := r
      obtain ⟨rfl, rfl⟩ := hfound hfind
      rw [Kernel.link, Kernel.link, hfind]
      exact ⟨rfl, rfl⟩

/-- Two children are created in front, and the second is the first then. -/
theorem children_twoCreated : ∃ (k : Kernel Unit) (order : Id → List Id),
    (children noSpecifics).Run [.create .root [97] 0 .root, .create .root [98] 0 .root] k ∧ Ordered k order ∧
      k.getFirstChildId .root = some (after .root (order .root)) ∧
      k.getFirstChildId .root = some (.client [45, 51]) := by
  have hinit : (children noSpecifics).Run [] (newDirectory noSpecifics) := .init (init_newDirectory noSpecifics)
  have hfirst : (children noSpecifics).Run [.create .root [97] 0 .root] _ := hinit.step ⟨.inl rfl, rfl⟩
  have hsecond : (children noSpecifics).Run [.create .root [97] 0 .root, .create .root [98] 0 .root] _ :=
    hfirst.step ⟨.inl rfl, rfl⟩
  obtain ⟨order, ho, -, -, hends, -⟩ := children_spec hsecond
  exact ⟨_, order, hsecond, ho, (hends .root).1, rfl⟩

/-- Two live children that say that they are the first are in no list together. -/
theorem not_ordered_of_two_heads {p : Id} (a b : Id) (hne : a ≠ b) (ha : k.Live a p) (hb : k.Live b p)
    (hpreva : k.link .prevId a = .root) (hprevb : k.link .prevId b = .root) : ¬ ∃ order, Ordered k order := by
  rintro ⟨order, ho⟩
  have hhead : ∀ {id}, k.Live id p → k.link .prevId id = .root → ∃ r, order p = id :: r := by
    intro id hlive hprev
    obtain ⟨l, r, hsplit⟩ := List.append_of_mem ((ho.mem_iff not_false p).2 hlive)
    have hlinked := ho.linked p
    rw [hsplit] at hlinked
    have hl : l = [] := eq_nil_of_before_eq_root (fun hmem => hlinked.root_notMem (List.mem_append_left _ hmem))
      (hlinked.links.1.symm.trans hprev)
    exact ⟨r, hsplit.trans (congrArg (· ++ id :: r) hl)⟩
  obtain ⟨r, hr⟩ := hhead ha hpreva
  obtain ⟨r', hr'⟩ := hhead hb hprevb
  exact hne (List.cons.inj (hr.symm.trans hr')).1

/-- The root item is not to be placed: after one of its own children, the children of the root id make two lists. -/
theorem not_ordered_of_rootItem : ∃ (moves : List Move) (k k' : Kernel Unit) (e : EntryKernel Unit) (predecessorId : Id),
    (children noSpecifics).Run moves k ∧ k.getEntryByHandle 1 = some e ∧ k.Live predecessorId e.parentId ∧
      predecessorId ≠ e.id ∧ k.putPredecessor 1 predecessorId = some (k', true) ∧ ¬ ∃ order, Ordered k' order := by
  have hinit : (children noSpecifics).Run [] (newDirectory noSpecifics) := .init (init_newDirectory noSpecifics)
  have hfirst : (children noSpecifics).Run [.create .root [97] 0 .root] _ := hinit.step ⟨.inl rfl, rfl⟩
  have hsecond : (children noSpecifics).Run [.create .root [97] 0 .root, .create .root [98] 0 .root] _ :=
    hfirst.step ⟨.inl rfl, rfl⟩
  refine ⟨_, _, _, _, .client [45, 51], hsecond, rfl, ⟨nofun, _, _, rfl⟩, nofun, rfl,
    not_ordered_of_two_heads (.client [45, 50]) (.client [45, 51]) nofun ⟨nofun, _, _, rfl⟩
      ⟨nofun, _, _, rfl⟩ rfl rfl⟩

end Chromium.Sync
