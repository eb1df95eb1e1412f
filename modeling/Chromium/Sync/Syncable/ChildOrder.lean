import Chromium.Lib.EndedList
import Chromium.Sync.Syncable.ChildIndex
import Mathlib.Data.List.Perm.Subperm

/-!
# The order of the children

`OrderedBut k loose order`: the live children of each parent are the elements of one list, through whose elements the
ids `PREV_ID` and `NEXT_ID` run, with the root id at both ends, and all else is self-looped; ids that are `loose` are
excepted.  An entry that is to be placed is loose first: `unlinkEntryFromOrder` takes it out of the list it is in
(`OrderedBut.unlink`), and `PutPredecessor` puts it into the list of its parent (`OrderedBut.place`).
-/

namespace Chromium.Sync

open Lib
open Function (update update_eq_self update_idem update_of_ne update_self)
open List (append_of_mem mem_cons mem_cons_of_mem mem_cons_self mem_map mem_reverse)

variable {P : Type} {k k' : Kernel P} {h : ℤ} {e : EntryKernel P} {id parentId : Id} {loose : Id → Prop}
  {order : Id → List Id}

variable {other neighbour : Id} {field : IdField} {link : Id → Id}

/-! ## What the operations do to the links -/

theorem Kernel.link_of_found (hfound : k.getEntryById id = some (h, e)) :
    k.link field id = e.idFields field := by
  rw [Kernel.link, hfound]
  rfl

theorem Kernel.exists_of_shape (hshape : k.shape id ≠ none) : ∃ h e, k.getEntryById id = some (h, e) := by
  obtain ⟨⟨h, e⟩, hfound⟩ := Option.ne_none_iff_exists'.1 fun hnone => hshape (Option.map_eq_none_iff.2 hnone)
  exact ⟨h, e, hfound⟩

theorem relinks_putLink (hk : Indexed k) (hfound : k.getEntryById id = some (h, e)) (value : Id) :
    (∃ k', k.putLink h .prevId value = some k' ∧
        Relinks k k' (update (k.link .prevId) id value) (k.link .nextId)) ∧
      ∃ k', k.putLink h .nextId value = some k' ∧
        Relinks k k' (k.link .prevId) (update (k.link .nextId) id value) := by
  obtain ⟨hentry, -⟩ := hk.getEntryById_eq_some_iff.1 hfound
  have hprev : k.link .prevId id = e.prevId := Kernel.link_of_found hfound
  have hnext : k.link .nextId id = e.nextId := Kernel.link_of_found hfound
  constructor
  all_goals rw [Kernel.putLink, hentry]
  · change ∃ k', (if e.prevId = value then some k else some (k.markDirty h (e.putId .prevId value))) = some k' ∧ _
    split
    · rename_i heq
      refine ⟨k, rfl, ?_⟩
      rw [← heq, ← hprev, update_eq_self]
      exact .refl hk
    · have hmark := relinks_markDirty (e.putId .prevId value) hk hfound
        (fun field hne _ => update_of_ne hne _ _) rfl
      refine ⟨_, rfl, ?_⟩
      rwa [show (e.putId .prevId value).nextId = k.link .nextId id from hnext.symm, update_eq_self,
        show (e.putId .prevId value).prevId = value from rfl] at hmark
  · change ∃ k', (if e.nextId = value then some k else some (k.markDirty h (e.putId .nextId value))) = some k' ∧ _
    split
    · rename_i heq
      refine ⟨k, rfl, ?_⟩
      rw [← heq, ← hnext, update_eq_self]
      exact .refl hk
    · have hmark := relinks_markDirty (e.putId .nextId value) hk hfound
        (fun field _ hne => update_of_ne hne _ _) rfl
      refine ⟨_, rfl, ?_⟩
      rwa [show (e.putId .nextId value).prevId = k.link .prevId id from hprev.symm, update_eq_self,
        show (e.putId .nextId value).nextId = value from rfl] at hmark

/-- The links of one field, when `id` is self-looped and its neighbour, if there is one, gets the other neighbour. -/
def bypass (link : Id → Id) (id neighbour other : Id) : Id → Id :=
  if neighbour = .root then Function.update link id id
  else Function.update (Function.update link id id) neighbour other

theorem relinks_unlinkNext (oldPrevious : Id) {oldNext : Id} (hk : Indexed k)
    (hshape : oldNext ≠ .root → k.shape oldNext ≠ none) :
    ∃ k', k.unlinkNext oldPrevious oldNext = some k' ∧
      Relinks k k' (if oldNext = .root then k.link .prevId else update (k.link .prevId) oldNext oldPrevious)
        (k.link .nextId) := by
  unfold Kernel.unlinkNext
  split
  · exact ⟨k, rfl, .refl hk⟩
  · rename_i hroot
    obtain ⟨h, e, hfound⟩ := Kernel.exists_of_shape (hshape hroot)
    rw [hfound]
    have hmark := relinks_markDirty (e.putId .prevId oldPrevious) hk hfound
      (fun field hne _ => update_of_ne hne _ _) rfl
    refine ⟨_, rfl, ?_⟩
    rwa [show (e.putId .prevId oldPrevious).nextId = k.link .nextId oldNext from (Kernel.link_of_found hfound).symm,
      update_eq_self, show (e.putId .prevId oldPrevious).prevId = oldPrevious from rfl] at hmark

/-- **What `UnlinkEntryFromOrder` does**, to an entry whose neighbours have entries: it is self-looped, and its
neighbours are joined. -/
theorem relinks_unlinkEntryFromOrder (hk : Indexed k) (hfound : k.getEntryById id = some (h, e))
    (hprev : e.prevId ≠ .root → k.shape e.prevId ≠ none) (hnext : e.nextId ≠ .root → k.shape e.nextId ≠ none)
    (hloop : e.prevId ≠ .root → e.prevId = e.nextId → e.prevId = id) :
    ∃ k', k.unlinkEntryFromOrder h = some k' ∧
      Relinks k k' (bypass (k.link .prevId) id e.nextId e.prevId) (bypass (k.link .nextId) id e.prevId e.nextId) := by
  obtain ⟨hentry, hid⟩ := hk.getEntryById_eq_some_iff.1 hfound
  have hmark := relinks_markDirty ((e.putId .nextId e.id).putId .prevId e.id) hk hfound
    (fun field hne hne' => (update_of_ne hne _ _).trans (update_of_ne hne' _ _)) rfl
  rw [show ((e.putId .nextId e.id).putId .prevId e.id).prevId = id from hid,
    show ((e.putId .nextId e.id).putId .prevId e.id).nextId = id from hid] at hmark
  rw [Kernel.unlinkEntryFromOrder, hentry, Option.bind_some]
  generalize k.markDirty h ((e.putId .nextId e.id).putId .prevId e.id) = k₁ at hmark ⊢
  unfold Kernel.unlinkNeighbours
  split
  · rename_i hroot
    obtain ⟨k', hunlink, hlinks⟩ := relinks_unlinkNext e.prevId hmark.indexed fun hne =>
      hmark.shape ▸ hnext hne
    refine ⟨k', hunlink, ?_⟩
    rw [hmark.prev, hmark.next] at hlinks
    rw [bypass, bypass, if_pos hroot]
    exact hmark.trans hlinks
  · rename_i hroot
    split
    · rename_i heq
      have hself : e.prevId = id := hloop hroot heq
      rw [if_pos (.inl ((heq.symm.trans hself).trans hid.symm))]
      refine ⟨k₁, rfl, ?_⟩
      rw [bypass, bypass, ← heq, if_neg hroot, if_neg hroot, hself, update_idem, update_idem]
      exact hmark
    · rename_i hne
      obtain ⟨hp, previous, hfoundp⟩ := Kernel.exists_of_shape (hmark.shape ▸ hprev hroot)
      rw [hfoundp, Option.bind_some]
      have hmark₂ := relinks_markDirty (previous.putId .nextId e.nextId) hmark.indexed hfoundp
        (fun field _ hne => update_of_ne hne _ _) rfl
      rw [show (previous.putId .nextId e.nextId).prevId = k₁.link .prevId e.prevId from
        (Kernel.link_of_found hfoundp).symm, update_eq_self,
        show (previous.putId .nextId e.nextId).nextId = e.nextId from rfl, hmark.prev, hmark.next] at hmark₂
      have hboth := hmark.trans hmark₂
      obtain ⟨k', hunlink, hlinks⟩ := relinks_unlinkNext e.prevId hboth.indexed fun hne =>
        hboth.shape ▸ hnext hne
      refine ⟨k', hunlink, ?_⟩
      rw [hboth.prev, hboth.next] at hlinks
      rw [bypass, bypass, if_neg hroot]
      exact hboth.trans hlinks

/-! ## The order -/

def Kernel.Live (k : Kernel P) (id parentId : Id) : Prop :=
  id ≠ .root ∧ ∃ h specifics, k.shape id = some (h, parentId, false, specifics)

theorem Kernel.Live.parent_eq {parentId' : Id} (hlive : k.Live id parentId) (hlive' : k.Live id parentId') :
    parentId = parentId' := by
  obtain ⟨-, h, specifics, hshape⟩ := hlive
  obtain ⟨-, h', specifics', hshape'⟩ := hlive'
  have heq := Option.some.inj (hshape.symm.trans hshape')
  simp only [Prod.mk.injEq] at heq
  exact heq.2.1

theorem Kernel.live_congr (hshape : k'.shape = k.shape) : k'.Live id parentId ↔ k.Live id parentId := by
  rw [Kernel.Live, Kernel.Live, hshape]

/-- The live children of each parent make one list, and all else is self-looped, but for what is loose. -/
structure OrderedBut (k : Kernel P) (loose : Id → Prop) (order : Id → List Id) : Prop where
  linked : ∀ p, Linked (k.link .prevId) (k.link .nextId) .root (order p)
  mem_iff : ∀ {id}, ¬ loose id → ∀ p, id ∈ order p ↔ k.Live id p
  loops : ∀ {id}, ¬ loose id → (∀ p, ¬ k.Live id p) → k.link .prevId id = id ∧ k.link .nextId id = id

/-- The live children of each parent make one list, and all else is self-looped. -/
abbrev Ordered (k : Kernel P) (order : Id → List Id) : Prop := OrderedBut k (fun _ => False) order

theorem OrderedBut.mono {loose' : Id → Prop} (ho : OrderedBut k loose order) (himp : ∀ id, loose id → loose' id) :
    OrderedBut k loose' order where
  linked := ho.linked
  mem_iff hid := ho.mem_iff fun hloose => hid (himp _ hloose)
  loops hid := ho.loops fun hloose => hid (himp _ hloose)

theorem bypass_of_ne {id' : Id} (hne : id' ≠ id) (hn : id' ≠ neighbour) :
    bypass link id neighbour other id' = link id' := by
  unfold bypass
  split
  · exact update_of_ne hne _ _
  · rw [update_of_ne hn, update_of_ne hne]

theorem bypass_apply {id' : Id} (hroot : id' ≠ .root) (hne : id' ≠ id) :
    bypass link id neighbour other id' = if id' = neighbour then other else link id' := by
  split
  · rename_i heq
    rw [bypass, if_neg fun hn => hroot (heq.trans hn), heq, update_self]
  · rename_i hn
    exact bypass_of_ne hne hn

theorem bypass_root (hne : Id.root ≠ id) : bypass link id neighbour other .root = link .root := by
  unfold bypass
  split
  · exact update_of_ne hne _ _
  · rename_i hroot
    rw [update_of_ne (Ne.symm hroot), update_of_ne hne]

theorem bypass_self (hne : neighbour ≠ .root → neighbour ≠ id ∨ other = id) :
    bypass link id neighbour other id = id := by
  unfold bypass
  split
  · exact update_self _ _ _
  · rename_i hroot
    rcases hne hroot with hne | hother
    · rw [update_of_ne hne.symm, update_self]
    · rw [Function.update_apply]
      split
      · exact hother
      · exact update_self _ _ _

theorem OrderedBut.unlink_of_mem {q : Id} (ho : OrderedBut k loose order) (hk : Indexed k)
    (hfound : k.getEntryById id = some (h, e)) (hloose : ∀ id', loose id' → id' = id) (hmem : id ∈ order q)
    (hother : ∀ p, p ≠ q → id ∉ order p) :
    ∃ k', k.unlinkEntryFromOrder h = some k' ∧ Indexed k' ∧ k'.shape = k.shape ∧
      OrderedBut k' (· = id) (fun p => (order p).erase id) ∧ k'.link .prevId id = id ∧ k'.link .nextId id = id := by
  obtain ⟨l, r, hsplit⟩ := append_of_mem hmem
  have hlinked := ho.linked q
  rw [hsplit] at hlinked
  obtain ⟨hprev, hnext⟩ := hlinked.links
  have hroot : id ≠ .root := fun heq => hlinked.root_notMem (heq ▸ List.mem_append_right l mem_cons_self)
  have hnodup := List.nodup_append.1 hlinked.nodup
  have hidl : id ∉ l := fun hl => hnodup.2.2 id hl id mem_cons_self rfl
  have hidr : id ∉ r := (List.nodup_cons.1 hnodup.2.1).1
  have hprev' : e.prevId = before .root l := (Kernel.link_of_found hfound).symm.trans hprev
  have hnext' : e.nextId = after .root r := (Kernel.link_of_found hfound).symm.trans hnext
  have hinl : e.prevId ≠ .root → e.prevId ∈ l := fun hne => hprev' ▸ before_mem (hprev' ▸ hne)
  have hinr : e.nextId ≠ .root → e.nextId ∈ r := fun hne => hnext' ▸ after_mem (hnext' ▸ hne)
  -- The neighbours are live children of the same parent.
  have hlive : ∀ {id'}, id' ∈ l ∨ id' ∈ r → id' ≠ id ∧ k.Live id' q := by
    intro id' hin
    have hne : id' ≠ id := by
      rintro rfl
      exact hin.elim hidl hidr
    refine ⟨hne, (ho.mem_iff (fun hl => hne (hloose id' hl)) q).1 ?_⟩
    rw [hsplit, List.mem_append, mem_cons]
    exact hin.imp_right .inr
  have hshape : ∀ {id'}, id' ∈ l ∨ id' ∈ r → k.shape id' ≠ none := by
    intro id' hin
    obtain ⟨-, -, h', specifics, hshape⟩ := hlive hin
    rw [hshape]
    exact Option.some_ne_none _
  obtain ⟨k', hunlink, hlinks⟩ := relinks_unlinkEntryFromOrder hk hfound (fun hne => hshape (.inl (hinl hne)))
    (fun hne => hshape (.inr (hinr hne))) fun hne heq => by
      have hin := hinr (heq ▸ hne)
      rw [← heq] at hin
      exact absurd rfl (hnodup.2.2 e.prevId (hinl hne) e.prevId (mem_cons_of_mem id hin))
  refine ⟨k', hunlink, hlinks.indexed, hlinks.shape, ?_, ?_, ?_⟩
  · constructor
    · intro p
      rw [hlinks.prev, hlinks.next]
      by_cases hp : p = q
      · subst hp
        rw [hsplit, List.erase_append_right _ hidl, List.erase_cons_head]
        refine hlinked.remove (fun b hb hne => ?_) fun b hb hne => ?_
        · rw [bypass_apply hb hne, hprev', hnext', hprev, hnext]
        · rw [bypass_apply hb hne, hprev', hnext', hprev, hnext]
      · rw [List.erase_of_not_mem (hother p hp)]
        have haway : ∀ {a b}, a ∈ order p → (b ≠ .root → b ∈ l ∨ b ∈ r) → a ≠ b := by
          rintro a b ha hb rfl
          have haroot : a ≠ .root := fun heq => (ho.linked p).root_notMem (heq ▸ ha)
          have hne : a ≠ id := fun heq => hother p hp (heq ▸ ha)
          have hliveq := (hlive (hb haroot)).2
          exact hp (((ho.mem_iff (fun hl => hne (hloose a hl)) p).1 ha).parent_eq hliveq)
        refine (ho.linked p).congr fun a ha => ?_
        have hne : a ≠ id := fun heq => hother p hp (heq ▸ ha)
        exact ⟨bypass_of_ne hne (haway ha fun hb => .inr (hinr hb)), bypass_of_ne hne (haway ha fun hb => .inl (hinl hb))⟩
    · intro id' hne p
      rw [List.mem_erase_of_ne hne, Kernel.live_congr hlinks.shape]
      exact ho.mem_iff (fun hl => hne (hloose id' hl)) p
    · intro id' hne hdead
      have hdead' : ∀ p, ¬ k.Live id' p := fun p hlive => hdead p ((Kernel.live_congr hlinks.shape).2 hlive)
      obtain ⟨hloopp, hloopn⟩ := ho.loops (fun hl => hne (hloose id' hl)) hdead'
      have haway : ∀ {b}, (b ≠ .root → b ∈ l ∨ b ∈ r) → id' ≠ .root → id' ≠ b := by
        rintro b hb hroot' rfl
        exact hdead' q (hlive (hb hroot')).2
      rw [hlinks.prev, hlinks.next]
      by_cases hroot' : id' = .root
      · subst hroot'
        rw [bypass_root hne, bypass_root hne]
        exact ⟨hloopp, hloopn⟩
      · rw [bypass_of_ne hne (haway (fun hb => .inr (hinr hb)) hroot'),
          bypass_of_ne hne (haway (fun hb => .inl (hinl hb)) hroot')]
        exact ⟨hloopp, hloopn⟩
  · rw [hlinks.prev]
    exact bypass_self fun hne => .inl fun heq => hidr (heq ▸ hinr hne)
  · rw [hlinks.next]
    exact bypass_self fun hne => .inl fun heq => hidl (heq ▸ hinl hne)

theorem OrderedBut.unlink_of_notMem (ho : OrderedBut k loose order) (hk : Indexed k)
    (hfound : k.getEntryById id = some (h, e)) (hloose : ∀ id', loose id' → id' = id) (hmem : ∀ p, id ∉ order p)
    (hlone : e.prevId = .root ∧ e.nextId = .root ∨ e.prevId = id ∧ e.nextId = id) :
    ∃ k', k.unlinkEntryFromOrder h = some k' ∧ Indexed k' ∧ k'.shape = k.shape ∧
      OrderedBut k' (· = id) order ∧ k'.link .prevId id = id ∧ k'.link .nextId id = id := by
  have hself : ∀ {id'}, id' = .root ∨ id' = id → id' ≠ .root → k.shape id' ≠ none := by
    intro id' hor hroot
    rw [hor.resolve_left hroot, Kernel.shape, hfound]
    exact Option.some_ne_none _
  have hprev : e.prevId = .root ∨ e.prevId = id := hlone.imp And.left And.left
  have hnext : e.nextId = .root ∨ e.nextId = id := hlone.imp And.right And.right
  obtain ⟨k', hunlink, hlinks⟩ := relinks_unlinkEntryFromOrder hk hfound (hself hprev) (hself hnext)
    fun hne _ => hprev.resolve_left hne
  have hbypass : ∀ {link : Id → Id} {neighbour other : Id}, neighbour = .root ∨ neighbour = id ∧ other = id →
      bypass link id neighbour other = update link id id := by
    intro link neighbour other hor
    unfold bypass
    split
    · rfl
    · rename_i hroot
      obtain ⟨rfl, rfl⟩ := hor.resolve_left hroot
      exact update_idem _ _ _
  have hprev' : k'.link .prevId = update (k.link .prevId) id id :=
    hlinks.prev.trans (hbypass (hlone.imp And.right fun hl => ⟨hl.2, hl.1⟩))
  have hnext' : k'.link .nextId = update (k.link .nextId) id id :=
    hlinks.next.trans (hbypass (hlone.imp_left And.left))
  refine ⟨k', hunlink, hlinks.indexed, hlinks.shape, ?_, ?_, ?_⟩
  · constructor
    · intro p
      rw [hprev', hnext']
      refine (ho.linked p).congr fun a ha => ?_
      have hne : a ≠ id := fun heq => hmem p (heq ▸ ha)
      exact ⟨update_of_ne hne _ _, update_of_ne hne _ _⟩
    · intro id' hne p
      rw [Kernel.live_congr hlinks.shape]
      exact ho.mem_iff (fun hl => hne (hloose id' hl)) p
    · intro id' hne hdead
      rw [hprev', hnext', update_of_ne hne, update_of_ne hne]
      exact ho.loops (fun hl => hne (hloose id' hl)) fun p hlive => hdead p ((Kernel.live_congr hlinks.shape).2 hlive)
  · rw [hprev', update_self]
  · rw [hnext', update_self]

/-! ## The ends of the order -/

theorem walk_spec {xs : List Id} (hk : Indexed k) (hfound : k.getEntryById id = some (h, e))
    (hchain : (id :: (xs ++ [.root])).IsChain fun a b => a ≠ .root → k.link field a = b)
    (hroot : ∀ a ∈ id :: xs, a ≠ .root) (hshape : ∀ a ∈ xs, k.shape a ≠ none) {steps : ℕ}
    (hsteps : xs.length < steps) :
    ∃ e', k.walk field steps e = some e' ∧ e'.id = xs.getLast?.getD id := by
  induction xs generalizing id h e steps with
  | nil =>
    obtain ⟨steps, rfl⟩ := Nat.exists_eq_succ_of_ne_zero hsteps.ne'
    have hend : e.idFields field = .root :=
      (Kernel.link_of_found hfound).symm.trans ((List.isChain_cons_cons.1 hchain).1 (hroot id mem_cons_self))
    refine ⟨e, ?_, (hk.getEntryById_eq_some_iff.1 hfound).2⟩
    rw [Kernel.walk, if_pos hend]
  | cons a xs ih =>
    obtain ⟨steps, rfl⟩ := Nat.exists_eq_succ_of_ne_zero (Nat.ne_of_gt (Nat.zero_lt_of_lt hsteps))
    obtain ⟨hlink, hrest⟩ := List.isChain_cons_cons.1 hchain
    have hnext : e.idFields field = a :=
      (Kernel.link_of_found hfound).symm.trans (hlink (hroot id mem_cons_self))
    obtain ⟨h', e', hfound'⟩ := Kernel.exists_of_shape (hshape a mem_cons_self)
    obtain ⟨e'', hwalk, hid⟩ := ih hfound' hrest (fun b hb => hroot b (mem_cons_of_mem id hb))
      (fun b hb => hshape b (mem_cons_of_mem a hb)) (Nat.lt_of_succ_lt_succ hsteps)
    refine ⟨e'', ?_, ?_⟩
    · rw [Kernel.walk, hnext, if_neg (hroot a (mem_cons_of_mem id mem_cons_self)), hfound', Option.bind_some,
        hwalk]
    · rw [hid, List.getLast?_cons, Option.getD_some]

theorem OrderedBut.shape_ne_none {p : Id} (ho : OrderedBut k loose order) (hmem : id ∈ order p) (hid : ¬ loose id) :
    k.shape id ≠ none := by
  obtain ⟨-, h, specifics, hshape⟩ := (ho.mem_iff hid p).1 hmem
  rw [hshape]
  exact Option.some_ne_none _

theorem Indexed.length_le {xs : List Id} (hk : Indexed k) (hnodup : xs.Nodup) (hshape : ∀ a ∈ xs, k.shape a ≠ none) :
    xs.length ≤ k.metahandlesIndex.length := by
  have hhandle : ∀ a ∈ xs, ∃ h e, k.getEntryByHandle h = some e ∧ e.id = a := by
    intro a ha
    obtain ⟨h, e, hfound⟩ := Kernel.exists_of_shape (hshape a ha)
    exact ⟨h, e, hk.getEntryById_eq_some_iff.1 hfound⟩
  have hsubset : xs ⊆ (k.metahandlesIndex.map fun entry => entry.2.id) := by
    intro a ha
    obtain ⟨h, e, hentry, hid⟩ := hhandle a ha
    exact mem_map.2 ⟨(h, e), SortedMap.mem_of_get? hentry, hid⟩
  calc
    xs.length ≤ (k.metahandlesIndex.map fun entry => entry.2.id).length := (hnodup.subperm hsubset).length_le
    _ = k.metahandlesIndex.length := List.length_map _

theorem Indexed.mem_childHandles_iff (hk : Indexed k) :
    h ∈ k.childHandles parentId ↔ ∃ e, k.getEntryByHandle h = some e ∧ k.Live e.id parentId := by
  have hlive : ∀ {e}, k.getEntryByHandle h = some e → (k.Live e.id parentId ↔
      parentIdAndHandleIndexer.shouldInclude e = true ∧ e.parentId = parentId) := by
    intro e hentry
    have hshape : k.shape e.id = some (h, e.parentId, e.isDel, e.specificsFields) := by
      rw [Kernel.shape, hk.getEntryById_eq_some_iff.2 ⟨hentry, rfl⟩]
      rfl
    have hin : parentIdAndHandleIndexer.shouldInclude e = true ↔ e.isDel = false ∧ e.id ≠ .root := by
      change (!e.isDel && !e.id.isRoot) = true ↔ _
      rw [Bool.and_eq_true, Bool.not_eq_true', Bool.not_eq_true', ← Bool.not_eq_true e.id.isRoot, Id.isRoot_iff]
    rw [hin, Kernel.Live, hshape]
    constructor
    · rintro ⟨hroot, h', specifics, heq⟩
      simp only [Option.some.injEq, Prod.mk.injEq] at heq
      exact ⟨⟨heq.2.2.1, hroot⟩, heq.2.1⟩
    · rintro ⟨⟨hdel, hroot⟩, hparent⟩
      exact ⟨hroot, h, e.specificsFields, by rw [hdel, hparent]⟩
  rw [Kernel.childHandles, mem_map]
  constructor
  · rintro ⟨⟨key, h'⟩, hmem, rfl⟩
    obtain ⟨hmem, hkey⟩ := List.mem_filter.1 hmem
    obtain ⟨e, hentry, hin, rfl⟩ := (hk.children key h').1 (hk.sorted.get?_of_mem hmem)
    exact ⟨e, hentry, (hlive hentry).2 ⟨hin, of_decide_eq_true hkey⟩⟩
  · rintro ⟨e, hentry, hl⟩
    obtain ⟨hin, hparent⟩ := (hlive hentry).1 hl
    have hget := (hk.children (parentIdAndHandleIndexer.key e) h).2 ⟨e, hentry, hin, rfl⟩
    exact ⟨(_, h), List.mem_filter.2 ⟨SortedMap.mem_of_get? hget, decide_eq_true hparent⟩, rfl⟩

/-- The search for an end, over candidates: those that are not in the list are self-looped, and from one that is the
walk comes to the end. -/
theorem endChildId_spec {q : Id} {target : Id}
    (hin : ∀ {h e}, k.getEntryByHandle h = some e → e.id ∈ order q →
      (e.idFields field = .root ∨ e.prevId ≠ e.nextId) ∧
        ∃ e', k.walk field (k.metahandlesIndex.length + 1) e = some e' ∧ e'.id = target)
    (hout : ∀ {h e}, k.getEntryByHandle h = some e → k.Live e.id q → e.id ∉ order q →
      e.idFields field ≠ .root ∧ e.prevId = e.nextId) (candidates : List ℤ)
    (hall : ∀ h ∈ candidates, ∃ e, k.getEntryByHandle h = some e ∧ k.Live e.id q)
    (hnone : (∀ h ∈ candidates, ∀ e, k.getEntryByHandle h = some e → e.id ∉ order q) → target = .root) :
    k.endChildId field candidates = some target := by
  induction candidates with
  | nil => rw [Kernel.endChildId, hnone fun h hmem => (nomatch hmem)]
  | cons h candidates ih =>
    obtain ⟨e, hentry, hlive⟩ := hall h mem_cons_self
    rw [Kernel.endChildId, hentry, Option.bind_some]
    by_cases hmem : e.id ∈ order q
    · obtain ⟨hcond, e', hwalk, hid⟩ := hin hentry hmem
      rw [if_pos hcond, hwalk, Option.map_some, hid]
    · obtain ⟨hne, heq⟩ := hout hentry hlive hmem
      rw [if_neg (not_or.2 ⟨hne, not_not.2 heq⟩)]
      refine ih (fun h' hmem' => hall h' (mem_cons_of_mem h hmem')) fun hno => hnone fun h' hmem' e' hentry' => ?_
      rcases mem_cons.1 hmem' with rfl | hmem'
      · obtain rfl := Option.some.inj (hentry.symm.trans hentry')
        exact hmem
      · exact hno h' hmem' e' hentry'

/-- **`GetFirstChildId` and `GetLastChildId` come to the ends of the list**, when what is loose is self-looped. -/
theorem OrderedBut.childId_spec (ho : OrderedBut k loose order) (hk : Indexed k) (q : Id)
    (hloose : ∀ id, loose id → id ∉ order q ∧ k.link .prevId id = id ∧ k.link .nextId id = id) :
    k.getFirstChildId q = some (after .root (order q)) ∧ k.getLastChildId q = some (before .root (order q)) := by
  have hnotloose : ∀ {id}, id ∈ order q → ¬ loose id := fun hmem hl => (hloose _ hl).1 hmem
  have hroot : ∀ {id}, id ∈ order q → id ≠ .root := fun hmem heq => (ho.linked q).root_notMem (heq ▸ hmem)
  have hshape : ∀ {id}, id ∈ order q → k.shape id ≠ none := fun hmem => ho.shape_ne_none hmem (hnotloose hmem)
  have hfound : ∀ {h e}, k.getEntryByHandle h = some e → k.getEntryById e.id = some (h, e) := fun hentry =>
    hk.getEntryById_eq_some_iff.2 ⟨hentry, rfl⟩
  -- An entry in the list is not self-looped.
  have hcond : ∀ {h e} (field : IdField), (field = .prevId ∨ field = .nextId) → k.getEntryByHandle h = some e →
      e.id ∈ order q → e.idFields field = .root ∨ e.prevId ≠ e.nextId := by
    intro h e field hfield hentry hmem
    obtain ⟨l, r, hsplit⟩ := append_of_mem hmem
    have hlinked := ho.linked q
    rw [hsplit] at hlinked
    obtain ⟨hprev, hnext⟩ := hlinked.links
    rw [Kernel.link_of_found (hfound hentry)] at hprev hnext
    by_contra hnot
    obtain ⟨hne, heq⟩ := not_or.1 hnot
    have heq' : before .root l = after .root r := hprev.symm.trans ((not_not.1 heq).trans hnext)
    have hne' : before .root l ≠ .root := by
      rcases hfield with rfl | rfl
      · exact hprev ▸ hne
      · exact heq' ▸ hnext ▸ hne
    refine (List.nodup_append.1 hlinked.nodup).2.2 _ (before_mem hne') _ ?_ heq'
    exact mem_cons_of_mem _ (after_mem (heq' ▸ hne'))
  have hout : ∀ {h e} (field : IdField), (field = .prevId ∨ field = .nextId) → k.getEntryByHandle h = some e →
      k.Live e.id q → e.id ∉ order q → e.idFields field ≠ .root ∧ e.prevId = e.nextId := by
    intro h e field hfield hentry hlive hmem
    have hl : loose e.id := by
      by_contra hl
      exact hmem ((ho.mem_iff hl q).2 hlive)
    obtain ⟨-, hprev, hnext⟩ := hloose e.id hl
    rw [Kernel.link_of_found (hfound hentry)] at hprev hnext
    refine ⟨?_, hprev.trans hnext.symm⟩
    rcases hfield with rfl | rfl
    · exact hprev ▸ hlive.1
    · exact hnext ▸ hlive.1
  have hlen : ∀ {xs : List Id}, xs.Nodup → (∀ a ∈ xs, a ∈ order q) → xs.length ≤ k.metahandlesIndex.length :=
    fun hnodup hsub => hk.length_le hnodup fun a ha => hshape (hsub a ha)
  have hempty : (∀ h ∈ k.childHandles q, ∀ e, k.getEntryByHandle h = some e → e.id ∉ order q) → order q = [] := by
    intro hno
    refine List.eq_nil_iff_forall_not_mem.2 fun a ha => ?_
    obtain ⟨h, e, hfind⟩ := Kernel.exists_of_shape (hshape ha)
    obtain ⟨hentry, rfl⟩ := hk.getEntryById_eq_some_iff.1 hfind
    have hlive := (ho.mem_iff (hnotloose ha) q).1 ha
    exact hno h (hk.mem_childHandles_iff.2 ⟨e, hentry, hlive⟩) e hentry ha
  constructor
  · refine endChildId_spec (fun {h e} hentry hmem => ⟨hcond .prevId (.inl rfl) hentry hmem, ?_⟩)
      (hout .prevId (.inl rfl)) _ (fun h hmem => hk.mem_childHandles_iff.1 hmem) fun hno => ?_
    · obtain ⟨l, r, hsplit⟩ := append_of_mem hmem
      have hlinked := ho.linked q
      have hsub : ∀ a ∈ e.id :: l.reverse, a ∈ order q := by
        intro a ha
        rw [hsplit, List.mem_append, mem_cons]
        rcases mem_cons.1 ha with rfl | ha
        · exact .inr (.inl rfl)
        · exact .inl (mem_reverse.1 ha)
      rw [hsplit] at hlinked ⊢
      have hsteps : l.reverse.length < k.metahandlesIndex.length + 1 :=
        Nat.lt_succ_of_le (hlen (List.nodup_reverse.2 hlinked.nodup.of_append_left) fun a ha =>
          hsub a (mem_cons_of_mem _ ha))
      rw [after_append_cons]
      exact walk_spec hk (hfound hentry) hlinked.isChain_prev (fun a ha => hroot (hsub a ha))
        (fun a ha => hshape (hsub a (mem_cons_of_mem _ ha))) hsteps
    · rw [hempty hno]
      rfl
  · refine endChildId_spec (fun {h e} hentry hmem => ⟨hcond .nextId (.inr rfl) hentry hmem, ?_⟩)
      (hout .nextId (.inr rfl)) _ (fun h hmem => hk.mem_childHandles_iff.1 (mem_reverse.1 hmem)) fun hno => ?_
    · obtain ⟨l, r, hsplit⟩ := append_of_mem hmem
      have hlinked := ho.linked q
      have hsub : ∀ a ∈ e.id :: r, a ∈ order q := by
        intro a ha
        rw [hsplit]
        exact List.mem_append_right l ha
      rw [hsplit] at hlinked ⊢
      have hsteps : r.length < k.metahandlesIndex.length + 1 :=
        Nat.lt_succ_of_le (hlen (List.nodup_cons.1 hlinked.nodup.of_append_right).2 fun a ha =>
          hsub a (mem_cons_of_mem _ ha))
      rw [before_append_cons]
      exact walk_spec hk (hfound hentry) hlinked.isChain_next (fun a ha => hroot (hsub a ha))
        (fun a ha => hshape (hsub a (mem_cons_of_mem _ ha))) hsteps
    · rw [hempty fun h hmem => hno h (mem_reverse.2 hmem)]
      rfl

end Chromium.Sync
