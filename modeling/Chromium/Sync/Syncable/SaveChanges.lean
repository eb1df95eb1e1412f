import Chromium.Lib.TransSys
import Chromium.Sync.Syncable.Edits

/-!
# Saving a sync directory

`Directory::SaveChanges`: a snapshot is taken of the dirty entries, whose dirty bits are cleared; the store writes it,
or does nothing; and then the deleted entries that are saved leave the memory, or the dirty bits are put back.  Other
transactions run between any two of these steps.  `Saving.init` and `Saving.step` are the system, and `Inv` its
invariant: what the database will have once the snapshot that is on its way is written is what the entries without
changes say.
-/

namespace Chromium.Sync

open Lib

variable {P : Type}

/-- `SaveChangesSnapshot`. -/
structure Snapshot (P : Type) where
  dirtyMetas : List (EntryKernel P)
  metahandlesToPurge : List ℤ

namespace Kernel

variable (k : Kernel P)

/-- One turn of the loop of `TakeSnapshotForSaveChanges`: a dirty entry goes into the snapshot, and its dirty bit is
cleared. -/
def snapshotEntry (r : Kernel P × List (EntryKernel P)) (h : ℤ) : Kernel P × List (EntryKernel P) :=
  match r.1.getEntryByHandle h with
  | none => r
  | some e =>
    if e.dirty then
      ({ r.1 with metahandlesIndex := SortedMap.set h { e with dirty := false } r.1.metahandlesIndex }, r.2 ++ [e])
    else r

def takeSnapshotForSaveChanges : Kernel P × Snapshot P :=
  let r := k.dirtyMetahandles.foldl snapshotEntry (k, [])
  ({ r.1 with dirtyMetahandles := [], metahandlesToPurge := [] },
    { dirtyMetas := r.2, metahandlesToPurge := r.1.metahandlesToPurge })

def safeToPurgeFromMemory (e : EntryKernel P) : Option Bool :=
  if e.isDel && !e.dirty && !e.syncing && !e.indexedBitFields .isUnappliedUpdate &&
      !e.indexedBitFields .isUnsynced then
    if e.metaHandle ∈ k.dirtyMetahandles ∨ e.metaHandle ∈ k.unsyncedMetahandles ∨
        e.metaHandle ∈ k.unappliedUpdateMetahandles then none
    else some true
  else some false

/-- One turn of the loop of `VacuumAfterSaveChanges`. -/
def vacuumEntry (h : ℤ) : Option (Kernel P) :=
  match k.getEntryByHandle h with
  | none => some k
  | some e =>
    (k.safeToPurgeFromMemory e).bind fun safe =>
      if safe then
        if (SortedMap.get? (parentIdAndHandleIndexer.key e) k.parentIdChildIndex).isSome then none
        else some { k with
          idsIndex := SortedMap.erase e.id k.idsIndex
          metahandlesIndex := SortedMap.erase h k.metahandlesIndex
          clientTagIndex := SortedMap.erase (e.stringFields .uniqueClientTag) k.clientTagIndex }
      else some k

def vacuumAfterSaveChanges (snapshot : Snapshot P) : Option (Kernel P) :=
  snapshot.dirtyMetas.foldlM (fun k e => k.vacuumEntry e.metaHandle) k

/-- One turn of the loop of `HandleSaveChangesFailure`. -/
def restoreDirty (h : ℤ) : Kernel P :=
  match k.getEntryByHandle h with
  | none => k
  | some e => k.markDirty h e

def handleSaveChangesFailure (snapshot : Snapshot P) : Kernel P :=
  let k := snapshot.dirtyMetas.foldl (fun k e => k.restoreDirty e.metaHandle) k
  { k with metahandlesToPurge := snapshot.metahandlesToPurge ∪ k.metahandlesToPurge }

end Kernel

/-! ## Updates -/

/-- What a write transaction can do to the entries, other than purge. -/
inductive Update (P : Type)
  | create (parentId : Id) (name : List UInt8) (now : ℤ)
  | createNewUpdateItem (id : Id)
  | putBaseVersion (h value : ℤ)
  | putInt64 (h : ℤ) (field : Int64Field) (value : ℤ)
  | putTime (h : ℤ) (field : TimeField) (value : ℤ)
  | putId (h : ℤ) (field : IdField) (value : Id)
  | putIndexedBit (h : ℤ) (field : IndexedBitField) (value : Bool)
  | putIsDel (h : ℤ) (value : Bool)
  | putBit (h : ℤ) (field : BitField) (value : Bool)
  | putString (h : ℤ) (field : StringField) (value : List UInt8)
  | putProto (h : ℤ) (field : ProtoField) (value : P)
  | putPredecessor (h : ℤ) (predecessorId : Id)
  | putSyncing (h : ℤ) (value : Bool)

def Update.run (S : EntitySpecifics P) (k : Kernel P) : Update P → Option (Kernel P)
  | create parentId name now => k.create S parentId name now
  | createNewUpdateItem id => k.createNewUpdateItem S id
  | putBaseVersion h value => k.putBaseVersion h value
  | putInt64 h field value => k.putInt64 h field value
  | putTime h field value => k.putTime h field value
  | putId h field value => (k.putId h field value).map Prod.fst
  | putIndexedBit h field value => k.putIndexedBit h field value
  | putIsDel h value => k.putIsDel h value
  | putBit h field value => k.putBit h field value
  | putString h field value => (k.putString h field value).map Prod.fst
  | putProto h field value => k.putProto S h field value
  | putPredecessor h predecessorId => (k.putPredecessor h predecessorId).map Prod.fst
  | putSyncing h value => k.putSyncing h value

theorem Update.edits {S : EntitySpecifics P} {k k' : Kernel P} {update : Update P}
    (hrun : update.run S k = some k') : Edits False k k' := by
  cases update with
  | create => exact edits_create hrun
  | createNewUpdateItem => exact edits_createNewUpdateItem hrun
  | putBaseVersion => exact edits_putBaseVersion hrun
  | putInt64 => exact edits_putInt64 hrun
  | putTime => exact edits_putTime hrun
  | putIndexedBit => exact edits_putIndexedBit hrun
  | putIsDel => exact edits_putIsDel hrun
  | putBit => exact edits_putBit hrun
  | putProto => exact edits_putProto hrun
  | putSyncing => exact edits_putSyncing hrun
  | putId =>
    obtain ⟨result, hput, rfl⟩ := Option.map_eq_some_iff.1 hrun
    exact edits_putId hput
  | putString =>
    obtain ⟨result, hput, rfl⟩ := Option.map_eq_some_iff.1 hrun
    exact edits_putString hput
  | putPredecessor =>
    obtain ⟨result, hput, rfl⟩ := Option.map_eq_some_iff.1 hrun
    exact edits_putPredecessor hput

/-! ## What saving does to the entries -/

namespace Kernel

variable {k k' : Kernel P} {h : ℤ} {e : EntryKernel P}

theorem foldl_snapshotEntry (k : Kernel P) (hs : List ℤ) : let r := hs.foldl snapshotEntry (k, [])
    (∀ h, r.1.getEntryByHandle h = (k.getEntryByHandle h).map fun e => { e with dirty := e.dirty && decide (h ∉ hs) }) ∧
      (∀ e, e ∈ r.2 ↔ ∃ h ∈ hs, k.getEntryByHandle h = some e ∧ e.dirty = true) ∧
      r.1.metahandlesToPurge = k.metahandlesToPurge ∧ r.1.nextMetahandle = k.nextMetahandle := by
  induction hs using List.reverseRecOn with
  | nil => refine ⟨fun h => ?_, fun e => ?_, rfl, rfl⟩ <;> simp
  | append_singleton hs h ih =>
    obtain ⟨hentries, hmetas, hpurge, hnext⟩ := ih
    rw [List.foldl_append, List.foldl_cons, List.foldl_nil, snapshotEntry]
    have hmem : ∀ e, (∃ h' ∈ hs ++ [h], k.getEntryByHandle h' = some e ∧ e.dirty = true) ↔
        (∃ h' ∈ hs, k.getEntryByHandle h' = some e ∧ e.dirty = true) ∨
          (k.getEntryByHandle h = some e ∧ e.dirty = true) := by
      intro e
      simp only [List.mem_append, List.mem_singleton, or_and_right, exists_or, exists_eq_left]
    split
    · rename_i hnone
      rw [hentries, Option.map_eq_none_iff] at hnone
      refine ⟨fun h' => ?_, fun e => ?_, hpurge, hnext⟩
      · rw [hentries]
        by_cases heq : h' = h
        · rw [heq, hnone]
          rfl
        · simp [heq]
      · rw [hmem, hmetas, hnone]
        simp
    · rename_i e hsome
      rw [hentries] at hsome
      obtain ⟨e₀, hentry₀, heq₀⟩ := Option.map_eq_some_iff.1 hsome
      subst heq₀
      split
      · rename_i hdirty
        obtain ⟨hdirty₀, hfresh⟩ := Bool.and_eq_true_iff.1 hdirty
        have hsame : ({ e₀ with dirty := e₀.dirty && decide (h ∉ hs) } : EntryKernel P) = e₀ := by
          rw [hfresh, Bool.and_true]
        refine ⟨fun h' => ?_, fun e' => ?_, hpurge, hnext⟩
        · refine (SortedMap.get?_set h h' _ _).trans ?_
          split
          · rename_i heq
            subst heq
            rw [hentry₀]
            simp
          · rename_i hne
            refine (hentries h').trans ?_
            simp [Ne.symm hne]
        · rw [hmem, ← hmetas, hsame, List.mem_append, List.mem_singleton, hentry₀]
          refine or_congr_right ⟨?_, fun h => (Option.some.inj h.1).symm⟩
          rintro rfl
          exact ⟨rfl, hdirty₀⟩
      · rename_i hclean
        refine ⟨fun h' => ?_, fun e' => ?_, hpurge, hnext⟩
        · rw [hentries]
          by_cases heq : h' = h
          · subst heq
            rw [hentry₀]
            simp only [Option.map_some, Option.some.injEq]
            congr 1
            have hfalse : (e₀.dirty && decide (h' ∉ hs)) = false := Bool.eq_false_iff.2 hclean
            rw [hfalse]
            simp
          · simp [heq]
        · rw [hmem, hmetas]
          refine (or_iff_left_of_imp ?_).symm
          rintro ⟨hentry, hdirty⟩
          obtain rfl := Option.some.inj (hentry₀.symm.trans hentry)
          by_contra hnone
          refine hclean ?_
          rw [hdirty, Bool.true_and, decide_eq_true_iff]
          exact fun hin => hnone ⟨h, hin, hentry, hdirty⟩

/-- What the vacuum does to a directory: an entry stays, or leaves deleted and clean. -/
structure Vacuumed (k k' : Kernel P) : Prop where
  entry : ∀ h, k'.getEntryByHandle h = k.getEntryByHandle h ∨
    k'.getEntryByHandle h = none ∧ ∃ e, k.getEntryByHandle h = some e ∧ e.isDel = true ∧ e.dirty = false
  dirtyMetahandles : k'.dirtyMetahandles = k.dirtyMetahandles
  metahandlesToPurge : k'.metahandlesToPurge = k.metahandlesToPurge
  nextMetahandle : k'.nextMetahandle = k.nextMetahandle

theorem Vacuumed.of_some (hk : Vacuumed k k') (hentry : k'.getEntryByHandle h = some e) :
    k.getEntryByHandle h = some e := by
  rcases hk.entry h with heq | ⟨hnone, -⟩
  · exact heq.symm.trans hentry
  · rw [hentry] at hnone
    cases hnone

theorem Vacuumed.wellFormed (hk : Vacuumed k k') (hwf : k.WellFormed) : k'.WellFormed where
  metaHandle hentry := hwf.metaHandle (hk.of_some hentry)
  lt_next hentry := hk.nextMetahandle ▸ hwf.lt_next (hk.of_some hentry)
  dirty hentry hdirty := hk.dirtyMetahandles ▸ hwf.dirty (hk.of_some hentry) hdirty
  purged hmem := by
    obtain ⟨hnone, hlt⟩ := hwf.purged (hk.metahandlesToPurge ▸ hmem)
    refine ⟨Option.eq_none_iff_forall_ne_some.2 fun e hentry => ?_, hk.nextMetahandle ▸ hlt⟩
    rw [hk.of_some hentry] at hnone
    cases hnone

theorem Vacuumed.refl (k : Kernel P) : Vacuumed k k := ⟨fun _ => .inl rfl, rfl, rfl, rfl⟩

theorem Vacuumed.trans {k'' : Kernel P} (hk : Vacuumed k k') (hk' : Vacuumed k' k'') : Vacuumed k k'' where
  entry h := by
    rcases hk'.entry h with heq | ⟨hnone, e, hentry, hdel, hclean⟩
    · rcases hk.entry h with heq' | ⟨hnone, hwas⟩
      · exact .inl (heq.trans heq')
      · exact .inr ⟨heq.trans hnone, hwas⟩
    · exact .inr ⟨hnone, e, hk.of_some hentry, hdel, hclean⟩
  dirtyMetahandles := hk'.dirtyMetahandles.trans hk.dirtyMetahandles
  metahandlesToPurge := hk'.metahandlesToPurge.trans hk.metahandlesToPurge
  nextMetahandle := hk'.nextMetahandle.trans hk.nextMetahandle

theorem isDel_of_safeToPurgeFromMemory (hsafe : k.safeToPurgeFromMemory e = some true) :
    e.isDel = true ∧ e.dirty = false := by
  unfold safeToPurgeFromMemory at hsafe
  split at hsafe
  · rename_i hcond
    simp only [Bool.and_eq_true, Bool.not_eq_true'] at hcond
    exact ⟨hcond.1.1.1.1, hcond.1.1.1.2⟩
  · cases hsafe

theorem vacuumed_vacuumEntry (hvacuum : k.vacuumEntry h = some k') : Vacuumed k k' := by
  unfold vacuumEntry at hvacuum
  split at hvacuum
  · cases hvacuum
    exact .refl _
  · rename_i e hentry
    obtain ⟨safe, hsafe, hvacuum⟩ := Option.bind_eq_some_iff.1 hvacuum
    split at hvacuum
    · rename_i htrue
      split at hvacuum
      · cases hvacuum
      · cases hvacuum
        refine ⟨fun h' => ?_, rfl, rfl, rfl⟩
        have hget : SortedMap.get? h' (SortedMap.erase h k.metahandlesIndex) =
            if h = h' then none else k.getEntryByHandle h' := SortedMap.get?_erase h h' _
        by_cases heq : h = h'
        · subst heq
          exact .inr ⟨hget.trans (if_pos rfl), e, hentry, isDel_of_safeToPurgeFromMemory (htrue ▸ hsafe)⟩
        · exact .inl (hget.trans (if_neg heq))
    · cases hvacuum
      exact .refl _

theorem vacuumed_vacuumAfterSaveChanges {snapshot : Snapshot P} (hvacuum : k.vacuumAfterSaveChanges snapshot = some k') :
    Vacuumed k k' := by
  have hall : ∀ (metas : List (EntryKernel P)) {k : Kernel P},
      metas.foldlM (fun k e => k.vacuumEntry e.metaHandle) k = some k' → Vacuumed k k' := by
    intro metas
    induction metas with
    | nil =>
      intro k hrun
      cases hrun
      exact .refl _
    | cons e metas ih =>
      intro k hrun
      obtain ⟨k₁, hone, hrun⟩ := Option.bind_eq_some_iff.1 hrun
      exact (vacuumed_vacuumEntry hone).trans (ih hrun)
  exact hall _ hvacuum

theorem edits_restoreDirty (k : Kernel P) (h : ℤ) : Edits False k (k.restoreDirty h) := by
  unfold restoreDirty
  split
  · exact .refl k
  · rename_i e hentry
    exact edits_markDirty (.refl k) hentry rfl rfl

theorem getEntryByHandle_restoreDirty (k : Kernel P) (h h' : ℤ) : (k.restoreDirty h).getEntryByHandle h' =
      (k.getEntryByHandle h').map fun e => { e with dirty := e.dirty || decide (h' = h) } := by
  unfold restoreDirty
  split
  · rename_i hnone
    by_cases heq : h' = h
    · rw [heq, hnone]
      rfl
    · simp [heq]
  · rename_i e hentry
    rw [getEntryByHandle_markDirty]
    split
    · rename_i heq
      subst heq
      rw [hentry]
      simp
    · rename_i hne
      simp [Ne.symm hne]

/-- **After a failure the entries of the snapshot are dirty again**, those that are still there. -/
theorem foldl_restoreDirty (k : Kernel P) (metas : List (EntryKernel P)) :
    let k' := metas.foldl (fun k e => k.restoreDirty e.metaHandle) k
    Edits False k k' ∧ k'.metahandlesToPurge = k.metahandlesToPurge ∧
      ∀ h, k'.getEntryByHandle h = (k.getEntryByHandle h).map fun e =>
        { e with dirty := e.dirty || decide (h ∈ metas.map EntryKernel.metaHandle) } := by
  induction metas using List.reverseRecOn with
  | nil =>
    refine ⟨.refl k, rfl, fun h => ?_⟩
    simp
  | append_singleton metas m ih =>
    obtain ⟨hedits, hpurge, hentries⟩ := ih
    rw [List.foldl_append, List.foldl_cons, List.foldl_nil]
    refine ⟨hedits.trans (edits_restoreDirty _ _), ?_, fun h => ?_⟩
    · rw [restoreDirty]
      split <;> exact hpurge
    · rw [getEntryByHandle_restoreDirty, hentries, Option.map_map]
      refine congrArg (Option.map · (k.getEntryByHandle h)) (funext fun e => ?_)
      rw [Function.comp_apply, List.map_append, Bool.or_assoc, ← Bool.decide_or]
      simp only [List.map_cons, List.map_nil, List.mem_append, List.mem_singleton]

end Kernel

end Chromium.Sync
