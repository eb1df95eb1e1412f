import Chromium.Sync.Syncable.SaveChanges

/-!
# Runs of a sync directory with its database

The system `saving`: transactions that update or purge entries, and the steps of `SaveChanges`, of which one runs at a
time.  The store writes a snapshot at once, or does nothing.  `Inv` is the invariant: what the database has once the
snapshot on its way is written (`target`) is what the clean entries say, and of the entries that are gone it is what
the vacuum left there.
-/

namespace Chromium.Sync

open Lib

variable {P : Type}

/-- The rows of a database after a snapshot was written: its dirty entries, without the handles that were purged. -/
def Snapshot.write (snapshot : Snapshot P) (rows : ℤ → Option (Row P)) (h : ℤ) : Option (Row P) :=
  if h ∈ snapshot.metahandlesToPurge then none
  else
    match snapshot.dirtyMetas.find? fun e => e.metaHandle = h with
    | some e => some e.row
    | none => rows h

/-- Where `SaveChanges` is: not running, with its snapshot, or with what the store answered. -/
inductive Phase (P : Type)
  | idle
  | taken (snapshot : Snapshot P)
  | stored (snapshot : Snapshot P)
  | failed (snapshot : Snapshot P)

def Phase.snapshot : Phase P → Option (Snapshot P)
  | idle => none
  | taken snapshot => some snapshot
  | stored snapshot => some snapshot
  | failed snapshot => some snapshot

/-- A directory with its database.  `dropped` is what the entries were that the vacuum dropped, and `modified` says
that an entry was changed, created or purged since the last snapshot. -/
structure Session (P : Type) where
  kernel : Kernel P
  rows : ℤ → Option (Row P)
  phase : Phase P
  dropped : ℤ → Option (Row P)
  modified : Prop

def Kernel.row (k : Kernel P) (h : ℤ) : Option (Row P) := (k.getEntryByHandle h).map EntryKernel.row

def Session.edit (w : Session P) (k : Kernel P) : Session P :=
  { w with kernel := k, modified := w.modified ∨ ∃ h, k.row h ≠ w.kernel.row h }

def Session.vacuum (w : Session P) (k : Kernel P) : Session P :=
  { w with
    kernel := k
    phase := .idle
    dropped := fun h =>
      match k.getEntryByHandle h, w.kernel.getEntryByHandle h with
      | none, some e => some e.row
      | _, _ => w.dropped h }

inductive Action (P : Type)
  | update (update : Update P)
  | purge (types : List ModelType)
  | snapshot
  | store (success : Bool)
  | finish

inductive Saving (S : EntitySpecifics P) : Session P → Action P → Session P → Prop
  | update {w : Session P} {update : Update P} {k : Kernel P} (hrun : update.run S w.kernel = some k) :
      Saving S w (.update update) (w.edit k)
  | purge {w : Session P} {types : List ModelType} {k : Kernel P}
      (hrun : w.kernel.purgeEntriesWithTypeIn S types = some k) : Saving S w (.purge types) (w.edit k)
  | snapshot {w : Session P} (hphase : w.phase = .idle) : Saving S w .snapshot { w with
        kernel := w.kernel.takeSnapshotForSaveChanges.1
        phase := .taken w.kernel.takeSnapshotForSaveChanges.2
        modified := False }
  | store {w : Session P} {snapshot : Snapshot P} (hphase : w.phase = .taken snapshot) :
      Saving S w (.store true) { w with rows := snapshot.write w.rows, phase := .stored snapshot }
  | fail {w : Session P} {snapshot : Snapshot P} (hphase : w.phase = .taken snapshot) :
      Saving S w (.store false) { w with phase := .failed snapshot }
  | vacuum {w : Session P} {snapshot : Snapshot P} {k : Kernel P} (hphase : w.phase = .stored snapshot)
      (hrun : w.kernel.vacuumAfterSaveChanges snapshot = some k) : Saving S w .finish (w.vacuum k)
  | restore {w : Session P} {snapshot : Snapshot P} (hphase : w.phase = .failed snapshot) :
      Saving S w .finish { w with kernel := w.kernel.handleSaveChangesFailure snapshot, phase := .idle }

/-- A directory that was opened: its entries are the rows of its database, and nothing is dirty. -/
structure Opened (w : Session P) : Prop where
  wellFormed : w.kernel.WellFormed
  clean : ∀ {h e}, w.kernel.getEntryByHandle h = some e → e.dirty = false
  toPurge : w.kernel.metahandlesToPurge = []
  rows : w.rows = w.kernel.row
  phase : w.phase = .idle
  dropped : w.dropped = fun _ => none

def saving (S : EntitySpecifics P) : TransSys (Session P) (Action P) where
  init := Opened
  step := Saving S

/-! ## The invariant -/

namespace Session

variable (w : Session P)

def target : ℤ → Option (Row P) :=
  match w.phase with
  | .idle => w.rows
  | .taken snapshot => snapshot.write w.rows
  | .stored _ => w.rows
  | .failed snapshot => snapshot.write w.rows

structure Inv : Prop where
  wellFormed : w.kernel.WellFormed
  clean : ∀ {h e}, w.kernel.getEntryByHandle h = some e → e.dirty = false → w.target h = some e.row
  gone : ∀ {h}, w.kernel.getEntryByHandle h = none → h ∉ w.kernel.metahandlesToPurge → w.target h = w.dropped h
  dropped : ∀ {h row}, w.dropped h = some row → row.isDel = true ∧ ¬ w.kernel.Open h ∧ h ∉ w.kernel.metahandlesToPurge
  metas : ∀ {snapshot e}, w.phase.snapshot = some snapshot → e ∈ snapshot.dirtyMetas →
    w.kernel.getEntryByHandle e.metaHandle ≠ none ∨ e.metaHandle ∈ w.kernel.metahandlesToPurge
  purged : ∀ {snapshot h}, w.phase.snapshot = some snapshot → h ∈ snapshot.metahandlesToPurge →
    ¬ w.kernel.Open h ∧ w.dropped h = none
  unmodified : w.phase.snapshot ≠ none → ¬ w.modified → ∀ h, w.target h = (w.kernel.row h).or (w.dropped h)

end Session

variable {S : EntitySpecifics P} {w w' : Session P} {k k' : Kernel P} {h : ℤ} {e : EntryKernel P}
  {snapshot : Snapshot P} {rows : ℤ → Option (Row P)}

theorem Kernel.not_open_iff : ¬ k.Open h ↔ k.getEntryByHandle h = none ∧ h < k.nextMetahandle := by
  rw [Kernel.Open, not_or, not_not, not_le]

/-! ## Each step keeps it -/

theorem Session.inv_of_opened (hw : Opened w) : w.Inv where
  wellFormed := hw.wellFormed
  clean hentry _ := by
    rw [Session.target, hw.phase]
    exact (congrFun hw.rows _).trans (congrArg (Option.map EntryKernel.row) hentry)
  gone hnone _ := by
    rw [Session.target, hw.phase, hw.dropped]
    exact (congrFun hw.rows _).trans (congrArg (Option.map EntryKernel.row) hnone)
  dropped hdropped := by
    rw [hw.dropped] at hdropped
    cases hdropped
  metas hphase := by
    rw [hw.phase] at hphase
    cases hphase
  purged hphase := by
    rw [hw.phase] at hphase
    cases hphase
  unmodified hphase := by
    rw [hw.phase] at hphase
    exact absurd rfl hphase

theorem Session.Inv.edit {purges : Prop} (hw : w.Inv) (hk : Edits purges w.kernel k) : (w.edit k).Inv where
  wellFormed := hk.wellFormed hw.wellFormed
  clean {h e} hentry hclean := by
    have hentry' : k.getEntryByHandle h = some e := hentry
    cases hk.edited h with
    | kept heq =>
      rw [Kernel.kept, hentry', Kernel.kept] at heq
      obtain ⟨e₀, hentry₀, hsame⟩ := Option.map_eq_some_iff.1 heq.symm
      have hrow : e₀.row = e.row := congrArg Prod.fst hsame
      rw [← hrow]
      exact hw.clean hentry₀ ((congrArg Prod.snd hsame).trans hclean)
    | dirtied hsome hdirty =>
      obtain rfl := Option.some.inj (hsome.symm.trans hentry')
      rw [hclean] at hdirty
      cases hdirty
    | purged _ hnone =>
      rw [hnone] at hentry'
      cases hentry'
  gone {h} hnone hpurge := by
    have hnone' : k.getEntryByHandle h = none := hnone
    cases hk.edited h with
    | kept heq =>
      exact hw.gone (kept_eq_none_iff.1 (heq.symm.trans (kept_eq_none_iff.2 hnone')))
        fun hmem => hpurge (hk.toPurge_subset hmem)
    | dirtied hsome =>
      rw [hnone'] at hsome
      cases hsome
    | purged _ _ hmem => exact absurd hmem hpurge
  dropped {h row} hdropped := by
    obtain ⟨hdel, hopen, hpurge⟩ := hw.dropped hdropped
    refine ⟨hdel, fun hopen' => hopen (hk.open hopen'), fun hmem => ?_⟩
    exact (hk.open_of_toPurge hmem).elim hpurge hopen
  metas {snapshot e} hphase hmem := by
    rcases hw.metas hphase hmem with hentry | hpurge
    · cases hk.edited e.metaHandle with
      | kept heq =>
        exact .inl fun hnone => hentry (kept_eq_none_iff.1 (heq.symm.trans (kept_eq_none_iff.2 hnone)))
      | dirtied hsome => exact .inl fun hnone => Option.some_ne_none _ (hsome.symm.trans hnone)
      | purged _ _ hmem => exact .inr hmem
    · exact .inr (hk.toPurge_subset hpurge)
  purged hphase hmem := by
    obtain ⟨hopen, hdropped⟩ := hw.purged hphase hmem
    exact ⟨fun hopen' => hopen (hk.open hopen'), hdropped⟩
  unmodified hphase hmodified h := by
    have hrow : k.row h = w.kernel.row h := by
      by_contra hne
      exact hmodified (.inr ⟨h, hne⟩)
    refine (hw.unmodified hphase (fun hwas => hmodified (.inl hwas)) h).trans ?_
    exact congrArg (·.or (w.dropped h)) hrow.symm

/-! ### The snapshot -/

theorem Snapshot.write_of_notMem (hpurge : h ∉ snapshot.metahandlesToPurge)
    (hmetas : ∀ e ∈ snapshot.dirtyMetas, e.metaHandle ≠ h) : snapshot.write rows h = rows h := by
  have hfind : snapshot.dirtyMetas.find? (fun e => e.metaHandle = h) = none :=
    List.find?_eq_none.2 fun e hmem => by simpa using hmetas e hmem
  rw [Snapshot.write, if_neg hpurge, hfind]

structure Takes (k k' : Kernel P) (snapshot : Snapshot P) : Prop where
  entry : ∀ h, k'.getEntryByHandle h = (k.getEntryByHandle h).map fun e => { e with dirty := false }
  mem_iff : ∀ e, e ∈ snapshot.dirtyMetas ↔ ∃ h, k.getEntryByHandle h = some e ∧ e.dirty = true
  metahandlesToPurge : snapshot.metahandlesToPurge = k.metahandlesToPurge
  dirtyMetahandles' : k'.dirtyMetahandles = []
  metahandlesToPurge' : k'.metahandlesToPurge = []
  nextMetahandle : k'.nextMetahandle = k.nextMetahandle

theorem takes_takeSnapshotForSaveChanges (hk : k.WellFormed) :
    Takes k k.takeSnapshotForSaveChanges.1 k.takeSnapshotForSaveChanges.2 := by
  obtain ⟨hentries, hmetas, hpurge, hnext⟩ := k.foldl_snapshotEntry k.dirtyMetahandles
  refine ⟨fun h => (hentries h).trans ?_, fun e => (hmetas e).trans ⟨?_, ?_⟩, hpurge, rfl, rfl, hnext⟩
  · refine Option.map_congr fun e hentry => ?_
    have hclean : (e.dirty && decide (h ∉ k.dirtyMetahandles)) = false := by
      rw [Bool.and_eq_false_iff, decide_eq_false_iff_not, not_not]
      exact (Bool.eq_false_or_eq_true e.dirty).symm.imp_right (hk.dirty hentry)
    rw [hclean]
  · rintro ⟨h, -, hentry⟩
    exact ⟨h, hentry⟩
  · rintro ⟨h, hentry, hdirty⟩
    exact ⟨h, hk.dirty hentry hdirty, hentry, hdirty⟩

theorem Takes.open_iff (ht : Takes k k' snapshot) : k'.Open h ↔ k.Open h := by
  rw [Kernel.Open, Kernel.Open, ht.entry, Ne, Option.map_eq_none_iff, ht.nextMetahandle]

theorem Takes.write_of_dirty (ht : Takes k k' snapshot) (hk : k.WellFormed) (hentry : k.getEntryByHandle h = some e)
    (hdirty : e.dirty = true) : snapshot.write rows h = some e.row := by
  have hpurge : h ∉ snapshot.metahandlesToPurge := by
    intro hmem
    have hnone := (hk.purged (ht.metahandlesToPurge ▸ hmem)).1
    rw [hentry] at hnone
    cases hnone
  rw [Snapshot.write, if_neg hpurge]
  split
  · rename_i e' hfind
    obtain ⟨h', hentry', -⟩ := (ht.mem_iff e').1 (List.mem_of_find?_eq_some hfind)
    have hmeta : e'.metaHandle = h := by simpa using List.find?_some hfind
    rw [← hk.metaHandle hentry', hmeta, hentry] at hentry'
    rw [Option.some.inj hentry']
  · rename_i hfind
    have hmem : e ∈ snapshot.dirtyMetas := (ht.mem_iff e).2 ⟨h, hentry, hdirty⟩
    have hne := List.find?_eq_none.1 hfind e hmem
    rw [hk.metaHandle hentry] at hne
    simp at hne

theorem Takes.write_of_clean (ht : Takes k k' snapshot) (hk : k.WellFormed) (hpurge : h ∉ k.metahandlesToPurge)
    (hclean : ∀ e, k.getEntryByHandle h = some e → e.dirty = false) : snapshot.write rows h = rows h := by
  refine Snapshot.write_of_notMem (ht.metahandlesToPurge ▸ hpurge) fun e hmem hmeta => ?_
  obtain ⟨h', hentry, hdirty⟩ := (ht.mem_iff e).1 hmem
  rw [← hk.metaHandle hentry, hmeta] at hentry
  rw [hclean e hentry] at hdirty
  cases hdirty

/-- **The snapshot keeps the invariant**: it has the rows of all entries that were dirty. -/
theorem Session.Inv.takeSnapshot (hw : w.Inv) (hphase : w.phase = .idle) (ht : Takes w.kernel k snapshot) :
    ({ w with kernel := k, phase := .taken snapshot, modified := False } : Session P).Inv := by
  have htarget : w.target = w.rows := by rw [Session.target, hphase]
  have hclean : ∀ {h e}, k.getEntryByHandle h = some e → snapshot.write w.rows h = some e.row := by
    intro h e hentry
    rw [ht.entry] at hentry
    obtain ⟨e₀, hentry₀, rfl⟩ := Option.map_eq_some_iff.1 hentry
    cases hdirty : e₀.dirty with
    | true => exact ht.write_of_dirty (e := e₀) hw.wellFormed hentry₀ hdirty
    | false =>
      have hpurge : h ∉ w.kernel.metahandlesToPurge := by
        intro hmem
        have hnone := (hw.wellFormed.purged hmem).1
        rw [hentry₀] at hnone
        cases hnone
      rw [ht.write_of_clean hw.wellFormed hpurge, ← htarget]
      · exact hw.clean (e := e₀) hentry₀ hdirty
      · intro e hentry
        obtain rfl := Option.some.inj (hentry₀.symm.trans hentry)
        exact hdirty
  have hgone : ∀ {h}, k.getEntryByHandle h = none → snapshot.write w.rows h = w.dropped h := by
    intro h hnone
    rw [ht.entry, Option.map_eq_none_iff] at hnone
    by_cases hpurge : h ∈ w.kernel.metahandlesToPurge
    · rw [Snapshot.write, if_pos (ht.metahandlesToPurge ▸ hpurge)]
      refine (Option.eq_none_iff_forall_ne_some.2 fun row hdropped => ?_).symm
      exact (hw.dropped hdropped).2.2 hpurge
    · rw [ht.write_of_clean hw.wellFormed hpurge, ← htarget]
      · exact hw.gone hnone hpurge
      · intro e hentry
        rw [hnone] at hentry
        cases hentry
  constructor
  · constructor
    · intro h e hentry
      rw [ht.entry] at hentry
      obtain ⟨e₀, hentry₀, rfl⟩ := Option.map_eq_some_iff.1 hentry
      exact hw.wellFormed.metaHandle (e := e₀) hentry₀
    · intro h e hentry
      rw [ht.entry] at hentry
      obtain ⟨e₀, hentry₀, rfl⟩ := Option.map_eq_some_iff.1 hentry
      exact ht.nextMetahandle.symm ▸ hw.wellFormed.lt_next hentry₀
    · intro h e hentry hdirty
      rw [ht.entry] at hentry
      obtain ⟨e₀, hentry₀, rfl⟩ := Option.map_eq_some_iff.1 hentry
      cases hdirty
    · intro h hmem
      rw [ht.metahandlesToPurge'] at hmem
      cases hmem
  · exact fun hentry _ => hclean hentry
  · exact fun hnone _ => hgone hnone
  · intro h row hdropped
    obtain ⟨hdel, hopen, -⟩ := hw.dropped hdropped
    refine ⟨hdel, fun hopen' => hopen (ht.open_iff.1 hopen'), fun hmem => ?_⟩
    rw [ht.metahandlesToPurge'] at hmem
    cases hmem
  · intro snapshot' e hsnapshot hmem
    cases hsnapshot
    obtain ⟨h', hentry, -⟩ := (ht.mem_iff e).1 hmem
    rw [← hw.wellFormed.metaHandle hentry] at hentry
    left
    rw [ht.entry, hentry]
    exact Option.some_ne_none _
  · intro snapshot' h hsnapshot hmem
    cases hsnapshot
    rw [ht.metahandlesToPurge] at hmem
    refine ⟨fun hopen => ?_, Option.eq_none_iff_forall_ne_some.2 fun row hdropped => ?_⟩
    · exact Kernel.not_open_iff.2 (hw.wellFormed.purged hmem) (ht.open_iff.1 hopen)
    · exact (hw.dropped hdropped).2.2 hmem
  · intro _ _ h
    cases hentry : k.getEntryByHandle h with
    | some e =>
      refine (hclean hentry).trans ?_
      rw [Kernel.row, hentry]
      rfl
    | none =>
      refine (hgone hentry).trans ?_
      rw [Kernel.row, hentry]
      rfl

/-! ### The outcome -/

theorem Session.Inv.answer {phase : Phase P} (rows : ℤ → Option (Row P)) (hw : w.Inv)
    (hsnapshot : phase.snapshot = w.phase.snapshot)
    (htarget : ({ w with rows := rows, phase := phase } : Session P).target = w.target) :
    ({ w with rows := rows, phase := phase } : Session P).Inv where
  wellFormed := hw.wellFormed
  clean hentry hclean := (congrFun htarget _).trans (hw.clean hentry hclean)
  gone hnone hpurge := (congrFun htarget _).trans (hw.gone hnone hpurge)
  dropped := hw.dropped
  metas hphase := hw.metas (hsnapshot.symm.trans hphase)
  purged hphase := hw.purged (hsnapshot.symm.trans hphase)
  unmodified hphase hmodified h :=
    (congrFun htarget h).trans (hw.unmodified (hsnapshot ▸ hphase) hmodified h)

theorem Session.vacuum_dropped (hk : w.kernel.Vacuumed k) (h : ℤ) :
    (k.getEntryByHandle h = w.kernel.getEntryByHandle h ∧ (w.vacuum k).dropped h = w.dropped h) ∨
      (k.getEntryByHandle h = none ∧ ∃ e, w.kernel.getEntryByHandle h = some e ∧ e.isDel = true ∧ e.dirty = false ∧
        (w.vacuum k).dropped h = some e.row) := by
  rcases hk.entry h with heq | ⟨hnone, e, hentry, hdel, hclean⟩
  · refine .inl ⟨heq, ?_⟩
    rw [Session.vacuum]
    dsimp only
    rw [heq]
    cases w.kernel.getEntryByHandle h with
    | none | some e => rfl
  · refine .inr ⟨hnone, e, hentry, hdel, hclean, ?_⟩
    rw [Session.vacuum]
    dsimp only
    rw [hnone, hentry]

/-- **The vacuum keeps the invariant**: what it drops is in the database. -/
theorem Session.Inv.vacuum (hw : w.Inv) (hphase : w.phase = .stored snapshot) (hk : w.kernel.Vacuumed k) :
    (w.vacuum k).Inv := by
  have htarget : w.target = w.rows := by rw [Session.target, hphase]
  have hopen : ∀ {h}, k.Open h → w.kernel.Open h := by
    intro h hopen
    refine hopen.imp (fun hentry hnone => hentry ?_) fun hle => hk.nextMetahandle ▸ hle
    rcases hk.entry h with heq | ⟨hnone', -⟩
    · exact heq.trans hnone
    · exact hnone'
  constructor
  · exact hk.wellFormed hw.wellFormed
  · intro h e hentry hclean
    exact (congrFun htarget h).symm.trans (hw.clean (hk.of_some hentry) hclean)
  · intro h hnone hpurge
    refine (congrFun htarget h).symm.trans ?_
    rcases w.vacuum_dropped hk h with ⟨heq, hdropped⟩ | ⟨-, e, hentry, -, hclean, hdropped⟩
    · rw [hdropped]
      exact hw.gone (heq.symm.trans hnone) fun hmem => hpurge (hk.metahandlesToPurge.symm ▸ hmem)
    · rw [hdropped]
      exact hw.clean hentry hclean
  · intro h row hrow
    rcases w.vacuum_dropped hk h with ⟨heq, hdropped⟩ | ⟨hnone, e, hentry, hdel, hclean, hdropped⟩
    · obtain ⟨hdel, hclosed, hpurge⟩ := hw.dropped (hdropped.symm.trans hrow)
      exact ⟨hdel, fun hopen' => hclosed (hopen hopen'), fun hmem => hpurge (hk.metahandlesToPurge ▸ hmem)⟩
    · obtain rfl := Option.some.inj (hdropped.symm.trans hrow)
      refine ⟨hdel, ?_, fun hmem => ?_⟩
      · exact Kernel.not_open_iff.2 ⟨hnone, hk.nextMetahandle.symm ▸ hw.wellFormed.lt_next hentry⟩
      · have hgone := (hw.wellFormed.purged (hk.metahandlesToPurge ▸ hmem)).1
        rw [hentry] at hgone
        cases hgone
  · nofun
  · nofun
  · exact fun hsnapshot => absurd rfl hsnapshot

/-- **A failure keeps the invariant**: all that was in the snapshot is to be saved again. -/
theorem Session.Inv.restore (hw : w.Inv) (hphase : w.phase = .failed snapshot) :
    ({ w with kernel := w.kernel.handleSaveChangesFailure snapshot, phase := .idle } : Session P).Inv := by
  have htarget : w.target = snapshot.write w.rows := by rw [Session.target, hphase]
  have hsnapshot : w.phase.snapshot = some snapshot := by
    rw [hphase]
    rfl
  obtain ⟨hedits, hpurge, hentries⟩ := w.kernel.foldl_restoreDirty snapshot.dirtyMetas
  have hwf := hedits.wellFormed hw.wellFormed
  have hopen : ∀ {h}, (w.kernel.handleSaveChangesFailure snapshot).Open h → w.kernel.Open h := fun hopen =>
    hedits.open hopen
  have hmem_iff : ∀ {h}, h ∈ (w.kernel.handleSaveChangesFailure snapshot).metahandlesToPurge ↔
      h ∈ snapshot.metahandlesToPurge ∨ h ∈ w.kernel.metahandlesToPurge := by
    intro h
    rw [Kernel.handleSaveChangesFailure, List.mem_union_iff, hpurge]
  constructor
  · constructor
    · exact hwf.metaHandle
    · exact hwf.lt_next
    · exact hwf.dirty
    · intro h hmem
      rcases hmem_iff.1 hmem with hmem | hmem
      · exact Kernel.not_open_iff.1 fun hopen' => (hw.purged hsnapshot hmem).1 (hopen hopen')
      · exact hwf.purged (hpurge.symm ▸ hmem)
  · intro h e hentry hclean
    obtain ⟨e₀, hentry₀, rfl⟩ := Option.map_eq_some_iff.1 ((hentries h).symm.trans hentry)
    obtain ⟨hclean₀, hnot⟩ := Bool.or_eq_false_iff.1 hclean
    have hwrite : snapshot.write w.rows h = w.rows h := by
      refine Snapshot.write_of_notMem (fun hmem => ?_) fun e hmem hmeta => ?_
      · exact (hw.purged hsnapshot hmem).1 (Kernel.open_of_entry hentry₀)
      · exact of_decide_eq_false hnot (hmeta ▸ List.mem_map_of_mem hmem)
    exact (hwrite.symm.trans (congrFun htarget h).symm).trans (hw.clean (e := e₀) hentry₀ hclean₀)
  · intro h hnone hmem
    have hnone₀ : w.kernel.getEntryByHandle h = none := Option.map_eq_none_iff.1 ((hentries h).symm.trans hnone)
    obtain ⟨hnot, hnot₀⟩ := not_or.1 fun hor => hmem (hmem_iff.2 hor)
    have hwrite : snapshot.write w.rows h = w.rows h := by
      refine Snapshot.write_of_notMem hnot fun e hmem hmeta => ?_
      rcases hw.metas hsnapshot hmem with hentry | hpurged
      · exact hentry (hmeta ▸ hnone₀)
      · exact hnot₀ (hmeta ▸ hpurged)
    exact (hwrite.symm.trans (congrFun htarget h).symm).trans (hw.gone hnone₀ hnot₀)
  · intro h row hdropped
    obtain ⟨hdel, hclosed, hnot⟩ := hw.dropped hdropped
    refine ⟨hdel, fun hopen' => hclosed (hopen hopen'), fun hmem => ?_⟩
    rcases hmem_iff.1 hmem with hmem | hmem
    · have hnone := (hw.purged hsnapshot hmem).2
      have hsome : w.dropped h = some row := hdropped
      rw [hnone] at hsome
      cases hsome
    · exact hnot hmem
  · nofun
  · nofun
  · exact fun hidle => absurd rfl hidle

/-! ## Runs -/

theorem Session.Inv.step {action : Action P} (hw : w.Inv) (hstep : (saving S).step w action w') : w'.Inv := by
  cases hstep with
  | update hrun => exact hw.edit (Update.edits hrun)
  | purge hrun => exact hw.edit (edits_purgeEntriesWithTypeIn hrun hw.wellFormed)
  | snapshot hphase => exact hw.takeSnapshot hphase (takes_takeSnapshotForSaveChanges hw.wellFormed)
  | vacuum hphase hrun => exact hw.vacuum hphase (Kernel.vacuumed_vacuumAfterSaveChanges hrun)
  | restore hphase => exact hw.restore hphase
  | store hphase | fail hphase =>
    refine Session.Inv.answer _ hw ?_ ?_
    · rw [hphase]
      rfl
    · rw [Session.target, Session.target, hphase]

theorem inv_of_run {actions : List (Action P)} (hrun : (saving S).Run actions w) : w.Inv :=
  hrun.invariant (I := Session.Inv) (fun _ hw => Session.inv_of_opened hw) fun _ _ _ hw hstep => hw.step hstep

/-- **Saving a directory.**  In every run of transactions and of `SaveChanges`: when a save has succeeded and nothing
was modified since its snapshot, the database has exactly the entries in memory, and the deleted entries that were
dropped from it; and an entry that a step drops, other than by a purge, is in the database as it was. -/
theorem saving_spec {actions : List (Action P)} (hrun : (saving S).Run actions w) :
    (∀ snapshot w', w.phase = .stored snapshot → (saving S).step w .finish w' → ¬ w.modified →
      (∀ h, w'.rows h = (w'.kernel.row h).or (w'.dropped h)) ∧
        ∀ h row, w'.dropped h = some row → row.isDel = true ∧ w'.kernel.row h = none) ∧
      ∀ action w', (saving S).step w action w' → (∀ types, action ≠ .purge types) → ∀ h e,
        w.kernel.getEntryByHandle h = some e → w'.kernel.getEntryByHandle h = none →
          e.dirty = false ∧ w'.rows h = some e.row := by
  have hw := inv_of_run hrun
  have htarget : ∀ {snapshot}, w.phase = .stored snapshot → w.target = w.rows := by
    intro snapshot hphase
    rw [Session.target, hphase]
  constructor
  · intro snapshot w' hphase hstep hmodified
    have hafter : w'.Inv := hw.step hstep
    cases hstep with
    | restore hfailed =>
      rw [hphase] at hfailed
      cases hfailed
    | vacuum _ hvacuum =>
      have hk := Kernel.vacuumed_vacuumAfterSaveChanges hvacuum
      refine ⟨fun h => ?_, fun h row hdropped => ?_⟩
      · have hphase' : w.phase.snapshot ≠ none := by
          rw [hphase]
          exact Option.some_ne_none snapshot
        refine ((congrFun (htarget hphase) h).symm.trans (hw.unmodified hphase' hmodified h)).trans ?_
        rcases w.vacuum_dropped hk h with ⟨heq, hdropped⟩ | ⟨hnone, e, hentry, -, -, hdropped⟩
        · rw [hdropped]
          exact congrArg (fun o => (Option.map EntryKernel.row o).or (w.dropped h)) heq.symm
        · rw [hdropped, Kernel.row, hentry]
          exact congrArg (fun o => (Option.map EntryKernel.row o).or (some e.row)) hnone.symm
      · obtain ⟨hdel, hclosed, -⟩ := hafter.dropped hdropped
        exact ⟨hdel, Option.map_eq_none_iff.mpr (Kernel.not_open_iff.mp hclosed).1⟩
  · intro action w' hstep hpurge h e hentry hnone
    have hstays : ∀ {k : Kernel P}, Edits False w.kernel k → k.getEntryByHandle h = none → False := by
      intro k hk hnone
      cases hk.edited h with
      | kept heq =>
        have hwas := kept_eq_none_iff.mp (heq.symm.trans (kept_eq_none_iff.mpr hnone))
        rw [hentry] at hwas
        cases hwas
      | dirtied hsome =>
        rw [hnone] at hsome
        cases hsome
      | purged hfalse => exact hfalse
    cases hstep with
    | update hrun => exact (hstays (Update.edits hrun) hnone).elim
    | purge => exact absurd rfl (hpurge _)
    | restore => exact (hstays (Kernel.foldl_restoreDirty _ _).1 hnone).elim
    | store => cases hentry.symm.trans hnone
    | fail => cases hentry.symm.trans hnone
    | snapshot =>
      have ht := takes_takeSnapshotForSaveChanges hw.wellFormed
      rw [ht.entry, hentry] at hnone
      cases hnone
    | vacuum hphase hvacuum =>
      rcases w.vacuum_dropped (Kernel.vacuumed_vacuumAfterSaveChanges hvacuum) h with
        ⟨heq, -⟩ | ⟨-, e', hentry', -, hclean, -⟩
      · cases (hentry.symm.trans heq.symm).trans hnone
      · obtain rfl := Option.some.inj (hentry.symm.trans hentry')
        exact ⟨hclean, (congrFun (htarget hphase) h).symm.trans (hw.clean hentry hclean)⟩

/-- A directory without entries, whose next number for an id is the default of the database. -/
def emptyKernel (P : Type) : Kernel P where
  metahandlesIndex := []
  parentIdChildIndex := []
  idsIndex := []
  clientTagIndex := []
  unappliedUpdateMetahandles := []
  unsyncedMetahandles := []
  dirtyMetahandles := []
  metahandlesToPurge := []
  nextId := -2
  nextMetahandle := 1

def emptySession (P : Type) : Session P where
  kernel := emptyKernel P
  rows _ := none
  phase := .idle
  dropped _ := none
  modified := False

theorem opened_emptySession (P : Type) : Opened (emptySession P) where
  wellFormed := by
    constructor
    · nofun
    · nofun
    · nofun
    · nofun
  clean := nofun
  toPurge := rfl
  rows := rfl
  phase := rfl
  dropped := rfl

/-- An entry is created and saved, and the database has it then. -/
theorem saving_create : ∃ w w' : Session Unit,
    (saving noSpecifics).Run [.update (.create .root [97] 0), .snapshot, .store true] w ∧
      (saving noSpecifics).step w .finish w' ∧
      w'.rows 1 = (w'.kernel.row 1).or (w'.dropped 1) ∧ w'.rows 1 ≠ none := by
  have hinit : (saving noSpecifics).Run [] (emptySession Unit) := .init (opened_emptySession Unit)
  have hcreate : (saving noSpecifics).Run [.update (.create .root [97] 0)] _ := hinit.step (.update rfl)
  have hsnapshot := hcreate.step (.snapshot rfl)
  have hstore := hsnapshot.step (.store rfl)
  have hspec := (saving_spec hstore).1 _ _ rfl (.vacuum rfl rfl) fun h => h
  exact ⟨_, _, hstore, .vacuum rfl rfl, hspec.1 1, Option.some_ne_none _⟩

end Chromium.Sync
