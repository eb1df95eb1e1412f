import Chromium.VisitedLink.VisitedLinkTable

/-!
# Rebuilding the table from history

While history is enumerated, what is added and deleted is recorded in two sets, and when the enumeration is
complete they are applied to the table of what it found.  Adding and deleting single URLs records the last of
them for each fingerprint (`RebuildRun.recorded`).  Deleting all URLs clears the sets and records nothing:
what the enumeration has found before comes back (`onTableRebuildComplete_iff`).
-/

namespace Chromium.VisitedLink

open Lib

/-! ## The operations while history is enumerated -/

/-- What may be called before the enumeration is complete. -/
inductive RebuildOp
  | tryToAddURL (url : GURL)
  | deleteURLs (urls : List GURL)
  | deleteAllURLs
  deriving DecidableEq

def GURL.HasFingerprint (env : Environment) (salt : List UInt8) (fp : UInt64) (url : GURL) : Prop :=
  url.isValid = true ∧ env.md5 salt url.spec = fp

instance (env : Environment) (salt : List UInt8) (fp : UInt64) : DecidablePred (GURL.HasFingerprint env salt fp) :=
  fun url => inferInstanceAs (Decidable (url.isValid = true ∧ env.md5 salt url.spec = fp))

namespace RebuildOp

def run (env : Environment) (m : VisitedLinkMaster) : RebuildOp → Option VisitedLinkMaster
  | tryToAddURL url => some (m.tryToAddURL env url).2
  | deleteURLs urls => m.deleteURLs env urls
  | deleteAllURLs => m.deleteAllURLs env

variable (env : Environment) (salt : List UInt8) (fp : UInt64)

/-- Whether the operation adds the fingerprint, `some true`, or deletes it alone, `some false`. -/
def single : RebuildOp → Option Bool
  | tryToAddURL url =>
    if env.isOffTheRecord = false ∧ url.HasFingerprint env salt fp then some true else none
  | deleteURLs urls => if ∃ url ∈ urls, url.HasFingerprint env salt fp then some false else none
  | deleteAllURLs => none

/-- The last operation on the fingerprint, where all URLs are deleted as each one is. -/
def last (ops : List RebuildOp) : Option Bool :=
  ops.foldl (fun last op => if op = deleteAllURLs then some false else (op.single env salt fp).or last) none

def lastSingle (ops : List RebuildOp) : Option Bool :=
  ops.foldl (fun last op => if op = deleteAllURLs then none else (op.single env salt fp).or last) none

variable {env salt fp} {ops : List RebuildOp}

/-- **Where they differ**: all URLs were deleted, and nothing happened to the fingerprint since. -/
theorem last_eq (ops : List RebuildOp) : last env salt fp ops =
      (lastSingle env salt fp ops).or (if deleteAllURLs ∈ ops then some false else none) := by
  induction ops using List.reverseRecOn with
  | nil => rfl
  | append_singleton ops op ih =>
    rw [last, lastSingle, List.foldl_append, List.foldl_append] at *
    simp only [List.foldl_cons, List.foldl_nil, ih, List.mem_append, List.mem_singleton]
    by_cases hop : op = deleteAllURLs
    · simp [hop]
    · have hop' : ¬ deleteAllURLs = op := Ne.symm hop
      simp [hop, hop', Option.or_assoc]

end RebuildOp

open RebuildOp

/-- The operations from one state of the master to another. -/
inductive RebuildRun (env : Environment) (m : VisitedLinkMaster) : List RebuildOp → VisitedLinkMaster → Prop
  | start : RebuildRun env m [] m
  | step {ops : List RebuildOp} {op : RebuildOp} {m' m'' : VisitedLinkMaster} :
      RebuildRun env m ops m' → op.run env m' = some m'' → RebuildRun env m (ops ++ [op]) m''

namespace VisitedLinkMaster

/-- The two sets say for each fingerprint what happened to it last. -/
structure Recorded (env : Environment) (salt : List UInt8) (ops : List RebuildOp) (m : VisitedLinkMaster) :
    Prop where
  tableBuilder_eq : m.tableBuilder = true
  salt_eq : m.salt = salt
  added_iff : ∀ fp, fp ∈ m.addedSinceRebuild ↔ lastSingle env salt fp ops = some true
  deleted_iff : ∀ fp, fp ∈ m.deletedSinceRebuild ↔ lastSingle env salt fp ops = some false

variable {env : Environment} {salt : List UInt8} {ops : List RebuildOp} {m m' : VisitedLinkMaster}

variable {S : Set UInt64}

theorem Recorded.touched (h : Recorded env salt ops m) (ht : Touched m m') : Recorded env salt ops m' := by
  obtain ⟨_, _, _, _, _, rfl⟩ := ht
  exact ⟨h.tableBuilder_eq, h.salt_eq, h.added_iff, h.deleted_iff⟩

theorem mem_insert_iff {s : Std.ExtTreeSet UInt64} {a b : UInt64} : b ∈ s.insert a ↔ a = b ∨ b ∈ s := by
  rw [Std.ExtTreeSet.mem_insert, Std.LawfulEqCmp.compare_eq_iff_eq]

theorem mem_erase_iff {s : Std.ExtTreeSet UInt64} {a b : UInt64} : b ∈ s.erase a ↔ a ≠ b ∧ b ∈ s := by
  rw [Std.ExtTreeSet.mem_erase, Ne, Std.LawfulEqCmp.compare_eq_iff_eq]

theorem deleteURLsWhileRebuilding (env : Environment) (urls : List GURL) (m : VisitedLinkMaster) :
    (urls.foldl (deleteURLWhileRebuilding env) m).tableBuilder = m.tableBuilder ∧
      (urls.foldl (deleteURLWhileRebuilding env) m).salt = m.salt ∧
      (∀ fp, fp ∈ (urls.foldl (deleteURLWhileRebuilding env) m).addedSinceRebuild ↔
        fp ∈ m.addedSinceRebuild ∧ ¬ ∃ url ∈ urls, url.HasFingerprint env m.salt fp) ∧
      (∀ fp, fp ∈ (urls.foldl (deleteURLWhileRebuilding env) m).deletedSinceRebuild ↔
        fp ∈ m.deletedSinceRebuild ∨ ∃ url ∈ urls, url.HasFingerprint env m.salt fp) := by
  induction urls generalizing m with
  | nil => simp
  | cons url urls ih =>
    obtain ⟨hbuilder, hsalt, hadded, hdeleted⟩ := ih (deleteURLWhileRebuilding env m url)
    rw [List.foldl_cons]
    by_cases hvalid : url.isValid = true
    · have hstep : ∃ deleted, Touched { m with
          deletedSinceRebuild := m.deletedSinceRebuild.insert (env.md5 m.salt url.spec)
          addedSinceRebuild := m.addedSinceRebuild.erase (env.md5 m.salt url.spec) } deleted ∧
          deleteURLWhileRebuilding env m url = deleted := by
        refine ⟨_, touched_deleteFingerprint env _ (env.md5 m.salt url.spec) false, ?_⟩
        rw [deleteURLWhileRebuilding, if_pos hvalid]
        rfl
      obtain ⟨deleted, ⟨_, _, _, _, _, rfl⟩, heq⟩ := hstep
      rw [heq] at hbuilder hsalt hadded hdeleted ⊢
      refine ⟨hbuilder, hsalt, fun fp => (hadded fp).trans ?_, fun fp => (hdeleted fp).trans ?_⟩
      · dsimp only
        rw [mem_erase_iff, List.exists_mem_cons_iff, GURL.HasFingerprint, not_or, not_and]
        constructor
        · rintro ⟨⟨hne, hmem⟩, hrest⟩
          exact ⟨hmem, fun _ => hne, hrest⟩
        · rintro ⟨hmem, hne, hrest⟩
          exact ⟨⟨hne hvalid, hmem⟩, hrest⟩
      · dsimp only
        rw [mem_insert_iff, List.exists_mem_cons_iff, GURL.HasFingerprint, and_iff_right hvalid, or_assoc, or_left_comm]
    · have heq : deleteURLWhileRebuilding env m url = m := by rw [deleteURLWhileRebuilding, if_neg hvalid]
      rw [heq] at hbuilder hsalt hadded hdeleted ⊢
      have hurl : ∀ fp, ¬ url.HasFingerprint env m.salt fp := fun fp hfp => hvalid hfp.1
      refine ⟨hbuilder, hsalt, fun fp => (hadded fp).trans ?_, fun fp => (hdeleted fp).trans ?_⟩
      · rw [List.exists_mem_cons_iff, or_iff_right (hurl fp)]
      · rw [List.exists_mem_cons_iff, or_iff_right (hurl fp)]

theorem touched_tryToAdd (m : VisitedLinkMaster) (fp : UInt64) :
    Touched m (if (m.tableLength / 10 : ℤ) < m.usedItems.tdiv 8 then (none, m) else m.addFingerprint fp).2 := by
  split
  · exact Touched.refl m
  · exact touched_addFingerprint m fp

theorem Recorded.step {op : RebuildOp} (h : Recorded env salt ops m) (hrun : op.run env m = some m') :
    Recorded env salt (ops ++ [op]) m' := by
  have hlast : ∀ fp, lastSingle env salt fp (ops ++ [op]) =
      if op = .deleteAllURLs then none else (op.single env salt fp).or (lastSingle env salt fp ops) := by
    intro fp
    rw [lastSingle, List.foldl_append]
    rfl
  cases op with
  | tryToAddURL url =>
    cases hrun
    unfold tryToAddURL
    by_cases hoff : env.isOffTheRecord = true
    · rw [if_pos hoff]
      refine ⟨h.tableBuilder_eq, h.salt_eq, fun fp => ?_, fun fp => ?_⟩
      · simp [hlast, single, hoff, h.added_iff]
      · simp [hlast, single, hoff, h.deleted_iff]
    · rw [if_neg hoff]
      by_cases hvalid : url.isValid = true
      · rw [if_neg (by rw [hvalid]; decide)]
        dsimp only
        rw [if_pos h.tableBuilder_eq]
        refine Recorded.touched ?_ (touched_tryToAdd _ _)
        refine ⟨h.tableBuilder_eq, h.salt_eq, fun fp => ?_, fun fp => ?_⟩
        all_goals dsimp only [computeURLFingerprint]
        · rw [mem_insert_iff, h.added_iff, h.salt_eq, hlast]
          by_cases hfp : env.md5 salt url.spec = fp
          · simp [single, GURL.HasFingerprint, hvalid, hfp, hoff]
          · simp [single, GURL.HasFingerprint, hfp]
        · rw [mem_erase_iff, h.deleted_iff, h.salt_eq, hlast]
          by_cases hfp : env.md5 salt url.spec = fp
          · simp [single, GURL.HasFingerprint, hvalid, hfp, hoff]
          · simp [single, GURL.HasFingerprint, hfp]
      · rw [if_pos (by simpa using hvalid)]
        refine ⟨h.tableBuilder_eq, h.salt_eq, fun fp => ?_, fun fp => ?_⟩
        · simp [hlast, single, GURL.HasFingerprint, hvalid, h.added_iff]
        · simp [hlast, single, GURL.HasFingerprint, hvalid, h.deleted_iff]
  | deleteURLs urls =>
    have hfold : m' = urls.foldl (deleteURLWhileRebuilding env) m := by
      change VisitedLinkMaster.deleteURLs env m urls = some m' at hrun
      unfold VisitedLinkMaster.deleteURLs at hrun
      split at hrun
      · rename_i hnil
        cases hrun
        rw [hnil]
        rfl
      · rw [if_pos h.tableBuilder_eq] at hrun
        exact (Option.some.inj hrun).symm
    obtain ⟨hbuilder, hsalt, hadded, hdeleted⟩ := deleteURLsWhileRebuilding env urls m
    rw [h.salt_eq] at hadded hdeleted
    rw [hfold]
    refine ⟨hbuilder.trans h.tableBuilder_eq, hsalt.trans h.salt_eq, fun fp => ?_, fun fp => ?_⟩
    · rw [hadded, h.added_iff, hlast]
      by_cases hhit : ∃ url ∈ urls, url.HasFingerprint env salt fp <;> simp [single, hhit]
    · rw [hdeleted, h.deleted_iff, hlast]
      by_cases hhit : ∃ url ∈ urls, url.HasFingerprint env salt fp <;> simp [single, hhit]
  | deleteAllURLs =>
    obtain ⟨⟨resized, new⟩, hresize, rfl⟩ := Option.map_eq_some_iff.1 hrun
    have htouched := touched_resizeTableIfNecessary hresize
    have hwritten : Touched new (if resized = true then new else (new.writeFullTable env).2) := by
      split
      · exact Touched.refl new
      · exact (written_writeFullTable env new).touched
    refine Recorded.touched ?_ (htouched.trans hwritten)
    refine ⟨h.tableBuilder_eq, h.salt_eq, fun fp => ?_, fun fp => ?_⟩ <;> simp [hlast]


/-! ## The table that is made when the enumeration is complete -/

/-- A table for so many URLs is larger than their number, and its size in bytes is a `uint32`. -/
theorem newTableSizeForCount_spec {c : ℤ} (h0 : 0 ≤ c) (h1 : c < 268435456) :
    c < newTableSizeForCount c ∧ newTableSizeForCount c * 8 + 12 < 4294967296 := by
  have hdesired : toInt32 (c * 3) = c * 3 := toInt32_of_mem (by omega) (by omega)
  dsimp only [newTableSizeForCount]
  rw [hdesired]
  split
  · rename_i size hsize
    have hlt := List.find?_some hsize
    rw [decide_eq_true_eq] at hlt
    have hall : ∀ s ∈ tableSizes, s ≤ 33554347 := by decide
    have hle := hall size (List.mem_of_find?_eq_some hsize)
    omega
  · rename_i hnone
    have hall := List.find?_eq_none.1 hnone 33554347 (by decide)
    rw [decide_eq_true_eq] at hall
    rw [toInt32_of_mem (by omega) (by omega)]
    omega

def HasMemory (env : Environment) : Prop := ∀ serial size, env.allocates serial size = true

theorem createURLTable_of_hasMemory (hmem : HasMemory env) (m : VisitedLinkMaster) {n : ℤ} (h0 : 0 ≤ n)
    (hsize : n * 8 + 12 < 4294967296) :
    m.createURLTable env n =
      some (true, { m with hashTable := List.replicate n.toNat 0, usedItems := 0 }) := by
  dsimp only [createURLTable]
  rw [if_pos (hmem _ _), if_pos ⟨h0, hsize⟩]

theorem exists_resizeTableIfNecessary (hmem : HasMemory env) (h : m.Represents S)
    (hused : m.usedItems < 268435456) :
    ∃ resized m', m.resizeTableIfNecessary env = some (resized, m') ∧ m'.Represents S := by
  have h0 : 0 ≤ m.usedItems := by
    rw [h.used_eq]
    exact Int.natCast_nonneg _
  obtain ⟨hlt, hsize⟩ := newTableSizeForCount_spec h0 hused
  have hresize : ∃ resized m', m.resizeTableIfNecessary env = some (resized, m') := by
    unfold resizeTableIfNecessary
    split
    · exact ⟨_, _, rfl⟩
    · dsimp only [resizeTable]
      rw [createURLTable_of_hasMemory hmem _ (by omega) hsize]
      exact ⟨_, _, rfl⟩
  obtain ⟨resized, m', hresize⟩ := hresize
  exact ⟨resized, m', hresize, h.resizeTableIfNecessary hresize (.inl (Int.le_of_lt hlt))⟩

theorem Represents.deleteFingerprints (env : Environment) (updateFile : Bool)
    (fps : List UInt64) (h : m.Represents S) (hroom : 0 ∈ m.hashTable) :
    (fps.foldl (fun m fp => m.deleteFingerprint env fp updateFile) m).Represents (S \ {fp | fp ∈ fps}) ∧
      taken 0 (fps.foldl (fun m fp => m.deleteFingerprint env fp updateFile) m).hashTable ≤
        taken 0 m.hashTable := by
  induction fps generalizing m S with
  | nil =>
    refine ⟨⟨h.found, h.used_eq, fun fp hne => (h.mem_iff fp hne).trans ?_⟩, le_refl _⟩
    simp
  | cons fp fps ih =>
    obtain ⟨hrep, hfree, hle⟩ := h.deleteFingerprint env fp hroom updateFile
    obtain ⟨hrep', hle'⟩ := ih hrep hfree
    refine ⟨⟨hrep'.found, hrep'.used_eq, fun v hv => (hrep'.mem_iff v hv).trans ?_⟩, hle'.trans hle⟩
    simp only [Set.mem_sdiff, Set.mem_singleton_iff, Set.mem_ofPred_eq, List.mem_cons, not_or, and_assoc]

theorem exists_deleteFingerprintsFromCurrentTable (hmem : HasMemory env)
    (fps : Std.ExtTreeSet UInt64) (h : m.Represents S) (hroom : 0 ∈ m.hashTable)
    (hused : m.usedItems < 268435456) :
    ∃ m', m.deleteFingerprintsFromCurrentTable env fps = some m' ∧ m'.Represents (S \ {fp | fp ∈ fps}) := by
  obtain ⟨hrep, hle⟩ :=
    h.deleteFingerprints env (!decide (kBigDeleteThreshold < fps.size)) fps.toList hroom
  have hlist : {fp | fp ∈ fps.toList} = {fp | fp ∈ fps} := Set.ext fun fp => Std.ExtTreeSet.mem_toList
  rw [hlist] at hrep
  rw [h.used_eq] at hused
  have hused' := lt_of_le_of_lt (Int.ofNat_le.2 hle) hused
  rw [← hrep.used_eq] at hused'
  obtain ⟨resized, m', hresize, hrep'⟩ := exists_resizeTableIfNecessary hmem hrep hused'
  dsimp only [deleteFingerprintsFromCurrentTable]
  rw [hresize, Option.map_some]
  refine ⟨_, rfl, ?_⟩
  split
  · exact hrep'
  · split
    · exact hrep'.written (written_writeFullTable env m')
    · exact hrep'

theorem addFingerprints_filter (m : VisitedLinkMaster) (fps : List UInt64) :
    m.addFingerprints fps = m.addFingerprints (fps.filter (· ≠ 0)) := by
  induction fps generalizing m with
  | nil => rfl
  | cons fp fps ih =>
    have hcons : m.addFingerprints (fp :: fps) = (m.addFingerprint fp).2.addFingerprints fps := rfl
    by_cases hzero : fp = 0
    · rw [hcons, hzero, addFingerprint_zero, ih, List.filter_cons_of_neg (by simp)]
    · rw [hcons, ih, List.filter_cons_of_pos (by simpa using hzero)]
      rfl

theorem Represents.addFingerprints_of_room (fps : List UInt64) (h : m.Represents S)
    (hroom : taken 0 m.hashTable + fps.length ≤ m.tableLength) :
    (m.addFingerprints fps).Represents (S ∪ {fp | fp ∈ fps}) ∧ (m.addFingerprints fps).tableLength = m.tableLength ∧
      taken 0 (m.addFingerprints fps).hashTable ≤ taken 0 m.hashTable + fps.length := by
  have hne : ∀ fp ∈ fps.filter (· ≠ 0), fp ≠ 0 := fun fp hfp => of_decide_eq_true (List.mem_filter.1 hfp).2
  have hle := List.length_filter_le (· ≠ 0) fps
  have hrep := h.addFingerprints hne (.inl (Nat.le_trans (by omega) hroom))
  have htaken := taken_insertAll_le home m.hashTable hne
  rw [addFingerprints_filter]
  refine ⟨⟨hrep.found, hrep.used_eq, fun fp hfp => (hrep.mem_iff fp hfp).trans ?_⟩, ?_, ?_⟩
  · simp [hfp]
  all_goals rw [addFingerprints_eq m hne]
  · exact length_insertAll 0 home _ _
  · exact htaken.trans (by omega)

theorem exists_onTableRebuildComplete (hmem : HasMemory env) (m : VisitedLinkMaster) (fps : List UInt64)
    (hcount : fps.length + m.addedSinceRebuild.size < 268435456) :
    ∃ m', m.onTableRebuildComplete env true fps = some m' ∧
      m'.Represents (({fp | fp ∈ fps} ∪ {fp | fp ∈ m.addedSinceRebuild}) \ {fp | fp ∈ m.deletedSinceRebuild}) := by
  obtain ⟨hlt, hsize⟩ := newTableSizeForCount_spec
    (c := ((fps.length + m.addedSinceRebuild.size : ℕ) : ℤ)) (Int.natCast_nonneg _) (by omega)
  generalize hn : newTableSizeForCount ((fps.length + m.addedSinceRebuild.size : ℕ) : ℤ) = n at hlt hsize
  have hint : toInt32 ((fps.length + m.addedSinceRebuild.size : ℕ) : ℤ) =
      ((fps.length + m.addedSinceRebuild.size : ℕ) : ℤ) := toInt32_of_mem (by omega) (by omega)
  dsimp only [onTableRebuildComplete]
  rw [if_pos rfl, hint, hn, createURLTable_of_hasMemory hmem _ (by omega) hsize, Option.bind_some]
  dsimp only
  rw [if_pos rfl]
  generalize hfresh : ({ m with
    sharedMemorySerial := m.sharedMemorySerial + 1
    hashTable := List.replicate n.toNat 0
    usedItems := 0 } : VisitedLinkMaster) = fresh
  have hempty : fresh.Represents ∅ := represents_empty (by rw [← hfresh]) (by rw [← hfresh])
  have hlength : fresh.tableLength = n.toNat := by
    rw [← hfresh]
    exact List.length_replicate
  have hnone : taken 0 fresh.hashTable = 0 := by
    rw [← hfresh]
    exact taken_replicate n.toNat
  obtain ⟨hfound, hlength₁, htaken₁⟩ := hempty.addFingerprints_of_room fps (by omega)
  have hsets : (fresh.addFingerprints fps).addedSinceRebuild = m.addedSinceRebuild := by
    obtain ⟨_, _, _, _, _, heq⟩ := touched_addFingerprints fresh fps
    rw [heq, ← hfresh]
  rw [hsets]
  have hroom : taken 0 (fresh.addFingerprints fps).hashTable + m.addedSinceRebuild.toList.length ≤
      (fresh.addFingerprints fps).tableLength := by
    rw [Std.ExtTreeSet.length_toList]
    omega
  obtain ⟨hboth, hlength₂, htaken₂⟩ := hfound.addFingerprints_of_room _ hroom
  rw [Std.ExtTreeSet.length_toList] at htaken₂
  have hdeleted : ((fresh.addFingerprints fps).addFingerprints m.addedSinceRebuild.toList).deletedSinceRebuild =
      m.deletedSinceRebuild := by
    obtain ⟨_, _, _, _, _, heq⟩ := (touched_addFingerprints fresh fps).trans
      (touched_addFingerprints (fresh.addFingerprints fps) m.addedSinceRebuild.toList)
    rw [heq, ← hfresh]
  generalize hadded : (fresh.addFingerprints fps).addFingerprints m.addedSinceRebuild.toList = added at *
  have hfree : 0 ∈ added.hashTable := empty_mem (show taken 0 added.hashTable < added.tableLength by omega)
  have hcleared : ({ added with addedSinceRebuild := ∅ } : VisitedLinkMaster).Represents
      (∅ ∪ {fp | fp ∈ fps} ∪ {fp | fp ∈ m.addedSinceRebuild.toList}) := hboth.congr rfl rfl
  have hused : added.usedItems < 268435456 := by
    rw [hboth.used_eq]
    omega
  obtain ⟨m', hm', hrep⟩ :=
    exists_deleteFingerprintsFromCurrentTable hmem added.deletedSinceRebuild hcleared hfree hused
  rw [hm', Option.map_some]
  rw [hdeleted] at hrep
  refine ⟨_, rfl, ?_⟩
  have hwritten := written_writeFullTable env { m' with deletedSinceRebuild := ∅ }
  refine ⟨?_, ?_, fun fp hne => ?_⟩
  · rw [hwritten.hashTable_eq]
    exact hrep.found
  · rw [hwritten.usedItems_eq, hwritten.hashTable_eq]
    exact hrep.used_eq
  · rw [hwritten.hashTable_eq, hrep.mem_iff fp hne]
    simp only [Set.empty_union, Std.ExtTreeSet.mem_toList]

end VisitedLinkMaster

open VisitedLinkMaster

variable {env : Environment} {salt bytes : List UInt8} {ops : List RebuildOp} {m m' : VisitedLinkMaster}

theorem RebuildRun.recorded (h : RebuildRun env m ops m') (hm : Recorded env salt [] m) :
    Recorded env salt ops m' := by
  induction h with
  | start => exact hm
  | step _ hrun ih => exact ih.step hrun

theorem recorded_initFromScratch {n : ℕ} (h : initFromScratch env bytes salt n false = some m) :
    Recorded env salt [] m := by
  obtain ⟨⟨created, new⟩, hcreate, h⟩ := Option.bind_eq_some_iff.1 h
  rcases createURLTable_eq hcreate with ⟨rfl, -⟩ | ⟨rfl, -, -, rfl⟩
  · cases h
  · dsimp only at h
    rw [if_pos rfl, if_neg (by decide)] at h
    cases h
    refine ⟨rfl, rfl, fun fp => ?_, fun fp => ?_⟩ <;> simp [rebuildTableFromHistory, initMembers, lastSingle]

/-- What a fingerprint should be when the enumeration has found `fps`. -/
def Expected (env : Environment) (salt : List UInt8) (ops : List RebuildOp) (fps : List UInt64) (fp : UInt64) :
    Prop :=
  match last env salt fp ops with
  | some added => added = true
  | none => fp ∈ fps

def CompletesAsExpected (env : Environment) (salt : List UInt8) (ops : List RebuildOp) (fps : List UInt64)
    (m : VisitedLinkMaster) : Prop :=
  ∃ m', m.onTableRebuildComplete env true fps = some m' ∧
    ∀ fp, isVisited m'.hashTable fp = true ↔ Expected env salt ops fps fp

theorem exists_complete (hmem : HasMemory env) (fps : List UInt64) (h : Recorded env salt ops m)
    (hcount : fps.length + m.addedSinceRebuild.size < 268435456) :
    ∃ m', m.onTableRebuildComplete env true fps = some m' ∧ ∀ fp, isVisited m'.hashTable fp = true ↔
        fp ≠ 0 ∧ match lastSingle env salt fp ops with
          | some added => added = true
          | none => fp ∈ fps := by
  obtain ⟨m', hm', hrep⟩ := exists_onTableRebuildComplete hmem m fps hcount
  refine ⟨m', hm', fun fp => ?_⟩
  rw [hrep.isVisited_iff, and_comm]
  refine and_congr_right fun _ => ?_
  simp only [Set.mem_sdiff, Set.mem_union, Set.mem_ofPred_eq, h.added_iff, h.deleted_iff]
  cases lastSingle env salt fp ops with
  | none => simp
  | some added => cases added <;> simp

/-- **The fingerprints are what they should be exactly if** the null fingerprint should not be visited, and
if none that the enumeration has found is left alone since all URLs were deleted. -/
theorem onTableRebuildComplete_iff {n : ℕ} {m₀ : VisitedLinkMaster} {fps : List UInt64} (hmem : HasMemory env)
    (hinit : initFromScratch env bytes salt n false = some m₀) (hrun : RebuildRun env m₀ ops m)
    (hcount : fps.length + m.addedSinceRebuild.size < 268435456) :
    CompletesAsExpected env salt ops fps m ↔ ¬ Expected env salt ops fps 0 ∧
        (.deleteAllURLs ∈ ops → ∀ fp ∈ fps, fp ≠ 0 → lastSingle env salt fp ops ≠ none) := by
  have hrec := hrun.recorded (recorded_initFromScratch hinit)
  obtain ⟨m', hm', hvisited⟩ := exists_complete hmem fps hrec hcount
  have hiff : CompletesAsExpected env salt ops fps m ↔
      ∀ fp, isVisited m'.hashTable fp = true ↔ Expected env salt ops fps fp := by
    constructor
    · rintro ⟨m'', hm'', hall⟩
      rw [hm'] at hm''
      cases hm''
      exact hall
    · exact fun hall => ⟨m', hm', hall⟩
  rw [hiff]
  constructor
  · intro hall
    refine ⟨fun hzero => ?_, fun hdeleteAll fp hfp hne hnone => ?_⟩
    · exact ((hvisited 0).mp ((hall 0).mpr hzero)).1 rfl
    · have hvis : isVisited m'.hashTable fp = true := by
        rw [hvisited, hnone]
        exact ⟨hne, hfp⟩
      have hexpected := (hall fp).mp hvis
      rw [Expected, last_eq, hnone, if_pos hdeleteAll] at hexpected
      exact absurd hexpected Bool.false_ne_true
  · rintro ⟨hzero, hsince⟩ fp
    rw [hvisited]
    by_cases hne : fp = 0
    · rw [hne]
      exact ⟨fun h => absurd rfl h.1, fun h => absurd h hzero⟩
    · rw [and_iff_right hne, Expected, last_eq]
      cases hsingle : lastSingle env salt fp ops with
      | some added => rfl
      | none =>
        by_cases hdeleteAll : RebuildOp.deleteAllURLs ∈ ops
        · rw [if_pos hdeleteAll]
          exact ⟨fun hfp => absurd hsingle (hsince hdeleteAll fp hfp hne), fun h => absurd h Bool.false_ne_true⟩
        · rw [if_neg hdeleteAll]
          rfl

/-- A URL is added and another one deleted while the enumeration finds this one and a third. -/
theorem onTableRebuildComplete_iff_three :
    ∃ m₀ m : VisitedLinkMaster, initFromScratch plainEnvironment [] (List.replicate 8 0) 5 false = some m₀ ∧
      RebuildRun plainEnvironment m₀ [.tryToAddURL ⟨true, [4]⟩, .deleteURLs [⟨true, [7]⟩]] m ∧
      CompletesAsExpected plainEnvironment (List.replicate 8 0)
        [.tryToAddURL ⟨true, [4]⟩, .deleteURLs [⟨true, [7]⟩]] [7, 8] m := by
  have hsize : ((initFromScratch plainEnvironment [] (List.replicate 8 0) 5 false).bind fun m =>
      ((RebuildOp.tryToAddURL ⟨true, [4]⟩).run plainEnvironment m).bind fun m =>
        ((RebuildOp.deleteURLs [⟨true, [7]⟩]).run plainEnvironment m).map fun m =>
          m.addedSinceRebuild.size) = some 1 := by decide +kernel
  obtain ⟨m₀, hinit, hsize⟩ := Option.bind_eq_some_iff.mp hsize
  obtain ⟨m₁, hadd, hsize⟩ := Option.bind_eq_some_iff.mp hsize
  obtain ⟨m, hdelete, hsize⟩ := Option.map_eq_some_iff.mp hsize
  have hrun : RebuildRun plainEnvironment m₀
      ([] ++ [.tryToAddURL ⟨true, [4]⟩] ++ [.deleteURLs [⟨true, [7]⟩]]) m := .step (.step .start hadd) hdelete
  refine ⟨m₀, m, hinit, hrun, ?_⟩
  refine (onTableRebuildComplete_iff (fun _ _ => rfl) hinit hrun (by rw [hsize]; decide)).mpr ⟨?_, ?_⟩
  · have hlast : last plainEnvironment (List.replicate 8 0) 0
        [.tryToAddURL ⟨true, [4]⟩, .deleteURLs [⟨true, [7]⟩]] = none := by decide +kernel
    intro hzero
    unfold Expected at hzero
    rw [List.nil_append, List.singleton_append, hlast] at hzero
    exact absurd hzero (by decide)
  · decide

/-- All URLs are deleted while the enumeration has found one: it is visited, though it was deleted last. -/
theorem not_completesAsExpected_deleteAllURLs :
    ∃ m₀ m : VisitedLinkMaster, initFromScratch plainEnvironment [] (List.replicate 8 0) 5 false = some m₀ ∧
      RebuildRun plainEnvironment m₀ [.deleteAllURLs] m ∧
      ¬ CompletesAsExpected plainEnvironment (List.replicate 8 0) [.deleteAllURLs] [7] m := by
  have hsize : ((initFromScratch plainEnvironment [] (List.replicate 8 0) 5 false).bind fun m =>
      (m.deleteAllURLs plainEnvironment).map fun m => m.addedSinceRebuild.size) = some 0 := by decide +kernel
  obtain ⟨m₀, hinit, hsize⟩ := Option.bind_eq_some_iff.mp hsize
  obtain ⟨m, hdelete, hsize⟩ := Option.map_eq_some_iff.mp hsize
  have hrun : RebuildRun plainEnvironment m₀ ([] ++ [.deleteAllURLs]) m := .step .start hdelete
  obtain ⟨m', hm', hvisited⟩ := exists_complete (fun _ _ => rfl) [7]
    (hrun.recorded (recorded_initFromScratch hinit)) (by rw [hsize]; decide)
  refine ⟨m₀, m, hinit, hrun, ?_⟩
  rintro ⟨m'', hm'', hall⟩
  rw [hm'] at hm''
  cases hm''
  have hvis : isVisited m'.hashTable 7 = true := (hvisited 7).mpr ⟨by decide, List.mem_singleton.mpr rfl⟩
  exact absurd ((hall 7).mp hvis) Bool.false_ne_true

end Chromium.VisitedLink
