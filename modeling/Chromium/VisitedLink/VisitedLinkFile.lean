import Chromium.VisitedLink.VisitedLinkRebuild

/-!
# The file holds the table

After the posted tasks have run, the file is the header and the slots of the table (`fileBytes`): a full write
makes it so (`saved_writeFullTable`), and the patches keep it so, since a deletion changes the slots of one run
only (`Probed.slotAt_remove`).  Where such a run goes around the end of the table, the patch writes one slot
too many, and the file is refused at the next start.  In every run where this does not happen, or where the
table is written anew after it, the file gives back the table (`initFromFile_of_run`).
-/

namespace Chromium.VisitedLink

open Lib VisitedLinkMaster
open List (append_assoc drop_left' length_append length_drop length_take take_left')
open Option (bind_eq_some_iff bind_some map_eq_some_iff)

variable {env : Environment} {salt bytes : List UInt8} {m m' : VisitedLinkMaster} {n : ℕ} {used : ℤ}
  {t t' : List UInt64} {fp : UInt64}

def fileBytes (tableLength : ℕ) (used : ℤ) (salt : List UInt8) (t : List UInt64) : List UInt8 :=
  int32Bytes kFileSignature ++ int32Bytes kFileCurrentVersion ++ int32Bytes tableLength ++ int32Bytes used ++
    salt ++ fingerprintBytes t

/-! ## The bytes of the file -/

theorem length_int32Bytes (x : ℤ) : (int32Bytes x).length = 4 := length_toLe 4 _

theorem length_fingerprintBytes (t : List UInt64) : (fingerprintBytes t).length = t.length * 8 := by
  rw [fingerprintBytes, length_arrayBytes, List.length_map]

theorem fingerprintBytes_append (t t' : List UInt64) :
    fingerprintBytes (t ++ t') = fingerprintBytes t ++ fingerprintBytes t' := by
  rw [fingerprintBytes, fingerprintBytes, fingerprintBytes, List.map_append, arrayBytes, arrayBytes, arrayBytes,
    List.flatMap_append]

theorem readArray_fingerprintBytes (t : List UInt64) :
    (readArray 8 t.length (fingerprintBytes t)).map UInt64.ofNat = t := by
  have hread : readArray 8 t.length (fingerprintBytes t) = t.map UInt64.toNat := by
    rw [fingerprintBytes, ← List.length_map (f := UInt64.toNat)]
    refine readArray_arrayBytes fun x hx => ?_
    obtain ⟨fp, -, rfl⟩ := List.mem_map.1 hx
    exact fp.toNat_lt
  rw [hread, List.map_map]
  exact (List.map_congr_left fun fp _ => UInt64.ofNat_toNat).trans (List.map_id t)

theorem length_fileBytes (hsalt : salt.length = 8) : (fileBytes n used salt t).length = t.length * 8 + 24 := by
  simp only [fileBytes, length_append, length_int32Bytes, length_fingerprintBytes, hsalt]
  omega

theorem writeAt_used (used' : ℤ) :
    writeAt 0 (fileBytes n used salt t) kFileHeaderUsedOffset (int32Bytes used') = fileBytes n used' salt t := by
  have hfront : (int32Bytes kFileSignature ++ int32Bytes kFileCurrentVersion ++ int32Bytes n).length =
      kFileHeaderUsedOffset := by
    simp only [length_append, length_int32Bytes]
    rfl
  have hsplit : fileBytes n used salt t =
      (int32Bytes kFileSignature ++ int32Bytes kFileCurrentVersion ++ int32Bytes n) ++
        (int32Bytes used ++ (salt ++ fingerprintBytes t)) := by
    simp only [fileBytes, append_assoc]
  rw [hsplit, ← hfront, writeAt_append, drop_left' (by rw [length_int32Bytes, length_int32Bytes])]
  simp only [fileBytes, append_assoc]

/-- **Some slots are patched**: what is written are the slots of another table that is the same elsewhere. -/
theorem writeAt_slots {first count : ℕ} (hsalt : salt.length = 8) (hlen : t'.length = t.length)
    (hrange : first + count ≤ t.length)
    (hout : ∀ i < t.length, i < first ∨ first + count ≤ i → t'.getD i 0 = t.getD i 0) :
    writeAt 0 (fileBytes n used salt t) (first * 8 + kFileHeaderSize)
      (fingerprintBytes ((t'.drop first).take count)) = fileBytes n used salt t' := by
  have hget : ∀ i (h : i < t.length), i < first ∨ first + count ≤ i → t'[i] = t[i] := by
    intro i h hi
    have hi' := hout i h hi
    rwa [List.getD_eq_getElem _ _ (hlen ▸ h), List.getD_eq_getElem _ _ h] at hi'
  have hbefore : t'.take first = t.take first := by
    refine List.ext_getElem (by rw [length_take, length_take, hlen]) fun i h1 h2 => ?_
    rw [length_take] at h2
    rw [List.getElem_take, List.getElem_take]
    exact hget i (by omega) (.inl (by omega))
  have hbehind : t'.drop (first + count) = t.drop (first + count) := by
    refine List.ext_getElem (by rw [length_drop, length_drop, hlen]) fun i h1 h2 => ?_
    rw [length_drop] at h2
    rw [List.getElem_drop, List.getElem_drop]
    exact hget _ (by omega) (.inr (by omega))
  have hparts : ∀ s : List UInt64, s = s.take first ++ ((s.drop first).take count ++ s.drop (first + count)) := by
    intro s
    rw [← List.drop_drop, List.take_append_drop, List.take_append_drop]
  have hfile : ∀ s : List UInt64, fileBytes n used salt s = (fileBytes n used salt (s.take first)) ++
        (fingerprintBytes ((s.drop first).take count) ++ fingerprintBytes (s.drop (first + count))) := by
    intro s
    conv_lhs => rw [hparts s]
    simp only [fileBytes, fingerprintBytes_append, append_assoc]
  have hfront : (fileBytes n used salt (t.take first)).length = first * 8 + kFileHeaderSize := by
    rw [length_fileBytes hsalt, length_take, Nat.min_eq_left (by omega)]
    rfl
  have hcount : (fingerprintBytes ((t'.drop first).take count)).length =
      (fingerprintBytes ((t.drop first).take count)).length := by
    simp only [length_fingerprintBytes, length_take, length_drop, hlen]
  rw [hfile t, ← hfront, writeAt_append, hcount, List.drop_left, hfile t', hbefore, hbehind, append_assoc]

namespace VisitedLinkMaster

variable {size : ℤ} {resized : Bool} {urls : List GURL} {fps : Std.ExtTreeSet UInt64}

def disk (m : VisitedLinkMaster) : LinkFile := m.file.runAll m.posted

def FileMatches (m : VisitedLinkMaster) : Prop :=
  m.disk.bytes = fileBytes m.tableLength m.usedItems m.salt m.hashTable

/-- The offsets in the file are no larger than an `int32`. -/
def LengthFits (m : VisitedLinkMaster) : Prop := m.tableLength * 8 + 24 < 2147483648

theorem disk_writeToFile {offset : ℕ} {data : List UInt8} (h : offset + data.length < 2147483648) :
    (m.writeToFile offset data).disk = ⟨writeAt 0 m.disk.bytes offset data, offset + data.length⟩ := by
  have hoffset : toInt32 offset = offset := toInt32_of_mem (by omega) (by omega)
  have hlength : toInt32 data.length = data.length := toInt32_of_mem (by omega) (by omega)
  rw [disk, writeToFile, LinkFile.runAll, List.foldl_append, hoffset, hlength, Int.toNat_natCast, List.take_length]
  rfl

theorem fileMatches_writeFullTable (env : Environment) (hopen : (m.writeFullTable env).2.fileOpen = true) (hfits : m.LengthFits)
    (hsalt : m.salt.length = 8) : (m.writeFullTable env).2.FileMatches := by
  have hcan : (m.fileOpen || env.opens) = true := by
    by_contra hcannot
    rw [writeFullTable, if_neg hcannot] at hopen
    exact hcannot (by rw [hopen, Bool.true_or])
  unfold LengthFits at hfits
  have hheader : ∀ x y z w : ℤ, (int32Bytes x ++ int32Bytes y ++ int32Bytes z ++ int32Bytes w).length = 16 := by
    intro x y z w
    simp only [length_append, length_int32Bytes]
  have hkey : ∀ q : VisitedLinkMaster, q.hashTable = m.hashTable → q.usedItems = m.usedItems → q.salt = m.salt →
      FileMatches
        (let q := q.writeToFile 0 (int32Bytes kFileSignature ++ int32Bytes kFileCurrentVersion ++
          int32Bytes q.tableLength ++ int32Bytes q.usedItems)
        let q := q.writeToFile 16 q.salt
        let q := q.writeToFile kFileHeaderSize (fingerprintBytes q.hashTable)
        { q with posted := q.posted ++ [.setEndOfFile] }) := by
    intro q ht hu hs
    have hlength : q.tableLength = m.tableLength := congrArg List.length ht
    dsimp only
    generalize hH : int32Bytes kFileSignature ++ int32Bytes kFileCurrentVersion ++ int32Bytes q.tableLength ++
      int32Bytes q.usedItems = H
    have hHlen : H.length = 16 := by
      rw [← hH]
      exact hheader _ _ _ _
    have hfirst : (q.writeToFile 0 H).disk = ⟨H ++ q.disk.bytes.drop 16, 16⟩ := by
      rw [disk_writeToFile (by omega), hHlen]
      have hwrite := writeAt_append 0 [] q.disk.bytes H
      rw [List.nil_append, List.length_nil, List.nil_append, hHlen] at hwrite
      rw [hwrite]
    have hsecond : ((q.writeToFile 0 H).writeToFile 16 q.salt).disk =
        ⟨H ++ q.salt ++ (q.disk.bytes.drop 16).drop 8, 24⟩ := by
      have hwrite := writeAt_append 0 H (q.disk.bytes.drop 16) q.salt
      rw [hHlen, hs, hsalt] at hwrite
      rw [disk_writeToFile (by rw [hs, hsalt]; omega), hfirst, hs, hwrite, hsalt]
    have hthird : (((q.writeToFile 0 H).writeToFile 16 q.salt).writeToFile kFileHeaderSize
        (fingerprintBytes q.hashTable)).disk = ⟨H ++ q.salt ++ fingerprintBytes q.hashTable ++
            ((q.disk.bytes.drop 16).drop 8).drop (fingerprintBytes q.hashTable).length,
            24 + (fingerprintBytes q.hashTable).length⟩ := by
      have hwrite := writeAt_append 0 (H ++ q.salt) ((q.disk.bytes.drop 16).drop 8) (fingerprintBytes q.hashTable)
      have hfront : (H ++ q.salt).length = kFileHeaderSize := by
        rw [length_append, hHlen, hs, hsalt]
        rfl
      rw [hfront] at hwrite
      rw [disk_writeToFile, hsecond, hwrite]
      · rfl
      · rw [length_fingerprintBytes, ht]
        change 24 + m.tableLength * 8 < _
        omega
    have hlast : ∀ q : VisitedLinkMaster, (disk { q with posted := q.posted ++ [.setEndOfFile] }).bytes =
        q.disk.bytes.take q.disk.position := by
      intro q
      rw [disk, disk, LinkFile.runAll, List.foldl_append]
      rfl
    have hall : (H ++ q.salt ++ fingerprintBytes q.hashTable).length =
        24 + (fingerprintBytes q.hashTable).length := by
      rw [length_append, length_append, hHlen, hs, hsalt]
    rw [FileMatches, hlast]
    change List.take (((q.writeToFile 0 H).writeToFile 16 q.salt).writeToFile kFileHeaderSize
      (fingerprintBytes q.hashTable)).disk.position (((q.writeToFile 0 H).writeToFile 16 q.salt).writeToFile
        kFileHeaderSize (fingerprintBytes q.hashTable)).disk.bytes =
          fileBytes q.tableLength q.usedItems q.salt q.hashTable
    rw [hthird]
    dsimp only
    rw [take_left' hall, ← hH]
    rfl
  rw [writeFullTable, if_pos hcan]
  dsimp only
  split
  · exact hkey m rfl rfl rfl
  · exact hkey { m with fileOpen := true, posted := m.posted ++ [.create] } rfl rfl rfl

/-! ## The count of a table -/

/-- The fingerprints are found, and the count is not above the number of the taken slots. -/
structure Counted (m : VisitedLinkMaster) : Prop where
  found : Found m.hashTable
  used_le : m.usedItems ≤ taken 0 m.hashTable
  length_pos : 0 < m.tableLength

theorem Counted.congr (h : m.Counted) (ht : m'.hashTable = m.hashTable) (hu : m'.usedItems ≤ m.usedItems) :
    m'.Counted := by
  refine ⟨?_, hu.trans ?_, ?_⟩
  · rw [ht]
    exact h.found
  · rw [ht]
    exact h.used_le
  · rw [tableLength, ht]
    exact h.length_pos

theorem Counted.written (h : m.Counted) (hw : Written m m') : m'.Counted :=
  h.congr hw.hashTable_eq hw.usedItems_eq.le

theorem Counted.withTable (h : m.Counted) (hfound : Found t) (hlength : t.length = m.tableLength) :
    (m.withTable t).Counted := by
  refine ⟨hfound, ?_, ?_⟩
  · have := h.used_le
    change m.usedItems + taken 0 t - taken 0 m.hashTable ≤ taken 0 t
    omega
  · change 0 < t.length
    rw [hlength]
    exact h.length_pos

theorem Counted.addFingerprint (h : m.Counted) (fp : UInt64) : (m.addFingerprint fp).2.Counted := by
  by_cases hzero : fp = 0
  · rw [hzero, addFingerprint_zero]
    exact h
  · rw [addFingerprint_snd m hzero]
    exact h.withTable (h.found.insert hzero) (length_insert 0 home _ _)

theorem Counted.addFingerprints (h : m.Counted) (fps : List UInt64) : (m.addFingerprints fps).Counted := by
  induction fps generalizing m with
  | nil => exact h
  | cons fp fps ih => exact ih (h.addFingerprint fp)

theorem counted_replicate (hpos : 0 < n) (ht : m.hashTable = List.replicate n 0) (hu : m.usedItems = 0) :
    m.Counted := by
  have hrep := represents_empty ht hu
  refine ⟨hrep.found, hrep.used_eq.le, ?_⟩
  rw [tableLength, ht, List.length_replicate]
  exact hpos

theorem newTableSizeForCount_ne_zero (count : ℤ) : newTableSizeForCount count ≠ 0 := by
  dsimp only [newTableSizeForCount]
  split
  · rename_i size hsize
    have hall : ∀ s ∈ tableSizes, s ≠ 0 := by decide
    exact hall size (List.mem_of_find?_eq_some hsize)
  · unfold toInt32
    omega

theorem Counted.deleteFingerprint_false (env : Environment) (h : m.Counted) (fp : UInt64) :
    (m.deleteFingerprint env fp false).Counted ∧
      (m.deleteFingerprint env fp false).tableLength = m.tableLength := by
  by_cases hvisited : isVisited m.hashTable fp = true
  · obtain ⟨hfp, hne⟩ := (isVisited_iff h.found).1 hvisited
    obtain ⟨r, hr, -, htaken, ⟨-, heq⟩ | ⟨hlt, hfree, hmem, heq⟩⟩ :=
      VisitedLinkMaster.deleteFingerprint_false env h.found hfp hne
    · rw [heq]
      exact ⟨h.congr rfl (Int.sub_le_self _ Int.one_nonneg), rfl⟩
    · have hlength : (insertAll 0 home (clearRun 0 m.hashTable (home fp) (r + 1))
          ((runAt 0 m.hashTable (home fp) (r + 1)).filter (· ≠ fp))).length = m.tableLength := by
        rw [length_insertAll, length_clearRun]
        rfl
      rw [heq]
      exact ⟨h.withTable (h.found.remove hlt htaken hfree hmem).1 hlength, hlength⟩
  · rw [VisitedLinkMaster.deleteFingerprint, if_neg hvisited]
    exact ⟨h, rfl⟩

theorem Counted.deleteFingerprint (env : Environment) (h : m.Counted) (fp : UInt64) (updateFile : Bool) :
    (m.deleteFingerprint env fp updateFile).Counted ∧
      (m.deleteFingerprint env fp updateFile).tableLength = m.tableLength := by
  cases updateFile with
  | false => exact h.deleteFingerprint_false env fp
  | true =>
    obtain ⟨counted, hcounted, hwritten⟩ := deleteFingerprint_true env m fp
    obtain ⟨hdeleted, hlength⟩ := (h.written hcounted).deleteFingerprint_false env fp
    refine ⟨hdeleted.written hwritten, ?_⟩
    rw [tableLength, hwritten.hashTable_eq, ← tableLength, hlength, tableLength, hcounted.hashTable_eq]
    rfl

theorem Counted.deleteFingerprints (env : Environment) (h : m.Counted) (fps : List UInt64) (updateFile : Bool) :
    (fps.foldl (fun m fp => m.deleteFingerprint env fp updateFile) m).Counted ∧
      (fps.foldl (fun m fp => m.deleteFingerprint env fp updateFile) m).tableLength = m.tableLength := by
  induction fps generalizing m with
  | nil => exact ⟨h, rfl⟩
  | cons fp fps ih =>
    obtain ⟨hdeleted, hlength⟩ := h.deleteFingerprint env fp updateFile
    obtain ⟨hrest, hlength'⟩ := ih hdeleted
    exact ⟨hrest, hlength'.trans hlength⟩

theorem Counted.resizeTableIfNecessary (h : m.Counted)
    (hresize : m.resizeTableIfNecessary env = some (resized, m')) : m'.Counted := by
  rcases resizeTableIfNecessary_eq hresize with ⟨-, rfl⟩ | ⟨-, hresize⟩
  · exact h
  · obtain ⟨⟨created, new⟩, hcreate, rfl⟩ := map_eq_some_iff.1 hresize
    rcases createURLTable_eq hcreate with ⟨rfl, rfl⟩ | ⟨rfl, hsize, -, rfl⟩
    · exact h.congr rfl le_rfl
    · have hpos : 0 < (newTableSizeForCount m.usedItems).toNat := by
        have hne := newTableSizeForCount_ne_zero m.usedItems
        omega
      exact ((counted_replicate hpos rfl rfl).addFingerprints _).written (written_writeFullTable env _)

theorem Counted.deleteFingerprintsFromCurrentTable (h : m.Counted)
    (hdelete : m.deleteFingerprintsFromCurrentTable env fps = some m') : m'.Counted := by
  obtain ⟨⟨resized, new⟩, hresize, rfl⟩ := map_eq_some_iff.1 hdelete
  have hnew := (h.deleteFingerprints env fps.toList _).1.resizeTableIfNecessary hresize
  dsimp only
  split
  · exact hnew
  · split
    · exact hnew.written (written_writeFullTable env new)
    · exact hnew

/-! ## One step -/

/-- The file is open, and no rebuild is pending. -/
structure Ready (m : VisitedLinkMaster) : Prop where
  counted : m.Counted
  salt_length : m.salt.length = 8
  tableBuilder_eq : m.tableBuilder = false
  fileOpen_eq : m.fileOpen = true

/-- The file holds the table, and its offsets are no larger than an `int32`. -/
structure Saved (m : VisitedLinkMaster) : Prop where
  ready : m.Ready
  lengthFits : m.LengthFits
  fileMatches : m.FileMatches

theorem fileOpen_writeFullTable (h : m.fileOpen = true) : (m.writeFullTable env).2.fileOpen = true := by
  rw [writeFullTable, if_pos (by rw [h, Bool.true_or])]
  dsimp only
  rw [if_pos h]
  exact h

theorem fileOpen_writeUsedItemCountToFile : m.writeUsedItemCountToFile.fileOpen = m.fileOpen := by
  unfold writeUsedItemCountToFile
  split <;> rfl

theorem fileOpen_writeHashRangeToFile (first last : ℕ) :
    (m.writeHashRangeToFile env first last).fileOpen = m.fileOpen := by
  unfold writeHashRangeToFile
  split
  · split <;> rfl
  · rfl

theorem saved_of_written (hwritten : Written m m') (hcounted : m.Counted) (hfits : m.LengthFits)
    (hsalt : m.salt.length = 8) (hbuilder : m.tableBuilder = false) (hopen : m'.fileOpen = true)
    (hdisk : m'.disk.bytes = fileBytes m.tableLength m.usedItems m.salt m.hashTable) : m'.Saved := by
  obtain ⟨fileOpen, posted, rfl⟩ := hwritten
  exact ⟨⟨hcounted.congr rfl le_rfl, hsalt, hbuilder, hopen⟩, hfits, hdisk⟩

theorem saved_writeFullTable (hopen : (m.writeFullTable env).2.fileOpen = true) (hcounted : m.Counted)
    (hfits : m.LengthFits) (hsalt : m.salt.length = 8) (hbuilder : m.tableBuilder = false) :
    (m.writeFullTable env).2.Saved := by
  have hmatches := fileMatches_writeFullTable env hopen hfits hsalt
  have hwritten := written_writeFullTable env m
  refine saved_of_written hwritten hcounted hfits hsalt hbuilder hopen ?_
  obtain ⟨fileOpen, posted, heq⟩ := hwritten
  rw [heq] at hmatches ⊢
  exact hmatches

def CanCreate (env : Environment) (m : VisitedLinkMaster) (size : ℤ) : Prop :=
  env.allocates m.sharedMemorySerial ((size * 8 + 12) % 4294967296).toNat = true

instance (env : Environment) (m : VisitedLinkMaster) (size : ℤ) : Decidable (CanCreate env m size) :=
  inferInstanceAs (Decidable (_ = true))

/-- There is memory for the table that `ResizeTableIfNecessary` makes. -/
def CanResize (env : Environment) (m : VisitedLinkMaster) : Prop :=
  CanCreate env { m with sharedMemorySerial := m.sharedMemorySerial + 1 } (newTableSizeForCount m.usedItems)

instance (env : Environment) (m : VisitedLinkMaster) : Decidable (CanResize env m) :=
  inferInstanceAs (Decidable (CanCreate _ _ _))

theorem created_of_canCreate {created : Bool} (h : CanCreate env m size)
    (hcreate : m.createURLTable env size = some (created, m')) : created = true := by
  dsimp only [createURLTable] at hcreate
  unfold CanCreate at h
  rw [if_pos h] at hcreate
  split at hcreate
  · cases hcreate
    rfl
  · cases hcreate

/-- **A table that is resized is written as a whole**, whatever the file was. -/
theorem saved_resizeTable (h : m.Ready)
    (hcan : CanCreate env { m with sharedMemorySerial := m.sharedMemorySerial + 1 } size) (hne : size ≠ 0)
    (hresize : m.resizeTable env size = some m') (hfits : m'.LengthFits) : m'.Saved := by
  obtain ⟨⟨created, new⟩, hcreate, rfl⟩ := map_eq_some_iff.1 hresize
  obtain rfl := created_of_canCreate hcan hcreate
  rcases createURLTable_eq hcreate with ⟨hfalse, -⟩ | ⟨-, hsize, -, rfl⟩
  · cases hfalse
  · dsimp only at hfits ⊢
    rw [if_pos rfl] at hfits ⊢
    have hpos : 0 < size.toNat := by omega
    have hfps : ∀ fp ∈ m.hashTable.filter (· ≠ 0), fp ≠ 0 := fun fp hfp =>
      of_decide_eq_true (List.mem_filter.1 hfp).2
    have hcounted : Counted (addFingerprints
      { m with
        sharedMemorySerial := m.sharedMemorySerial + 1
        hashTable := List.replicate size.toNat 0
        usedItems := 0 } (m.hashTable.filter (· ≠ 0))) := (counted_replicate hpos rfl rfl).addFingerprints _
    rw [addFingerprints_eq _ hfps] at hcounted hfits ⊢
    have hwritten := written_writeFullTable env (withTable
      { m with
        sharedMemorySerial := m.sharedMemorySerial + 1
        hashTable := List.replicate size.toNat 0
        usedItems := 0 } (insertAll 0 home (List.replicate size.toNat 0) (m.hashTable.filter (· ≠ 0))))
    rw [LengthFits, tableLength, hwritten.hashTable_eq] at hfits
    exact saved_writeFullTable (fileOpen_writeFullTable h.fileOpen_eq) hcounted hfits h.salt_length
      h.tableBuilder_eq

theorem resizeTable_of_not_canCreate
    (hcannot : ¬ CanCreate env { m with sharedMemorySerial := m.sharedMemorySerial + 1 } size)
    (hresize : m.resizeTable env size = some m') :
    m' = { m with sharedMemorySerial := m.sharedMemorySerial + 1 } := by
  unfold CanCreate at hcannot
  dsimp only [resizeTable, createURLTable] at hresize
  rw [if_neg hcannot] at hresize
  cases hresize
  rfl

/-- Nothing but the serial number of the memory changes, or the table is resized. -/
theorem Saved.resizeTableIfNecessary (h : m.Saved)
    (hresize : m.resizeTableIfNecessary env = some (resized, m')) (hfits : m'.LengthFits) : m'.Saved := by
  rcases resizeTableIfNecessary_eq hresize with ⟨-, rfl⟩ | ⟨-, hresize⟩
  · exact h
  · by_cases hcan : CanResize env m
    · exact saved_resizeTable h.ready hcan (newTableSizeForCount_ne_zero _) hresize hfits
    · obtain rfl := resizeTable_of_not_canCreate hcan hresize
      exact ⟨⟨h.ready.counted.congr rfl le_rfl, h.ready.salt_length, h.ready.tableBuilder_eq,
        h.ready.fileOpen_eq⟩, h.lengthFits, h.fileMatches⟩

theorem disk_writeUsedItemCountToFile (hopen : m.fileOpen = true)
    (hdisk : m.disk.bytes = fileBytes n used salt t) :
    m.writeUsedItemCountToFile.disk.bytes = fileBytes n m.usedItems salt t := by
  have hlength : kFileHeaderUsedOffset + (int32Bytes m.usedItems).length < 2147483648 := by
    rw [length_int32Bytes]
    decide
  rw [writeUsedItemCountToFile, if_pos hopen, disk_writeToFile hlength, hdisk]
  exact writeAt_used m.usedItems

/-- **A range of slots is patched** where it does not go around the end of the table. -/
theorem disk_writeHashRangeToFile {first last : ℕ} (hopen : m.fileOpen = true) (hfits : m.LengthFits)
    (hdisk : m.disk.bytes = fileBytes n used salt t) (hsalt : salt.length = 8)
    (hlength : m.tableLength = t.length) (hle : first ≤ last) (hlast : last < t.length)
    (hout : ∀ i < t.length, i < first ∨ last < i → m.hashTable.getD i 0 = t.getD i 0) :
    (m.writeHashRangeToFile env first last).disk.bytes = fileBytes n used salt m.hashTable := by
  have hslots : m.slots env first (last - first + 1) = (m.hashTable.drop first).take (last - first + 1) := by
    have hin : first + (last - first + 1) ≤ m.hashTable.length := by
      change _ ≤ m.tableLength
      omega
    rw [slots, List.drop_append_of_le_length (by omega), List.take_append_of_le_length]
    rw [length_drop]
    omega
  have hbytes : first * 8 + kFileHeaderSize +
      (fingerprintBytes ((m.hashTable.drop first).take (last - first + 1))).length < 2147483648 := by
    have hheader : kFileHeaderSize = 24 := rfl
    unfold LengthFits at hfits
    rw [length_fingerprintBytes, length_take, hheader]
    omega
  unfold writeHashRangeToFile
  rw [if_pos hopen, if_neg (Nat.not_lt.2 hle), hslots, disk_writeToFile hbytes, hdisk]
  exact writeAt_slots hsalt hlength (by omega) fun i hi hi' => hout i hi (by omega)

theorem saved_writeCountAndRange (env : Environment) {first last : ℕ} (h : m.Ready) (hfits : m.LengthFits)
    (hdisk : m.disk.bytes = fileBytes m.tableLength used m.salt t) (hlength : m.tableLength = t.length)
    (hle : first ≤ last) (hlast : last < t.length)
    (hout : ∀ i < t.length, i < first ∨ last < i → m.hashTable.getD i 0 = t.getD i 0) :
    (m.writeUsedItemCountToFile.writeHashRangeToFile env first last).Saved := by
  have hcount := written_writeUsedItemCountToFile m
  have hrange := written_writeHashRangeToFile env m.writeUsedItemCountToFile first last
  have hopen' : m.writeUsedItemCountToFile.fileOpen = true :=
    fileOpen_writeUsedItemCountToFile.trans h.fileOpen_eq
  have hdisk' := disk_writeUsedItemCountToFile h.fileOpen_eq hdisk
  have ht := hcount.hashTable_eq
  refine saved_of_written (hcount.trans hrange) h.counted hfits h.salt_length h.tableBuilder_eq
    ((fileOpen_writeHashRangeToFile first last).trans hopen') ?_
  rw [← ht] at hout
  rw [← ht, disk_writeHashRangeToFile hopen' ?_ hdisk' h.salt_length ?_ hle hlast hout]
  · rw [LengthFits, tableLength, ht]
    exact hfits
  · rw [tableLength, ht]
    exact hlength

theorem addFingerprint_some {index : ℕ} (h : m.addFingerprint fp = (some index, m')) :
    fp ≠ 0 ∧ index < m.tableLength ∧
      m' = { m with hashTable := m.hashTable.set index fp, usedItems := m.usedItems + 1 } := by
  by_cases hzero : fp = 0
  · rw [hzero, addFingerprint_zero] at h
    cases h
  · rw [addFingerprint_eq m hzero] at h
    cases hprobe : probe 0 m.hashTable fp m.tableLength (home fp) with
    | free p =>
      rw [hprobe] at h
      cases h
      obtain ⟨d, hd, rfl, -, -⟩ := probe_free hprobe
      exact ⟨hzero, Nat.mod_lt _ (Nat.zero_lt_of_lt hd), rfl⟩
    | found p | full =>
      rw [hprobe] at h
      cases h

theorem addFingerprint_none (h : m.addFingerprint fp = (none, m')) : m' = m := by
  by_cases hzero : fp = 0
  · rw [hzero, addFingerprint_zero] at h
    cases h
    rfl
  · rw [addFingerprint_eq m hzero] at h
    cases hprobe : probe 0 m.hashTable fp m.tableLength (home fp) with
    | free p =>
      rw [hprobe] at h
      cases h
    | found p | full =>
      rw [hprobe] at h
      cases h
      rfl

theorem tryToAddURL_eq (env : Environment) (url : GURL) (h : m.tableBuilder = false) :
    m.tryToAddURL env url = (none, m) ∨
      m.tryToAddURL env url = m.addFingerprint (m.computeURLFingerprint env url) := by
  unfold tryToAddURL
  split
  · exact .inl rfl
  · split
    · exact .inl rfl
    · have hbuilder : ¬ m.tableBuilder = true := by
        rw [h]
        decide
      dsimp only
      simp only [if_neg hbuilder]
      split
      · exact .inl rfl
      · exact .inr rfl

theorem Saved.addURL {url : GURL} (h : m.Saved) (hadd : m.addURL env url = some m') (hfits : m'.LengthFits) :
    m'.Saved := by
  have hnone : m.tryToAddURL env url = (none, m) → m'.Saved := by
    intro hq
    rw [VisitedLinkMaster.addURL, hq] at hadd
    cases hadd
    exact h
  rcases tryToAddURL_eq env url h.ready.tableBuilder_eq with hadded | hadded
  · exact hnone hadded
  · have hcounted := h.ready.counted.addFingerprint (m.computeURLFingerprint env url)
    cases hindex : m.addFingerprint (m.computeURLFingerprint env url) with
    | mk index added =>
      rw [hindex] at hadded hcounted
      cases index with
      | none =>
        obtain rfl := addFingerprint_none hindex
        exact hnone hadded
      | some index =>
        obtain ⟨-, hlt, rfl⟩ := addFingerprint_some hindex
        have hlength : m.hashTable.length = (m.hashTable.set index (m.computeURLFingerprint env url)).length :=
          List.length_set.symm
        have hfits' : m.hashTable.length * 8 + 24 < 2147483648 := h.lengthFits
        rw [hlength] at hfits'
        have hout : ∀ i < m.hashTable.length, i < index ∨ index < i →
            (m.hashTable.set index (m.computeURLFingerprint env url)).getD i 0 = m.hashTable.getD i 0 := by
          intro i hi hne
          rw [List.getD_eq_getElem?_getD, List.getD_eq_getElem?_getD, List.getElem?_set_ne (by omega)]
        have hdisk : disk { m with
            hashTable := m.hashTable.set index (m.computeURLFingerprint env url)
            usedItems := m.usedItems + 1 } = m.disk := rfl
        have hbytes : (disk { m with
            hashTable := m.hashTable.set index (m.computeURLFingerprint env url)
            usedItems := m.usedItems + 1 }).bytes =
              fileBytes (m.hashTable.set index (m.computeURLFingerprint env url)).length m.usedItems m.salt
                m.hashTable := by
          rw [hdisk, ← hlength]
          exact h.fileMatches
        have hpatched := saved_writeCountAndRange env
          ⟨hcounted, h.ready.salt_length, h.ready.tableBuilder_eq, h.ready.fileOpen_eq⟩ hfits' hbytes
          hlength.symm le_rfl hlt hout
        rw [VisitedLinkMaster.addURL, hadded] at hadd
        dsimp only at hadd
        rw [if_neg (by rw [h.ready.tableBuilder_eq]; decide)] at hadd
        obtain ⟨⟨resized, new⟩, hresize, rfl⟩ := map_eq_some_iff.1 hadd
        exact hpatched.resizeTableIfNecessary hresize hfits

theorem Ready.resizeTableIfNecessary (h : m.Ready)
    (hresize : m.resizeTableIfNecessary env = some (resized, m')) : m'.Ready := by
  have hcounted := h.counted.resizeTableIfNecessary hresize
  have hopen : m'.fileOpen = true := by
    rcases resizeTableIfNecessary_eq hresize with ⟨-, rfl⟩ | ⟨-, hresize⟩
    · exact h.fileOpen_eq
    · obtain ⟨⟨created, new⟩, hcreate, rfl⟩ := map_eq_some_iff.1 hresize
      rcases createURLTable_eq hcreate with ⟨rfl, rfl⟩ | ⟨rfl, -, -, rfl⟩
      · exact h.fileOpen_eq
      · refine fileOpen_writeFullTable ?_
        rw [addFingerprints_eq _ fun fp hfp => of_decide_eq_true (List.mem_filter.1 hfp).2]
        exact h.fileOpen_eq
  obtain ⟨_, _, _, _, _, rfl⟩ := touched_resizeTableIfNecessary hresize
  exact ⟨hcounted, h.salt_length, h.tableBuilder_eq, hopen⟩

theorem Ready.addFingerprint (h : m.Ready) (fp : UInt64) : (m.addFingerprint fp).2.Ready := by
  have hcounted := h.counted.addFingerprint fp
  by_cases hzero : fp = 0
  · rw [hzero, addFingerprint_zero]
    exact h
  · rw [addFingerprint_snd m hzero] at hcounted ⊢
    exact ⟨hcounted, h.salt_length, h.tableBuilder_eq, h.fileOpen_eq⟩

theorem Ready.tryToAddURL (h : m.Ready) (env : Environment) (url : GURL) : (m.tryToAddURL env url).2.Ready := by
  rcases tryToAddURL_eq env url h.tableBuilder_eq with hadded | hadded
  · rw [hadded]
    exact h
  · rw [hadded]
    exact h.addFingerprint _

theorem Ready.addURLsLoop (h : m.Ready) (hadd : m.addURLsLoop env urls = some m') : m'.Ready := by
  induction urls generalizing m with
  | nil =>
    cases hadd
    exact h
  | cons url urls ih =>
    have hready := h.tryToAddURL env url
    unfold VisitedLinkMaster.addURLsLoop at hadd
    cases hadded : m.tryToAddURL env url with
    | mk index added =>
      rw [hadded] at hadd hready
      cases index with
      | none => exact ih hready hadd
      | some index =>
        dsimp only at hadd
        rw [if_neg (by rw [hready.tableBuilder_eq]; decide)] at hadd
        obtain ⟨⟨resized, new⟩, hresize, hadd⟩ := bind_eq_some_iff.1 hadd
        exact ih (hready.resizeTableIfNecessary hresize) hadd

theorem Saved.addURLs (h : m.Saved) (hadd : m.addURLs env urls = some m')
    (hfits : m'.LengthFits) : m'.Saved := by
  obtain ⟨new, hloop, rfl⟩ := map_eq_some_iff.1 hadd
  have hready := h.ready.addURLsLoop hloop
  rw [if_neg (by rw [hready.tableBuilder_eq]; decide)] at hfits ⊢
  rw [LengthFits, tableLength, (written_writeFullTable env new).hashTable_eq] at hfits
  exact saved_writeFullTable (fileOpen_writeFullTable hready.fileOpen_eq) hready.counted hfits
    hready.salt_length hready.tableBuilder_eq

/-! ## Deleting -/

theorem touched_deleteFingerprintsFromCurrentTable
    (h : m.deleteFingerprintsFromCurrentTable env fps = some m') : Touched m m' := by
  obtain ⟨⟨resized, new⟩, hresize, rfl⟩ := map_eq_some_iff.1 h
  have hall : ∀ (updateFile : Bool) (fps : List UInt64) (m : VisitedLinkMaster),
      Touched m (fps.foldl (fun m fp => m.deleteFingerprint env fp updateFile) m) := by
    intro updateFile fps
    induction fps with
    | nil => exact Touched.refl
    | cons fp fps ih => exact fun m => (touched_deleteFingerprint env m fp updateFile).trans (ih _)
  refine (hall _ _ m).trans ((touched_resizeTableIfNecessary hresize).trans ?_)
  dsimp only
  split
  · exact Touched.refl new
  · split
    · exact (written_writeFullTable env new).touched
    · exact Touched.refl new

/-- There is a free slot between the home of a fingerprint and the end of the table, or the first slot is free
or is its home: the run behind the home does not go around the end. -/
def Inside (m : VisitedLinkMaster) (fp : UInt64) : Prop :=
  hashFingerprint fp m.tableLength = 0 ∨ m.hashTable.getD 0 0 = 0 ∨
    ∃ i < m.tableLength, hashFingerprint fp m.tableLength < i ∧ m.hashTable.getD i 0 = 0

instance (m : VisitedLinkMaster) : DecidablePred m.Inside := fun _ =>
  inferInstanceAs (Decidable (_ ∨ _ ∨ _))

theorem home_add_lt {r : ℕ} (hfree : m.Inside fp) (hr : r < m.tableLength)
    (htaken : ∀ d < r + 1, slotAt 0 m.hashTable (home fp + d) ≠ 0) :
    home fp % m.tableLength + r < m.tableLength := by
  have hn : 0 < m.tableLength := by omega
  have hhome := Nat.mod_lt (home fp) hn
  by_contra hge
  have hslot : ∀ i < m.tableLength, home fp % m.tableLength ≤ i ∨
      i + m.tableLength ≤ home fp % m.tableLength + r → m.hashTable.getD i 0 ≠ 0 := by
    intro i hi hrange
    obtain ⟨d, hd, hsum⟩ : ∃ d < r + 1, home fp % m.tableLength + d = i ∨
        home fp % m.tableLength + d = i + m.tableLength := by
      rcases hrange with hbehind | haround
      · exact ⟨i - home fp % m.tableLength, by omega, .inl (by omega)⟩
      · exact ⟨i + m.tableLength - home fp % m.tableLength, by omega, .inr (by omega)⟩
    have hmod : (home fp + d) % m.tableLength = i := by
      rw [← Nat.mod_add_mod]
      rcases hsum with hsum | hsum
      · rw [hsum, Nat.mod_eq_of_lt hi]
      · rw [hsum, Nat.add_mod_right, Nat.mod_eq_of_lt hi]
    have hne := htaken d hd
    rw [slotAt] at hne
    rwa [← hmod]
  rcases hfree with hzero | hfirst | ⟨i, hi, hlt, hempty⟩
  · change home fp % m.tableLength = 0 at hzero
    omega
  · exact hslot 0 hn (by omega) hfirst
  · exact hslot i hi (.inl (Nat.le_of_lt hlt)) hempty

theorem deleteFingerprint_false_slots (env : Environment) (h : Found m.hashTable)
    (hvisited : isVisited m.hashTable fp = true) :
    ∃ r < m.tableLength, endRangeLoop m.hashTable (hashFingerprint fp m.tableLength) m.tableLength
        (hashFingerprint fp m.tableLength) = (home fp + r) % m.tableLength ∧
      (∀ d < r + 1, slotAt 0 m.hashTable (home fp + d) ≠ 0) ∧
      ∃ t, m.deleteFingerprint env fp false = { m with hashTable := t, usedItems := m.usedItems - 1 } ∧
        t.length = m.tableLength ∧
        ∀ i, ¬ InRun m.hashTable (home fp) (r + 1) i → slotAt 0 t i = slotAt 0 m.hashTable i := by
  obtain ⟨hfp, hne⟩ := (isVisited_iff h).1 hvisited
  obtain ⟨r, hr, hend, htaken, ⟨-, heq⟩ | ⟨hlt, hfree, hmem, heq⟩⟩ :=
    VisitedLinkMaster.deleteFingerprint_false env h hfp hne
  · exact ⟨r, hr, hend, htaken, m.hashTable, heq, rfl, fun _ _ => rfl⟩
  · refine ⟨r, hr, hend, htaken, _, ?_, ?_, fun i hi =>
      h.slotAt_remove (k := fp) hlt htaken hfree hi⟩
    · have hone := h.taken_remove hlt htaken hfree hmem
      rw [heq, withTable]
      congr 1
      omega
    · rw [length_insertAll, length_clearRun]
      rfl

theorem deleteFingerprint_true_eq (env : Environment) (hvisited : isVisited m.hashTable fp = true) :
    ∃ fileOpen posted, writeUsedItemCountToFile { m with usedItems := m.usedItems - 1 } =
        { m with usedItems := m.usedItems - 1, fileOpen := fileOpen, posted := posted } ∧
      m.deleteFingerprint env fp true =
        (VisitedLinkMaster.deleteFingerprint env { m with fileOpen := fileOpen, posted := posted } fp
            false).writeHashRangeToFile env (hashFingerprint fp m.tableLength)
          (endRangeLoop m.hashTable (hashFingerprint fp m.tableLength) m.tableLength
            (hashFingerprint fp m.tableLength)) := by
  obtain ⟨fileOpen, posted, hwrite⟩ := written_writeUsedItemCountToFile { m with usedItems := m.usedItems - 1 }
  refine ⟨fileOpen, posted, hwrite, ?_⟩
  rw [VisitedLinkMaster.deleteFingerprint, VisitedLinkMaster.deleteFingerprint, if_pos hvisited, if_pos hvisited]
  dsimp only
  simp only [↓reduceIte, Bool.false_eq_true, hwrite]
  rfl

theorem fileOpen_deleteFingerprint (env : Environment) (h : Found m.hashTable) (fp : UInt64) (updateFile : Bool) :
    (m.deleteFingerprint env fp updateFile).fileOpen = m.fileOpen := by
  by_cases hvisited : isVisited m.hashTable fp = true
  · cases updateFile with
    | false =>
      obtain ⟨-, -, -, -, t, hdeleted, -⟩ := deleteFingerprint_false_slots env h hvisited
      rw [hdeleted]
    | true =>
      obtain ⟨fileOpen, posted, hwrite, heq⟩ := deleteFingerprint_true_eq env hvisited
      obtain ⟨-, -, -, -, t, hdeleted, -⟩ := deleteFingerprint_false_slots env
        (m := { m with fileOpen := fileOpen, posted := posted }) h hvisited
      have hopen := fileOpen_writeUsedItemCountToFile (m := { m with usedItems := m.usedItems - 1 })
      rw [hwrite] at hopen
      rw [heq, hdeleted, fileOpen_writeHashRangeToFile]
      exact hopen
  · rw [VisitedLinkMaster.deleteFingerprint, if_neg hvisited]

/-- **A fingerprint is deleted** whose run does not go around the end of the table. -/
theorem Saved.deleteFingerprint (env : Environment) (h : m.Saved) (fp : UInt64)
    (hinside : isVisited m.hashTable fp = true → m.Inside fp) : (m.deleteFingerprint env fp true).Saved := by
  by_cases hvisited : isVisited m.hashTable fp = true
  · have hcount := disk_writeUsedItemCountToFile (m := { m with usedItems := m.usedItems - 1 })
      h.ready.fileOpen_eq h.fileMatches
    have hopen := (fileOpen_writeUsedItemCountToFile (m := { m with usedItems := m.usedItems - 1 })).trans
      h.ready.fileOpen_eq
    obtain ⟨fileOpen, posted, hwrite, heq⟩ := deleteFingerprint_true_eq env hvisited
    rw [hwrite] at hcount hopen
    generalize hcounted : ({ m with fileOpen := fileOpen, posted := posted } : VisitedLinkMaster) = counted at heq
    have ht : counted.hashTable = m.hashTable := by rw [← hcounted]
    have hready : counted.Ready := by
      rw [← hcounted]
      exact ⟨h.ready.counted.congr rfl le_rfl, h.ready.salt_length, h.ready.tableBuilder_eq, hopen⟩
    have hlengths : counted.tableLength = m.tableLength := congrArg List.length ht
    have hdisk : counted.disk.bytes =
        fileBytes m.tableLength (counted.usedItems - 1) counted.salt counted.hashTable := by
      rw [← hcounted]
      exact hcount
    have hfits : counted.LengthFits := by
      rw [LengthFits, hlengths]
      exact h.lengthFits
    have hinside' : counted.Inside fp := by
      rw [← hcounted]
      exact hinside hvisited
    obtain ⟨r, hr, hend, htaken, t, hdeleted, hlength, hout⟩ :=
      deleteFingerprint_false_slots env hready.counted.found (ht ▸ hvisited)
    have hlt := home_add_lt hinside' hr htaken
    have hlast : (home fp + r) % counted.tableLength = home fp % counted.tableLength + r := by
      rw [← Nat.mod_add_mod, Nat.mod_eq_of_lt hlt]
    have hclean := (hready.counted.deleteFingerprint_false env fp).1
    rw [heq, ← ht, ← hlengths, hend, hlast]
    rw [hdeleted] at hclean ⊢
    have hfits' : LengthFits { counted with hashTable := t, usedItems := counted.usedItems - 1 } := by
      unfold LengthFits tableLength
      rw [hlength]
      exact hfits
    refine saved_of_written (written_writeHashRangeToFile env _ _ _) hclean hfits' hready.salt_length
      hready.tableBuilder_eq ((fileOpen_writeHashRangeToFile _ _).trans hready.fileOpen_eq) ?_
    refine (disk_writeHashRangeToFile
      (m := { counted with hashTable := t, usedItems := counted.usedItems - 1 }) hready.fileOpen_eq hfits' hdisk
      hready.salt_length hlength (Nat.le_add_right _ _) hlt fun i hi hrange => ?_).trans ?_
    · have hnot : ¬ InRun counted.hashTable (home fp) (r + 1) i := by
        rintro ⟨d, hd, hmod⟩
        change (home fp + d) % counted.tableLength = i % counted.tableLength at hmod
        rw [← Nat.mod_add_mod, Nat.mod_eq_of_lt (show i < counted.tableLength from hi),
          Nat.mod_eq_of_lt (by omega)] at hmod
        omega
      have hsame := hout i hnot
      have hi' : i < t.length := by
        rw [hlength]
        exact hi
      rwa [slotAt, slotAt, Nat.mod_eq_of_lt hi, Nat.mod_eq_of_lt hi'] at hsame
    · rw [← hlengths, ← hlength]
      rfl
  · rw [VisitedLinkMaster.deleteFingerprint, if_neg hvisited]
    exact h

/-- The fingerprints are deleted one by one, and for each the table is as it should be when its turn comes. -/
def AllInside (env : Environment) : VisitedLinkMaster → List UInt64 → Prop
  | _, [] => True
  | m, fp :: fps =>
    (isVisited m.hashTable fp = true → m.Inside fp) ∧ AllInside env (m.deleteFingerprint env fp true) fps

instance decidableAllInside (env : Environment) :
    ∀ (m : VisitedLinkMaster) (fps : List UInt64), Decidable (AllInside env m fps)
  | _, [] => isTrue trivial
  | m, fp :: fps =>
    have := decidableAllInside env (m.deleteFingerprint env fp true) fps
    inferInstanceAs (Decidable (_ ∧ _))

theorem Saved.deleteFingerprints {fps : List UInt64} (h : m.Saved) (hinside : AllInside env m fps) :
    (fps.foldl (fun m fp => m.deleteFingerprint env fp true) m).Saved := by
  induction fps generalizing m with
  | nil => exact h
  | cons fp fps ih => exact ih (h.deleteFingerprint env fp hinside.1) hinside.2

theorem Ready.deleteFingerprints (env : Environment) (h : m.Ready) (fps : List UInt64) (updateFile : Bool) :
    (fps.foldl (fun m fp => m.deleteFingerprint env fp updateFile) m).Ready := by
  induction fps generalizing m with
  | nil => exact h
  | cons fp fps ih =>
    refine ih ?_
    have hcounted := (h.counted.deleteFingerprint env fp updateFile).1
    have hopen := (fileOpen_deleteFingerprint env h.counted.found fp updateFile).trans h.fileOpen_eq
    obtain ⟨_, _, _, _, _, heq⟩ := touched_deleteFingerprint env m fp updateFile
    change (m.deleteFingerprint env fp updateFile).Ready
    rw [heq] at hcounted hopen ⊢
    exact ⟨hcounted, h.salt_length, h.tableBuilder_eq, hopen⟩

def afterDeleting (env : Environment) (m : VisitedLinkMaster) (fps : Std.ExtTreeSet UInt64) : VisitedLinkMaster :=
  fps.toList.foldl (fun m fp => m.deleteFingerprint env fp !decide (kBigDeleteThreshold < fps.size)) m

/-- The run of no fingerprint goes around the end of the table, or the table is written as a whole. -/
def DeletesCleanly (env : Environment) (m : VisitedLinkMaster) (fps : Std.ExtTreeSet UInt64) : Prop :=
  if kBigDeleteThreshold < fps.size then
    (m.afterDeleting env fps).keepsSize = true ∨ CanResize env (m.afterDeleting env fps)
  else
    AllInside env m fps.toList ∨ (m.afterDeleting env fps).keepsSize = false ∧ CanResize env (m.afterDeleting env fps)

instance (env : Environment) (m : VisitedLinkMaster) (fps : Std.ExtTreeSet UInt64) :
    Decidable (DeletesCleanly env m fps) :=
  inferInstanceAs (Decidable (if kBigDeleteThreshold < fps.size then
    (m.afterDeleting env fps).keepsSize = true ∨ CanResize env (m.afterDeleting env fps)
  else
    AllInside env m fps.toList ∨ (m.afterDeleting env fps).keepsSize = false ∧ CanResize env (m.afterDeleting env fps)))

theorem Saved.deleteFingerprintsFromCurrentTable (h : m.Saved)
    (hclean : DeletesCleanly env m fps) (hdelete : m.deleteFingerprintsFromCurrentTable env fps = some m')
    (hfits : m'.LengthFits) : m'.Saved := by
  obtain ⟨⟨resized, new⟩, hresize, heq⟩ := map_eq_some_iff.1 hdelete
  change (m.afterDeleting env fps).resizeTableIfNecessary env = some (resized, new) at hresize
  dsimp only at heq
  have hready : (m.afterDeleting env fps).Ready := h.ready.deleteFingerprints env _ _
  have hresized : (m.afterDeleting env fps).keepsSize = false → CanResize env (m.afterDeleting env fps) →
      m'.Saved := by
    intro hkeeps hcan
    rw [VisitedLinkMaster.resizeTableIfNecessary, if_neg (by rw [hkeeps]; decide)] at hresize
    obtain ⟨new', hnew, hpair⟩ := map_eq_some_iff.1 hresize
    cases hpair
    rw [if_pos rfl] at heq
    subst heq
    exact saved_resizeTable hready hcan (newTableSizeForCount_ne_zero _) hnew hfits
  unfold DeletesCleanly at hclean
  by_cases hbulk : kBigDeleteThreshold < fps.size
  · rw [if_pos hbulk] at hclean
    cases hkeeps : (m.afterDeleting env fps).keepsSize with
    | true =>
      rw [VisitedLinkMaster.resizeTableIfNecessary, if_pos hkeeps] at hresize
      cases hresize
      rw [if_neg (by decide), if_pos (decide_eq_true hbulk)] at heq
      subst heq
      rw [LengthFits, tableLength, (written_writeFullTable env _).hashTable_eq] at hfits
      exact saved_writeFullTable (fileOpen_writeFullTable hready.fileOpen_eq) hready.counted hfits
        hready.salt_length hready.tableBuilder_eq
    | false => exact hresized hkeeps (hclean.resolve_left (by rw [hkeeps]; decide))
  · rw [if_neg hbulk] at hclean
    rcases hclean with hinside | ⟨hkeeps, hcan⟩
    · have hdeleted : (m.afterDeleting env fps).Saved := by
        have hpatched := h.deleteFingerprints hinside
        unfold afterDeleting
        rwa [decide_eq_false hbulk]
      rw [decide_eq_false hbulk, if_neg Bool.false_ne_true, ite_self] at heq
      subst heq
      exact hdeleted.resizeTableIfNecessary hresize hfits
    · exact hresized hkeeps hcan

theorem Saved.deleteURLs (h : m.Saved) (hclean : DeletesCleanly env m (m.fingerprintsOf env urls))
    (hdelete : m.deleteURLs env urls = some m') (hfits : m'.LengthFits) : m'.Saved := by
  unfold VisitedLinkMaster.deleteURLs at hdelete
  split at hdelete
  · cases hdelete
    exact h
  · rw [if_neg (by rw [h.ready.tableBuilder_eq]; decide)] at hdelete
    exact h.deleteFingerprintsFromCurrentTable hclean hdelete hfits

/-! ## Reading the file -/

theorem headerField_fileBytes (hlength : (n : ℤ) < 2147483648) (h0 : -2147483648 ≤ used) (h1 : used < 2147483648)
    (hsalt : salt.length = 8) :
    headerField ((fileBytes n used salt t).take kFileHeaderSize) 0 = kFileSignature ∧
      headerField ((fileBytes n used salt t).take kFileHeaderSize) 4 = kFileCurrentVersion ∧
      headerField ((fileBytes n used salt t).take kFileHeaderSize) 8 = n ∧
      headerField ((fileBytes n used salt t).take kFileHeaderSize) kFileHeaderUsedOffset = used ∧
      (((fileBytes n used salt t).take kFileHeaderSize).drop kFileHeaderSaltOffset).take linkSaltLength = salt := by
  have hint : ∀ x : ℤ, -2147483648 ≤ x → x < 2147483648 →
      int32OfUInt32 (UInt32.ofNat (leNat (int32Bytes x))) = x := by
    intro x hx0 hx1
    rw [int32Bytes, leNat_toLe (by exact (uint32OfInt x).toNat_lt), UInt32.ofNat_toNat,
      int32OfUInt32_uint32OfInt, toInt32_of_mem hx0 hx1]
  have hheader : (fileBytes n used salt t).take kFileHeaderSize =
      int32Bytes kFileSignature ++ (int32Bytes kFileCurrentVersion ++ (int32Bytes n ++ (int32Bytes used ++ salt))) := by
    have hassoc : fileBytes n used salt t =
        (int32Bytes kFileSignature ++ (int32Bytes kFileCurrentVersion ++ (int32Bytes n ++ (int32Bytes used ++ salt)))) ++
          fingerprintBytes t := by
      simp only [fileBytes, append_assoc]
    rw [hassoc, take_left']
    simp only [length_append, length_int32Bytes, hsalt]
    rfl
  have hfield : ∀ (x : ℤ) (front rest : List UInt8) (offset : ℕ), -2147483648 ≤ x → x < 2147483648 →
      front.length = offset →
      int32Bytes kFileSignature ++ (int32Bytes kFileCurrentVersion ++ (int32Bytes n ++ (int32Bytes used ++ salt))) =
        front ++ (int32Bytes x ++ rest) →
      headerField ((fileBytes n used salt t).take kFileHeaderSize) offset = x := by
    intro x front rest offset hx0 hx1 hoffset heq
    rw [headerField, hheader, heq, drop_left' hoffset, take_left' (length_int32Bytes x), hint x hx0 hx1]
  refine ⟨hfield _ [] _ 0 (by decide) (by decide) rfl rfl,
    hfield _ (int32Bytes kFileSignature) _ 4 (by decide) (by decide) (length_int32Bytes _) rfl,
    hfield _ (int32Bytes kFileSignature ++ int32Bytes kFileCurrentVersion) (int32Bytes used ++ salt) 8 (by omega)
      hlength ?_ ?_,
    hfield _ (int32Bytes kFileSignature ++ int32Bytes kFileCurrentVersion ++ int32Bytes n) salt
      kFileHeaderUsedOffset h0 h1 ?_ ?_, ?_⟩
  · rw [length_append, length_int32Bytes, length_int32Bytes]
  · rw [append_assoc]
  · rw [length_append, length_append, length_int32Bytes, length_int32Bytes, length_int32Bytes]
    rfl
  · rw [append_assoc, append_assoc]
  · have hlast : int32Bytes kFileSignature ++ (int32Bytes kFileCurrentVersion ++
        (int32Bytes n ++ (int32Bytes used ++ salt))) =
          (int32Bytes kFileSignature ++ int32Bytes kFileCurrentVersion ++ int32Bytes n ++ int32Bytes used) ++ salt := by
      simp only [append_assoc]
    have hfront : (int32Bytes kFileSignature ++ int32Bytes kFileCurrentVersion ++ int32Bytes n ++
        int32Bytes used).length = kFileHeaderSaltOffset := by
      simp only [length_append, length_int32Bytes]
      rfl
    rw [hheader, hlast, drop_left' hfront]
    exact List.take_of_length_le hsalt.le

theorem readFileHeader_fileBytes (hpos : 0 < t.length) (hfits : t.length * 8 + 24 < 2147483648)
    (h0 : -2147483648 ≤ used) (hle : used ≤ t.length) (hsalt : salt.length = 8) :
    readFileHeader (fileBytes t.length used salt t) =
      some { numEntries := t.length, usedCount := used, salt := salt } := by
  obtain ⟨hsignature, hversion, hentries, hcount, hkey⟩ :=
    headerField_fileBytes (t := t) (n := t.length) (by omega) h0 (by omega) hsalt
  have hlength : (fileBytes t.length used salt t).length = t.length * 8 + 24 := length_fileBytes hsalt
  have hheaderSize : kFileHeaderSize = 24 := rfl
  dsimp only [readFileHeader]
  rw [if_neg (by omega), hsignature, hversion, hentries, hcount, hkey, if_neg (not_not_intro rfl),
    if_neg (not_not_intro rfl), if_neg, if_neg (Int.not_lt.2 hle)]
  rw [not_not, hlength]
  omega

theorem initFromFile_fileBytes (hpos : 0 < t.length) (hfits : t.length * 8 + 24 < 2147483648)
    (h0 : -2147483648 ≤ used) (hle : used ≤ t.length) (hsalt : salt.length = 8)
    (hmem : env.allocates 0 (t.length * 8 + 12) = true) :
    initFromFile env (fileBytes t.length used salt t) =
      some { initMembers (fileBytes t.length used salt t) with
        salt := salt
        hashTable := t
        usedItems := used
        fileOpen := true } := by
  have hheader := readFileHeader_fileBytes hpos hfits h0 hle hsalt
  have hdata : ((fileBytes t.length used salt t).drop kFileHeaderSize).take (t.length * 8) = fingerprintBytes t := by
    have hfront : (int32Bytes kFileSignature ++ int32Bytes kFileCurrentVersion ++ int32Bytes t.length ++
        int32Bytes used ++ salt).length = kFileHeaderSize := by
      simp only [length_append, length_int32Bytes, hsalt]
      rfl
    rw [fileBytes, drop_left' hfront]
    exact List.take_of_length_le (length_fingerprintBytes t).le
  have hsize : (((t.length : ℤ) * 8 + 12) % 4294967296).toNat = t.length * 8 + 12 := by omega
  have hcreate : createURLTable env { initMembers (fileBytes t.length used salt t) with salt := salt } t.length =
      some (true, { initMembers (fileBytes t.length used salt t) with
        salt := salt
        hashTable := List.replicate t.length 0
        usedItems := 0 }) := by
    dsimp only [createURLTable]
    have hserial : (initMembers (fileBytes t.length used salt t)).sharedMemorySerial = 0 := rfl
    rw [hsize, hserial, if_pos hmem, if_pos ⟨Int.natCast_nonneg _, by omega⟩, Int.toNat_natCast]
  rw [initFromFile, hheader, bind_some]
  dsimp only
  rw [hcreate, bind_some]
  dsimp only
  rw [if_pos rfl, Int.toNat_natCast, hdata, if_pos (length_fingerprintBytes t), readArray_fingerprintBytes]

/-! ## Runs -/

/-- The offsets in the file and the count are no larger than an `int32`. -/
def Fits (m : VisitedLinkMaster) : Prop := m.LengthFits ∧ -2147483648 ≤ m.usedItems

instance : DecidablePred Fits := fun m =>
  inferInstanceAs (Decidable (m.tableLength * 8 + 24 < 2147483648 ∧ -2147483648 ≤ m.usedItems))

/-- A master with its file after any operations while no rebuild is pending: it was made from scratch, from a
file or by a rebuild, and what is deleted is deleted cleanly. -/
inductive FileRun (env : Environment) : VisitedLinkMaster → Prop
  | initFromScratch {bytes salt : List UInt8} {tableSize : ℕ} {m : VisitedLinkMaster} :
      0 < tableSize → salt.length = linkSaltLength →
        VisitedLinkMaster.initFromScratch env bytes salt tableSize true = some m → m.Fits → FileRun env m
  | onTableRebuildComplete {m m' : VisitedLinkMaster} {fingerprints : List UInt64} :
      m.salt.length = linkSaltLength →
        CanCreate env { m with sharedMemorySerial := m.sharedMemorySerial + 1 }
          (newTableSizeForCount (toInt32 ((fingerprints.length + m.addedSinceRebuild.size : ℕ) : ℤ))) →
        m.onTableRebuildComplete env true fingerprints = some m' → m'.fileOpen = true → m'.Fits → FileRun env m'
  | initFromFile {m m' : VisitedLinkMaster} :
      FileRun env m → VisitedLinkMaster.initFromFile env m.disk.bytes = some m' → FileRun env m'
  | addURL {m m' : VisitedLinkMaster} {url : GURL} :
      FileRun env m → m.addURL env url = some m' → m'.Fits → FileRun env m'
  | addURLs {m m' : VisitedLinkMaster} {urls : List GURL} :
      FileRun env m → m.addURLs env urls = some m' → m'.Fits → FileRun env m'
  | deleteURLs {m m' : VisitedLinkMaster} {urls : List GURL} :
      FileRun env m → DeletesCleanly env m (m.fingerprintsOf env urls) → m.deleteURLs env urls = some m' →
        m'.Fits → FileRun env m'

theorem saved_initFromScratch {tableSize : ℕ} (hpos : 0 < tableSize) (hsalt : salt.length = linkSaltLength)
    (h : VisitedLinkMaster.initFromScratch env bytes salt tableSize true = some m) (hfits : m.LengthFits) :
    m.Saved := by
  obtain ⟨⟨created, new⟩, hcreate, h⟩ := bind_eq_some_iff.1 h
  rcases createURLTable_eq hcreate with ⟨rfl, -⟩ | ⟨rfl, -, -, rfl⟩
  · cases h
  · dsimp only at h
    rw [if_pos rfl, if_pos rfl] at h
    split at h
    · rename_i hwritten
      cases h
      have hopen : ∀ q : VisitedLinkMaster, (q.writeFullTable env).1 = true →
          (q.writeFullTable env).2.fileOpen = true := by
        intro q hq
        unfold writeFullTable at hq ⊢
        split at hq
        · rename_i hcan
          rw [if_pos hcan]
          dsimp only
          split
          · assumption
          · rfl
        · cases hq
      rw [LengthFits, tableLength, (written_writeFullTable env _).hashTable_eq] at hfits
      exact saved_writeFullTable (hopen _ hwritten) (counted_replicate (n := tableSize) hpos rfl rfl) hfits hsalt rfl
    · cases h

theorem saved_onTableRebuildComplete {fps : List UInt64} (hsalt : m.salt.length = linkSaltLength)
    (hcan : CanCreate env { m with sharedMemorySerial := m.sharedMemorySerial + 1 }
      (newTableSizeForCount (toInt32 ((fps.length + m.addedSinceRebuild.size : ℕ) : ℤ))))
    (h : m.onTableRebuildComplete env true fps = some m') (hopen : m'.fileOpen = true) (hfits : m'.LengthFits) :
    m'.Saved := by
  rw [VisitedLinkMaster.onTableRebuildComplete, if_pos rfl] at h
  obtain ⟨⟨created, new⟩, hcreate, h⟩ := bind_eq_some_iff.1 h
  obtain rfl := created_of_canCreate hcan hcreate
  dsimp only at h
  rw [if_pos rfl] at h
  rcases createURLTable_eq hcreate with ⟨hfalse, -⟩ | ⟨-, hsize, -, rfl⟩
  · cases hfalse
  · have hne := newTableSizeForCount_ne_zero (toInt32 ((fps.length + m.addedSinceRebuild.size : ℕ) : ℤ))
    generalize newTableSizeForCount (toInt32 ((fps.length + m.addedSinceRebuild.size : ℕ) : ℤ)) = size at *
    obtain ⟨deleted, hdelete, rfl⟩ := map_eq_some_iff.1 h
    have hfresh : Counted { m with
        sharedMemorySerial := m.sharedMemorySerial + 1
        hashTable := List.replicate size.toNat 0
        usedItems := 0 } := counted_replicate (n := size.toNat) (by omega) rfl rfl
    generalize hnew : ({ m with
      sharedMemorySerial := m.sharedMemorySerial + 1
      hashTable := List.replicate size.toNat 0
      usedItems := 0 } : VisitedLinkMaster) = fresh at hdelete hfresh
    have hadded := (hfresh.addFingerprints fps).addFingerprints
      (fresh.addFingerprints fps).addedSinceRebuild.toList
    have htouched := (touched_addFingerprints fresh fps).trans (touched_addFingerprints (fresh.addFingerprints fps)
      (fresh.addFingerprints fps).addedSinceRebuild.toList)
    generalize (fresh.addFingerprints fps).addFingerprints
      (fresh.addFingerprints fps).addedSinceRebuild.toList = added at hdelete hadded htouched
    have hsalt' : added.salt.length = 8 := by
      obtain ⟨_, _, _, _, _, rfl⟩ := htouched
      rw [← hnew]
      exact hsalt
    have hcleared : ({ added with addedSinceRebuild := ∅ } : VisitedLinkMaster).Counted := hadded.congr rfl le_rfl
    have hdeleted := hcleared.deleteFingerprintsFromCurrentTable hdelete
    have hsalt'' : deleted.salt.length = 8 := by
      obtain ⟨_, _, _, _, _, rfl⟩ := touched_deleteFingerprintsFromCurrentTable hdelete
      exact hsalt'
    have hwritten := written_writeFullTable env { deleted with deletedSinceRebuild := ∅ }
    have hmatches := fileMatches_writeFullTable env (m := { deleted with deletedSinceRebuild := ∅ }) hopen
    obtain ⟨fileOpen, posted, heq⟩ := hwritten
    rw [heq] at hmatches hfits hopen ⊢
    have hfits' : LengthFits { deleted with deletedSinceRebuild := ∅ } := hfits
    exact ⟨⟨hdeleted.congr rfl le_rfl, hsalt'', rfl, hopen⟩, hfits', hmatches hfits' hsalt''⟩

theorem saved_initFromFile (h : m.Saved) (hused : -2147483648 ≤ m.usedItems)
    (hinit : VisitedLinkMaster.initFromFile env m.disk.bytes = some m') :
    m'.Saved ∧ -2147483648 ≤ m'.usedItems := by
  have hle : m.usedItems ≤ m.hashTable.length :=
    h.ready.counted.used_le.trans (Int.ofNat_le.2 (taken_le_length 0 m.hashTable))
  have hfile : m.disk.bytes = fileBytes m.hashTable.length m.usedItems m.salt m.hashTable := h.fileMatches
  rw [hfile] at hinit
  by_cases hmem : env.allocates 0 (m.hashTable.length * 8 + 12) = true
  · rw [initFromFile_fileBytes h.ready.counted.length_pos h.lengthFits hused hle h.ready.salt_length hmem] at hinit
    cases hinit
    exact ⟨⟨⟨h.ready.counted.congr rfl le_rfl, h.ready.salt_length, rfl, rfl⟩, h.lengthFits, rfl⟩, hused⟩
  · unfold VisitedLinkMaster.initFromFile createURLTable at hinit
    rw [readFileHeader_fileBytes h.ready.counted.length_pos h.lengthFits hused hle h.ready.salt_length,
      bind_some] at hinit
    have hsize : (((m.hashTable.length : ℤ) * 8 + 12) % 4294967296).toNat = m.hashTable.length * 8 + 12 := by
      have := h.lengthFits
      unfold LengthFits tableLength at this
      omega
    dsimp only at hinit
    have hserial : (initMembers (fileBytes m.hashTable.length m.usedItems m.salt m.hashTable)).sharedMemorySerial =
      0 := rfl
    rw [hsize, hserial, if_neg hmem] at hinit
    cases hinit

theorem FileRun.saved (h : FileRun env m) : m.Saved ∧ -2147483648 ≤ m.usedItems := by
  induction h with
  | initFromScratch hpos hsalt hinit hfits => exact ⟨saved_initFromScratch hpos hsalt hinit hfits.1, hfits.2⟩
  | onTableRebuildComplete hsalt hcan hcomplete hopen hfits =>
    exact ⟨saved_onTableRebuildComplete hsalt hcan hcomplete hopen hfits.1, hfits.2⟩
  | initFromFile _ hinit ih => exact saved_initFromFile ih.1 ih.2 hinit
  | addURL _ hadd hfits ih => exact ⟨ih.1.addURL hadd hfits.1, hfits.2⟩
  | addURLs _ hadd hfits ih => exact ⟨ih.1.addURLs hadd hfits.1, hfits.2⟩
  | deleteURLs _ hclean hdelete hfits ih => exact ⟨ih.1.deleteURLs hclean hdelete hfits.1, hfits.2⟩

end VisitedLinkMaster

open VisitedLinkMaster

/-- **After every run the file is the header and the slots, and gives back the table.** -/
theorem initFromFile_of_run (h : FileRun env m) :
    m.disk.bytes = fileBytes m.tableLength m.usedItems m.salt m.hashTable ∧
      ∀ env' : Environment, env'.allocates 0 (m.tableLength * 8 + 12) = true →
        ∃ m', initFromFile env' m.disk.bytes = some m' ∧ m'.hashTable = m.hashTable ∧
          m'.usedItems = m.usedItems ∧ m'.salt = m.salt := by
  obtain ⟨hsaved, hused⟩ := h.saved
  refine ⟨hsaved.fileMatches, fun env' hmem => ?_⟩
  have hle : m.usedItems ≤ m.hashTable.length :=
    hsaved.ready.counted.used_le.trans (Int.ofNat_le.mpr (taken_le_length 0 m.hashTable))
  have hread := initFromFile_fileBytes hsaved.ready.counted.length_pos hsaved.lengthFits hused hle
    hsaved.ready.salt_length hmem
  rw [hsaved.fileMatches]
  exact ⟨_, hread, rfl, rfl, rfl⟩

/-- Two URLs are added to a table of five slots, and the first is deleted, whose run ends before the end. -/
theorem initFromFile_of_run_three :
    ∃ m m' : VisitedLinkMaster, FileRun plainEnvironment m ∧ m.hashTable = [0, 0, 7, 0, 0] ∧
      initFromFile plainEnvironment m.disk.bytes = some m' ∧ m'.hashTable = m.hashTable := by
  have hrun : ((initFromScratch plainEnvironment [] (List.replicate 8 0) 5 true).bind fun m₀ =>
      (m₀.addURL plainEnvironment ⟨true, [6]⟩).bind fun m₁ =>
        (m₁.addURL plainEnvironment ⟨true, [7]⟩).bind fun m₂ =>
          (m₂.deleteURLs plainEnvironment [⟨true, [6]⟩]).map fun m =>
            decide (m₀.Fits ∧ m₁.Fits ∧ m₂.Fits ∧ m.Fits ∧
              DeletesCleanly plainEnvironment m₂ (m₂.fingerprintsOf plainEnvironment [⟨true, [6]⟩]) ∧
              m.hashTable = [0, 0, 7, 0, 0])) = some true := by decide +kernel
  obtain ⟨m₀, hinit, hrun⟩ := Option.bind_eq_some_iff.mp hrun
  obtain ⟨m₁, hfirst, hrun⟩ := Option.bind_eq_some_iff.mp hrun
  obtain ⟨m₂, hsecond, hrun⟩ := Option.bind_eq_some_iff.mp hrun
  obtain ⟨m, hdelete, hrun⟩ := Option.map_eq_some_iff.mp hrun
  obtain ⟨hfits₀, hfits₁, hfits₂, hfits, hclean, htable⟩ := of_decide_eq_true hrun
  have hall : FileRun plainEnvironment m :=
    .deleteURLs (.addURL (.addURL (.initFromScratch (by decide) rfl hinit hfits₀) hfirst hfits₁) hsecond hfits₂)
      hclean hdelete hfits
  obtain ⟨-, hload⟩ := initFromFile_of_run hall
  obtain ⟨m', hm', heq, -, -⟩ := hload plainEnvironment rfl
  exact ⟨m, m', hall, htable, hm', heq⟩

/-- Two URLs with their home in the last of five slots are added, and the first is deleted: the slot behind
the end of the table is written, and the file is refused. -/
theorem not_initFromFile_deleteURLs :
    ∃ m₀ m₁ m₂ m : VisitedLinkMaster, initFromScratch plainEnvironment [] (List.replicate 8 0) 5 true = some m₀ ∧
      m₀.addURL plainEnvironment ⟨true, [4]⟩ = some m₁ ∧ m₁.addURL plainEnvironment ⟨true, [9]⟩ = some m₂ ∧
      m₂.deleteURLs plainEnvironment [⟨true, [4]⟩] = some m ∧
      m.disk.bytes ≠ fileBytes m.tableLength m.usedItems m.salt m.hashTable ∧
      initFromFile plainEnvironment m.disk.bytes = none := by
  have hrun : ((initFromScratch plainEnvironment [] (List.replicate 8 0) 5 true).bind fun m₀ =>
      (m₀.addURL plainEnvironment ⟨true, [4]⟩).bind fun m₁ =>
        (m₁.addURL plainEnvironment ⟨true, [9]⟩).bind fun m₂ =>
          (m₂.deleteURLs plainEnvironment [⟨true, [4]⟩]).map fun m =>
            decide (m.disk.bytes ≠ fileBytes m.tableLength m.usedItems m.salt m.hashTable ∧
              (initFromFile plainEnvironment m.disk.bytes).isNone = true)) = some true := by decide +kernel
  obtain ⟨m₀, hinit, hrun⟩ := Option.bind_eq_some_iff.mp hrun
  obtain ⟨m₁, hfirst, hrun⟩ := Option.bind_eq_some_iff.mp hrun
  obtain ⟨m₂, hsecond, hrun⟩ := Option.bind_eq_some_iff.mp hrun
  obtain ⟨m, hdelete, hrun⟩ := Option.map_eq_some_iff.mp hrun
  obtain ⟨hbytes, hnone⟩ := of_decide_eq_true hrun
  exact ⟨m₀, m₁, m₂, m, hinit, hfirst, hsecond, hdelete, hbytes, Option.isNone_iff_eq_none.mp hnone⟩

end Chromium.VisitedLink
