import Chromium.Lib.LinearProbing
import Chromium.VisitedLink.VisitedLinkMaster

/-!
# The table holds what was added

The loops of the table are the searches of linear probing: `isVisited` finds a fingerprint exactly if the
table has it, `addFingerprint` inserts, and `deleteFingerprint` clears the run behind the home of a
fingerprint and inserts the others again.  So a table that keeps a free slot holds, after any operations,
what was added and not deleted since (`isVisited_of_run`).
-/

namespace Chromium.VisitedLink

open Lib

variable {t : List UInt64} {fp : UInt64} {i j n : ℕ}

/-- The home of a fingerprint. -/
abbrev home (fp : UInt64) : ℕ := fp.toNat

/-- The fingerprints are found in the table. -/
abbrev Found (t : List UInt64) : Prop := Probed 0 home t

theorem getD_mod (t : List UInt64) (i : ℕ) : t.getD (i % t.length) 0 = slotAt 0 t i := rfl

theorem succ_mod (hn : 0 < n) (i : ℕ) : (if i % n + 1 = n then 0 else i % n + 1) = (i + 1) % n := by
  have hlt := Nat.mod_lt i hn
  rw [Nat.add_mod]
  by_cases h : i % n + 1 = n
  · rw [if_pos h]
    rcases Nat.lt_or_ge 1 n with h1 | h1
    · rw [Nat.mod_eq_of_lt h1, h, Nat.mod_self]
    · have hone : n = 1 := by omega
      subst hone
      rw [Nat.mod_one]
  · have hone : 1 % n = 1 := Nat.mod_eq_of_lt (by omega)
    rw [if_neg h, hone, Nat.mod_eq_of_lt (show i % n + 1 < n by omega)]

theorem incrementHash_mod (hn : 0 < n) (i : ℕ) : incrementHash n (i % n) = (i + 1) % n := by
  have hlt := Nat.mod_lt i hn
  have hlast : n - 1 ≤ i % n ↔ i % n + 1 = n := by omega
  rw [← succ_mod hn, incrementHash]
  simp only [hlast]

theorem around_iff {a : ℕ} (hj : j < n) : (a + j + 1) % n = a % n ↔ j + 1 = n := by
  constructor
  · intro h
    have hmod : a + (j + 1) ≡ a + 0 [MOD n] := h
    have hdvd := (Nat.modEq_zero_iff_dvd.1 (Nat.ModEq.add_left_cancel' a hmod))
    exact Nat.le_antisymm (by omega) (Nat.le_of_dvd (by omega) hdvd)
  · intro h
    rw [Nat.add_assoc, h, Nat.add_mod_right]

/-! ## Looking for a fingerprint -/

def isFound : Probe → Bool
  | .found _ => true
  | _ => false

theorem isVisitedLoop_eq {a fuel : ℕ} (hfuel : j + fuel = t.length) :
    isVisitedLoop t fp (a % t.length) fuel ((a + j) % t.length) = isFound (probe 0 t fp fuel (a + j)) := by
  induction fuel generalizing j with
  | zero => rfl
  | succ fuel ih =>
    have hn : 0 < t.length := by omega
    have hstep : isVisitedLoop t fp (a % t.length) fuel ((a + j + 1) % t.length) =
        isFound (probe 0 t fp fuel (a + j + 1)) := by
      rw [Nat.add_assoc]
      exact ih (by omega)
    dsimp only [isVisitedLoop, probe]
    rw [getD_mod, succ_mod hn]
    by_cases hempty : slotAt 0 t (a + j) = 0
    · rw [if_pos hempty, if_pos hempty]
      rfl
    · rw [if_neg hempty, if_neg hempty]
      by_cases hfound : slotAt 0 t (a + j) = fp
      · rw [if_pos hfound, if_pos hfound]
        rfl
      · rw [if_neg hfound, if_neg hfound, ← hstep]
        by_cases haround : (a + j + 1) % t.length = a % t.length
        · have hlast := (around_iff (show j < t.length by omega)).1 haround
          have hzero : fuel = 0 := by omega
          rw [if_pos haround, hzero]
          rfl
        · rw [if_neg haround]

theorem isVisited_iff (h : Found t) : isVisited t fp = true ↔ fp ∈ t ∧ fp ≠ 0 := by
  by_cases hfp : fp = 0
  · subst hfp
    have hzero : ∀ fuel first cur, isVisitedLoop t 0 first fuel cur = false := by
      intro fuel
      induction fuel with
      | zero => exact fun _ _ => rfl
      | succ fuel ih =>
        intro first cur
        dsimp only [isVisitedLoop]
        by_cases hempty : t.getD cur 0 = 0
        · rw [if_pos hempty]
        · rw [if_neg hempty, if_neg hempty, ih]
          exact ite_self false
    simp [isVisited, hzero]
  · have heq : isVisited t fp = isFound (probe 0 t fp t.length (home fp)) := isVisitedLoop_eq (Nat.zero_add _)
    rw [heq, and_iff_left hfp, ← h.probe_eq_found_iff hfp]
    cases probe 0 t fp t.length (home fp) with
    | found p => exact ⟨fun _ => ⟨p, rfl⟩, fun _ => rfl⟩
    | free p | full => exact ⟨nofun, fun ⟨_, hfound⟩ => (nomatch hfound)⟩

namespace VisitedLinkMaster

variable {m m' : VisitedLinkMaster}

variable {a fuel : ℕ} {resized : Bool} (env : Environment) {S : Set UInt64}

/-! ## Adding fingerprints -/

/-- What `AddFingerprint` does where its search ends. -/
def addAt (m : VisitedLinkMaster) (fp : UInt64) : Probe → Option ℕ × VisitedLinkMaster
  | .free p => (some p, { m with hashTable := m.hashTable.set p fp, usedItems := m.usedItems + 1 })
  | _ => (none, m)

theorem addFingerprintLoop_eq (hfp : fp ≠ 0) (hfuel : j + fuel = m.tableLength) :
    addFingerprintLoop m fp (a % m.tableLength) fuel ((a + j) % m.tableLength) =
      m.addAt fp (probe 0 m.hashTable fp fuel (a + j)) := by
  induction fuel generalizing j with
  | zero => rfl
  | succ fuel ih =>
    have hn : 0 < m.tableLength := by omega
    have hstep : addFingerprintLoop m fp (a % m.tableLength) fuel ((a + j + 1) % m.tableLength) =
        m.addAt fp (probe 0 m.hashTable fp fuel (a + j + 1)) := by
      rw [Nat.add_assoc]
      exact ih (by omega)
    dsimp only [addFingerprintLoop, probe]
    rw [incrementHash_mod hn, tableLength, getD_mod]
    by_cases hempty : slotAt 0 m.hashTable (a + j) = 0
    · rw [if_neg (by rw [hempty]; exact Ne.symm hfp), if_pos hempty, if_pos hempty]
      rfl
    · by_cases hfound : slotAt 0 m.hashTable (a + j) = fp
      · rw [if_pos hfound, if_neg hempty, if_pos hfound]
        rfl
      · rw [if_neg hfound, if_neg hempty, if_neg hempty, if_neg hfound, ← hstep]
        by_cases haround : (a + j + 1) % m.hashTable.length = a % m.hashTable.length
        · have hlast := (around_iff (show j < m.tableLength by omega)).1 haround
          have hzero : fuel = 0 := by omega
          rw [if_pos haround, hzero]
          rfl
        · rw [if_neg haround]
          rfl

/-- **`AddFingerprint` is a search** for the fingerprint, and a write where it meets a free slot. -/
theorem addFingerprint_eq (m : VisitedLinkMaster) (hfp : fp ≠ 0) :
    m.addFingerprint fp = m.addAt fp (probe 0 m.hashTable fp m.tableLength (home fp)) :=
  addFingerprintLoop_eq hfp (Nat.zero_add _)

theorem addFingerprint_zero (m : VisitedLinkMaster) : m.addFingerprint 0 = (none, m) := by
  have hzero : ∀ fuel first cur, addFingerprintLoop m 0 first fuel cur = (none, m) := by
    intro fuel
    induction fuel with
    | zero => exact fun _ _ => rfl
    | succ fuel ih =>
      intro first cur
      dsimp only [addFingerprintLoop]
      by_cases hempty : m.hashTable.getD cur 0 = 0
      · rw [if_pos hempty]
      · rw [if_neg hempty, if_neg hempty, ih]
        exact ite_self (none, m)
  exact hzero _ _ _

def withTable (m : VisitedLinkMaster) (t : List UInt64) : VisitedLinkMaster :=
  { m with hashTable := t, usedItems := m.usedItems + taken 0 t - taken 0 m.hashTable }

theorem withTable_self (m : VisitedLinkMaster) : m.withTable m.hashTable = m := by
  have hused : m.usedItems + taken 0 m.hashTable - taken 0 m.hashTable = m.usedItems := by omega
  rw [withTable, hused]

theorem withTable_withTable (m : VisitedLinkMaster) (t t' : List UInt64) :
    (m.withTable t).withTable t' = m.withTable t' := by
  have hused : m.usedItems + taken 0 t - taken 0 m.hashTable + taken 0 t' - taken 0 t =
      m.usedItems + taken 0 t' - taken 0 m.hashTable := by omega
  simp only [withTable, hused]

theorem addFingerprint_snd (m : VisitedLinkMaster) (hfp : fp ≠ 0) :
    (m.addFingerprint fp).2 = m.withTable (insert 0 home m.hashTable fp) := by
  rw [addFingerprint_eq m hfp]
  unfold Lib.insert
  change (m.addAt fp (probe 0 m.hashTable fp m.hashTable.length (home fp))).2 = _
  cases hprobe : probe 0 m.hashTable fp m.hashTable.length (home fp) with
  | found p | full => exact (withTable_self m).symm
  | free p =>
    obtain ⟨d, hd, rfl, hfree, -⟩ := probe_free hprobe
    have htaken := taken_set (Nat.mod_lt (home fp + d) (show 0 < m.hashTable.length by omega))
      ((slotAt_mod _).trans hfree) hfp
    have hused : m.usedItems + 1 =
        m.usedItems + (taken 0 (m.hashTable.set ((home fp + d) % m.hashTable.length) fp) : ℕ) -
          taken 0 m.hashTable := by omega
    rw [addAt, withTable, hused]

theorem addFingerprints_eq {fps : List UInt64} (m : VisitedLinkMaster) (hfps : ∀ fp ∈ fps, fp ≠ 0) :
    m.addFingerprints fps = m.withTable (insertAll 0 home m.hashTable fps) := by
  induction fps generalizing m with
  | nil => exact (withTable_self m).symm
  | cons fp fps ih =>
    have hcons : m.addFingerprints (fp :: fps) = (m.addFingerprint fp).2.addFingerprints fps := rfl
    rw [hcons, ih _ fun g hg => hfps g (List.mem_cons_of_mem _ hg), addFingerprint_snd m (hfps fp List.mem_cons_self),
      withTable_withTable]
    rfl

/-! ## Deleting a fingerprint -/

theorem endRangeLoop_eq (hj : j < t.length) (hfuel : j + fuel = t.length)
    (htaken : ∀ d < j, slotAt 0 t (a + d + 1) ≠ 0) :
    ∃ r < t.length, endRangeLoop t (a % t.length) fuel ((a + j) % t.length) = (a + r) % t.length ∧
      (∀ d < r, slotAt 0 t (a + d + 1) ≠ 0) ∧ (r + 1 = t.length ∨ slotAt 0 t (a + r + 1) = 0) := by
  induction fuel generalizing j with
  | zero => omega
  | succ fuel ih =>
    have hn : 0 < t.length := by omega
    dsimp only [endRangeLoop]
    rw [incrementHash_mod hn, getD_mod]
    by_cases haround : (a + j + 1) % t.length = a % t.length
    · rw [if_pos haround]
      exact ⟨j, hj, rfl, htaken, .inl ((around_iff hj).1 haround)⟩
    · rw [if_neg haround]
      by_cases hempty : slotAt 0 t (a + j + 1) = 0
      · rw [if_pos hempty]
        exact ⟨j, hj, rfl, htaken, .inr hempty⟩
      · rw [if_neg hempty]
        have hne : j + 1 ≠ t.length := fun hlast => haround ((around_iff hj).2 hlast)
        refine ih (show j + 1 < t.length by omega) (by omega) fun d hd => ?_
        rcases Nat.lt_succ_iff_lt_or_eq.1 hd with hlt | rfl
        · exact htaken d hlt
        · exact hempty

theorem removeRangeLoop_eq {r u : ℕ} (t : List UInt64) (used : ℤ) (hr : r < t.length)
    (hu : u ≤ r) (hfuel : r - u < fuel) :
    removeRangeLoop fp ((a + r) % t.length) fuel ((a + u) % t.length)
        { m with
          hashTable := clearRun 0 t a u
          usedItems := used - ((runAt 0 t a u).filter (· ≠ fp)).length }
        ((runAt 0 t a u).filter (· ≠ fp)) =
      ({ m with
          hashTable := clearRun 0 t a r
          usedItems := used - ((runAt 0 t a r).filter (· ≠ fp)).length },
        (runAt 0 t a r).filter (· ≠ fp)) := by
  induction fuel generalizing u with
  | zero => omega
  | succ fuel ih =>
    have hn : 0 < t.length := by omega
    have hstop : (a + u) % t.length = (a + r) % t.length ↔ u = r := by
      constructor
      · intro h
        have hcancel : u ≡ r [MOD t.length] := Nat.ModEq.add_left_cancel' a h
        exact Nat.ModEq.eq_of_lt_of_lt hcancel (by omega) (by omega)
      · rintro rfl
        rfl
    unfold removeRangeLoop
    by_cases hur : u = r
    · rw [if_pos (hstop.2 hur), hur]
    · rw [if_neg fun h => hur (hstop.1 h)]
      have hnot : ¬ InRun t a u (a + u) := by
        rintro ⟨d, hd, hmod⟩
        have hcancel : d ≡ u [MOD t.length] := Nat.ModEq.add_left_cancel' a hmod
        exact absurd (Nat.ModEq.eq_of_lt_of_lt hcancel (by omega) (by omega)) (by omega)
      have hcur : (clearRun 0 t a u).getD ((a + u) % t.length) 0 = slotAt 0 t (a + u) := by
        rw [← slotAt_clearRun_of_not_inRun hn hnot, slotAt, length_clearRun]
      have hrun : runAt 0 t a (u + 1) = runAt 0 t a u ++ [slotAt 0 t (a + u)] := by
        rw [runAt, List.range_succ, List.map_append, List.map_singleton, runAt]
      have hstep := ih (u := u + 1) (by omega) (by omega)
      have hlength : tableLength { m with
          hashTable := clearRun 0 t a u
          usedItems := used - ((runAt 0 t a u).filter (· ≠ fp)).length } = t.length := length_clearRun t a u
      dsimp only
      rw [hlength, hcur, incrementHash_mod hn]
      by_cases hfp : slotAt 0 t (a + u) = fp
      · have hfilter : (runAt 0 t a (u + 1)).filter (· ≠ fp) = (runAt 0 t a u).filter (· ≠ fp) := by
          simp [hrun, hfp]
        rw [hfilter] at hstep
        rw [if_neg (not_not_intro hfp)]
        exact hstep
      · have hfilter : (runAt 0 t a (u + 1)).filter (· ≠ fp) =
            (runAt 0 t a u).filter (· ≠ fp) ++ [slotAt 0 t (a + u)] := by
          simp [hrun, hfp]
        rw [hfilter, List.length_append, List.length_singleton, Nat.cast_add, Nat.cast_one, ← Int.sub_sub] at hstep
        rw [if_pos hfp]
        exact hstep

theorem removeRangeLoop_start {r : ℕ} (m : VisitedLinkMaster) (used : ℤ) (hr : r < m.tableLength) :
    removeRangeLoop fp ((a + r) % m.tableLength) m.tableLength (a % m.tableLength)
        { m with usedItems := used } [] =
      ({ m with
          hashTable := clearRun 0 m.hashTable a r
          usedItems := used - ((runAt 0 m.hashTable a r).filter (· ≠ fp)).length },
        (runAt 0 m.hashTable a r).filter (· ≠ fp)) := by
  rw [← removeRangeLoop_eq m.hashTable used hr (Nat.zero_le r) (by omega)]
  have hused : used - (((runAt 0 m.hashTable a 0).filter (· ≠ fp)).length : ℤ) = used := Int.sub_zero used
  rw [hused]
  rfl

/-- What `DeleteFingerprint` does in memory: in a table that is full it takes away one from the count only;
otherwise the run behind the home is cleared, and the others of it are inserted again. -/
theorem deleteFingerprint_false (h : Found m.hashTable) (hfp : fp ∈ m.hashTable) (hne : fp ≠ 0) :
    ∃ r < m.tableLength, endRangeLoop m.hashTable (hashFingerprint fp m.tableLength) m.tableLength
        (hashFingerprint fp m.tableLength) = (home fp + r) % m.tableLength ∧
      (∀ d < r + 1, slotAt 0 m.hashTable (home fp + d) ≠ 0) ∧
      (r + 1 = m.tableLength ∧ m.deleteFingerprint env fp false = { m with usedItems := m.usedItems - 1 } ∨
        r + 1 < m.tableLength ∧ slotAt 0 m.hashTable (home fp + (r + 1)) = 0 ∧
          fp ∈ runAt 0 m.hashTable (home fp) (r + 1) ∧
          m.deleteFingerprint env fp false =
            m.withTable (insertAll 0 home (clearRun 0 m.hashTable (home fp) (r + 1))
              ((runAt 0 m.hashTable (home fp) (r + 1)).filter (· ≠ fp)))) := by
  obtain ⟨i, hi, hslot⟩ := (mem_iff_slotAt 0).1 hfp
  obtain ⟨d, hd, hmod, hpath⟩ := h.reached i hi (hslot ▸ hne)
  rw [hslot] at hmod hpath
  have hfpslot : slotAt 0 m.hashTable (home fp + d) = fp :=
    (slotAt_congr (hmod.trans (Nat.mod_eq_of_lt hi).symm)).trans hslot
  have hhome : slotAt 0 m.hashTable (home fp + 0) ≠ 0 := by
    rcases Nat.eq_zero_or_pos d with rfl | hpos
    · rw [hfpslot]
      exact hne
    · exact hpath 0 hpos
  have hn : 0 < m.tableLength := Nat.lt_of_le_of_lt (Nat.zero_le i) hi
  obtain ⟨r, hr, hend, hpassed, hstop⟩ :=
    endRangeLoop_eq (t := m.hashTable) (a := home fp) (j := 0) hn (Nat.zero_add _)
      fun d hd => absurd hd (Nat.not_lt_zero d)
  have htaken : ∀ d < r + 1, slotAt 0 m.hashTable (home fp + d) ≠ 0 := by
    intro d hd
    cases d with
    | zero => exact hhome
    | succ d => exact hpassed d (by omega)
  have hvisited : isVisited m.hashTable fp = true := (isVisited_iff h).2 ⟨hfp, hne⟩
  refine ⟨r, hr, hend, htaken, ?_⟩
  have hunfold : m.deleteFingerprint env fp false =
      ((removeRangeLoop fp (incrementHash m.tableLength ((home fp + r) % m.tableLength)) m.tableLength
        (home fp % m.tableLength) { m with usedItems := m.usedItems - 1 } []).1).addFingerprints
      (removeRangeLoop fp (incrementHash m.tableLength ((home fp + r) % m.tableLength)) m.tableLength
        (home fp % m.tableLength) { m with usedItems := m.usedItems - 1 } []).2 := by
    have hend' : (home fp + r) % m.tableLength = endRangeLoop m.hashTable
      (hashFingerprint fp m.tableLength) m.tableLength (hashFingerprint fp m.tableLength) := hend.symm
    rw [deleteFingerprint, if_pos hvisited, hend']
    rfl
  rw [incrementHash_mod hn] at hunfold
  rcases Nat.lt_or_ge (r + 1) m.tableLength with hroom | hfull
  · right
    have hfree : slotAt 0 m.hashTable (home fp + (r + 1)) = 0 :=
      hstop.resolve_left fun hlast => absurd hlast (Nat.ne_of_lt hroom)
    have hmem : fp ∈ runAt 0 m.hashTable (home fp) (r + 1) := by
      refine mem_runAt.2 ⟨d, ?_, hfpslot⟩
      by_contra hle
      rcases Nat.lt_or_ge (r + 1) d with hlt | hge
      · exact hpath (r + 1) hlt hfree
      · have heq : d = r + 1 := by omega
        rw [heq, hfree] at hfpslot
        exact hne hfpslot.symm
    refine ⟨hroom, hfree, hmem, ?_⟩
    have hkept : ∀ v ∈ (runAt 0 m.hashTable (home fp) (r + 1)).filter (· ≠ fp), v ≠ 0 := by
      intro v hv
      obtain ⟨d, hd, rfl⟩ := mem_runAt.1 (List.mem_filter.1 hv).1
      exact htaken d hd
    have hclear := taken_clearRun (Nat.le_of_lt hroom) htaken
    have hlength := h.length_filter_runAt (Nat.le_of_lt hroom) htaken hmem
    rw [hunfold, Nat.add_assoc, removeRangeLoop_start m _ hroom, addFingerprints_eq _ hkept]
    simp only [withTable]
    congr 1
    omega
  · left
    have hlast : r + 1 = m.tableLength := Nat.le_antisymm hr hfull
    refine ⟨hlast, ?_⟩
    have haround : (home fp + r + 1) % m.tableLength = home fp % m.tableLength := (around_iff hr).2 hlast
    have hnone : ∀ fuel, removeRangeLoop fp (home fp % m.tableLength) fuel (home fp % m.tableLength)
        { m with usedItems := m.usedItems - 1 } [] = ({ m with usedItems := m.usedItems - 1 }, []) := by
      intro fuel
      cases fuel with
      | zero => rfl
      | succ fuel => rw [removeRangeLoop, if_pos rfl]
    rw [hunfold, haround, hnone]
    rfl

/-! ## Writing to the file -/

def Written (m m' : VisitedLinkMaster) : Prop :=
  ∃ fileOpen posted, m' = { m with fileOpen := fileOpen, posted := posted }

theorem Written.refl (m : VisitedLinkMaster) : Written m m := ⟨m.fileOpen, m.posted, rfl⟩

theorem Written.trans {m'' : VisitedLinkMaster} (h : Written m m') (h' : Written m' m'') : Written m m'' := by
  obtain ⟨_, _, rfl⟩ := h
  obtain ⟨fileOpen, posted, rfl⟩ := h'
  exact ⟨fileOpen, posted, rfl⟩

theorem Written.hashTable_eq (h : Written m m') : m'.hashTable = m.hashTable := by
  obtain ⟨_, _, rfl⟩ := h
  rfl

theorem Written.usedItems_eq (h : Written m m') : m'.usedItems = m.usedItems := by
  obtain ⟨_, _, rfl⟩ := h
  rfl

theorem written_writeToFile (m : VisitedLinkMaster) (offset : ℕ) (data : List UInt8) :
    Written m (m.writeToFile offset data) := ⟨m.fileOpen, _, rfl⟩

theorem written_writeUsedItemCountToFile (m : VisitedLinkMaster) :
    Written m m.writeUsedItemCountToFile := by
  unfold writeUsedItemCountToFile
  split
  · exact written_writeToFile m _ _
  · exact Written.refl m

theorem written_writeHashRangeToFile (m : VisitedLinkMaster) (first last : ℕ) :
    Written m (m.writeHashRangeToFile env first last) := by
  unfold writeHashRangeToFile
  split
  · split
    · exact (written_writeToFile m _ _).trans (written_writeToFile _ _ _)
    · exact written_writeToFile m _ _
  · exact Written.refl m

theorem written_writeFullTable (m : VisitedLinkMaster) : Written m (m.writeFullTable env).2 := by
  unfold writeFullTable
  split
  · split
    · exact ⟨m.fileOpen, _, rfl⟩
    · exact ⟨true, _, rfl⟩
  · exact Written.refl m

def Touched (m m' : VisitedLinkMaster) : Prop :=
  ∃ hashTable usedItems fileOpen posted serial, m' = { m with
      hashTable := hashTable
      usedItems := usedItems
      fileOpen := fileOpen
      posted := posted
      sharedMemorySerial := serial }

theorem Touched.refl (m : VisitedLinkMaster) : Touched m m := ⟨_, _, _, _, _, rfl⟩

theorem Touched.trans {m'' : VisitedLinkMaster} (h : Touched m m') (h' : Touched m' m'') : Touched m m'' := by
  obtain ⟨_, _, _, _, _, rfl⟩ := h
  obtain ⟨_, _, _, _, _, rfl⟩ := h'
  exact ⟨_, _, _, _, _, rfl⟩

theorem Written.touched (h : Written m m') : Touched m m' := by
  obtain ⟨_, _, rfl⟩ := h
  exact ⟨_, _, _, _, _, rfl⟩

theorem touched_addFingerprint (m : VisitedLinkMaster) (fp : UInt64) : Touched m (m.addFingerprint fp).2 := by
  by_cases hzero : fp = 0
  · rw [hzero, addFingerprint_zero]
    exact Touched.refl m
  · rw [addFingerprint_snd m hzero]
    exact ⟨_, _, _, _, _, rfl⟩

theorem touched_addFingerprints (m : VisitedLinkMaster) (fps : List UInt64) :
    Touched m (m.addFingerprints fps) := by
  induction fps generalizing m with
  | nil => exact Touched.refl m
  | cons fp fps ih => exact (touched_addFingerprint m fp).trans (ih _)

theorem touched_removeRangeLoop (stopLoop fuel i : ℕ) (m : VisitedLinkMaster) (shuffled : List UInt64) :
    Touched m (removeRangeLoop fp stopLoop fuel i m shuffled).1 := by
  induction fuel generalizing i m shuffled with
  | zero => exact Touched.refl m
  | succ fuel ih =>
    dsimp only [removeRangeLoop]
    split
    · exact Touched.refl m
    · split <;> exact Touched.trans ⟨_, _, _, _, _, rfl⟩ (ih _ _ _)

theorem touched_deleteFingerprint (m : VisitedLinkMaster) (fp : UInt64)
    (updateFile : Bool) : Touched m (m.deleteFingerprint env fp updateFile) := by
  unfold deleteFingerprint
  split
  · dsimp only
    have hcounted : Touched m (if updateFile = true then
        writeUsedItemCountToFile { m with usedItems := m.usedItems - 1 }
        else { m with usedItems := m.usedItems - 1 }) := by
      have hless : Touched m { m with usedItems := m.usedItems - 1 } := ⟨_, _, _, _, _, rfl⟩
      split
      · exact hless.trans (written_writeUsedItemCountToFile _).touched
      · exact hless
    generalize (if updateFile = true then
        writeUsedItemCountToFile { m with usedItems := m.usedItems - 1 }
        else { m with usedItems := m.usedItems - 1 }) = counted at hcounted ⊢
    refine hcounted.trans ?_
    have hadded : ∀ stopLoop fuel i, Touched counted
        ((removeRangeLoop fp stopLoop fuel i counted []).1.addFingerprints
          (removeRangeLoop fp stopLoop fuel i counted []).2) := fun stopLoop fuel i =>
      (touched_removeRangeLoop stopLoop fuel i counted []).trans (touched_addFingerprints _ _)
    split
    · exact (hadded _ _ _).trans (written_writeHashRangeToFile env _ _ _).touched
    · exact hadded _ _ _
  · exact Touched.refl m

/-- The count that is written and the range that is written do not change what is in memory. -/
theorem deleteFingerprint_true (m : VisitedLinkMaster) (fp : UInt64) : ∃ counted, Written m counted ∧
      Written (counted.deleteFingerprint env fp false) (m.deleteFingerprint env fp true) := by
  by_cases hvisited : isVisited m.hashTable fp = true
  · have hcounted := written_writeUsedItemCountToFile { m with usedItems := m.usedItems - 1 }
    obtain ⟨fileOpen, posted, hwrite⟩ := hcounted
    refine ⟨{ m with fileOpen := fileOpen, posted := posted }, ⟨fileOpen, posted, rfl⟩, ?_⟩
    rw [deleteFingerprint, deleteFingerprint, if_pos hvisited, if_pos hvisited]
    dsimp only
    rw [if_pos rfl, if_neg (by decide), if_pos rfl, if_neg (by decide), hwrite]
    exact written_writeHashRangeToFile env _ _ _
  · refine ⟨m, Written.refl m, ?_⟩
    rw [deleteFingerprint, deleteFingerprint, if_neg hvisited, if_neg hvisited]
    exact Written.refl m

/-! ## The set of fingerprints -/

/-- The table holds the fingerprints of a set, and the count is right. -/
structure Represents (m : VisitedLinkMaster) (S : Set UInt64) : Prop where
  found : Found m.hashTable
  used_eq : m.usedItems = taken 0 m.hashTable
  mem_iff : ∀ fp, fp ≠ 0 → (fp ∈ m.hashTable ↔ fp ∈ S)

theorem Represents.congr (h : m.Represents S) (ht : m'.hashTable = m.hashTable)
    (hu : m'.usedItems = m.usedItems) : m'.Represents S := by
  refine ⟨?_, ?_, ?_⟩
  · rw [ht]
    exact h.found
  · rw [ht, hu]
    exact h.used_eq
  · rw [ht]
    exact h.mem_iff

theorem Represents.written (h : m.Represents S) (hw : Written m m') : m'.Represents S :=
  h.congr hw.hashTable_eq hw.usedItems_eq

theorem Represents.isVisited_iff (h : m.Represents S) (fp : UInt64) :
    isVisited m.hashTable fp = true ↔ fp ∈ S ∧ fp ≠ 0 := by
  rw [VisitedLink.isVisited_iff h.found]
  exact and_congr_left fun hne => h.mem_iff fp hne

theorem Represents.addFingerprint (h : m.Represents S) (fp : UInt64)
    (hroom : 0 ∈ m.hashTable) : (m.addFingerprint fp).2.Represents (S ∪ {fp}) := by
  by_cases hzero : fp = 0
  · rw [hzero, addFingerprint_zero]
    exact ⟨h.found, h.used_eq, fun v hv => (h.mem_iff v hv).trans ⟨.inl, fun hmem => hmem.resolve_right hv⟩⟩
  have hne : fp ≠ 0 := hzero
  rw [addFingerprint_snd m hne]
  refine ⟨h.found.insert hne, ?_, fun v hv => ?_⟩
  · have := h.used_eq
    simp only [withTable]
    omega
  · rw [withTable, h.found.mem_insert hne (taken_lt_length hroom) hv, h.mem_iff v hv]
    rfl

theorem Represents.deleteFingerprint (h : m.Represents S) (fp : UInt64)
    (hroom : 0 ∈ m.hashTable) (updateFile : Bool) :
    (m.deleteFingerprint env fp updateFile).Represents (S \ {fp}) ∧
      0 ∈ (m.deleteFingerprint env fp updateFile).hashTable ∧
      taken 0 (m.deleteFingerprint env fp updateFile).hashTable ≤ taken 0 m.hashTable := by
  have hfalse : ∀ {m : VisitedLinkMaster}, m.Represents S → 0 ∈ m.hashTable →
      (m.deleteFingerprint env fp false).Represents (S \ {fp}) ∧ 0 ∈ (m.deleteFingerprint env fp false).hashTable ∧
        taken 0 (m.deleteFingerprint env fp false).hashTable ≤ taken 0 m.hashTable := by
    intro m h hroom
    by_cases hvisited : isVisited m.hashTable fp = true
    · obtain ⟨hfp, hne⟩ := (VisitedLink.isVisited_iff h.found).1 hvisited
      obtain ⟨r, hr, -, htaken, ⟨hlast, -⟩ | ⟨hlt, hfree, hmem, heq⟩⟩ := deleteFingerprint_false env h.found hfp hne
      · -- a full table has no free slot
        obtain ⟨i, hi, hslot⟩ := (mem_iff_slotAt 0).1 hroom
        obtain ⟨d, hd, hmod⟩ := exists_offset hi (home fp)
        have hd' : d < r + 1 := by
          rw [hlast]
          exact hd
        refine absurd ?_ (htaken d hd')
        exact (slotAt_congr (hmod.trans (Nat.mod_eq_of_lt hi).symm)).trans hslot
      · obtain ⟨hprobed, hkeep⟩ := h.found.remove hlt htaken hfree hmem
        rw [heq]
        have hone := h.found.taken_remove hlt htaken hfree hmem
        have hless : taken 0 (insertAll 0 home (clearRun 0 m.hashTable (home fp) (r + 1))
            ((runAt 0 m.hashTable (home fp) (r + 1)).filter (· ≠ fp))) < taken 0 m.hashTable := by omega
        refine ⟨⟨hprobed, ?_, fun v hv => ?_⟩, empty_mem (hless.trans_le ?_), Nat.le_of_lt hless⟩
        · have := h.used_eq
          simp only [withTable]
          omega
        · rw [withTable, hkeep v hv, h.mem_iff v hv]
          rfl
        · rw [withTable, length_insertAll, length_clearRun]
          exact taken_le_length 0 m.hashTable
    · rw [VisitedLinkMaster.deleteFingerprint, if_neg hvisited]
      refine ⟨⟨h.found, h.used_eq, fun v hv => (h.mem_iff v hv).trans ?_⟩, hroom, le_refl _⟩
      refine ⟨fun hvS => ⟨hvS, ?_⟩, fun hvS => hvS.1⟩
      rintro rfl
      exact hvisited ((VisitedLink.isVisited_iff h.found).2 ⟨(h.mem_iff v hv).2 hvS, hv⟩)
  cases updateFile with
  | false => exact hfalse h hroom
  | true =>
    obtain ⟨counted, hcounted, hwritten⟩ := deleteFingerprint_true env m fp
    obtain ⟨hrep, hfree, hle⟩ := hfalse (h.written hcounted) (hcounted.hashTable_eq ▸ hroom)
    rw [hcounted.hashTable_eq] at hle
    refine ⟨hrep.written hwritten, ?_⟩
    rw [hwritten.hashTable_eq]
    exact ⟨hfree, hle⟩

theorem found_replicate (n : ℕ) : Found (List.replicate n 0) := by
  have hempty : ∀ i, slotAt 0 (List.replicate n (0 : UInt64)) i = 0 := by
    intro i
    rw [slotAt, List.getD_eq_getElem?_getD, List.getElem?_replicate]
    split <;> rfl
  exact ⟨fun i _ hne => absurd (hempty i) hne, fun i _ j _ hne _ => absurd (hempty i) hne⟩

theorem taken_replicate (n : ℕ) : taken 0 (List.replicate n (0 : UInt64)) = 0 :=
  List.countP_eq_zero.2 fun v hv => by simp [List.eq_of_mem_replicate hv]

theorem represents_empty {n : ℕ} (ht : m.hashTable = List.replicate n 0) (hu : m.usedItems = 0) :
    m.Represents ∅ := by
  refine ⟨?_, ?_, fun fp hne => ?_⟩
  · rw [ht]
    exact found_replicate n
  · rw [ht, hu, taken_replicate]
    rfl
  · rw [ht]
    exact ⟨fun hmem => hne (List.eq_of_mem_replicate hmem), fun hmem => hmem.elim⟩

theorem createURLTable_eq {env : Environment} {numEntries : ℤ} {created : Bool}
    (h : m.createURLTable env numEntries = some (created, m')) :
    created = false ∧ m' = m ∨ created = true ∧ 0 ≤ numEntries ∧ numEntries * 8 + 12 < 4294967296 ∧
        m' = { m with hashTable := List.replicate numEntries.toNat 0, usedItems := 0 } := by
  dsimp only [createURLTable] at h
  split at h
  · split at h
    · rename_i hsize
      cases h
      exact .inr ⟨rfl, hsize.1, hsize.2, rfl⟩
    · cases h
  · cases h
    exact .inl ⟨rfl, rfl⟩

/-- Fingerprints are added where there is room for all of them, or where room is left. -/
theorem Represents.addFingerprints {fps : List UInt64} (h : m.Represents S)
    (hfps : ∀ fp ∈ fps, fp ≠ 0)
    (hroom : taken 0 m.hashTable + fps.length ≤ m.tableLength ∨ 0 ∈ (m.addFingerprints fps).hashTable) :
    (m.addFingerprints fps).Represents (S ∪ {fp | fp ∈ fps}) := by
  rw [addFingerprints_eq m hfps] at hroom ⊢
  refine ⟨h.found.insertAll hfps, ?_, fun v hv => ?_⟩
  · have := h.used_eq
    simp only [withTable]
    omega
  · have hleft : taken 0 m.hashTable + fps.length ≤ m.hashTable.length ∨
        taken 0 (insertAll 0 home m.hashTable fps) < m.hashTable.length := by
      refine hroom.imp_right fun hmem => ?_
      rw [← length_insertAll 0 home m.hashTable fps]
      exact taken_lt_length hmem
    rw [withTable, h.found.mem_insertAll hfps hleft hv, h.mem_iff v hv]
    rfl

theorem Represents.resizeTable {env : Environment} {newSize : ℤ} (h : m.Represents S)
    (hresize : m.resizeTable env newSize = some m')
    (hroom : (taken 0 m.hashTable : ℤ) ≤ newSize ∨ 0 ∈ m'.hashTable) : m'.Represents S := by
  obtain ⟨⟨created, new⟩, hcreate, rfl⟩ := Option.map_eq_some_iff.1 hresize
  rcases createURLTable_eq hcreate with ⟨rfl, rfl⟩ | ⟨rfl, hsize, -, rfl⟩
  · exact h.congr rfl rfl
  · dsimp only at hroom ⊢
    rw [if_pos rfl] at hroom ⊢
    have hfps : ∀ fp ∈ m.hashTable.filter (· ≠ 0), fp ≠ 0 := fun fp hfp =>
      of_decide_eq_true (List.mem_filter.1 hfp).2
    have hwritten := written_writeFullTable env
      (VisitedLinkMaster.addFingerprints
        { m with
          sharedMemorySerial := m.sharedMemorySerial + 1
          hashTable := List.replicate newSize.toNat 0
          usedItems := 0 } (m.hashTable.filter (· ≠ 0)))
    rw [hwritten.hashTable_eq] at hroom
    refine Represents.written ?_ hwritten
    have hempty : Represents
        { m with
          sharedMemorySerial := m.sharedMemorySerial + 1
          hashTable := List.replicate newSize.toNat 0
          usedItems := 0 } ∅ := represents_empty rfl rfl
    have hall := hempty.addFingerprints hfps (hroom.imp_left fun hle => by
      have hcount : (m.hashTable.filter (· ≠ 0)).length = taken 0 m.hashTable := List.countP_eq_length_filter.symm
      have hlength : (List.replicate newSize.toNat (0 : UInt64)).length = newSize.toNat := List.length_replicate
      rw [hcount, tableLength, hlength, taken_replicate]
      omega)
    refine ⟨hall.found, hall.used_eq, fun fp hne => (hall.mem_iff fp hne).trans ?_⟩
    rw [← h.mem_iff fp hne, Set.empty_union, Set.mem_ofPred_eq, List.mem_filter]
    exact and_iff_left (decide_eq_true hne)

theorem resizeTableIfNecessary_eq {env : Environment}
    (h : m.resizeTableIfNecessary env = some (resized, m')) :
    resized = false ∧ m' = m ∨
      resized = true ∧ m.resizeTable env (newTableSizeForCount m.usedItems) = some m' := by
  unfold resizeTableIfNecessary at h
  split at h
  · cases h
    exact .inl ⟨rfl, rfl⟩
  · obtain ⟨new, hresize, heq⟩ := Option.map_eq_some_iff.1 h
    cases heq
    exact .inr ⟨rfl, hresize⟩

theorem touched_resizeTable {env : Environment} {newSize : ℤ} (h : m.resizeTable env newSize = some m') :
    Touched m m' := by
  obtain ⟨⟨created, new⟩, hcreate, rfl⟩ := Option.map_eq_some_iff.1 h
  rcases createURLTable_eq hcreate with ⟨rfl, rfl⟩ | ⟨rfl, -, -, rfl⟩
  · exact ⟨_, _, _, _, _, rfl⟩
  · dsimp only
    rw [if_pos rfl]
    refine Touched.trans ?_ (written_writeFullTable env _).touched
    exact Touched.trans ⟨_, _, _, _, _, rfl⟩ (touched_addFingerprints _ _)

theorem touched_resizeTableIfNecessary {env : Environment}
    (h : m.resizeTableIfNecessary env = some (resized, m')) : Touched m m' := by
  rcases resizeTableIfNecessary_eq h with ⟨-, rfl⟩ | ⟨-, hresize⟩
  · exact Touched.refl _
  · exact touched_resizeTable hresize

theorem Represents.resizeTableIfNecessary {env : Environment}
    (h : m.Represents S) (hresize : m.resizeTableIfNecessary env = some (resized, m'))
    (hroom : m.usedItems ≤ newTableSizeForCount m.usedItems ∨ 0 ∈ m'.hashTable) : m'.Represents S := by
  rcases resizeTableIfNecessary_eq hresize with ⟨-, rfl⟩ | ⟨-, hresize⟩
  · exact h
  · refine h.resizeTable hresize (hroom.imp_left fun hle => ?_)
    rwa [← h.used_eq]

end VisitedLinkMaster

/-! ## Runs -/

inductive TableOp
  | add (fingerprint : UInt64)
  | delete (fingerprint : UInt64) (updateFile : Bool)
  | resizeIfNecessary
  | resize (newSize : ℤ)
  | deleteAll
  deriving DecidableEq

namespace TableOp

def run (env : Environment) (m : VisitedLinkMaster) : TableOp → Option VisitedLinkMaster
  | add fingerprint => some (m.addFingerprint fingerprint).2
  | delete fingerprint updateFile => some (m.deleteFingerprint env fingerprint updateFile)
  | resizeIfNecessary => (m.resizeTableIfNecessary env).map Prod.snd
  | resize newSize => m.resizeTable env newSize
  | deleteAll => m.deleteAllURLs env

def IsNonzero : TableOp → Prop
  | add fingerprint => fingerprint ≠ 0
  | delete fingerprint _ => fingerprint ≠ 0
  | _ => True

instance : DecidablePred IsNonzero
  | add fingerprint => inferInstanceAs (Decidable (fingerprint ≠ 0))
  | delete fingerprint _ => inferInstanceAs (Decidable (fingerprint ≠ 0))
  | resizeIfNecessary => isTrue trivial
  | resize _ => isTrue trivial
  | deleteAll => isTrue trivial

def Deletes (fp : UInt64) : TableOp → Prop
  | delete fingerprint _ => fingerprint = fp
  | deleteAll => True
  | _ => False

@[simp] theorem not_deletes_add (fp g : UInt64) : ¬ (add g).Deletes fp := id

@[simp] theorem deletes_delete (fp g : UInt64) (updateFile : Bool) : (delete g updateFile).Deletes fp ↔ g = fp :=
  Iff.rfl

@[simp] theorem not_deletes_resizeIfNecessary (fp : UInt64) : ¬ resizeIfNecessary.Deletes fp := id

@[simp] theorem not_deletes_resize (fp : UInt64) (newSize : ℤ) : ¬ (resize newSize).Deletes fp := id

@[simp] theorem deletes_deleteAll (fp : UInt64) : deleteAll.Deletes fp := trivial

end TableOp

variable {env : Environment} {ops : List TableOp}

def Added (fp : UInt64) (ops : List TableOp) : Prop :=
  ∃ before after, ops = before ++ .add fp :: after ∧ ∀ op ∈ after, ¬ op.Deletes fp

/-- Operations on a table that keeps a free slot. -/
inductive TableRun (env : Environment) (m : VisitedLinkMaster) : List TableOp → VisitedLinkMaster → Prop
  | start : TableRun env m [] m
  | step {ops : List TableOp} {op : TableOp} {m' m'' : VisitedLinkMaster} :
      TableRun env m ops m' → op.IsNonzero → op.run env m' = some m'' → 0 ∈ m''.hashTable →
        TableRun env m (ops ++ [op]) m''

theorem added_concat {op : TableOp} :
    Added fp (ops ++ [op]) ↔ op = .add fp ∨ Added fp ops ∧ ¬ op.Deletes fp := by
  constructor
  · rintro ⟨before, after, heq, hafter⟩
    rcases List.eq_nil_or_concat after with rfl | ⟨after, last, rfl⟩
    · obtain ⟨-, hop⟩ := List.append_inj' heq rfl
      exact .inl (List.singleton_inj.1 hop)
    · rw [List.concat_eq_append, ← List.cons_append, ← List.append_assoc] at heq
      obtain ⟨hops, hop⟩ := List.append_inj' heq rfl
      rw [List.singleton_inj.1 hop]
      rw [List.concat_eq_append] at hafter
      exact .inr ⟨⟨before, after, hops, fun o ho => hafter o (List.mem_append_left _ ho)⟩,
        hafter last (List.mem_append_right _ List.mem_cons_self)⟩
  · rintro (rfl | ⟨⟨before, after, rfl, hafter⟩, hop⟩)
    · exact ⟨ops, [], rfl, fun o ho => (nomatch ho)⟩
    · refine ⟨before, after ++ [op], by rw [List.append_assoc, List.cons_append], fun o ho => ?_⟩
      rcases List.mem_append.1 ho with ho | ho
      · exact hafter o ho
      · rw [List.mem_singleton.1 ho]
        exact hop

/-- **One operation** changes what the table holds as the history says. -/
theorem represents_step {m m' : VisitedLinkMaster} {op : TableOp}
    (h : m.Represents {fp | Added fp ops}) (hroom : 0 ∈ m.hashTable)
    (hrun : op.run env m = some m') (hroom' : 0 ∈ m'.hashTable) :
    m'.Represents {fp | Added fp (ops ++ [op])} := by
  have hset : {fp | Added fp (ops ++ [op])} = {fp | op = .add fp ∨ Added fp ops ∧ ¬ op.Deletes fp} :=
    Set.ext fun fp => added_concat
  rw [hset]
  cases op with
  | add fingerprint =>
    cases hrun
    have hadd := h.addFingerprint fingerprint hroom
    refine ⟨hadd.found, hadd.used_eq, fun fp hne => (hadd.mem_iff fp hne).trans ?_⟩
    simp only [Set.mem_union, Set.mem_ofPred_eq, Set.mem_singleton_iff, TableOp.add.injEq,
      TableOp.not_deletes_add, not_false_eq_true, and_true, eq_comm, or_comm]
  | delete fingerprint updateFile =>
    cases hrun
    have hdelete := (h.deleteFingerprint env fingerprint hroom updateFile).1
    refine ⟨hdelete.found, hdelete.used_eq, fun fp hne => (hdelete.mem_iff fp hne).trans ?_⟩
    simp only [Set.mem_sdiff, Set.mem_ofPred_eq, Set.mem_singleton_iff, reduceCtorEq, false_or,
      TableOp.deletes_delete, eq_comm]
  | resizeIfNecessary =>
    obtain ⟨⟨resized, new⟩, hresize, rfl⟩ := Option.map_eq_some_iff.1 hrun
    have hsame := h.resizeTableIfNecessary hresize (.inr hroom')
    simpa only [reduceCtorEq, TableOp.not_deletes_resizeIfNecessary, not_false_eq_true, and_true, false_or] using hsame
  | resize newSize =>
    have hsame := h.resizeTable hrun (.inr hroom')
    simpa only [reduceCtorEq, TableOp.not_deletes_resize, not_false_eq_true, and_true, false_or] using hsame
  | deleteAll =>
    obtain ⟨⟨resized, new⟩, hresize, rfl⟩ := Option.map_eq_some_iff.1 hrun
    have hnone : {fp | TableOp.deleteAll = .add fp ∨ Added fp ops ∧ ¬ TableOp.deleteAll.Deletes fp} = ∅ := by
      simp only [reduceCtorEq, TableOp.deletes_deleteAll, not_true_eq_false, and_false, or_self, Set.ofPred_false]
    have hwritten : new.Written (if resized = true then new else (new.writeFullTable env).2) := by
      split
      · exact VisitedLinkMaster.Written.refl new
      · exact VisitedLinkMaster.written_writeFullTable env new
    rw [hnone]
    dsimp only at hroom' ⊢
    rw [hwritten.hashTable_eq] at hroom'
    exact ((VisitedLinkMaster.represents_empty rfl rfl).resizeTableIfNecessary hresize
      (.inr hroom')).written hwritten

theorem TableRun.represents {m m' : VisitedLinkMaster} {n : ℕ}
    (h : TableRun env m ops m') (ht : m.hashTable = List.replicate n 0) (hu : m.usedItems = 0) (hn : 0 < n) :
    m'.Represents {fp | Added fp ops} ∧ 0 ∈ m'.hashTable := by
  induction h with
  | start =>
    have hnone : {fp | Added fp []} = ∅ := by
      refine Set.eq_empty_of_forall_notMem fun fp hadded => ?_
      obtain ⟨before, after, heq, -⟩ := hadded
      exact absurd heq.symm (List.append_ne_nil_of_right_ne_nil _ (List.cons_ne_nil _ _))
    rw [hnone, ht]
    exact ⟨VisitedLinkMaster.represents_empty ht hu, List.mem_replicate.2 ⟨by omega, rfl⟩⟩
  | step _ _ hrun hroom ih => exact ⟨represents_step ih.1 ih.2 hrun hroom, hroom⟩

theorem TableRun.ne_zero_of_added {m m' : VisitedLinkMaster}
    (h : TableRun env m ops m') (hadded : Added fp ops) : fp ≠ 0 := by
  induction h with
  | start =>
    obtain ⟨before, after, heq, -⟩ := hadded
    exact absurd heq.symm (List.append_ne_nil_of_right_ne_nil _ (List.cons_ne_nil _ _))
  | step _ hop _ _ ih =>
    rcases added_concat.1 hadded with rfl | hbefore
    · exact hop
    · exact ih hbefore.1

theorem VisitedLinkMaster.initFromScratch_table {bytes salt : List UInt8} {n : ℕ}
    {suppressRebuild : Bool} {m : VisitedLinkMaster}
    (h : initFromScratch env bytes salt n suppressRebuild = some m) :
    m.hashTable = List.replicate n 0 ∧ m.usedItems = 0 := by
  obtain ⟨⟨created, new⟩, hcreate, h⟩ := Option.bind_eq_some_iff.1 h
  rcases createURLTable_eq hcreate with ⟨rfl, -⟩ | ⟨rfl, -, -, rfl⟩
  · cases h
  · dsimp only at h
    rw [if_pos rfl] at h
    split at h
    · split at h
      · have hwritten := written_writeFullTable env
          { initMembers bytes with salt := salt, hashTable := List.replicate (n : ℤ).toNat 0, usedItems := 0 }
        cases h
        exact ⟨hwritten.hashTable_eq, hwritten.usedItems_eq⟩
      · cases h
    · cases h
      exact ⟨rfl, rfl⟩

/-- **After any operations, a fingerprint is visited exactly if it was added and not deleted since**; the
count is that of the slots that are taken, no fingerprint stands in two, and each is behind its home with no
free slot between. -/
theorem isVisited_of_run {env : Environment} {bytes salt : List UInt8} {n : ℕ} {suppressRebuild : Bool}
    {m m' : VisitedLinkMaster} {ops : List TableOp} (hn : 0 < n)
    (hinit : VisitedLinkMaster.initFromScratch env bytes salt n suppressRebuild = some m)
    (hrun : TableRun env m ops m') :
    (∀ fp, isVisited m'.hashTable fp = true ↔ Added fp ops) ∧ m'.usedItems = m'.hashTable.countP (· ≠ 0) ∧
      (∀ i < m'.tableLength, ∀ j < m'.tableLength, m'.hashTable.getD i 0 ≠ 0 →
        m'.hashTable.getD i 0 = m'.hashTable.getD j 0 → i = j) ∧
      ∀ fp ∈ m'.hashTable, fp ≠ 0 → ∃ d < m'.tableLength,
        m'.hashTable.getD ((hashFingerprint fp m'.tableLength + d) % m'.tableLength) 0 = fp ∧
        ∀ j < d, m'.hashTable.getD ((hashFingerprint fp m'.tableLength + j) % m'.tableLength) 0 ≠ 0 := by
  obtain ⟨ht, hu⟩ := VisitedLinkMaster.initFromScratch_table hinit
  obtain ⟨hrep, -⟩ := hrun.represents ht hu hn
  have hslot : ∀ i < m'.tableLength, slotAt 0 m'.hashTable i = m'.hashTable.getD i 0 := fun i hi => by
    rw [slotAt, Nat.mod_eq_of_lt (show i < m'.hashTable.length from hi)]
  have hhome : ∀ fp d, m'.hashTable.getD ((hashFingerprint fp m'.tableLength + d) % m'.tableLength) 0 =
      slotAt 0 m'.hashTable (home fp + d) := fun fp d => by
    rw [hashFingerprint, Nat.mod_add_mod]
    rfl
  refine ⟨fun fp => ?_, hrep.used_eq, fun i hi j hj hne heq => ?_, fun fp hmem hne => ?_⟩
  · rw [hrep.isVisited_iff]
    exact and_iff_left_of_imp fun hadded => hrun.ne_zero_of_added hadded
  · rw [← hslot i hi] at hne heq
    rw [← hslot j hj] at heq
    exact hrep.found.unique i hi j hj hne heq
  · obtain ⟨i, hi, rfl⟩ := (mem_iff_slotAt 0).mp hmem
    obtain ⟨d, hd, hmod, hpath⟩ := hrep.found.reached i hi hne
    refine ⟨d, hd, ?_, fun j hj => ?_⟩
    · rw [hhome]
      exact slotAt_congr (hmod.trans (Nat.mod_eq_of_lt hi).symm)
    · rw [hhome]
      exact hpath j hj

/-- Surroundings where everything can be had, and every URL has the fingerprint of its first byte. -/
def plainEnvironment : Environment where
  md5 := fun _ spec => spec.headD 0 |>.toUInt64
  allocates := fun _ _ => true
  opens := true
  behindTable := 0
  isOffTheRecord := false

/-- Two fingerprints with one home in a table of five slots: the second one, which stands behind the end, is
found also after the first is deleted. -/
theorem isVisited_of_run_two : ∃ m m' : VisitedLinkMaster,
      VisitedLinkMaster.initFromScratch plainEnvironment [] (List.replicate 8 0) 5 true = some m ∧
      TableRun plainEnvironment m [.add 4, .add 9, .delete 4 false] m' ∧
      isVisited m'.hashTable 9 = true ∧ m'.usedItems = 1 := by
  have hfirst : ((VisitedLinkMaster.initFromScratch plainEnvironment [] (List.replicate 8 0) 5 true).map
      fun m => (m.addFingerprint 4).2.hashTable) = some [0, 0, 0, 0, 4] := by decide +kernel
  have hsecond : ((VisitedLinkMaster.initFromScratch plainEnvironment [] (List.replicate 8 0) 5 true).map
      fun m => ((m.addFingerprint 4).2.addFingerprint 9).2.hashTable) = some [9, 0, 0, 0, 4] := by decide +kernel
  have hthird : ((VisitedLinkMaster.initFromScratch plainEnvironment [] (List.replicate 8 0) 5 true).map
      fun m => (((m.addFingerprint 4).2.addFingerprint 9).2.deleteFingerprint plainEnvironment 4 false).hashTable) =
        some [0, 0, 0, 0, 9] := by decide +kernel
  obtain ⟨m, hinit, hfirst⟩ := Option.map_eq_some_iff.mp hfirst
  rw [hinit, Option.map_some] at hsecond hthird
  have hsecond := Option.some.inj hsecond
  have hthird := Option.some.inj hthird
  have hrun : TableRun plainEnvironment m ([.add 4] ++ [.add 9] ++ [.delete 4 false])
      (((m.addFingerprint 4).2.addFingerprint 9).2.deleteFingerprint plainEnvironment 4 false) :=
    .step (.step (.step .start (by decide) rfl (by rw [hfirst]; decide)) (by decide) rfl
      (by rw [hsecond]; decide)) (by decide) rfl (by rw [hthird]; decide)
  obtain ⟨hvisited, hused, -⟩ := isVisited_of_run (by decide) hinit hrun
  refine ⟨m, _, hinit, hrun, (hvisited 9).mpr ?_, ?_⟩
  · exact ⟨[.add 4], [.delete 4 false], rfl, by simp⟩
  · rw [hused, hthird]
    decide

end Chromium.VisitedLink
