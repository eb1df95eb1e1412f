import Chromium.Lib.ListIndex
import Chromium.Lib.Offsets
import Mathlib.Data.List.TakeWhile
import Mathlib.Data.UInt

/-!
# A set of prefixes

`chrome/browser/safe_browsing/prefix_set.cc`: a sorted list of 32-bit prefixes is kept as a few of them
in an index, and the others as 16-bit differences from the one before.

-/

namespace Chromium.SafeBrowsing

open List (append_assoc length_append mem_append mem_singleton pairwise_append pairwise_cons)

abbrev SBPrefix := Int32

def kMaxRun : ℕ := 100

structure PrefixSet where
  index : List (SBPrefix × ℕ)
  deltas : List UInt16
  checksum : UInt32

structure PrefixSetBuilder where
  prevPrefix : SBPrefix
  runLength : ℕ
  index : List (SBPrefix × ℕ)
  deltas : List UInt16
  checksum : UInt32

namespace PrefixSetBuilder

variable (s : PrefixSetBuilder)

def start (p : SBPrefix) : PrefixSetBuilder where
  prevPrefix := p
  runLength := 0
  index := [(p, 0)]
  deltas := []
  checksum := p.toUInt32 ^^^ 0

def push (p : SBPrefix) : PrefixSetBuilder :=
  if p = s.prevPrefix then s
  else
    let delta := (p - s.prevPrefix).toUInt32
    let delta16 := delta.toUInt16
    if delta ≠ delta16.toUInt32 ∨ kMaxRun ≤ s.runLength then
      { prevPrefix := p
        runLength := 0
        index := s.index ++ [(p, s.deltas.length)]
        deltas := s.deltas
        checksum := s.checksum ^^^ p.toUInt32 ^^^ UInt32.ofNat s.deltas.length }
    else
      { prevPrefix := p
        runLength := s.runLength + 1
        index := s.index
        deltas := s.deltas ++ [delta16]
        checksum := s.checksum ^^^ delta16.toUInt32 }

end PrefixSetBuilder

namespace PrefixSet

def new : List SBPrefix → PrefixSet
  | [] => ⟨[], [], 0⟩
  | p :: ps =>
    let s := ps.foldl PrefixSetBuilder.push (.start p)
    ⟨s.index, s.deltas, s.checksum⟩

def addDelta (current : SBPrefix) (delta : UInt16) : SBPrefix := current + delta.toUInt32.toInt32

/-- The scan of `Exists`: the deltas are added while a match is possible. -/
def scan (p : SBPrefix) : SBPrefix → List UInt16 → SBPrefix
  | current, [] => current
  | current, delta :: deltas =>
    if current < p then scan p (addDelta current delta) deltas else current

/-- `Exists`; `std::upper_bound` cuts the index, which is sorted, in two. -/
def existsPrefix (s : PrefixSet) (p : SBPrefix) : Bool :=
  let before := s.index.takeWhile fun entry => ¬p < entry.1
  let after := s.index.dropWhile fun entry => ¬p < entry.1
  match before.getLast? with
  | none => false
  | some (first, start) =>
    let bound := Lib.offsetsEnd s.deltas.length after
    if first = p then true else scan p first (Lib.slice s.deltas start bound) = p

/-- The loop of `GetPrefixes`. -/
def getPrefixesLoop (deltas : List UInt16) : List (SBPrefix × ℕ) → List SBPrefix
  | [] => []
  | (first, start) :: rest =>
    (Lib.slice deltas start (Lib.offsetsEnd deltas.length rest)).scanl addDelta first ++ getPrefixesLoop deltas rest

def getPrefixes (s : PrefixSet) : List SBPrefix := getPrefixesLoop s.deltas s.index

end PrefixSet

/-! ### The runs of a set -/

def runPrefixes (g : SBPrefix × List UInt16) : List SBPrefix := g.2.scanl PrefixSet.addDelta g.1

def allPrefixes (gs : List (SBPrefix × List UInt16)) : List SBPrefix := gs.flatMap runPrefixes

structure Runs (gs : List (SBPrefix × List UInt16)) (index : List (SBPrefix × ℕ))
    (deltas : List UInt16) : Prop where
  index : index = Lib.offsets 0 gs
  deltas : deltas = Lib.elements gs
  short : ∀ g ∈ gs, g.2.length ≤ kMaxRun

variable {gs : List (SBPrefix × List UInt16)} {p q : SBPrefix} {ps : List SBPrefix}

theorem addDelta_delta (p q : SBPrefix)
    (h : (q - p).toUInt32 = (q - p).toUInt32.toUInt16.toUInt32) :
    PrefixSet.addDelta p (q - p).toUInt32.toUInt16 = q := by
  rw [PrefixSet.addDelta, ← h, Int32.toInt32_toUInt32]
  grind

/-- The constructor after some prefixes: what it has is a list of runs, of which the last one is being
extended. -/
structure BuilderInv (ps : List SBPrefix) (s : PrefixSetBuilder) (gs : List (SBPrefix × List UInt16))
    (first : SBPrefix) (ds : List UInt16) : Prop where
  runs : Runs (gs ++ [(first, ds)]) s.index s.deltas
  runLength : s.runLength = ds.length
  last : (runPrefixes (first, ds)).getLast? = some s.prevPrefix
  sorted : (allPrefixes (gs ++ [(first, ds)])).Pairwise (· < ·)
  mem : ∀ p, p ∈ allPrefixes (gs ++ [(first, ds)]) ↔ p ∈ ps

theorem allPrefixes_append (gs hs : List (SBPrefix × List UInt16)) :
    allPrefixes (gs ++ hs) = allPrefixes gs ++ allPrefixes hs := List.flatMap_append

theorem allPrefixes_singleton (g : SBPrefix × List UInt16) : allPrefixes [g] = runPrefixes g := by
  rw [allPrefixes, List.flatMap_singleton]

variable {s : PrefixSetBuilder} {first : SBPrefix} {ds : List UInt16}

theorem builderInv_start (p : SBPrefix) : BuilderInv [p] (.start p) [] p [] where
  runs := ⟨rfl, rfl, by simp⟩
  runLength := rfl
  last := by simp [runPrefixes, PrefixSetBuilder.start]
  sorted := by simp [allPrefixes, runPrefixes]
  mem q := by simp [allPrefixes, runPrefixes]

theorem BuilderInv.le_prev (h : BuilderInv ps s gs first ds) :
    ∀ q ∈ allPrefixes (gs ++ [(first, ds)]), q ≤ s.prevPrefix := by
  obtain ⟨run, hrun⟩ := List.getLast?_eq_some_iff.1 h.last
  have hsorted := h.sorted
  rw [allPrefixes_append, allPrefixes_singleton, hrun, ← append_assoc] at hsorted ⊢
  intro q hq
  rcases mem_append.1 hq with hq | hq
  · exact Int32.le_of_lt ((pairwise_append.1 hsorted).2.2 q hq _ List.mem_cons_self)
  · rw [mem_singleton.1 hq]
    exact Int32.le_refl _

theorem runPrefixes_append (hlast : (runPrefixes (first, ds)).getLast? = some q)
    (h : (p - q).toUInt32 = (p - q).toUInt32.toUInt16.toUInt32) :
    runPrefixes (first, ds ++ [(p - q).toUInt32.toUInt16]) = runPrefixes (first, ds) ++ [p] := by
  rw [runPrefixes, List.getLast?_scanl, Option.some.injEq] at hlast
  rw [runPrefixes, List.scanl_append, hlast, List.scanl_singleton, addDelta_delta q p h]
  rfl

theorem BuilderInv.push (h : BuilderInv ps s gs first ds) (hp : s.prevPrefix ≤ p) :
    ∃ gs' first' ds', BuilderInv (ps ++ [p]) (s.push p) gs' first' ds' := by
  unfold PrefixSetBuilder.push
  split
  · -- a duplicate
    rename_i heq
    refine ⟨gs, first, ds, h.runs, h.runLength, h.last, h.sorted, fun q => ?_⟩
    have hprev : s.prevPrefix ∈ ps := by
      rw [← h.mem, allPrefixes_append, allPrefixes_singleton]
      exact List.mem_append_right _ (List.mem_of_getLast? h.last)
    rw [h.mem, mem_append, mem_singleton, heq]
    refine ⟨.inl, fun hq => hq.elim id ?_⟩
    rintro rfl
    exact hprev
  · rename_i hne
    have hlt : s.prevPrefix < p := Int32.lt_of_le_of_ne hp (Ne.symm hne)
    have hsorted : (allPrefixes (gs ++ [(first, ds)]) ++ [p]).Pairwise (· < ·) := by
      refine pairwise_append.2 ⟨h.sorted, List.pairwise_singleton _ _, fun q hq b hb => ?_⟩
      rw [mem_singleton.1 hb]
      exact Int32.lt_of_le_of_lt (h.le_prev q hq) hlt
    have hmem (q : SBPrefix) : q ∈ allPrefixes (gs ++ [(first, ds)]) ++ [p] ↔ q ∈ ps ++ [p] := by
      rw [mem_append, mem_append, h.mem]
    dsimp only
    split
    · -- another run
      have hall : allPrefixes (gs ++ [(first, ds)] ++ [(p, [])]) =
          allPrefixes (gs ++ [(first, ds)]) ++ [p] := by
        rw [allPrefixes_append _ [(p, [])], allPrefixes_singleton]
        rfl
      refine ⟨gs ++ [(first, ds)], p, [], ⟨?_, ?_, ?_⟩, rfl, rfl, ?_, ?_⟩
      · rw [Lib.offsets_append, ← h.runs.index, h.runs.deltas, Nat.zero_add]
        rfl
      · rw [Lib.elements_append, ← h.runs.deltas]
        exact (List.append_nil _).symm
      · intro g hg
        rcases mem_append.1 hg with hg | hg
        · exact h.runs.short g hg
        · rw [mem_singleton.1 hg]
          exact Nat.zero_le _
      · rw [hall]
        exact hsorted
      · rw [hall]
        exact hmem
    · -- a delta more
      rename_i hfits
      rw [not_or, not_not, not_le] at hfits
      obtain ⟨hdelta, hshort⟩ := hfits
      have hrun := runPrefixes_append h.last hdelta
      have hall : allPrefixes (gs ++ [(first, ds ++ [(p - s.prevPrefix).toUInt32.toUInt16])]) =
          allPrefixes (gs ++ [(first, ds)]) ++ [p] := by
        rw [allPrefixes_append, allPrefixes_singleton, hrun, allPrefixes_append,
          allPrefixes_singleton, append_assoc]
      refine ⟨gs, first, ds ++ [(p - s.prevPrefix).toUInt32.toUInt16], ⟨?_, ?_, ?_⟩, ?_, ?_, ?_, ?_⟩
      · rw [h.runs.index, Lib.offsets_append, Lib.offsets_append]
        rfl
      · rw [h.runs.deltas, Lib.elements_append, Lib.elements_append, append_assoc]
        simp [Lib.elements]
      · intro g hg
        rcases mem_append.1 hg with hg | hg
        · exact h.runs.short g (List.mem_append_left _ hg)
        · rw [mem_singleton.1 hg]
          have hlength := h.runLength
          rw [length_append, List.length_singleton]
          omega
      · rw [length_append, h.runLength]
        rfl
      · rw [hrun, List.getLast?_concat]
      · rw [hall]
        exact hsorted
      · rw [hall]
        exact hmem

/-- **The constructor makes a list of runs** with just the prefixes it was given, in order. -/
theorem new_runs (h : ps.Pairwise (· ≤ ·)) :
    ∃ gs, Runs gs (PrefixSet.new ps).index (PrefixSet.new ps).deltas ∧
      (allPrefixes gs).Pairwise (· < ·) ∧ ∀ p, p ∈ allPrefixes gs ↔ p ∈ ps := by
  cases ps with
  | nil => exact ⟨[], ⟨rfl, rfl, by simp⟩, List.Pairwise.nil, fun p => by simp [allPrefixes]⟩
  | cons p ps =>
    have hfold (done rest : List SBPrefix) (s : PrefixSetBuilder) (gs first ds)
        (hinv : BuilderInv done s gs first ds) (hle : ∀ q ∈ rest, s.prevPrefix ≤ q)
        (hrest : rest.Pairwise (· ≤ ·)) :
        ∃ gs first ds, BuilderInv (done ++ rest) (rest.foldl PrefixSetBuilder.push s) gs first ds := by
      induction rest generalizing done s gs first ds with
      | nil => exact ⟨gs, first, ds, by simpa using hinv⟩
      | cons q rest ih =>
        obtain ⟨gs', first', ds', hpush⟩ := hinv.push (hle q List.mem_cons_self)
        obtain ⟨hq, hrest'⟩ := pairwise_cons.1 hrest
        have hprev : (s.push q).prevPrefix = q := by
          unfold PrefixSetBuilder.push
          split
          · rename_i heq
            exact heq.symm
          · dsimp only
            split <;> rfl
        have hnext := ih (done ++ [q]) (s.push q) gs' first' ds' hpush (by rw [hprev]; exact hq) hrest'
        rwa [append_assoc] at hnext
    obtain ⟨hp, hps⟩ := pairwise_cons.1 h
    obtain ⟨gs, first, ds, hinv⟩ := hfold [p] ps _ _ _ _ (builderInv_start p) hp hps
    exact ⟨_, hinv.runs, hinv.sorted, hinv.mem⟩

/-! ### Reading a set -/

theorem getPrefixesLoop_offsets (gs : List (SBPrefix × List UInt16)) (xs : List UInt16) :
    PrefixSet.getPrefixesLoop (xs ++ Lib.elements gs) (Lib.offsets xs.length gs) = allPrefixes gs := by
  induction gs generalizing xs with
  | nil => rfl
  | cons g gs ih =>
    obtain ⟨first, ds⟩ := g
    have hrest := ih (xs ++ ds)
    rw [append_assoc, length_append] at hrest
    rw [Lib.offsets, PrefixSet.getPrefixesLoop, Lib.slice_offsets, allPrefixes, List.flatMap_cons]
    exact congrArg (runPrefixes (first, ds) ++ ·) hrest

theorem scan_eq_iff (h : (ds.scanl PrefixSet.addDelta first).Pairwise (· < ·)) :
    PrefixSet.scan p first ds = p ↔ p ∈ ds.scanl PrefixSet.addDelta first := by
  induction ds generalizing first with
  | nil => simp [PrefixSet.scan, eq_comm]
  | cons d ds ih =>
    rw [List.scanl_cons] at h ⊢
    obtain ⟨hfirst, htail⟩ := pairwise_cons.1 h
    rw [PrefixSet.scan, List.mem_cons]
    split
    · rename_i hlt
      rw [ih htail]
      exact ⟨.inr, fun hor => hor.resolve_left fun he => Int32.lt_irrefl (he ▸ hlt)⟩
    · rename_i hge
      exact ⟨fun he => .inl he.symm, fun hor => (hor.resolve_right fun hmem => hge (hfirst p hmem)).symm⟩

/-- All the prefixes of some runs lie beyond one that is before the first of them. -/
theorem lt_of_mem_allPrefixes (hsorted : (allPrefixes gs).Pairwise (· < ·))
    (hfirst : ∀ g ∈ gs.head?, p < g.1) : ∀ q ∈ allPrefixes gs, p < q := by
  cases gs with
  | nil => simp [allPrefixes]
  | cons g gs =>
    obtain ⟨first, ds⟩ := g
    have hp : p < first := hfirst (first, ds) rfl
    have hall : allPrefixes ((first, ds) :: gs) =
        first :: ((runPrefixes (first, ds)).tail ++ allPrefixes gs) := by
      rw [allPrefixes, List.flatMap_cons, runPrefixes]
      cases ds <;> simp [allPrefixes]
    rw [hall] at hsorted ⊢
    intro q hq
    rcases List.mem_cons.1 hq with rfl | hq
    · exact hp
    · exact Int32.lt_trans hp ((pairwise_cons.1 hsorted).1 q hq)

theorem first_mem_runPrefixes (g : SBPrefix × List UInt16) : g.1 ∈ runPrefixes g :=
  List.mem_of_head? (by rw [runPrefixes, List.head?_scanl])

/-- **A prefix is found just when a run has it**: no run before the one that the index leads to can
have it, and none behind. -/
theorem existsPrefix_runs {t : PrefixSet} (h : Runs gs t.index t.deltas)
    (hsorted : (allPrefixes gs).Pairwise (· < ·)) (p : SBPrefix) :
    t.existsPrefix p = true ↔ p ∈ allPrefixes gs := by
  have hsplit : (gs.takeWhile fun g => ¬p < g.1) ++ (gs.dropWhile fun g => ¬p < g.1) = gs :=
    List.takeWhile_append_dropWhile
  have hafter : ∀ g ∈ (gs.dropWhile fun g => ¬p < g.1).head?, p < g.1 := by
    intro g hg
    have hneg := List.head?_dropWhile_not (fun g : SBPrefix × List UInt16 => decide (¬p < g.1)) gs
    rw [Option.mem_def.1 hg] at hneg
    simpa using hneg
  have hbefore : ∀ g ∈ gs.takeWhile fun g => ¬p < g.1, ¬p < g.1 := by
    intro g hg
    simpa using List.mem_takeWhile_imp hg
  unfold PrefixSet.existsPrefix
  rw [h.index, h.deltas, Lib.takeWhile_offsets fun a => ¬p < a, Lib.dropWhile_offsets fun a => ¬p < a]
  generalize (gs.takeWhile fun g => decide (¬p < g.1)) = before at *
  generalize (gs.dropWhile fun g => decide (¬p < g.1)) = after at *
  subst hsplit
  rw [allPrefixes_append] at hsorted ⊢
  obtain ⟨hsortedBefore, hsortedAfter, -⟩ := pairwise_append.1 hsorted
  have hgt := lt_of_mem_allPrefixes hsortedAfter hafter
  have hnot : p ∉ allPrefixes after := fun hp => Int32.lt_irrefl (hgt p hp)
  rcases List.eq_nil_or_concat before with rfl | ⟨before, ⟨first, ds⟩, rfl⟩
  · simpa [Lib.offsets, allPrefixes] using hnot
  · rw [List.concat_eq_append] at *
    rw [allPrefixes_append, allPrefixes_singleton] at hsortedBefore ⊢
    obtain ⟨-, hrun, hlt⟩ := pairwise_append.1 hsortedBefore
    have hle : ¬p < first := hbefore (first, ds) (by simp)
    have hnot' : p ∉ allPrefixes before := fun hp =>
      hle (hlt p hp first (first_mem_runPrefixes (first, ds)))
    have hslice := Lib.slice_offsets first ds after (Lib.elements before)
    have helements : Lib.elements (before ++ [(first, ds)] ++ after) =
        Lib.elements before ++ Lib.elements ((first, ds) :: after) := by
      rw [append_assoc, Lib.elements_append]
      rfl
    have hlength : 0 + (Lib.elements (before ++ [(first, ds)])).length =
        (Lib.elements before).length + ds.length := by
      simp [Lib.elements]
    rw [Lib.offsets_append, helements, hlength, Nat.zero_add]
    simp only [Lib.offsets, List.getLast?_concat]
    rw [hslice]
    have hscan := scan_eq_iff (p := p) hrun
    rw [mem_append, mem_append]
    split
    · rename_i he
      have hmem : p ∈ runPrefixes (first, ds) := he ▸ first_mem_runPrefixes (first, ds)
      exact ⟨fun _ => .inl (.inr hmem), fun _ => rfl⟩
    · rw [decide_eq_true_iff, hscan]
      exact ⟨fun hp => .inl (.inr hp), fun hp => (hp.resolve_right hnot).resolve_left hnot'⟩

theorem getPrefixes_runs {t : PrefixSet} (h : Runs gs t.index t.deltas) :
    t.getPrefixes = allPrefixes gs := by
  have hloop := getPrefixesLoop_offsets gs []
  rw [PrefixSet.getPrefixes, h.index, h.deltas]
  exact hloop

/-- The number of deltas of an index entry: up to where those of the next one start. -/
def PrefixSet.numDeltas (s : PrefixSet) (i : ℕ) : ℕ :=
  Lib.offsetsEnd s.deltas.length (s.index.drop (i + 1)) - ((s.index[i]?).map Prod.snd).getD 0

theorem numDeltas_runs {t : PrefixSet} (h : Runs gs t.index t.deltas) (i : ℕ)
    (hi : i < t.index.length) : t.numDeltas i ≤ kMaxRun := by
  rw [h.index, Lib.length_offsets] at hi
  obtain ⟨before, ⟨first, ds⟩, after, rfl, rfl⟩ := Lib.exists_cut hi
  have hlength := Lib.length_offsets before 0
  have hend := Lib.offsetsEnd_cons first ds after (Lib.elements before).length
  rw [← length_append, ← Lib.elements_append] at hend
  rw [PrefixSet.numDeltas, h.index, h.deltas, Lib.offsets_append, Nat.zero_add, Lib.offsets]
  generalize Lib.offsets ((Lib.elements before).length + ds.length) after = rest at *
  have hdrop : (Lib.offsets 0 before ++ (first, (Lib.elements before).length) :: rest).drop
      (before.length + 1) = rest := by
    rw [← hlength, ← List.drop_drop, List.drop_left]
    rfl
  have hget : (Lib.offsets 0 before ++ (first, (Lib.elements before).length) :: rest)[before.length]? =
      some (first, (Lib.elements before).length) := by
    rw [← hlength, List.getElem?_append_right le_rfl, Nat.sub_self]
    rfl
  rw [hdrop, hget, hend, Option.map_some, Option.getD_some, Nat.add_sub_cancel_left]
  exact h.short (first, ds) (by simp)

/-- **A set of prefixes**: it has just the prefixes that it was made from, gives them back in order
without duplicates, and no index entry has more than `kMaxRun` deltas. -/
theorem prefixSet_spec (ps : List SBPrefix) (h : ps.Pairwise (· ≤ ·)) :
    (∀ p, (PrefixSet.new ps).existsPrefix p = true ↔ p ∈ ps) ∧ (PrefixSet.new ps).getPrefixes = ps.dedup ∧
      ∀ i < (PrefixSet.new ps).index.length, (PrefixSet.new ps).numDeltas i ≤ kMaxRun := by
  obtain ⟨gs, hruns, hsorted, hmem⟩ := new_runs h
  refine ⟨fun p => (existsPrefix_runs hruns hsorted p).trans (hmem p), ?_, numDeltas_runs hruns⟩
  rw [getPrefixes_runs hruns]
  have hnodup : (allPrefixes gs).Nodup :=
    List.Pairwise.imp (fun hlt => Int32.ne_of_lt hlt) hsorted
  have hperm : (allPrefixes gs).Perm ps.dedup :=
    (List.perm_ext_iff_of_nodup hnodup ps.nodup_dedup).mpr fun p => (hmem p).trans List.mem_dedup.symm
  exact hperm.eq_of_pairwise (fun a b _ _ => Int32.le_antisymm)
    (hsorted.imp Int32.le_of_lt) (h.sublist ps.dedup_sublist)

theorem prefixSet_spec_extremes :
    [(-2147483648 : SBPrefix), -7, -7, 5, 2147483647].Pairwise (· ≤ ·) ∧
      (PrefixSet.new [-2147483648, -7, -7, 5, 2147483647]).getPrefixes =
        [-2147483648, -7, 5, 2147483647] := by
  have hsorted : [(-2147483648 : SBPrefix), -7, -7, 5, 2147483647].Pairwise (· ≤ ·) := by
    decide +kernel
  exact ⟨hsorted, (prefixSet_spec _ hsorted).2.1.trans (by decide +kernel)⟩

end Chromium.SafeBrowsing
