import Chromium.Base.Metrics.Histogram
import Chromium.Base.PickleRoundTrip

/-!
# Histograms from a renderer

What `DeserializeHistogramInfo` does with any bytes.  It makes no fault before it looks the histogram up, and changes nothing
where it says no.  From there on everything hangs on numbers that only debug builds compare: how many counts were sent, how
many buckets were declared, and what a histogram of that name is.  `Agrees` is that they do.
-/

namespace Chromium.Base.Metrics

open Lib

variable {arithmetic : Arithmetic} {abi : Abi} {recorder : StatisticsRecorder} {info : HistogramInfo} {name : List UInt8}
  {h h' : Histogram} {classType : ClassType} {minimum maximum flags : Int32} {bucketCount : ℕ}

def ClassType.toInt32 : ClassType → Int32
  | .histogram => 0
  | .linearHistogram => 1
  | .booleanHistogram => 2
  | .customHistogram => 3

/-! ## Counts that are added -/

theorem addCounts_of_le {counts other : List Int32} (hle : counts.length ≤ other.length) :
    Gives (fun sums => sums.1 = List.zipWith (· + ·) counts other) (SampleSet.addCounts counts other) := by
  induction counts generalizing other with
  | nil => exact .ok rfl
  | cons count counts ih =>
    cases other with
    | nil => exact absurd hle (Nat.not_succ_le_zero _)
    | cons otherCount other =>
      refine (ih (Nat.le_of_succ_le_succ hle)).map fun sums hsums => ?_
      rw [List.zipWith_cons_cons, ← hsums]

theorem addCounts_of_lt {counts other : List Int32} (hlt : other.length < counts.length) :
    SampleSet.addCounts counts other = .error .index := by
  induction counts generalizing other with
  | nil => exact nomatch hlt
  | cons count counts ih =>
    cases other with
    | nil => rfl
    | cons otherCount other =>
      rw [SampleSet.addCounts, ih (Nat.lt_of_succ_lt_succ hlt)]
      rfl

/-- What a histogram was made with stays, and its counts are these. -/
structure Histogram.Counts (h : Histogram) (counts : List Int32) (h' : Histogram) : Prop where
  classType : h'.classType = h.classType
  declaredMin : h'.declaredMin = h.declaredMin
  declaredMax : h'.declaredMax = h.declaredMax
  bucketCount : h'.bucketCount = h.bucketCount
  flags : h'.flags = h.flags
  counts : h'.sample.counts = counts

theorem addSampleSet_of_le {other : SampleSet} (hle : h.bucketCount ≤ other.counts.length) :
    Gives (h.Counts (List.zipWith (· + ·) h.sample.counts other.counts)) (h.addSampleSet other) := by
  have hcounts : h.sample.counts.length ≤ other.counts.length := h.length_counts.trans_le hle
  exact (addCounts_of_le hcounts).map fun sums hsums => ⟨rfl, rfl, rfl, rfl, rfl, hsums⟩

theorem addSampleSet_of_lt {other : SampleSet} (hlt : other.counts.length < h.bucketCount) :
    h.addSampleSet other = .error .index := by
  have hcounts : other.counts.length < h.sample.counts.length := hlt.trans_eq h.length_counts.symm
  rw [Histogram.addSampleSet, addCounts_of_lt hcounts]
  rfl

/-! ## A histogram that is made -/

theorem setBucketRange_gives {i : ℕ} (value : Int32) (hlt : i ≤ h.bucketCount) :
    Gives (h.Counts h.sample.counts) (h.setBucketRange i value) := by
  have hi : i < h.ranges.length := by
    rw [h.length_ranges]
    exact Nat.lt_succ_of_le hlt
  rw [Histogram.setBucketRange, if_pos hi]
  exact .ok ⟨rfl, rfl, rfl, rfl, rfl, rfl⟩

theorem Histogram.Counts.trans {counts : List Int32} {h'' : Histogram} (hfirst : h.Counts h.sample.counts h')
    (hsecond : h'.Counts counts h'') : h.Counts counts h'' :=
  ⟨hsecond.classType.trans hfirst.classType, hsecond.declaredMin.trans hfirst.declaredMin,
    hsecond.declaredMax.trans hfirst.declaredMax, hsecond.bucketCount.trans hfirst.bucketCount,
    hsecond.flags.trans hfirst.flags, hsecond.counts⟩

theorem foldlM_gives {β : Type} {P : β → Prop} {f : β → ℕ → Except Fault β} (l : List ℕ)
    (hturn : ∀ b, ∀ i ∈ l, P b → Gives P (f b i)) {b : β} (hb : P b) : Gives P (l.foldlM f b) := by
  induction l generalizing b with
  | nil => exact .ok hb
  | cons i l ih =>
    refine (hturn b i List.mem_cons_self hb).bind fun b' hb' => ?_
    exact ih (fun b'' j hmem => hturn b'' j (List.mem_cons_of_mem _ hmem)) hb'

theorem resetRangeChecksum_gives (arithmetic : Arithmetic) (h : Histogram) :
    Gives (h.Counts h.sample.counts) (h.resetRangeChecksum arithmetic) := by
  have hchecksum : Gives (fun _ => True) (h.calculateRangeChecksum arithmetic) := by
    refine foldlM_gives _ (fun sum index hmem _ => ?_) trivial
    have hlt : index < h.ranges.length := by
      rw [h.length_ranges]
      exact Nat.lt_succ_of_lt (List.mem_range.1 hmem)
    rw [List.getElem?_eq_getElem hlt]
    exact .ok trivial
  exact hchecksum.map fun checksum _ => ⟨rfl, rfl, rfl, rfl, rfl, rfl⟩

theorem initializeExponential_gives (arithmetic : Arithmetic) (hle : 2 ≤ h.bucketCount) :
    Gives (h.Counts h.sample.counts) (h.initializeExponential arithmetic) := by
  refine (setBucketRange_gives h.declaredMin (Nat.le_of_succ_le hle)).bind fun h₁ h₁counts => ?_
  have hloop : Gives (fun state : Histogram × Int32 => h.Counts h.sample.counts state.1)
      ((List.range' 2 (h₁.bucketCount - 2)).foldlM (Histogram.nextBucket arithmetic) (h₁, h₁.declaredMin)) := by
    refine foldlM_gives _ (fun state i hmem hstate => ?_) h₁counts
    have hi : i ≤ state.1.bucketCount := by
      have := List.mem_range'_1.1 hmem
      rw [hstate.bucketCount]
      rw [h₁counts.bucketCount] at this
      omega
    refine (setBucketRange_gives _ hi).map fun h₂ h₂counts => ?_
    exact hstate.trans (hstate.counts ▸ h₂counts)
  refine hloop.bind fun state hstate => ?_
  exact (resetRangeChecksum_gives arithmetic state.1).imp fun h₃ h₃counts => hstate.trans (hstate.counts ▸ h₃counts)

theorem initializeLinear_gives (arithmetic : Arithmetic) (h : Histogram) :
    Gives (h.Counts h.sample.counts) (h.initializeLinear arithmetic) := by
  have hloop : Gives (h.Counts h.sample.counts) ((List.range' 1 (h.bucketCount - 1)).foldlM
      (fun h i => h.setBucketRange i (arithmetic.linearStart h.declaredMin h.declaredMax h.bucketCount i)) h) := by
    refine foldlM_gives _ (fun h₁ i hmem h₁counts => ?_) ⟨rfl, rfl, rfl, rfl, rfl, rfl⟩
    have hi : i ≤ h₁.bucketCount := by
      have := List.mem_range'_1.1 hmem
      rw [h₁counts.bucketCount]
      omega
    exact (setBucketRange_gives _ hi).imp fun h₂ h₂counts => h₁counts.trans (h₁counts.counts ▸ h₂counts)
  refine hloop.bind fun h₁ h₁counts => ?_
  exact (resetRangeChecksum_gives arithmetic h₁).imp fun h₂ h₂counts => h₁counts.trans (h₁counts.counts ▸ h₂counts)

theorem initializeBucketRange_gives (arithmetic : Arithmetic) (hle : 2 ≤ h.bucketCount) :
    Gives (h.Counts h.sample.counts) (h.initializeBucketRange arithmetic) := by
  unfold Histogram.initializeBucketRange
  split
  · exact initializeExponential_gives arithmetic hle
  · exact initializeLinear_gives arithmetic h

/-- A new histogram with these arguments. -/
structure Fresh (classType : ClassType) (minimum maximum : Int32) (bucketCount : ℕ) (flags : Int32) (h : Histogram) : Prop where
  classType : h.classType = classType
  declaredMin : h.declaredMin = if minimum < 1 then 1 else minimum
  declaredMax : h.declaredMax = if kSampleTypeMax - 1 < maximum then kSampleTypeMax - 1 else maximum
  counts : h.sample.counts = List.replicate bucketCount 0
  bucketCount : h.bucketCount = bucketCount
  flags : h.flags = flags

/-- **A histogram that is not there is made unless it has too many buckets.** -/
theorem factoryGet_of_none (arithmetic : Arithmetic) (classType : ClassType) (minimum maximum flags : Int32) (hfind : recorder.findHistogram name = none) (hle : 2 ≤ bucketCount)
    (hlt : bucketCount < kBucketCountMax) :
    Gives (fun found => Fresh classType minimum maximum bucketCount flags found.2 ∧ found.1 = recorder.put name found.2)
      (recorder.factoryGet arithmetic classType name minimum maximum bucketCount flags) := by
  rw [StatisticsRecorder.factoryGet, hfind]
  dsimp only
  rw [Histogram.new, if_pos hlt]
  refine (initializeBucketRange_gives arithmetic hle).bind fun h hcounts => .ok ⟨?_, rfl⟩
  refine ⟨hcounts.classType, hcounts.declaredMin, hcounts.declaredMax, hcounts.counts, hcounts.bucketCount, ?_⟩
  change h.flags ||| flags = flags
  rw [hcounts.flags]
  exact Int32.zero_or

theorem factoryGet_of_le (hfind : recorder.findHistogram name = none) (hle : kBucketCountMax ≤ bucketCount) :
    recorder.factoryGet arithmetic classType name minimum maximum bucketCount flags = .error .check := by
  rw [StatisticsRecorder.factoryGet, hfind]
  dsimp only
  rw [Histogram.new, if_neg (Nat.not_lt.2 hle)]
  rfl

theorem factoryGet_of_some (hfind : recorder.findHistogram name = some h) :
    recorder.factoryGet arithmetic classType name minimum maximum bucketCount flags = .ok (recorder, h) := by
  rw [StatisticsRecorder.factoryGet, hfind]

/-! ## The end of the call -/

theorem aggregate_of_source (hsource : h.IsIPCSource) : aggregate info (recorder, h) = .ok ⟨true, recorder, some h⟩ := by
  rw [aggregate, if_pos hsource]

theorem aggregate_of_le (recorder : StatisticsRecorder) (hsource : ¬h.IsIPCSource) (hle : h.bucketCount ≤ info.sample.counts.length) :
    ∃ h', h.Counts (List.zipWith (· + ·) h.sample.counts info.sample.counts) h' ∧
      aggregate info (recorder, h) = .ok ⟨true, recorder.put info.name h', some h'⟩ := by
  obtain ⟨h', heq, hcounts⟩ := addSampleSet_of_le hle
  refine ⟨h', hcounts, ?_⟩
  rw [aggregate, if_neg hsource, heq]
  rfl

theorem aggregate_of_lt (hsource : ¬h.IsIPCSource) (hlt : info.sample.counts.length < h.bucketCount) :
    aggregate info (recorder, h) = .error .index := by
  rw [aggregate, if_neg hsource, addSampleSet_of_lt hlt]
  rfl

/-! ## What is asked of the factories -/

namespace HistogramInfo

def KnownType (info : HistogramInfo) : Prop :=
  info.histogramType = 0 ∨ info.histogramType = 1 ∨ info.histogramType = 2

/-- The type, the limits and the number of buckets of the histogram that is asked for. -/
def request (info : HistogramInfo) : ClassType × Int32 × Int32 × ℕ :=
  if info.histogramType = 2 then (.booleanHistogram, 1, 2, 3)
  else
    (if info.histogramType = 0 then .histogram else .linearHistogram, if info.declaredMin < 1 then 1 else info.declaredMin,
      if kSampleTypeMax - 1 < info.declaredMax then kSampleTypeMax - 1 else info.declaredMax, info.bucketCount)

def newFlags (info : HistogramInfo) : Int32 := info.pickleFlags &&& ~~~kIPCSerializationSourceFlag

theorem newFlags_and_source (info : HistogramInfo) : info.newFlags &&& kIPCSerializationSourceFlag = 0 := by
  rw [newFlags, Int32.and_assoc, show ~~~kIPCSerializationSourceFlag &&& kIPCSerializationSourceFlag = 0 by decide]
  exact Int32.and_zero

end HistogramInfo

/-- **What the call comes to when the pickle is read and its values are not turned down.** -/
theorem deserializeHistogramInfo_of_known {bytes : List UInt8} (hread : readHistogramInfo abi bytes = some info)
    (hne : bytes ≠ []) (hvalues : ¬info.ValuesError) (hknown : info.KnownType) :
    deserializeHistogramInfo arithmetic abi recorder bytes =
      recorder.factoryGet arithmetic info.request.1 info.name info.request.2.1 info.request.2.2.1 info.request.2.2.2
        info.newFlags >>= aggregate info := by
  rw [deserializeHistogramInfo, if_neg hne, hread]
  dsimp only
  rw [if_neg hvalues]
  rcases hknown with htype | htype | htype
  all_goals rw [HistogramInfo.request, htype]
  · rfl
  · rfl
  · rfl

theorem deserializeHistogramInfo_of_unknown {bytes : List UInt8}
    (h : ∀ info, bytes ≠ [] → readHistogramInfo abi bytes = some info → ¬info.ValuesError → ¬info.KnownType) :
    deserializeHistogramInfo arithmetic abi recorder bytes = .ok ⟨false, recorder, none⟩ := by
  unfold deserializeHistogramInfo
  split
  · rfl
  next hne =>
  split
  · rfl
  next info hread =>
  split
  · rfl
  next hvalues =>
  have htype := h info hne hread hvalues
  rw [HistogramInfo.KnownType, not_or, not_or] at htype
  dsimp only
  rw [if_neg htype.1, if_neg htype.2.1, if_neg htype.2.2]

/-! ## What the call is for -/

namespace HistogramInfo

/-- The type, the limits and the number of buckets are those of the histogram. -/
structure Describes (info : HistogramInfo) (h : Histogram) : Prop where
  histogramType : h.classType.toInt32 = info.histogramType
  declaredMin : h.declaredMin = info.declaredMin
  declaredMax : h.declaredMax = info.declaredMax
  bucketCount : h.bucketCount = info.bucketCount

/-- The histogram is the one that is described, and has the counts that were sent on top of those before. -/
structure AddedTo (info : HistogramInfo) (before : List Int32) (h : Histogram) : Prop extends info.Describes h where
  length : info.sample.counts.length = h.bucketCount
  counts : h.sample.counts = List.zipWith (· + ·) before info.sample.counts

def countsBefore (info : HistogramInfo) (recorder : StatisticsRecorder) : List Int32 :=
  match recorder.findHistogram info.name with
  | some h => h.sample.counts
  | none => List.replicate info.bucketCount 0

/-- What was sent agrees with the histogram of this name, or one can be made that it agrees with. -/
def Agrees (info : HistogramInfo) (recorder : StatisticsRecorder) : Prop :=
  match recorder.findHistogram info.name with
  | some h => h.IsIPCSource ∨ info.Describes h ∧ info.sample.counts.length = h.bucketCount
  | none =>
    info.bucketCount < kBucketCountMax ∧ info.declaredMax < kSampleTypeMax ∧ info.sample.counts.length = info.bucketCount ∧
      (info.histogramType = 2 → info.declaredMin = 1 ∧ info.declaredMax = 2 ∧ info.bucketCount = 3)

end HistogramInfo

/-- The call makes no fault; if it says yes the histogram is from this process or the counts were added to the one that is
described, and if it says no no histogram has changed. -/
def Aggregates (arithmetic : Arithmetic) (abi : Abi) (recorder : StatisticsRecorder) (bytes : List UInt8) : Prop :=
  Gives (fun d : Deserialized =>
      (d.result = true → ∃ info, readHistogramInfo abi bytes = some info ∧
        ((∃ h, recorder.findHistogram info.name = some h ∧ h.IsIPCSource) ∨
          ∃ h, d.recorder = recorder.put info.name h ∧ d.renderHistogram = some h ∧
            info.AddedTo (info.countsBefore recorder) h)) ∧
      (d.result = false → ∀ name, d.recorder.findHistogram name = recorder.findHistogram name))
    (deserializeHistogramInfo arithmetic abi recorder bytes)

def Adds (info : HistogramInfo) (recorder : StatisticsRecorder) (before : List Int32) (d : Deserialized) : Prop :=
  d.result = true ∧ ∃ h, d.recorder = recorder.put info.name h ∧ d.renderHistogram = some h ∧ info.AddedTo before h

/-- **The counts are added to the histogram that is described if and only if the one that was found is described and has as
many buckets as counts were sent.** -/
theorem aggregate_adds_iff {found : StatisticsRecorder} {before : List Int32} (hsource : ¬h.IsIPCSource)
    (hput : ∀ h', found.put info.name h' = recorder.put info.name h')
    (hbefore : h.bucketCount = info.bucketCount → before = h.sample.counts) :
    Gives (Adds info recorder before) (aggregate info (found, h)) ↔
      info.Describes h ∧ info.sample.counts.length = h.bucketCount := by
  rcases Nat.lt_or_ge info.sample.counts.length h.bucketCount with hlt | hle
  · rw [aggregate_of_lt hsource hlt]
    refine iff_of_false ?_ fun hand => hlt.ne hand.2
    rintro ⟨d, heq, -⟩
    cases heq
  obtain ⟨h', hcounts, heq⟩ := aggregate_of_le found hsource hle
  rw [heq]
  constructor
  · rintro ⟨d, hd, -, h'', -, hrender, hadded⟩
    cases hd
    cases hrender
    refine ⟨⟨?_, ?_, ?_, ?_⟩, hadded.length.trans hcounts.bucketCount⟩
    · rw [← hcounts.classType]
      exact hadded.histogramType
    · exact hcounts.declaredMin.symm.trans hadded.declaredMin
    · exact hcounts.declaredMax.symm.trans hadded.declaredMax
    · exact hcounts.bucketCount.symm.trans hadded.bucketCount
  · rintro ⟨hdescribes, hlength⟩
    refine .ok ⟨rfl, h', hput h', rfl, ⟨?_, ?_, ?_, ?_⟩, hlength.trans hcounts.bucketCount.symm, ?_⟩
    · rw [hcounts.classType]
      exact hdescribes.histogramType
    · exact hcounts.declaredMin.trans hdescribes.declaredMin
    · exact hcounts.declaredMax.trans hdescribes.declaredMax
    · exact hcounts.bucketCount.trans hdescribes.bucketCount
    · rw [hcounts.counts, hbefore hdescribes.bucketCount]

theorem result_of_aggregate {found : StatisticsRecorder × Histogram} {d : Deserialized} (heq : aggregate info found = .ok d) :
    d.result = true := by
  unfold aggregate at heq
  split at heq
  · cases heq
    rfl
  · cases hadd : found.2.addSampleSet info.sample with
    | error e =>
      rw [hadd] at heq
      cases heq
    | ok h =>
      rw [hadd] at heq
      cases heq
      rfl

theorem put_put (recorder : StatisticsRecorder) (name : List UInt8) (h h' : Histogram) :
    (recorder.put name h).put name h' = recorder.put name h' := by
  unfold StatisticsRecorder.put
  cases recorder.histograms with
  | none => rfl
  | some histograms => exact congrArg (fun m => StatisticsRecorder.mk (some m)) (AList.insert_insert ..)

/-! ## Limits -/

theorem not_kSampleTypeMax_lt (maximum : Int32) (hlt : maximum < kSampleTypeMax) : ¬kSampleTypeMax - 1 < maximum := by
  rw [Int32.lt_iff_toInt_lt] at hlt ⊢
  have hmax : kSampleTypeMax.toInt = 2147483647 := by decide
  have hmax' : (kSampleTypeMax - 1).toInt = 2147483646 := by decide
  omega

theorem limited_eq_iff (maximum : Int32) :
    (if kSampleTypeMax - 1 < maximum then kSampleTypeMax - 1 else maximum) = maximum ↔ maximum < kSampleTypeMax := by
  constructor
  · intro heq
    split at heq
    · next hlt => rw [← heq] at hlt; cases hlt
    · next hnot =>
      rw [Int32.lt_iff_toInt_lt] at hnot ⊢
      have hmax : kSampleTypeMax.toInt = 2147483647 := by decide
      have hmax' : (kSampleTypeMax - 1).toInt = 2147483646 := by decide
      omega
  · exact fun hlt => if_neg (not_kSampleTypeMax_lt maximum hlt)

theorem limited_limited (maximum : Int32) :
    (if kSampleTypeMax - 1 < (if kSampleTypeMax - 1 < maximum then kSampleTypeMax - 1 else maximum) then kSampleTypeMax - 1
      else if kSampleTypeMax - 1 < maximum then kSampleTypeMax - 1 else maximum) =
      if kSampleTypeMax - 1 < maximum then kSampleTypeMax - 1 else maximum := by
  by_cases hlt : kSampleTypeMax - 1 < maximum
  · rw [if_pos hlt, ite_self]
  · rw [if_neg hlt, if_neg hlt]

theorem not_lt_one {minimum : Int32} (hpos : ¬minimum ≤ 0) : ¬minimum < 1 := by
  rw [Int32.le_iff_toInt_le] at hpos
  rw [Int32.lt_iff_toInt_lt]
  have hzero : (0 : Int32).toInt = 0 := by decide
  have hone : (1 : Int32).toInt = 1 := by decide
  omega

/-- A boolean histogram that is described as such is asked for with as many buckets as are sent, as any other. -/
theorem HistogramInfo.bucketCount_request (info : HistogramInfo) (hboolean : info.histogramType = 2 → info.bucketCount = 3) :
    info.request.2.2.2 = info.bucketCount := by
  unfold HistogramInfo.request
  split
  · next htwo => exact (hboolean htwo).symm
  · rfl

theorem two_le_request (hvalues : ¬info.ValuesError) : 2 ≤ info.request.2.2.2 := by
  unfold HistogramInfo.request
  split
  · decide
  · unfold HistogramInfo.ValuesError at hvalues
    dsimp only
    omega

/-- **A new histogram is the one that is described if and only if no limit was corrected, and a boolean one is described as
such.** -/
theorem describes_fresh_iff (hvalues : ¬info.ValuesError) (hknown : info.KnownType)
    (hfresh : Fresh info.request.1 info.request.2.1 info.request.2.2.1 info.request.2.2.2 flags h) :
    info.Describes h ↔ info.declaredMax < kSampleTypeMax ∧
      (info.histogramType = 2 → info.declaredMin = 1 ∧ info.declaredMax = 2 ∧ info.bucketCount = 3) := by
  have hpos : ¬info.declaredMin ≤ 0 := fun hle => hvalues (.inr (.inl hle))
  by_cases htype : info.histogramType = 2
  · have hrequest : info.request = (.booleanHistogram, 1, 2, 3) := if_pos htype
    rw [hrequest] at hfresh
    constructor
    · intro hdescribes
      have hmin : (1 : Int32) = info.declaredMin := hfresh.declaredMin.symm.trans hdescribes.declaredMin
      have hmax : (2 : Int32) = info.declaredMax := hfresh.declaredMax.symm.trans hdescribes.declaredMax
      have hcount : 3 = info.bucketCount := hfresh.bucketCount.symm.trans hdescribes.bucketCount
      exact ⟨hmax ▸ by decide, fun _ => ⟨hmin.symm, hmax.symm, hcount.symm⟩⟩
    · rintro ⟨-, hboolean⟩
      obtain ⟨hmin, hmax, hcount⟩ := hboolean htype
      refine ⟨?_, hfresh.declaredMin.trans hmin.symm, hfresh.declaredMax.trans hmax.symm, hfresh.bucketCount.trans hcount.symm⟩
      rw [hfresh.classType, htype]
      rfl
  · have hrequest : info.request = _ := if_neg htype
    rw [hrequest] at hfresh
    have hmin : h.declaredMin = info.declaredMin := by
      rw [hfresh.declaredMin]
      dsimp only
      rw [if_neg (not_lt_one hpos), if_neg (not_lt_one hpos)]
    have hmax : h.declaredMax = if kSampleTypeMax - 1 < info.declaredMax then kSampleTypeMax - 1 else info.declaredMax :=
      hfresh.declaredMax.trans (limited_limited _)
    have hclass : h.classType.toInt32 = info.histogramType := by
      rw [hfresh.classType]
      rcases hknown with hzero | hone | htwo
      · rw [if_pos hzero, hzero]; rfl
      · rw [hone]; rfl
      · exact absurd htwo htype
    constructor
    · intro hdescribes
      exact ⟨(limited_eq_iff _).1 (hmax.symm.trans hdescribes.declaredMax), fun htwo => absurd htwo htype⟩
    · rintro ⟨hlt, -⟩
      exact ⟨hclass, hmin, hmax.trans ((limited_eq_iff _).2 hlt), hfresh.bucketCount⟩

/-! ## The whole call -/

theorem agrees_of_some (hfind : recorder.findHistogram info.name = some h) :
    info.Agrees recorder ↔ h.IsIPCSource ∨ info.Describes h ∧ info.sample.counts.length = h.bucketCount := by
  rw [HistogramInfo.Agrees, hfind]

theorem agrees_of_none (hfind : recorder.findHistogram info.name = none) :
    info.Agrees recorder ↔ info.bucketCount < kBucketCountMax ∧ info.declaredMax < kSampleTypeMax ∧
      info.sample.counts.length = info.bucketCount ∧
        (info.histogramType = 2 → info.declaredMin = 1 ∧ info.declaredMax = 2 ∧ info.bucketCount = 3) := by
  rw [HistogramInfo.Agrees, hfind]

/-- When the histogram is looked up and is not from this process, the counts must be added. -/
theorem aggregates_iff_adds {bytes : List UInt8} {found : StatisticsRecorder × Histogram}
    (hread : readHistogramInfo abi bytes = some info)
    (hcall : deserializeHistogramInfo arithmetic abi recorder bytes = aggregate info found)
    (hsource : ∀ h, recorder.findHistogram info.name = some h → ¬h.IsIPCSource) :
    Aggregates arithmetic abi recorder bytes ↔
      Gives (Adds info recorder (info.countsBefore recorder)) (aggregate info found) := by
  rw [Aggregates, hcall]
  constructor
  · rintro ⟨d, heq, htrue, -⟩
    have hresult := result_of_aggregate heq
    obtain ⟨info', hread', hor⟩ := htrue hresult
    obtain rfl : info = info' := Option.some.inj (hread.symm.trans hread')
    rcases hor with ⟨h, hfind, hipc⟩ | hadded
    · exact absurd hipc (hsource h hfind)
    · exact ⟨d, heq, hresult, hadded⟩
  · intro hadds
    refine hadds.imp fun d hd => ⟨fun _ => ⟨info, hread, .inr hd.2⟩, fun hfalse => ?_⟩
    rw [hd.1] at hfalse
    cases hfalse

theorem aggregates_iff_of_some {bytes : List UInt8} (hread : readHistogramInfo abi bytes = some info) (hne : bytes ≠ [])
    (hvalues : ¬info.ValuesError) (hknown : info.KnownType) (hfind : recorder.findHistogram info.name = some h) :
    Aggregates arithmetic abi recorder bytes ↔ info.Agrees recorder := by
  have hcall : deserializeHistogramInfo arithmetic abi recorder bytes = aggregate info (recorder, h) := by
    rw [deserializeHistogramInfo_of_known hread hne hvalues hknown, factoryGet_of_some hfind]
    rfl
  rw [agrees_of_some hfind]
  by_cases hsource : h.IsIPCSource
  · refine iff_of_true ?_ (.inl hsource)
    rw [Aggregates, hcall, aggregate_of_source hsource]
    refine .ok ⟨fun _ => ⟨info, hread, .inl ⟨h, hfind, hsource⟩⟩, fun hfalse => ?_⟩
    cases hfalse
  · have hfound (h' : Histogram) (hfind' : recorder.findHistogram info.name = some h') : ¬h'.IsIPCSource := by
      rw [hfind] at hfind'
      cases hfind'
      exact hsource
    have hbefore (_ : h.bucketCount = info.bucketCount) : info.countsBefore recorder = h.sample.counts := by
      rw [HistogramInfo.countsBefore, hfind]
    rw [aggregates_iff_adds hread hcall hfound, aggregate_adds_iff hsource (fun _ => rfl) hbefore]
    exact (or_iff_right hsource).symm

theorem aggregates_iff_of_none {bytes : List UInt8} (hread : readHistogramInfo abi bytes = some info) (hne : bytes ≠ [])
    (hvalues : ¬info.ValuesError) (hknown : info.KnownType) (hfind : recorder.findHistogram info.name = none) :
    Aggregates arithmetic abi recorder bytes ↔ info.Agrees recorder := by
  have hcall : deserializeHistogramInfo arithmetic abi recorder bytes = _ :=
    deserializeHistogramInfo_of_known hread hne hvalues hknown
  rw [agrees_of_none hfind]
  rcases Nat.lt_or_ge info.request.2.2.2 kBucketCountMax with hlt | hle
  · obtain ⟨⟨found, h⟩, heq, hfresh, hfound⟩ := factoryGet_of_none arithmetic info.request.1 info.request.2.1
      info.request.2.2.1 info.newFlags hfind (two_le_request hvalues) hlt
    rw [heq] at hcall
    have hsource : ¬h.IsIPCSource := by
      intro hipc
      rw [Histogram.IsIPCSource, hfresh.flags] at hipc
      exact hipc info.newFlags_and_source
    have hnone (h' : Histogram) (hfind' : recorder.findHistogram info.name = some h') : ¬h'.IsIPCSource := by
      rw [hfind] at hfind'
      cases hfind'
    obtain rfl : found = recorder.put info.name h := hfound
    have hput (h' : Histogram) : (recorder.put info.name h).put info.name h' = recorder.put info.name h' :=
      put_put recorder info.name h h'
    have hbefore (hcount : h.bucketCount = info.bucketCount) : info.countsBefore recorder = h.sample.counts := by
      rw [HistogramInfo.countsBefore, hfind, hfresh.counts, ← hcount, hfresh.bucketCount]
    rw [aggregates_iff_adds hread hcall hnone, aggregate_adds_iff hsource hput hbefore,
      describes_fresh_iff hvalues hknown hfresh, hfresh.bucketCount]
    constructor
    · rintro ⟨⟨hmax, hboolean⟩, hlength⟩
      have hcount := info.bucketCount_request fun htwo => (hboolean htwo).2.2
      exact ⟨hcount ▸ hlt, hmax, hcount ▸ hlength, hboolean⟩
    · rintro ⟨-, hmax, hlength, hboolean⟩
      have hcount := info.bucketCount_request fun htwo => (hboolean htwo).2.2
      exact ⟨⟨hmax, hboolean⟩, hlength.trans hcount.symm⟩
  · rw [factoryGet_of_le hfind hle] at hcall
    refine iff_of_false ?_ ?_
    · rw [Aggregates, hcall]
      rintro ⟨d, heq, -⟩
      cases heq
    · rintro ⟨hlt, -, -, hboolean⟩
      have hcount := info.bucketCount_request fun htwo => (hboolean htwo).2.2
      exact absurd (hcount ▸ hle) (Nat.not_le.2 hlt)

/-- **For all bytes and all histograms that are registered: the call makes no fault, and does what it is for, if and only if
what was sent agrees with the histogram of its name.** -/
theorem deserializeHistogramInfo_iff (arithmetic : Arithmetic) (abi : Abi) (recorder : StatisticsRecorder)
    (bytes : List UInt8) :
    Aggregates arithmetic abi recorder bytes ↔
      ∀ info, bytes ≠ [] → readHistogramInfo abi bytes = some info → ¬info.ValuesError → info.KnownType →
        info.Agrees recorder := by
  by_cases hreach : ∃ info, bytes ≠ [] ∧ readHistogramInfo abi bytes = some info ∧ ¬info.ValuesError ∧ info.KnownType
  · obtain ⟨info, hne, hread, hvalues, hknown⟩ := hreach
    have hiff : Aggregates arithmetic abi recorder bytes ↔ info.Agrees recorder := by
      cases hfind : recorder.findHistogram info.name with
      | some h => exact aggregates_iff_of_some hread hne hvalues hknown hfind
      | none => exact aggregates_iff_of_none hread hne hvalues hknown hfind
    rw [hiff]
    constructor
    · intro hagrees info' _ hread' _ _
      obtain rfl : info = info' := Option.some.inj (hread.symm.trans hread')
      exact hagrees
    · exact fun hall => hall info hne hread hvalues hknown
  · refine iff_of_true ?_ fun info hne hread hvalues hknown => absurd ⟨info, hne, hread, hvalues, hknown⟩ hreach
    have hcall : deserializeHistogramInfo arithmetic abi recorder bytes = .ok ⟨false, recorder, none⟩ :=
      deserializeHistogramInfo_of_unknown fun info hne hread hvalues hknown => hreach ⟨info, hne, hread, hvalues, hknown⟩
    rw [Aggregates, hcall]
    refine .ok ⟨fun htrue => ?_, fun _ _ => rfl⟩
    cases htrue

/-! ## Pickles that do not agree -/

def noHistograms : StatisticsRecorder := ⟨some ∅⟩

def fourBytes (n : UInt8) : List UInt8 := [n, 0, 0, 0]

/-- The pickle of a linear histogram with the limits 1 and 2 and the name `a`: these numbers of buckets, and one count. -/
def oneCount (low high : UInt8) : List UInt8 :=
  fourBytes 64 ++ fourBytes 1 ++ fourBytes 97 ++ fourBytes 1 ++ fourBytes 2 ++ ([low, high, 0, 0] ++ fourBytes 0) ++ fourBytes 0 ++
    fourBytes 1 ++ fourBytes 16 ++ List.replicate 16 0 ++ (fourBytes 1 ++ fourBytes 0) ++ fourBytes 0

theorem readHistogramInfo_oneCount :
    readHistogramInfo lp64 (oneCount 3 0) = some ⟨[97], 1, 2, 3, 0, 1, 16, ⟨[0], 0, 0⟩⟩ ∧
      readHistogramInfo lp64 (oneCount 0 64) = some ⟨[97], 1, 2, 16384, 0, 1, 16, ⟨[0], 0, 0⟩⟩ := by
  decide +kernel

/-- **With three buckets and one count the call reads behind the counts, and with 16384 buckets it fails a `CHECK`.** -/
theorem not_aggregates : (¬∀ arithmetic, Aggregates arithmetic lp64 noHistograms (oneCount 3 0)) ∧
      ¬∀ arithmetic, Aggregates arithmetic lp64 noHistograms (oneCount 0 64) := by
  constructor
  · intro h
    have hagrees := (aggregates_iff_of_none readHistogramInfo_oneCount.1 (List.cons_ne_nil _ _) (by decide)
      (.inr (.inl rfl)) rfl).mp (h ⟨fun _ _ _ => 0, fun _ _ _ _ => 0, fun sum _ => sum⟩)
    exact absurd hagrees.2.2.1 (by decide)
  · intro h
    have hagrees := (aggregates_iff_of_none readHistogramInfo_oneCount.2 (List.cons_ne_nil _ _) (by decide)
      (.inr (.inl rfl)) rfl).mp (h ⟨fun _ _ _ => 0, fun _ _ _ _ => 0, fun sum _ => sum⟩)
    exact absurd hagrees.1 (Nat.lt_irrefl _)

end Chromium.Base.Metrics
