import Chromium.Base.Pickle
import Chromium.Lib.Gives
import Mathlib.Data.List.AList

/-!
# Histograms

`base/metrics/histogram.cc` as far as a histogram comes out of a pickle, with the assertions of debug builds left out.  A
`CHECK` that fails is a fault, and so is an index behind the end of a vector.  What is computed in floating point is given by
`Arithmetic`; the loops around it are here.
-/

namespace Chromium.Base.Metrics

open Lib

inductive Fault
  | check
  | index
  deriving DecidableEq, Repr

inductive ClassType
  | histogram
  | linearHistogram
  | booleanHistogram
  | customHistogram
  deriving DecidableEq, Repr

def kSampleTypeMax : Int32 := 2147483647

def kBucketCountMax : ℕ := 16384

def kIPCSerializationSourceFlag : Int32 := 0x10

/-- Where the next bucket starts, by the logarithm of the current start, and by the limits; and the checksum. -/
structure Arithmetic where
  nextStart (declaredMax current : Int32) (bucketsLeft : ℕ) : Int32
  linearStart (declaredMin declaredMax : Int32) (bucketCount index : ℕ) : Int32
  crc32 (sum : UInt32) (range : Int32) : UInt32

structure SampleSet where
  counts : List Int32
  sum : Int64
  redundantCount : Int64
  deriving DecidableEq, Repr

/-- A histogram has as many counts as buckets, and one range more. -/
structure Histogram where
  classType : ClassType
  declaredMin : Int32
  declaredMax : Int32
  bucketCount : ℕ
  flags : Int32
  ranges : List Int32
  rangeChecksum : UInt32
  sample : SampleSet
  length_ranges : ranges.length = bucketCount + 1
  length_counts : sample.counts.length = bucketCount
  deriving DecidableEq

namespace SampleSet

/-- The loop of `Add`: for each own count that of the other set. -/
def addCounts : (counts other : List Int32) → Except Fault { sums : List Int32 // sums.length = counts.length }
  | [], _ => .ok ⟨[], rfl⟩
  | _ :: _, [] => .error .index
  | count :: counts, otherCount :: other =>
    (addCounts counts other).map fun sums => ⟨(count + otherCount) :: sums.1, congrArg (· + 1) sums.2⟩

/-- The counts of `Deserialize`, and their sum. -/
def readCounts (pickle : PickleReader) : (size : ℕ) → (iter : Option ℕ) → (count : Int32) → Option (List Int32 × Int32)
  | 0, _, count => some ([], count)
  | size + 1, iter, count =>
    (pickle.readInt iter).bind fun (i, iter) =>
      (readCounts pickle size iter (count + i)).map fun (counts, count) => (i :: counts, count)

def deserialize (abi : Abi) (pickle : PickleReader) (iter : Option ℕ) : Option SampleSet :=
  (pickle.readInt64 iter).bind fun (sum, iter) =>
  (pickle.readInt64 iter).bind fun (redundantCount, iter) =>
  (pickle.readSize abi iter).bind fun (countsSize, iter) =>
    if (countsSize : ℕ) = 0 then none
    else
      (readCounts pickle countsSize iter 0).bind fun (counts, count) =>
        if count.toInt64 = redundantCount then some { counts, sum, redundantCount } else none

end SampleSet

namespace Histogram

variable (arithmetic : Arithmetic) (h : Histogram)

/-- The constructor, with `Initialize`. -/
def new (classType : ClassType) (minimum maximum : Int32) (bucketCount : ℕ) : Except Fault Histogram :=
  if bucketCount < kBucketCountMax then
    .ok
      { classType
        declaredMin := if minimum < 1 then 1 else minimum
        declaredMax := if kSampleTypeMax - 1 < maximum then kSampleTypeMax - 1 else maximum
        bucketCount
        flags := 0
        ranges := List.replicate bucketCount 0 ++ [kSampleTypeMax]
        rangeChecksum := 0
        sample := { counts := List.replicate bucketCount 0, sum := 0, redundantCount := 0 }
        length_ranges := by rw [List.length_append, List.length_replicate, List.length_singleton]
        length_counts := List.length_replicate }
  else .error .check

def setBucketRange (i : ℕ) (value : Int32) : Except Fault Histogram :=
  if i < h.ranges.length then
    .ok { h with ranges := h.ranges.set i value, length_ranges := List.length_set.trans h.length_ranges }
  else .error .index

def calculateRangeChecksum : Except Fault UInt32 :=
  (List.range h.bucketCount).foldlM
    (fun sum index =>
      match h.ranges[index]? with
      | some range => .ok (arithmetic.crc32 sum range)
      | none => .error .index)
    (UInt32.ofNat h.ranges.length)

def resetRangeChecksum : Except Fault Histogram :=
  (h.calculateRangeChecksum arithmetic).map fun checksum => { h with rangeChecksum := checksum }

/-- A turn of the loop of `Histogram::InitializeBucketRange`, which knows where the last bucket started. -/
def nextBucket (state : Histogram × Int32) (bucketIndex : ℕ) : Except Fault (Histogram × Int32) :=
  let next := arithmetic.nextStart state.1.declaredMax state.2 (state.1.bucketCount - bucketIndex)
  let current := if state.2 < next then next else state.2 + 1
  (state.1.setBucketRange bucketIndex current).map fun h => (h, current)

/-- `InitializeBucketRange` of a `Histogram`. -/
def initializeExponential : Except Fault Histogram := do
  let h ← h.setBucketRange 1 h.declaredMin
  let state ← (List.range' 2 (h.bucketCount - 2)).foldlM (nextBucket arithmetic) (h, h.declaredMin)
  state.1.resetRangeChecksum arithmetic

/-- `InitializeBucketRange` of a `LinearHistogram`. -/
def initializeLinear : Except Fault Histogram := do
  let h ← (List.range' 1 (h.bucketCount - 1)).foldlM
    (fun h i => h.setBucketRange i (arithmetic.linearStart h.declaredMin h.declaredMax h.bucketCount i)) h
  h.resetRangeChecksum arithmetic

def initializeBucketRange : Except Fault Histogram :=
  match h.classType with
  | .histogram => h.initializeExponential arithmetic
  | _ => h.initializeLinear arithmetic

def setFlags (flags : Int32) : Histogram := { h with flags := h.flags ||| flags }

def addSampleSet (other : SampleSet) : Except Fault Histogram :=
  (SampleSet.addCounts h.sample.counts other.counts).map fun sums =>
    { h with
      sample :=
        { counts := sums.1
          sum := h.sample.sum + other.sum
          redundantCount := h.sample.redundantCount + other.redundantCount }
      length_counts := sums.2.trans h.length_counts }

def IsIPCSource : Prop := h.flags &&& kIPCSerializationSourceFlag ≠ 0

instance decidableIsIPCSource : Decidable h.IsIPCSource := inferInstanceAs (Decidable (_ ≠ _))

end Histogram

/-- The histograms by name; none before the recorder is there. -/
structure StatisticsRecorder where
  histograms : Option (AList fun _ : List UInt8 => Histogram)

namespace StatisticsRecorder

variable (arithmetic : Arithmetic) (recorder : StatisticsRecorder)

def findHistogram (name : List UInt8) : Option Histogram := recorder.histograms.bind fun histograms => histograms.lookup name

def put (name : List UInt8) (h : Histogram) : StatisticsRecorder :=
  ⟨recorder.histograms.map fun histograms => histograms.insert name h⟩

/-- What the `FactoryGet` functions have in common. -/
def factoryGet (classType : ClassType) (name : List UInt8) (minimum maximum : Int32) (bucketCount : ℕ) (flags : Int32) :
    Except Fault (StatisticsRecorder × Histogram) :=
  match recorder.findHistogram name with
  | some h => .ok (recorder, h)
  | none => do
    let tentative ← Histogram.new classType minimum maximum bucketCount
    let tentative ← tentative.initializeBucketRange arithmetic
    let tentative := tentative.setFlags flags
    return (recorder.put name tentative, tentative)

/-- The limits as `Histogram::FactoryGet` and `LinearHistogram::FactoryGet` correct them. -/
def factoryGetLimited (classType : ClassType) (name : List UInt8) (minimum maximum : Int32) (bucketCount : ℕ)
    (flags : Int32) : Except Fault (StatisticsRecorder × Histogram) :=
  recorder.factoryGet arithmetic classType name (if minimum < 1 then 1 else minimum)
    (if kSampleTypeMax - 1 < maximum then kSampleTypeMax - 1 else maximum) bucketCount flags

/-- `Histogram::FactoryGet`. -/
def histogramFactoryGet := recorder.factoryGetLimited arithmetic .histogram

/-- `LinearHistogram::FactoryGet`. -/
def linearHistogramFactoryGet := recorder.factoryGetLimited arithmetic .linearHistogram

/-- `BooleanHistogram::FactoryGet`. -/
def booleanHistogramFactoryGet (name : List UInt8) (flags : Int32) : Except Fault (StatisticsRecorder × Histogram) :=
  recorder.factoryGet arithmetic .booleanHistogram name 1 2 3 flags

end StatisticsRecorder

structure HistogramInfo where
  name : List UInt8
  declaredMin : Int32
  declaredMax : Int32
  bucketCount : ℕ
  rangeChecksum : UInt32
  histogramType : Int32
  pickleFlags : Int32
  sample : SampleSet
  deriving DecidableEq, Repr

/-- The bytes that `Pickle(data, static_cast<int>(size))` looks at. -/
def pickled (info : List UInt8) : List UInt8 := info.take (toInt32 info.length).toNat

/-- The reads of `DeserializeHistogramInfo`. -/
def readHistogramInfo (abi : Abi) (info : List UInt8) : Option HistogramInfo :=
  let pickle := PickleReader.ofData (pickled info)
  (pickle.readString none).bind fun (name, iter) =>
  (pickle.readInt iter).bind fun (declaredMin, iter) =>
  (pickle.readInt iter).bind fun (declaredMax, iter) =>
  (pickle.readSize abi iter).bind fun (bucketCount, iter) =>
  (pickle.readUInt32 iter).bind fun (rangeChecksum, iter) =>
  (pickle.readInt iter).bind fun (histogramType, iter) =>
  (pickle.readInt iter).bind fun (pickleFlags, iter) =>
  (SampleSet.deserialize abi pickle iter).map fun sample =>
    { name, declaredMin, declaredMax, bucketCount, rangeChecksum, histogramType, pickleFlags, sample }

def HistogramInfo.ValuesError (info : HistogramInfo) : Prop :=
  info.declaredMax ≤ 0 ∨ info.declaredMin ≤ 0 ∨ info.declaredMax < info.declaredMin ∨
    2147483647 / 4 ≤ info.bucketCount ∨ info.bucketCount < 2

instance HistogramInfo.decidableValuesError (info : HistogramInfo) : Decidable info.ValuesError :=
  inferInstanceAs (Decidable (_ ∨ _))

/-- What a call gives: its result, the histograms, and the one that was looked up. -/
structure Deserialized where
  result : Bool
  recorder : StatisticsRecorder
  renderHistogram : Option Histogram

/-- The end of `DeserializeHistogramInfo`. -/
def aggregate (info : HistogramInfo) (found : StatisticsRecorder × Histogram) : Except Fault Deserialized :=
  if found.2.IsIPCSource then .ok ⟨true, found.1, some found.2⟩
  else (found.2.addSampleSet info.sample).map fun h => ⟨true, found.1.put info.name h, some h⟩

def deserializeHistogramInfo (arithmetic : Arithmetic) (abi : Abi) (recorder : StatisticsRecorder) (histogramInfo : List UInt8) :
    Except Fault Deserialized :=
  if histogramInfo = [] then .ok ⟨false, recorder, none⟩
  else
    match readHistogramInfo abi histogramInfo with
    | none => .ok ⟨false, recorder, none⟩
    | some info =>
      if info.ValuesError then .ok ⟨false, recorder, none⟩
      else
        let flags := info.pickleFlags &&& ~~~kIPCSerializationSourceFlag
        if info.histogramType = 0 then
          recorder.histogramFactoryGet arithmetic info.name info.declaredMin info.declaredMax info.bucketCount flags >>=
            aggregate info
        else if info.histogramType = 1 then
          recorder.linearHistogramFactoryGet arithmetic info.name info.declaredMin info.declaredMax info.bucketCount flags >>=
            aggregate info
        else if info.histogramType = 2 then
          recorder.booleanHistogramFactoryGet arithmetic info.name flags >>= aggregate info
        else .ok ⟨false, recorder, none⟩

end Chromium.Base.Metrics
