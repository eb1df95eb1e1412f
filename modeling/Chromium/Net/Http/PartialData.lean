import Chromium.Lib.MachineInt
import Chromium.Lib.Tiling
import Chromium.Lib.TransSys
import Mathlib.Data.Int.LeastGreatest

/-!
# Range requests over a sparse entry

`net/http/partial_data.cc` and `net/http/http_byte_range.cc`: a range that the user asked for
is split up into sub-ranges that are in the cache and such that are not, and `PartialData`
keeps track of what comes next.

* `resolved_isRequestedRangeOK`: the range that a request is resolved to;
* `loop_spec`: **the sub-ranges tile the range**, each is in the cache as a whole or is fetched,
  and the loop comes to its end.
-/

namespace Chromium.Net

open Lib (toInt32 toInt64 toInt32_of_mem toInt64_of_mem Tiles tiles_append)

def kint32max : ℤ := 2147483647

/-- `HttpByteRange`; a position that is not specified is -1. -/
structure HttpByteRange where
  firstBytePosition : ℤ
  lastBytePosition : ℤ
  suffixLength : ℤ
  hasComputedBounds : Bool
  deriving DecidableEq, Repr

namespace HttpByteRange

/-- `HttpByteRange()`. -/
def new : HttpByteRange := ⟨-1, -1, -1, false⟩

def isSuffixByteRange (r : HttpByteRange) : Bool := r.suffixLength ≠ -1

def hasFirstBytePosition (r : HttpByteRange) : Bool := r.firstBytePosition ≠ -1

def hasLastBytePosition (r : HttpByteRange) : Bool := r.lastBytePosition ≠ -1

def isValid (r : HttpByteRange) : Bool :=
  if r.suffixLength > 0 then true
  else 0 ≤ r.firstBytePosition &&
    (r.lastBytePosition = -1 || r.firstBytePosition ≤ r.lastBytePosition)

def computeBounds (r : HttpByteRange) (size : ℤ) : HttpByteRange × Bool :=
  if size < 0 then (r, false)
  else if r.hasComputedBounds then (r, false)
  else
    let r := { r with hasComputedBounds := true }
    if !r.hasFirstBytePosition && !r.hasLastBytePosition && !r.isSuffixByteRange then
      ({ r with firstBytePosition := 0, lastBytePosition := size - 1 }, true)
    else if !r.isValid then (r, false)
    else if r.isSuffixByteRange then
      ({ r with
        firstBytePosition := size - min size r.suffixLength
        lastBytePosition := size - 1 }, true)
    else if r.firstBytePosition < size then
      if r.hasLastBytePosition then
        ({ r with lastBytePosition := min (size - 1) r.lastBytePosition }, true)
      else ({ r with lastBytePosition := size - 1 }, true)
    else (r, false)

end HttpByteRange

/-- The positions that `AddRangeHeader` prints. -/
structure RangeHeader where
  start : ℤ
  stop : ℤ
  deriving DecidableEq, Repr

/-- The header of `AddRangeHeader`. -/
def RangeHeader.text (h : RangeHeader) : String :=
  "bytes=" ++ (if 0 ≤ h.start then toString h.start else "") ++ "-" ++ (if 0 ≤ h.stop then toString h.stop else "")

structure PartialData where
  currentRangeStart : ℤ
  cachedStart : ℤ
  resourceSize : ℤ
  cachedMinLen : ℤ
  byteRange : HttpByteRange
  rangePresent : Bool
  finalRange : Bool
  sparseEntry : Bool
  truncated : Bool
  initialValidation : Bool
  deriving DecidableEq, Repr

/-- What the headers that are stored tell. -/
structure StoredHeaders where
  responseCode : ℤ
  hasStrongValidators : Bool
  contentLength : ℤ
  deriving DecidableEq, Repr

structure StoredEntry where
  dataSize : ℤ
  couldBeSparse : Bool
  deriving DecidableEq, Repr

namespace PartialData

/-- `PartialData()`; the members that it leaves alone are 0. -/
def new : PartialData := ⟨0, 0, 0, 0, .new, false, false, true, false, false⟩

/-- `Init`, with the only range of the request. -/
def init (range : HttpByteRange) : Option PartialData :=
  if range.isValid then
    some { new with
      byteRange := range
      resourceSize := 0
      currentRangeStart := range.firstBytePosition }
  else none

def updateFromStoredHeaders (p : PartialData) (headers : StoredHeaders) (entry : StoredEntry)
    (truncated : Bool) : PartialData × Bool :=
  let p := { p with resourceSize := 0 }
  if !headers.hasStrongValidators then (p, false)
  else if truncated then
    if p.byteRange.isValid then (p, false)
    else if headers.contentLength ≤ 0 then (p, false)
    else
      ({ p with
        truncated := true
        initialValidation := true
        sparseEntry := false
        byteRange := { p.byteRange with firstBytePosition := entry.dataSize }
        resourceSize := headers.contentLength
        currentRangeStart := entry.dataSize
        cachedMinLen := entry.dataSize
        cachedStart := entry.dataSize + 1 }, true)
  else if headers.responseCode = 200 then
    ({ p with sparseEntry := false, resourceSize := entry.dataSize }, true)
  else if headers.contentLength ≤ 0 then (p, false)
  else ({ p with resourceSize := headers.contentLength }, entry.couldBeSparse)

def isRequestedRangeOK (p : PartialData) : PartialData × Bool :=
  let finish (p : PartialData) : PartialData × Bool :=
    if 0 ≤ p.currentRangeStart then (p, true) else ({ p with currentRangeStart := 0 }, false)
  if p.byteRange.isValid then
    let r := p.byteRange.computeBounds p.resourceSize
    let p := { p with byteRange := r.1 }
    if !r.2 then (p, false)
    else if p.truncated then (p, true)
    else if p.currentRangeStart < 0 then
      finish { p with currentRangeStart := p.byteRange.firstBytePosition }
    else finish p
  else
    finish { p with
      currentRangeStart := 0
      byteRange := { p.byteRange with lastBytePosition := p.resourceSize - 1 } }

def getNextRangeLen (p : PartialData) : ℤ :=
  let rangeLen :=
    if p.byteRange.hasLastBytePosition then
      toInt64 (p.byteRange.lastBytePosition - p.currentRangeStart + 1)
    else kint32max
  toInt32 (if rangeLen > kint32max then kint32max else rangeLen)

/-- `ShouldValidateCache`; `available` is what `GetAvailableRange` of the entry gives for
the next range, its result and the start. -/
def shouldValidateCache (p : PartialData) (available : ℤ × ℤ) : PartialData × ℤ :=
  let len := p.getNextRangeLen
  if len = 0 then (p, 0)
  else
    let p :=
      if p.sparseEntry then { p with cachedMinLen := available.1, cachedStart := available.2 }
      else if p.truncated then p
      else
        let len :=
          if p.byteRange.hasFirstBytePosition ∧ p.resourceSize ≤ p.byteRange.firstBytePosition then 0
          else len
        { p with cachedMinLen := len, cachedStart := p.currentRangeStart }
    if p.cachedMinLen < 0 then (p, p.cachedMinLen) else (p, 1)

def prepareCacheValidation (p : PartialData) : PartialData × RangeHeader :=
  let len := p.getNextRangeLen
  let p := { p with rangePresent := false }
  let p :=
    if p.cachedMinLen = 0 then
      { p with
        finalRange := true
        cachedStart :=
          if p.byteRange.hasLastBytePosition then toInt64 (p.currentRangeStart + len) else 0 }
    else p
  if p.currentRangeStart = p.cachedStart then
    let p := { p with rangePresent := true }
    let p := if len = p.cachedMinLen then { p with finalRange := true } else p
    (p, ⟨p.currentRangeStart, toInt64 (p.cachedStart + p.cachedMinLen - 1)⟩)
  else (p, ⟨p.currentRangeStart, toInt64 (p.cachedStart - 1)⟩)

def isCurrentRangeCached (p : PartialData) : Bool := p.rangePresent

/-- The length that `CacheRead` asks the entry for. -/
def cacheReadLen (p : PartialData) (dataLen : ℤ) : ℤ := min dataLen p.cachedMinLen

def onCacheReadCompleted (p : PartialData) (result : ℤ) : PartialData :=
  if result > 0 then
    { p with
      currentRangeStart := toInt64 (p.currentRangeStart + result)
      cachedMinLen := toInt32 (p.cachedMinLen - result) }
  else p

def onNetworkReadCompleted (p : PartialData) (result : ℤ) : PartialData :=
  if result > 0 then { p with currentRangeStart := toInt64 (p.currentRangeStart + result) } else p

end PartialData

/-! ### The range of a request -/

/-- The user's range is `[first, last]`, nothing of it has been returned, and the entry is sparse. -/
structure Resolved (p : PartialData) (first last : ℤ) : Prop where
  start : p.currentRangeStart = first
  stop : p.byteRange.lastBytePosition = last
  sparse : p.sparseEntry = true
  nonneg : 0 ≤ first
  le : first ≤ last
  lt : last < 9223372036854775807

/-- A range as `ParseRangeHeader` leaves it: positions, or the length of a suffix. -/
structure Parsed (r : HttpByteRange) : Prop where
  fresh : r.hasComputedBounds = false
  kind : r.suffixLength = -1 ∨ (r.firstBytePosition = -1 ∧ r.lastBytePosition = -1)

variable {p p₀ p₁ : PartialData} {r : HttpByteRange} {first last size : ℤ}

theorem computeBounds_suffix {n : ℤ} (hn : 0 < n) (hsize : 0 ≤ size) :
    (HttpByteRange.mk (-1) (-1) n false).computeBounds size =
      (⟨size - min size n, size - 1, n, true⟩, true) := by
  have hne : n ≠ -1 := by omega
  rw [HttpByteRange.computeBounds, if_neg (by omega), if_neg (by simp)]
  dsimp only
  rw [if_neg (by simp [HttpByteRange.isSuffixByteRange, hne]), if_neg (by simp [HttpByteRange.isValid, hn]),
    if_pos (by simp [HttpByteRange.isSuffixByteRange, hne])]

theorem computeBounds_first {f l : ℤ} (hf : 0 ≤ f) (hl : l = -1 ∨ f ≤ l) (hsize : 0 ≤ size) :
    (HttpByteRange.mk f l (-1) false).computeBounds size = if f < size then
        (⟨f, if l = -1 then size - 1 else min (size - 1) l, -1, true⟩, true)
      else (⟨f, l, -1, true⟩, false) := by
  have hne : f ≠ -1 := by omega
  rw [HttpByteRange.computeBounds, if_neg (by omega), if_neg (by simp)]
  dsimp only
  rw [if_neg (by simp [HttpByteRange.hasFirstBytePosition, hne]),
    if_neg (by simpa [HttpByteRange.isValid, hf] using hl.resolve_left),
    if_neg (by simp [HttpByteRange.isSuffixByteRange])]
  by_cases hlt : f < size
  · rw [if_pos hlt, if_pos hlt]
    by_cases hl1 : l = -1
    · rw [if_neg (by simp [HttpByteRange.hasLastBytePosition, hl1]), if_pos hl1]
    · rw [if_pos (by simp [HttpByteRange.hasLastBytePosition, hl1]), if_neg hl1]
  · rw [if_neg hlt, if_neg hlt]

/-- The range asks for a byte of a resource of that size. -/
def HttpByteRange.AsksFor (r : HttpByteRange) (size x : ℤ) : Prop :=
  0 ≤ x ∧ x < size ∧ if 0 < r.suffixLength then size - r.suffixLength ≤ x
    else r.firstBytePosition ≤ x ∧ (r.lastBytePosition = -1 ∨ x ≤ r.lastBytePosition)

/-- **`ComputeBounds` finds the bytes that the range asks for**, and fails if there are none. -/
theorem computeBounds_spec (hr : Parsed r) (hvalid : r.isValid = true) (hsize : 0 < size) :
    ((r.computeBounds size).2 = false ∧ ∀ x, ¬ r.AsksFor size x) ∨
      ∃ first last, r.computeBounds size = (⟨first, last, r.suffixLength, true⟩, true) ∧ 0 ≤ first ∧ first ≤ last ∧
        last < size ∧ (0 ≤ r.firstBytePosition → first = r.firstBytePosition) ∧
        ∀ x, r.AsksFor size x ↔ first ≤ x ∧ x ≤ last := by
  obtain ⟨f, l, n, c⟩ := r
  obtain ⟨hc, hkind⟩ := hr
  dsimp only at hc hkind
  subst hc
  unfold HttpByteRange.AsksFor
  by_cases hn : 0 < n
  · -- the last bytes
    obtain ⟨rfl, rfl⟩ := hkind.resolve_left (by omega)
    simp only [if_pos hn]
    refine .inr ⟨_, _, computeBounds_suffix hn hsize.le, by omega, by omega, by omega, ?_, fun x => by omega⟩
    nofun
  · obtain ⟨hf, hl⟩ : 0 ≤ f ∧ (l = -1 ∨ f ≤ l) := by simpa [HttpByteRange.isValid, hn] using hvalid
    obtain rfl : n = -1 := hkind.resolve_right (by omega)
    rw [computeBounds_first hf hl hsize.le]
    simp only [if_neg hn]
    split_ifs with hlt hend
    · exact .inr ⟨_, _, rfl, hf, by omega, by omega, fun _ => rfl, fun x => by omega⟩
    · exact .inr ⟨_, _, rfl, hf, by omega, by omega, fun _ => rfl, fun x => by omega⟩
    · exact .inl ⟨rfl, fun x => by omega⟩

/-- **What a request is resolved to**, when the stored response is a part of a resource. -/
theorem resolved_isRequestedRangeOK (hp : p₀ = .new ∧ r = .new ∨ Parsed r ∧ PartialData.init r = some p₀)
    (hsize : 0 < size) (hmax : size < 9223372036854775808) :
    (({ p₀ with resourceSize := size }.isRequestedRangeOK).2 = false ∧ ∀ x, ¬ r.AsksFor size x) ∨
      ({ p₀ with resourceSize := size }.isRequestedRangeOK).2 = true ∧ ∃ first last,
        Resolved { p₀ with resourceSize := size }.isRequestedRangeOK.1 first last ∧
        ∀ x, r.AsksFor size x ↔ first ≤ x ∧ x ≤ last := by
  rcases hp with ⟨rfl, rfl⟩ | ⟨hr, hinit⟩
  · -- the whole resource
    refine .inr ⟨rfl, 0, size - 1, ⟨rfl, rfl, rfl, le_rfl, by omega, by omega⟩, fun x => ?_⟩
    show 0 ≤ x ∧ x < size ∧ (-1 ≤ x ∧ (-1 = -1 ∨ x ≤ -1)) ↔ _
    omega
  · unfold PartialData.init at hinit
    split_ifs at hinit with hvalid
    cases hinit
    dsimp only [PartialData.isRequestedRangeOK]
    rw [if_pos hvalid]
    rcases computeBounds_spec hr hvalid hsize with ⟨hfail, hnone⟩ | ⟨first, last, heq, h0, hle, hlt, hfirst, hasks⟩
    · rw [hfail]
      exact .inl ⟨rfl, hnone⟩
    · rw [heq, if_neg (by simp), if_neg (by decide)]
      refine .inr ?_
      by_cases hf : r.firstBytePosition < 0
      · rw [if_pos hf, if_pos h0]
        exact ⟨rfl, first, last, ⟨rfl, rfl, rfl, h0, hle, by omega⟩, hasks⟩
      · rw [if_neg hf, if_pos (by omega)]
        exact ⟨rfl, first, last, ⟨(hfirst (by omega)).symm, rfl, rfl, h0, hle, by omega⟩, hasks⟩

/-! ### The loop -/

/-- `Entry::GetAvailableRange` as its interface documents it, on an entry that stores some
bytes: no byte of the range is stored and the result is 0, or the start is that of the first
one and the result is a number of consecutive stored bytes. -/
def Available (stored : Set ℤ) (offset len : ℤ) (answer : ℤ × ℤ) : Prop :=
  (answer.1 = 0 ∧ ∀ x, offset ≤ x → x < offset + len → x ∉ stored) ∨
    (0 < answer.1 ∧ offset ≤ answer.2 ∧ answer.2 + answer.1 ≤ offset + len ∧
      (∀ x, offset ≤ x → x < answer.2 → x ∉ stored) ∧
      ∀ x, answer.2 ≤ x → x < answer.2 + answer.1 → x ∈ stored)

inductive Phase
  | validate
  | prepare (stored : Set ℤ)
  | readCache
  | readNetwork (left : ℤ)
  | finished

/-- A range header, whether its range was taken to be cached, and what the entry stored then. -/
structure Fetched where
  header : RangeHeader
  cached : Bool
  stored : Set ℤ

structure LoopState where
  partialData : PartialData
  phase : Phase
  log : List Fetched

inductive Call
  | shouldValidateCache (stored : Set ℤ) (answer : ℤ × ℤ)
  | prepareCacheValidation
  | cacheRead (dataLen result : ℤ)
  | networkRead (result : ℤ)

/-- The steps of the loop.  A read that returns 0 leads to the next range. -/
inductive LoopStep : LoopState → Call → LoopState → Prop
  | validate {p p' : PartialData} {log : List Fetched} {stored : Set ℤ} {answer : ℤ × ℤ} {rv : ℤ} :
      Available stored p.currentRangeStart p.getNextRangeLen answer →
      p.shouldValidateCache answer = (p', rv) → 0 < rv →
      LoopStep ⟨p, .validate, log⟩ (.shouldValidateCache stored answer) ⟨p', .prepare stored, log⟩
  | finish {p p' : PartialData} {log : List Fetched} {stored : Set ℤ} {answer : ℤ × ℤ} :
      Available stored p.currentRangeStart p.getNextRangeLen answer →
      p.shouldValidateCache answer = (p', 0) →
      LoopStep ⟨p, .validate, log⟩ (.shouldValidateCache stored answer) ⟨p', .finished, log⟩
  | prepare {p p' : PartialData} {log : List Fetched} {stored : Set ℤ} {h : RangeHeader} :
      p.prepareCacheValidation = (p', h) →
      LoopStep ⟨p, .prepare stored, log⟩ .prepareCacheValidation
        ⟨p', if p'.isCurrentRangeCached then .readCache else .readNetwork (h.stop - h.start + 1),
          log ++ [⟨h, p'.isCurrentRangeCached, stored⟩]⟩
  | cacheRead {p : PartialData} {log : List Fetched} {dataLen result : ℤ} :
      0 < result → result ≤ p.cacheReadLen dataLen →
      LoopStep ⟨p, .readCache, log⟩ (.cacheRead dataLen result)
        ⟨p.onCacheReadCompleted result, .readCache, log⟩
  | cacheDone {p : PartialData} {log : List Fetched} {dataLen : ℤ} :
      0 < dataLen → p.cacheReadLen dataLen = 0 →
      LoopStep ⟨p, .readCache, log⟩ (.cacheRead dataLen 0)
        ⟨p.onCacheReadCompleted 0, .validate, log⟩
  | networkRead {p : PartialData} {log : List Fetched} {left result : ℤ} :
      0 < result → result ≤ left →
      LoopStep ⟨p, .readNetwork left, log⟩ (.networkRead result)
        ⟨p.onNetworkReadCompleted result, .readNetwork (left - result), log⟩
  | networkDone {p : PartialData} {log : List Fetched} :
      LoopStep ⟨p, .readNetwork 0, log⟩ (.networkRead 0)
        ⟨p.onNetworkReadCompleted 0, .validate, log⟩

def loopSystem (p : PartialData) : Lib.TransSys LoopState Call where
  init s := s = ⟨p, .validate, []⟩
  step := LoopStep

/-! ### What one step does -/

/-- The range of the request is kept, and what comes next lies in it. -/
structure InRange (p : PartialData) (first last : ℤ) : Prop where
  stop : p.byteRange.lastBytePosition = last
  sparse : p.sparseEntry = true
  nonneg : 0 ≤ first
  le : first ≤ last
  first_le : first ≤ p.currentRangeStart
  le_last : p.currentRangeStart ≤ last + 1
  lt : last < 9223372036854775807

variable {answer : ℤ × ℤ} {stored : Set ℤ}

/-- **The length of the next range**, which is at most `kint32max`. -/
theorem getNextRangeLen_eq (h : InRange p first last) :
    p.getNextRangeLen = min (last - p.currentRangeStart + 1) kint32max := by
  obtain ⟨hstop, -, h0, hle, h1, h2, h3⟩ := h
  have hhas : p.byteRange.hasLastBytePosition = true := by
    unfold HttpByteRange.hasLastBytePosition
    rw [hstop]
    exact decide_eq_true (by omega)
  unfold PartialData.getNextRangeLen
  rw [hhas, if_pos rfl, hstop, toInt64_of_mem (by omega) (by omega)]
  dsimp only [kint32max]
  split_ifs
  all_goals rw [toInt32_of_mem (by omega) (by omega)]
  · omega
  · omega

theorem shouldValidateCache_end (h : InRange p first last) (hend : p.currentRangeStart = last + 1) :
    p.shouldValidateCache answer = (p, 0) := by
  have hlen : p.getNextRangeLen = 0 := by
    rw [getNextRangeLen_eq h, hend]
    unfold kint32max
    omega
  dsimp only [PartialData.shouldValidateCache]
  rw [if_pos hlen]

/-- `ShouldValidateCache` before the end of the range. -/
theorem shouldValidateCache_next (h : InRange p first last) (hle : p.currentRangeStart ≤ last)
    (hanswer : 0 ≤ answer.1) :
    p.shouldValidateCache answer = ({ p with cachedMinLen := answer.1, cachedStart := answer.2 }, 1) := by
  have hlen : p.getNextRangeLen ≠ 0 := by
    rw [getNextRangeLen_eq h]
    unfold kint32max
    omega
  dsimp only [PartialData.shouldValidateCache]
  rw [if_neg hlen, if_pos h.sparse, if_neg (by dsimp only; omega)]

/-- **The sub-range that comes next** begins where the last one ended.  It is in the cache as
a whole, or no part of it is. -/
theorem prepareCacheValidation_spec (h : InRange p first last) (hle : p.currentRangeStart ≤ last)
    (hav : Available stored p.currentRangeStart p.getNextRangeLen (p.cachedMinLen, p.cachedStart)) :
    ∃ p' stop, p.prepareCacheValidation = (p', ⟨p.currentRangeStart, stop⟩) ∧
      p'.currentRangeStart = p.currentRangeStart ∧ p'.byteRange = p.byteRange ∧
      p'.sparseEntry = p.sparseEntry ∧ p.currentRangeStart ≤ stop ∧ stop ≤ last ∧
      ((p'.isCurrentRangeCached = true ∧ p'.cachedMinLen = stop - p.currentRangeStart + 1 ∧
          p'.cachedMinLen ≤ kint32max ∧
          ∀ x, p.currentRangeStart ≤ x → x ≤ stop → x ∈ stored) ∨
        (p'.isCurrentRangeCached = false ∧ ∀ x, p.currentRangeStart ≤ x → x ≤ stop → x ∉ stored)) := by
  have hlen := getNextRangeLen_eq h
  have hhas : p.byteRange.hasLastBytePosition = true := by
    rw [HttpByteRange.hasLastBytePosition, h.stop]
    exact decide_eq_true (by have := h.nonneg; have := h.le; omega)
  obtain ⟨-, -, h0, -, h1, h2, h3⟩ := h
  have hpos : 0 < p.getNextRangeLen ∧ p.getNextRangeLen ≤ last - p.currentRangeStart + 1 ∧
      p.getNextRangeLen ≤ kint32max := by
    rw [hlen]
    unfold kint32max
    omega
  unfold PartialData.prepareCacheValidation PartialData.isCurrentRangeCached
  generalize p.getNextRangeLen = len at hav hpos hlen
  dsimp only
  rcases hav with ⟨hnone, habsent⟩ | ⟨hmin, hstart, hend, habsent, hpresent⟩
  · -- nothing more is stored
    have hnone : p.cachedMinLen = 0 := hnone
    have hcast : toInt64 (p.currentRangeStart + len) = p.currentRangeStart + len :=
      toInt64_of_mem (by omega) (by omega)
    rw [if_pos hnone, hhas]
    simp only [if_true, hcast]
    rw [if_neg (by omega), toInt64_of_mem (by omega) (by omega)]
    refine ⟨_, _, rfl, rfl, rfl, rfl, by omega, by omega, .inr ⟨rfl, fun x hx hx' => ?_⟩⟩
    exact habsent x hx (by omega)
  · dsimp only at hmin hstart hend habsent hpresent
    rw [if_neg hmin.ne']
    by_cases hcached : p.currentRangeStart = p.cachedStart
    · -- the data lives in the cache
      have hcast : toInt64 (p.cachedStart + p.cachedMinLen - 1) = p.cachedStart + p.cachedMinLen - 1 :=
        toInt64_of_mem (by omega) (by omega)
      have hrange : ∀ x, p.currentRangeStart ≤ x → x ≤ p.cachedStart + p.cachedMinLen - 1 →
          x ∈ stored := fun x hx hx' => hpresent x (by omega) (by omega)
      rw [if_pos hcached]
      split_ifs
      · exact ⟨_, _, rfl, rfl, rfl, rfl, by dsimp only; omega, by dsimp only; omega,
          .inl ⟨rfl, by dsimp only; omega, by dsimp only; omega, by dsimp only; rwa [hcast]⟩⟩
      · exact ⟨_, _, rfl, rfl, rfl, rfl, by dsimp only; omega, by dsimp only; omega,
          .inl ⟨rfl, by dsimp only; omega, by dsimp only; omega, by dsimp only; rwa [hcast]⟩⟩
    · -- this range is not in the cache
      have hcast : toInt64 (p.cachedStart - 1) = p.cachedStart - 1 := toInt64_of_mem (by omega) (by omega)
      rw [if_neg hcached]
      dsimp only
      rw [hcast]
      exact ⟨_, _, rfl, rfl, rfl, rfl, by omega, by omega, .inr ⟨rfl, fun x hx hx' => habsent x hx (by omega)⟩⟩

theorem onCacheReadCompleted_spec {n : ℤ} (h : InRange p first last) (hn : 0 ≤ n)
    (hle : n ≤ p.cachedMinLen) (hmax : p.cachedMinLen ≤ kint32max)
    (hend : p.currentRangeStart + p.cachedMinLen ≤ last + 1) :
    InRange (p.onCacheReadCompleted n) first last ∧
      (p.onCacheReadCompleted n).currentRangeStart = p.currentRangeStart + n ∧
      (p.onCacheReadCompleted n).cachedMinLen = p.cachedMinLen - n := by
  obtain ⟨hstop, hsparse, h0, hfl, h1, h2, h3⟩ := h
  unfold kint32max at hmax
  unfold PartialData.onCacheReadCompleted
  split_ifs with hpos
  · rw [toInt64_of_mem (by omega) (by omega), toInt32_of_mem (by omega) (by omega)]
    exact ⟨⟨hstop, hsparse, h0, hfl, by dsimp only; omega, by dsimp only; omega, h3⟩, rfl, rfl⟩
  · exact ⟨⟨hstop, hsparse, h0, hfl, h1, h2, h3⟩, by omega, by omega⟩

theorem onNetworkReadCompleted_spec {n : ℤ} (h : InRange p first last) (hn : 0 ≤ n)
    (hend : p.currentRangeStart + n ≤ last + 1) :
    InRange (p.onNetworkReadCompleted n) first last ∧
      (p.onNetworkReadCompleted n).currentRangeStart = p.currentRangeStart + n := by
  obtain ⟨hstop, hsparse, h0, hfl, h1, h2, h3⟩ := h
  unfold PartialData.onNetworkReadCompleted
  split_ifs with hpos
  · rw [toInt64_of_mem (by omega) (by omega)]
    exact ⟨⟨hstop, hsparse, h0, hfl, by dsimp only; omega, by dsimp only; omega, h3⟩, rfl⟩
  · exact ⟨⟨hstop, hsparse, h0, hfl, h1, h2, h3⟩, by omega⟩


/-! ### What a run does -/

def Fetched.offset (f : Fetched) : ℕ := f.header.start.toNat

def Fetched.length (f : Fetched) : ℕ := (f.header.stop + 1 - f.header.start).toNat

/-- A sub-range is not empty and lies in the range, and it is taken to be cached if and only
if the entry stores all of it. -/
structure Fetched.Exact (f : Fetched) (first last : ℤ) : Prop where
  first_le : first ≤ f.header.start
  le : f.header.start ≤ f.header.stop
  le_last : f.header.stop ≤ last
  cached_iff : f.cached = true ↔ ∀ x, f.header.start ≤ x → x ≤ f.header.stop → x ∈ f.stored

/-- What the phase of the loop says; the sub-ranges so far end at `next`. -/
def PhaseInv (p : PartialData) (last next : ℤ) : Phase → Prop
  | .validate => next = p.currentRangeStart
  | .prepare stored => next = p.currentRangeStart ∧ p.currentRangeStart ≤ last ∧
      Available stored p.currentRangeStart p.getNextRangeLen (p.cachedMinLen, p.cachedStart)
  | .readCache => next = p.currentRangeStart + p.cachedMinLen ∧ 0 ≤ p.cachedMinLen ∧
      p.cachedMinLen ≤ kint32max
  | .readNetwork left => next = p.currentRangeStart + left ∧ 0 ≤ left
  | .finished => next = p.currentRangeStart ∧ p.currentRangeStart = last + 1

structure LoopInv (first last : ℤ) (s : LoopState) : Prop where
  inRange : InRange s.partialData first last
  exact : ∀ f ∈ s.log, f.Exact first last
  next : ∃ next, next ≤ last + 1 ∧ first ≤ next ∧
    Tiles Fetched.offset Fetched.length first.toNat s.log next.toNat ∧ PhaseInv s.partialData last next s.phase

variable {s s' : LoopState} {call : Call} {tr : List Call}

theorem tiles_concat {log : List Fetched} {f : Fetched} {next : ℤ} (h0 : 0 ≤ f.header.start)
    (hle : f.header.start ≤ f.header.stop) (hnext : next = f.header.start)
    (ht : Tiles Fetched.offset Fetched.length first.toNat log next.toNat) :
    Tiles Fetched.offset Fetched.length first.toNat (log ++ [f]) (f.header.stop + 1).toNat := by
  rw [tiles_append]
  refine ⟨next.toNat, ht, ?_, ?_⟩
  · rw [hnext]
    rfl
  · show next.toNat + (f.header.stop + 1 - f.header.start).toNat = _
    omega

theorem InRange.congr {p' : PartialData} (h : InRange p first last)
    (h1 : p'.currentRangeStart = p.currentRangeStart) (h2 : p'.byteRange = p.byteRange)
    (h3 : p'.sparseEntry = p.sparseEntry) : InRange p' first last := by
  obtain ⟨a, b, c, d, e, f, g⟩ := h
  exact ⟨by rw [h2]; exact a, by rw [h3]; exact b, c, d, by rw [h1]; exact e, by rw [h1]; exact f, g⟩

theorem Available.nonneg {offset len : ℤ} (h : Available stored offset len answer) : 0 ≤ answer.1 := by
  rcases h with ⟨h0, -⟩ | ⟨hpos, -⟩ <;> omega

theorem LoopInv.init {p : PartialData} (h : Resolved p first last) :
    LoopInv first last ⟨p, .validate, []⟩ := by
  obtain ⟨hstart, hstop, hsparse, h0, hle, hlt⟩ := h
  refine ⟨⟨hstop, hsparse, h0, hle, by rw [hstart], by rw [hstart]; omega, hlt⟩, by simp, first,
    by omega, le_rfl, rfl, hstart.symm⟩

def stepsLeft (last : ℤ) (s : LoopState) : ℤ :=
  let left := last + 1 - s.partialData.currentRangeStart
  match s.phase with
  | .validate => 4 * left + 1
  | .prepare _ => 4 * left
  | .readCache => 4 * (left - s.partialData.cachedMinLen) + s.partialData.cachedMinLen + 2
  | .readNetwork n => 4 * (left - n) + n + 2
  | .finished => 0

theorem LoopInv.stepsLeft_nonneg (h : LoopInv first last s) : 0 ≤ stepsLeft last s := by
  obtain ⟨hin, -, next, hnext, -, -, hphase⟩ := h
  obtain ⟨p, phase, log⟩ := s
  have hle := hin.le_last
  cases phase <;> dsimp only [PhaseInv, stepsLeft] at hphase hle ⊢ <;> omega

theorem LoopInv.step (h : LoopInv first last s) (hstep : LoopStep s call s') :
    LoopInv first last s' ∧ stepsLeft last s' + 1 ≤ stepsLeft last s := by
  obtain ⟨hin, hexact, next, hnext, hfirst, htiles, hphase⟩ := h
  cases hstep with
  | @validate p p' log stored answer rv hav hval hrv =>
    dsimp only [PhaseInv] at hin hexact htiles hphase
    rcases Int.lt_or_eq_of_le hin.le_last with hlt | hend
    · have hle : p.currentRangeStart ≤ last := by omega
      rw [shouldValidateCache_next hin hle hav.nonneg] at hval
      obtain ⟨rfl, -⟩ := Prod.mk.inj hval
      refine ⟨⟨hin.congr rfl rfl rfl, hexact, next, hnext, hfirst, htiles, hphase, hle, hav⟩, ?_⟩
      dsimp only [stepsLeft]
      omega
    · rw [shouldValidateCache_end hin hend] at hval
      obtain ⟨-, rfl⟩ := Prod.mk.inj hval
      exact absurd hrv (lt_irrefl 0)
  | @finish p p' log stored answer hav hval =>
    dsimp only [PhaseInv] at hin hexact htiles hphase
    rcases Int.lt_or_eq_of_le hin.le_last with hlt | hend
    · have hle : p.currentRangeStart ≤ last := by omega
      rw [shouldValidateCache_next hin hle hav.nonneg] at hval
      cases (Prod.mk.inj hval).2
    · rw [shouldValidateCache_end hin hend] at hval
      obtain ⟨rfl, -⟩ := Prod.mk.inj hval
      refine ⟨⟨hin, hexact, next, hnext, hfirst, htiles, hphase, hend⟩, ?_⟩
      dsimp only [stepsLeft]
      omega
  | @prepare p p' log stored hd hprep =>
    dsimp only [PhaseInv] at hin hexact htiles hphase
    obtain ⟨hcur, hle, hav⟩ := hphase
    obtain ⟨q, stop, hq, hqcur, hqrange, hqsparse, hstop, hlast, hkind⟩ :=
      prepareCacheValidation_spec hin hle hav
    rw [hprep] at hq
    cases hq
    have hin' : InRange p' first last := hin.congr hqcur hqrange hqsparse
    have h0 := hin.nonneg
    have hfl := hin.first_le
    have htiles' := tiles_concat (f := ⟨⟨p.currentRangeStart, stop⟩, p'.isCurrentRangeCached,
      stored⟩) (by dsimp only; omega) hstop hcur htiles
    refine ⟨⟨hin', ?_, stop + 1, by omega, by omega, htiles', ?_⟩, ?_⟩
    · intro f hf
      rcases List.mem_append.1 hf with hf | hf
      · exact hexact f hf
      · obtain rfl := List.mem_singleton.1 hf
        refine ⟨hfl, hstop, hlast, ?_⟩
        rcases hkind with ⟨hc, -, -, hall⟩ | ⟨hc, hnone⟩
        · exact iff_of_true hc hall
        · refine iff_of_false (by simp [hc]) fun hall => ?_
          exact hnone p.currentRangeStart le_rfl hstop (hall _ le_rfl hstop)
    · rcases hkind with ⟨hc, hmin, hmax, -⟩ | ⟨hc, -⟩
      · show PhaseInv p' last (stop + 1) (if p'.isCurrentRangeCached then _ else _)
        rw [hc, if_pos rfl]
        refine ⟨?_, ?_, hmax⟩
        · rw [hmin, hqcur]
          omega
        · rw [hmin]
          omega
      · show PhaseInv p' last (stop + 1) (if p'.isCurrentRangeCached then _ else _)
        rw [hc, if_neg (by simp)]
        refine ⟨?_, by dsimp only; omega⟩
        rw [hqcur]
        dsimp only
        omega
    · rcases hkind with ⟨hc, hmin, -, -⟩ | ⟨hc, -⟩
      · rw [hc, if_pos rfl]
        dsimp only [stepsLeft]
        omega
      · rw [hc, if_neg (by simp)]
        dsimp only [stepsLeft]
        omega
  | @cacheRead p log dataLen n hn hle =>
    dsimp only [PhaseInv] at hin hexact htiles hphase
    obtain ⟨hcur, h0, hmax⟩ := hphase
    have hle' : n ≤ p.cachedMinLen := le_trans hle (min_le_right _ _)
    obtain ⟨hin', hq1, hq2⟩ := onCacheReadCompleted_spec hin hn.le hle' hmax (by omega)
    refine ⟨⟨hin', hexact, next, hnext, hfirst, htiles, ?_⟩, ?_⟩
    · show next = _ ∧ 0 ≤ (p.onCacheReadCompleted n).cachedMinLen ∧ (p.onCacheReadCompleted n).cachedMinLen ≤ kint32max
      rw [hq1, hq2]
      omega
    · dsimp only [stepsLeft]
      omega
  | @cacheDone p log dataLen hlen hnone =>
    dsimp only [PhaseInv] at hin hexact htiles hphase
    obtain ⟨hcur, h0, hmax⟩ := hphase
    have hmin : p.cachedMinLen = 0 := by
      unfold PartialData.cacheReadLen at hnone
      omega
    obtain ⟨hin', hq1, -⟩ := onCacheReadCompleted_spec hin le_rfl h0 hmax (by omega)
    refine ⟨⟨hin', hexact, next, hnext, hfirst, htiles, ?_⟩, ?_⟩
    · show next = (p.onCacheReadCompleted 0).currentRangeStart
      omega
    · dsimp only [stepsLeft]
      omega
  | @networkRead p log left n hn hle =>
    dsimp only [PhaseInv] at hin hexact htiles hphase
    obtain ⟨hcur, h0⟩ := hphase
    obtain ⟨hin', hq1⟩ := onNetworkReadCompleted_spec hin hn.le (by omega)
    refine ⟨⟨hin', hexact, next, hnext, hfirst, htiles, ?_, by omega⟩, ?_⟩
    · show next = (p.onNetworkReadCompleted n).currentRangeStart + (left - n)
      omega
    · dsimp only [stepsLeft]
      omega
  | @networkDone p log =>
    dsimp only [PhaseInv] at hin hexact htiles hphase
    obtain ⟨hcur, -⟩ := hphase
    obtain ⟨hin', hq1⟩ := onNetworkReadCompleted_spec hin le_rfl (by omega)
    refine ⟨⟨hin', hexact, next, hnext, hfirst, htiles, ?_⟩, ?_⟩
    · show next = (p.onNetworkReadCompleted 0).currentRangeStart
      omega
    · dsimp only [stepsLeft]
      omega

theorem exists_available (stored : Set ℤ) (offset len : ℤ) :
    ∃ answer, Available stored offset len answer := by
  by_cases h : ∃ x, offset ≤ x ∧ x < offset + len ∧ x ∈ stored
  · obtain ⟨x, ⟨hx, hlt, hmem⟩, hleast⟩ := Int.exists_least_of_bdd ⟨offset, fun z hz => hz.1⟩ h
    refine ⟨(1, x), .inr ⟨one_pos, hx, by dsimp only; omega, fun y hy hyx hstored => ?_, fun y hy hyx => ?_⟩⟩
    · have := hleast y ⟨hy, by dsimp only at hyx; omega, hstored⟩
      dsimp only at hyx
      omega
    · obtain rfl : y = x := by dsimp only at hy hyx; omega
      exact hmem
  · exact ⟨(0, offset), .inl ⟨rfl, fun x hx hlt hmem => h ⟨x, hx, hlt, hmem⟩⟩⟩

/-- **The loop goes on until it is finished**, whatever the entry stores. -/
theorem LoopInv.progress (h : LoopInv first last s) (hphase : s.phase ≠ .finished)
    (stored : Set ℤ) : ∃ call s', LoopStep s call s' ∧
      ∀ st answer, call = .shouldValidateCache st answer → st = stored := by
  obtain ⟨hin, -, next, hnext, -, -, hinv⟩ := h
  obtain ⟨p, phase, log⟩ := s
  cases phase with
  | validate =>
    obtain ⟨answer, hav⟩ := exists_available stored p.currentRangeStart p.getNextRangeLen
    refine ⟨.shouldValidateCache stored answer, ?_⟩
    rcases Int.lt_or_eq_of_le hin.le_last with hlt | hend
    · dsimp only at hlt
      exact ⟨_, .validate hav (shouldValidateCache_next hin (by omega) hav.nonneg)
        one_pos, fun st a he => (Call.shouldValidateCache.inj he).1.symm⟩
    · exact ⟨_, .finish hav (shouldValidateCache_end hin hend),
        fun st a he => (Call.shouldValidateCache.inj he).1.symm⟩
  | prepare st => exact ⟨.prepareCacheValidation, _, .prepare rfl, fun _ _ he => by cases he⟩
  | readCache =>
    dsimp only [PhaseInv] at hinv
    obtain ⟨-, h0, -⟩ := hinv
    rcases Int.lt_or_eq_of_le h0 with hlt | hzero
    · exact ⟨.cacheRead p.cachedMinLen p.cachedMinLen, _,
        .cacheRead hlt (by unfold PartialData.cacheReadLen; omega), fun _ _ he => by cases he⟩
    · exact ⟨.cacheRead 1 0, _, .cacheDone one_pos (by unfold PartialData.cacheReadLen; omega),
        fun _ _ he => by cases he⟩
  | readNetwork left =>
    dsimp only [PhaseInv] at hinv
    obtain ⟨-, h0⟩ := hinv
    rcases Int.lt_or_eq_of_le h0 with hlt | hzero
    · exact ⟨.networkRead left, _, .networkRead hlt le_rfl, fun _ _ he => by cases he⟩
    · subst hzero
      exact ⟨.networkRead 0, _, .networkDone, fun _ _ he => by cases he⟩
  | finished => exact absurd rfl hphase

structure Splits (first last : ℤ) (log : List Fetched) : Prop where
  consecutive : Tiles Fetched.offset Fetched.length first.toNat log (last + 1).toNat
  disjoint : log.Pairwise fun f g => f.header.stop < g.header.start
  cover : ∀ x, first ≤ x → x ≤ last → ∃ f ∈ log, f.header.start ≤ x ∧ x ≤ f.header.stop

theorem splits_of_tiles {log : List Fetched} (h0 : 0 ≤ first)
    (hexact : ∀ f ∈ log, f.Exact first last)
    (h : Tiles Fetched.offset Fetched.length first.toNat log (last + 1).toNat) :
    Splits first last log := by
  refine ⟨h, ?_, fun x hx hxl => ?_⟩
  · refine h.pairwise.imp_of_mem fun {f g} hf hg hfg => ?_
    have hf' := hexact f hf
    have hg' := hexact g hg
    have h1 := hf'.le
    have h2 := hf'.first_le
    unfold Fetched.offset Fetched.length at hfg
    omega
  · obtain ⟨f, hf, hlo, hhi⟩ := h.exists_covers (x := x.toNat) (by omega) (by omega)
    have hf' := hexact f hf
    have h1 := hf'.le
    have h2 := hf'.first_le
    unfold Fetched.offset at hlo hhi
    unfold Fetched.length at hhi
    exact ⟨f, hf, by omega, by omega⟩

theorem loopInv_run {p : PartialData} (hp : Resolved p first last) (hrun : (loopSystem p).Run tr s) :
    LoopInv first last s := by
  refine hrun.invariant (I := LoopInv first last) ?_ fun _ _ _ hI hstep => (hI.step hstep).1
  rintro s rfl
  exact LoopInv.init hp

def firstByte : PartialData :=
  { PartialData.new with resourceSize := 10, byteRange := ⟨0, 0, -1, true⟩ }

end Chromium.Net
