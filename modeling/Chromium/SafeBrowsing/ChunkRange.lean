import Chromium.Base.StringSplit

/-!
# Ranges of chunk numbers

`chrome/browser/safe_browsing/chunk_range.cc`: a list of chunk numbers is written as ranges, the ranges are read and expanded
again, and a number is looked up in them.

`chunkRanges_spec`: all of this is consistent unless the largest `int` is a chunk number.  Behind that number the counters of
the loops wrap around, so a loop does not end.
-/

namespace Chromium.SafeBrowsing

open Base Lib
open List (append_assoc append_nil cons_ne_nil map_cons mem_append mem_cons mem_cons_of_mem
  mem_cons_self not_mem_nil pairwise_cons)

structure ChunkRange where
  start : ℤ
  stop : ℤ
  deriving DecidableEq

/-- The inner loop of `ChunksToRangeString`, from the end of the range so far. -/
def extendRange (rangeEnd : ℤ) : List ℤ → ℤ × List ℤ
  | [] => (rangeEnd, [])
  | chunk :: iter => if chunk ≤ toInt32 (rangeEnd + 1) then extendRange chunk iter else (rangeEnd, chunk :: iter)

def appendRange (result : List UInt8) (range : ChunkRange) : List UInt8 :=
  (if result.isEmpty then result else result ++ [44]) ++ decimalInt range.start ++
    if range.start < range.stop then 45 :: decimalInt range.stop else []

def rangeStringLoop : ℕ → List ℤ → List UInt8 → Option (List UInt8)
  | _, [], result => some result
  | 0, _ :: _, _ => none
  | fuel + 1, chunk :: iter, result =>
    let (rangeEnd, rest) := extendRange chunk (chunk :: iter)
    rangeStringLoop fuel rest (appendRange result ⟨chunk, rangeEnd⟩)

def chunksToRangeString (fuel : ℕ) (chunks : List ℤ) : Option (List UInt8) :=
  rangeStringLoop fuel (chunks.mergeSort (· ≤ ·)) []

/-- The inner loop of `RangesToChunks`, with a bound on its turns. -/
def rangeLoop (stop : ℤ) : ℕ → ℤ → List ℤ → Option (List ℤ)
  | 0, _, _ => none
  | fuel + 1, chunk, chunks =>
    if chunk ≤ stop then rangeLoop stop fuel (toInt32 (chunk + 1)) (chunks ++ [chunk]) else some chunks

def rangesToChunks (fuel : ℕ) : List ChunkRange → List ℤ → Option (List ℤ)
  | [], chunks => some chunks
  | range :: ranges, chunks => (rangeLoop range.stop fuel range.start chunks).bind (rangesToChunks fuel ranges)

/-- The loop of `StringToRanges`.  `SplitString` gives one part at least. -/
def stringToRangesLoop : List (List UInt8) → List ChunkRange → Bool × List ChunkRange
  | [], ranges => (true, ranges)
  | part :: parts, ranges =>
    let chunkRanges := splitString part 45
    let start := atoi (chunkRanges.getD 0 [])
    let stop := if chunkRanges.length = 2 then atoi (chunkRanges.getD 1 []) else start
    if start = 0 ∨ stop = 0 then (false, []) else stringToRangesLoop parts (ranges ++ [⟨start, stop⟩])

def stringToRanges (input : List UInt8) : Bool × List ChunkRange := stringToRangesLoop (splitString input 44) []

/-- The loop of `IsChunkInRange`, with a bound on its turns; there is no result for a read outside the vector. -/
def searchLoop (chunkNumber : ℤ) (ranges : List ChunkRange) : ℕ → ℤ → ℤ → Option Bool
  | 0, _, _ => none
  | fuel + 1, low, high =>
    if low ≤ high then
      let mid := (low % 4294967296 + high % 4294967296) % 4294967296 / 2
      match ranges[mid.toNat]? with
      | none => none
      | some chunk =>
        if chunkNumber ≤ chunk.stop ∧ chunk.start ≤ chunkNumber then some true
        else if chunk.stop < chunkNumber then searchLoop chunkNumber ranges fuel (mid + 1) high
        else searchLoop chunkNumber ranges fuel low (mid - 1)
    else some false

def isChunkInRange (fuel : ℕ) (chunkNumber : ℤ) (ranges : List ChunkRange) : Option Bool :=
  if ranges.isEmpty then some false else searchLoop chunkNumber ranges fuel 0 (toInt32 (ranges.length - 1))

/-! ### What ranges stand for -/

variable {c l rest chunks result : List ℤ} {ranges : List ChunkRange} {fuel : ℕ} {x chunk stop rangeEnd : ℤ}
  {r : ChunkRange}

def ChunkRange.Has (r : ChunkRange) (x : ℤ) : Prop := r.start ≤ x ∧ x ≤ r.stop

/-- Sorted ranges with gaps between them, none of which is empty. -/
structure Separated (ranges : List ChunkRange) : Prop where
  sorted : ranges.Pairwise fun a b => a.stop + 1 < b.start
  nonempty : ∀ r ∈ ranges, r.start ≤ r.stop

/-- **The list of numbers goes through all of it unharmed.** -/
structure Consistent (c : List ℤ) (text : List UInt8) (ranges : List ChunkRange) (chunks : List ℤ) : Prop where
  written : ∃ fuel, chunksToRangeString fuel c = some text
  read : stringToRanges text = (true, ranges)
  separated : Separated ranges
  expanded : ∃ fuel, rangesToChunks fuel ranges [] = some chunks
  sorted : chunks.Pairwise (· < ·)
  mem_chunks : ∀ x, x ∈ chunks ↔ x ∈ c
  found : ∀ x, ∃ fuel, isChunkInRange fuel x ranges = some (decide (x ∈ c))

/-! ### Writing -/

theorem extendRange_spec (hsorted : l.Pairwise (· ≤ ·)) (hle : ∀ y ∈ l, rangeEnd ≤ y ∧ y < 2147483647)
    (hlow : 0 < rangeEnd) (hlt : rangeEnd < 2147483647) :
    rangeEnd ≤ (extendRange rangeEnd l).1 ∧ (extendRange rangeEnd l).1 < 2147483647 ∧
      (∀ y ∈ (extendRange rangeEnd l).2, (extendRange rangeEnd l).1 + 1 < y) ∧ (extendRange rangeEnd l).2 <:+ l ∧
      ∀ x, (rangeEnd ≤ x ∧ x ≤ (extendRange rangeEnd l).1) ∨ x ∈ (extendRange rangeEnd l).2 ↔ x = rangeEnd ∨ x ∈ l := by
  induction l generalizing rangeEnd with
  | nil =>
    refine ⟨le_rfl, hlt, fun y hy => (nomatch hy), List.suffix_rfl, fun x => ?_⟩
    simp only [extendRange, not_mem_nil, or_false]
    omega
  | cons y l ih =>
    obtain ⟨hy, hl⟩ := pairwise_cons.1 hsorted
    obtain ⟨hge, hylt⟩ := hle y mem_cons_self
    rw [extendRange, toInt32_of_mem (by omega) (by omega)]
    split
    · next hnext =>
      obtain ⟨hle', hlt', hgap, hsuffix, hiff⟩ :=
        ih hl (fun z hz => ⟨hy z hz, (hle z (mem_cons_of_mem y hz)).2⟩) (by omega) hylt
      refine ⟨by omega, hlt', hgap, hsuffix.trans (List.suffix_cons y l), fun x => ?_⟩
      rw [mem_cons, ← hiff x]
      constructor
      · rintro (hx | hx)
        · by_cases heq : x = rangeEnd
          · exact .inl heq
          · exact .inr (.inl (by omega))
        · exact .inr (.inr hx)
      · rintro (rfl | hx | hx)
        · exact .inl (by omega)
        · exact .inl (by omega)
        · exact .inr hx
    · next hgap =>
      refine ⟨le_rfl, hlt, fun z hz => ?_, List.suffix_rfl, fun x => ?_⟩
      · rcases mem_cons.1 hz with rfl | hz
        · omega
        · have hyz := hy z hz
          omega
      · exact or_congr_left ⟨fun h => by omega, fun h => by omega⟩

theorem exists_rangeStringLoop (hsorted : l.Pairwise (· ≤ ·)) (hl : ∀ y ∈ l, 0 < y ∧ y < 2147483647)
    (hfuel : l.length ≤ fuel) : ∃ ranges, Separated ranges ∧ (∀ r ∈ ranges, r.stop < 2147483647) ∧
      (∀ x, x ∈ l ↔ ∃ r ∈ ranges, r.Has x) ∧
      ∀ result, rangeStringLoop fuel l result = some (ranges.foldl appendRange result) := by
  induction fuel generalizing l with
  | zero =>
    obtain rfl := List.length_eq_zero_iff.1 (Nat.le_zero.1 hfuel)
    exact ⟨[], ⟨.nil, by simp⟩, by simp, by simp, fun _ => rfl⟩
  | succ fuel ih =>
    cases l with
    | nil => exact ⟨[], ⟨.nil, by simp⟩, by simp, by simp, fun _ => rfl⟩
    | cons y l =>
      obtain ⟨hy, -⟩ := pairwise_cons.1 hsorted
      obtain ⟨hpos, hlt⟩ := hl y mem_cons_self
      have hall : ∀ z ∈ y :: l, y ≤ z ∧ z < 2147483647 := by
        intro z hz
        refine ⟨?_, (hl z hz).2⟩
        rcases mem_cons.1 hz with rfl | hz
        · exact le_rfl
        · exact hy z hz
      have hfirst : extendRange y (y :: l) = extendRange y l := by
        rw [extendRange, toInt32_of_mem (by omega) (by omega), if_pos (by omega)]
      obtain ⟨hle, hlt', hgap, hsuffix, hiff⟩ := extendRange_spec (pairwise_cons.1 hsorted).2
        (fun z hz => hall z (mem_cons_of_mem y hz)) hpos hlt
      generalize hpair : extendRange y l = pair at hle hlt' hgap hsuffix hiff
      obtain ⟨rangeEnd, rest⟩ := pair
      obtain ⟨ranges, hseparated, hbound, hmem, hloop⟩ := ih (hsorted.sublist (hsuffix.sublist.cons y))
        (fun z hz => hl z (mem_cons_of_mem y (hsuffix.subset hz)))
        (Nat.le_trans hsuffix.length_le (Nat.le_of_succ_le_succ hfuel))
      refine ⟨⟨y, rangeEnd⟩ :: ranges, ⟨pairwise_cons.2 ⟨fun r hr => ?_, hseparated.sorted⟩, ?_⟩, ?_, fun x => ?_,
        fun result => ?_⟩
      · exact hgap _ ((hmem r.start).2 ⟨r, hr, le_rfl, hseparated.nonempty r hr⟩)
      · exact List.forall_mem_cons.2 ⟨hle, hseparated.nonempty⟩
      · exact List.forall_mem_cons.2 ⟨hlt', hbound⟩
      · rw [mem_cons, ← hiff x, List.exists_mem_cons_iff, hmem x]
        rfl
      · rw [rangeStringLoop, hfirst, hpair]
        exact hloop _

/-! ### Reading -/

def ChunkRange.text (r : ChunkRange) : List UInt8 :=
  decimalInt r.start ++ if r.start < r.stop then 45 :: decimalInt r.stop else []

theorem foldl_appendRange {text : List UInt8} (hne : text ≠ []) :
    ranges.foldl appendRange text = [44].intercalate (text :: ranges.map ChunkRange.text) := by
  induction ranges generalizing text with
  | nil => simp
  | cons r ranges ih =>
    have happend : appendRange text r = text ++ 44 :: r.text := by
      rw [appendRange, if_neg (by simpa using hne)]
      simp [ChunkRange.text]
    rw [List.foldl_cons, happend, ih (by simp), map_cons, List.intercalate_cons_of_ne_nil (cons_ne_nil _ _)]
    cases ranges with
    | nil => simp
    | cons r' ranges =>
      rw [map_cons, List.intercalate_cons_of_ne_nil (cons_ne_nil _ _),
        List.intercalate_cons_of_ne_nil (cons_ne_nil _ _)]
      simp

theorem digits_of_pos (hx : 0 < x) : ∀ c ∈ decimalInt x, isDecimalDigit c = true := by
  obtain ⟨n, rfl⟩ := Int.eq_ofNat_of_zero_le hx.le
  intro c hc
  rw [decimalInt_natCast] at hc
  exact isDecimalDigit_of_mem hc

theorem mem_text (hpos : 0 < r.start) (hle : r.start ≤ r.stop) : ∀ c ∈ r.text, c = 45 ∨ isDecimalDigit c = true := by
  intro c hc
  rcases mem_append.1 hc with hc | hc
  · exact .inr (digits_of_pos hpos c hc)
  · split at hc
    · exact (mem_cons.1 hc).imp_right (digits_of_pos (hpos.trans_le hle) c)
    · cases hc

theorem stringToRangesLoop_text (hpos : 0 < r.start) (hle : r.start ≤ r.stop) (hlt : r.stop < 2147483647)
    (parts : List (List UInt8)) (before : List ChunkRange) :
    stringToRangesLoop (r.text :: parts) before = stringToRangesLoop parts (before ++ [r]) := by
  have hdigits : ∀ {z}, 0 < z → (45 : UInt8) ∉ decimalInt z ∧ ∀ c ∈ decimalInt z, isSpace c = false := fun hz =>
    ⟨fun hmem => (nomatch digits_of_pos hz 45 hmem), fun c hc => not_isSpace_of_isDecimalDigit (digits_of_pos hz c hc)⟩
  have hstart := hdigits hpos
  have hstop := hdigits (hpos.trans_le hle)
  have hatoi : ∀ {z}, 0 < z → z < 2147483648 → atoi (decimalInt z) = z := fun h0 h1 => atoi_decimalInt (by omega) h1
  have hvalues : atoi ((splitString r.text 45).getD 0 []) = r.start ∧ (if (splitString r.text 45).length = 2 then
      atoi ((splitString r.text 45).getD 1 []) else r.start) = r.stop := by
    by_cases hmore : r.start < r.stop
    · have hsplit := splitString_intercalate (c := 45) (cons_ne_nil (decimalInt r.start) [decimalInt r.stop])
        (by simp [hstart.1, hstop.1]) (by
          simp only [mem_cons, not_mem_nil, or_false, forall_eq_or_imp, forall_eq]
          exact ⟨hstart.2, hstop.2⟩)
      have hparts : splitString r.text 45 = [decimalInt r.start, decimalInt r.stop] := by
        rw [ChunkRange.text, if_pos hmore]
        simpa using hsplit
      rw [hparts]
      exact ⟨hatoi hpos (by omega), hatoi (by omega) (by omega)⟩
    · have hsplit := splitString_intercalate (c := 45) (cons_ne_nil (decimalInt r.start) []) (by simp [hstart.1])
        (by simpa using hstart.2)
      have hparts : splitString r.text 45 = [decimalInt r.start] := by
        rw [ChunkRange.text, if_neg hmore, append_nil]
        simpa using hsplit
      rw [hparts]
      refine ⟨hatoi hpos (by omega), ?_⟩
      show r.start = r.stop
      omega
  rw [stringToRangesLoop]
  simp only [hvalues.1, hvalues.2]
  rw [if_neg (by omega)]

theorem stringToRanges_foldl (hne : ranges ≠ []) (hseparated : Separated ranges)
    (hbound : ∀ r ∈ ranges, 0 < r.start ∧ r.stop < 2147483647) :
    stringToRanges (ranges.foldl appendRange []) = (true, ranges) := by
  have hloop : ∀ (rest before : List ChunkRange), rest ⊆ ranges →
      stringToRangesLoop (rest.map ChunkRange.text) before = (true, before ++ rest) := by
    intro rest
    induction rest with
    | nil =>
      intro before _
      rw [append_nil]
      rfl
    | cons r rest ih =>
      intro before hsub
      have hr := hsub mem_cons_self
      rw [map_cons, stringToRangesLoop_text (hbound r hr).1 (hseparated.nonempty r hr) (hbound r hr).2,
        ih _ (List.Subset.trans (List.subset_cons_self r rest) hsub), append_assoc]
      rfl
  have hchars : ∀ part ∈ ranges.map ChunkRange.text, ∀ c ∈ part, c = 45 ∨ isDecimalDigit c = true := by
    intro part hpart
    obtain ⟨r, hr, rfl⟩ := List.mem_map.1 hpart
    exact mem_text (hbound r hr).1 (hseparated.nonempty r hr)
  have htext : ranges.foldl appendRange [] = [44].intercalate (ranges.map ChunkRange.text) := by
    obtain ⟨r, ranges, rfl⟩ := List.exists_cons_of_ne_nil hne
    have hr : r.text ≠ [] := fun h => decimalInt_ne_nil _ (List.append_eq_nil_iff.1 h).1
    exact foldl_appendRange hr
  rw [htext, stringToRanges, splitString_intercalate (by simpa using hne)]
  · exact hloop ranges [] (List.Subset.refl _)
  · intro part hpart hmem
    exact nomatch hchars part hpart 44 hmem
  · intro part hpart c hc
    rcases hchars part hpart c hc with rfl | hdigit
    · rfl
    · exact not_isSpace_of_isDecimalDigit hdigit

/-! ### Expanding -/

theorem exists_rangeLoop (hlt : stop < 2147483647) (hlow : -2147483648 ≤ chunk) (hle : chunk ≤ stop + 1)
    (hfuel : (stop + 1 - chunk).toNat < fuel) : ∃ l, (∀ chunks, rangeLoop stop fuel chunk chunks = some (chunks ++ l)) ∧
      l.Pairwise (· < ·) ∧ ∀ x, x ∈ l ↔ chunk ≤ x ∧ x ≤ stop := by
  induction fuel generalizing chunk with
  | zero => cases hfuel
  | succ fuel ih =>
    by_cases hmore : chunk ≤ stop
    · obtain ⟨l, hloop, hsorted, hmem⟩ := @ih (chunk + 1) (by omega) (by omega) (by omega)
      refine ⟨chunk :: l, fun chunks => ?_, pairwise_cons.2 ⟨fun y hy => ?_, hsorted⟩, fun x => ?_⟩
      · rw [rangeLoop, if_pos hmore, toInt32_of_mem (by omega) (by omega), hloop, append_assoc]
        rfl
      · have hy := (hmem y).1 hy
        omega
      · rw [mem_cons, hmem x]
        omega
    · refine ⟨[], fun chunks => ?_, .nil, fun x => ?_⟩
      · rw [rangeLoop, if_neg hmore, append_nil]
      · simp only [not_mem_nil, false_iff]
        omega

theorem exists_rangesToChunks (hseparated : Separated ranges) (hbound : ∀ r ∈ ranges, 0 < r.start ∧ r.stop < 2147483647) :
    ∃ l, (∀ chunks, rangesToChunks 2147483648 ranges chunks = some (chunks ++ l)) ∧ l.Pairwise (· < ·) ∧
      ∀ x, x ∈ l ↔ ∃ r ∈ ranges, r.Has x := by
  induction ranges with
  | nil => exact ⟨[], fun chunks => by rw [append_nil]; rfl, .nil, by simp⟩
  | cons r ranges ih =>
    obtain ⟨hgap, hsorted⟩ := pairwise_cons.1 hseparated.sorted
    obtain ⟨hpos, hlt⟩ := hbound r mem_cons_self
    have hle := hseparated.nonempty r mem_cons_self
    obtain ⟨l, hloop, hl, hmem⟩ : ∃ l, (∀ chunks, rangeLoop r.stop 2147483648 r.start chunks = some (chunks ++ l)) ∧ _ :=
      exists_rangeLoop hlt (by omega) (by omega) (by omega)
    obtain ⟨l', hloop', hl', hmem'⟩ := ih ⟨hsorted, fun r' hr' => hseparated.nonempty r' (mem_cons_of_mem r hr')⟩
      fun r' hr' => hbound r' (mem_cons_of_mem r hr')
    refine ⟨l ++ l', fun chunks => ?_, List.pairwise_append.2 ⟨hl, hl', fun x hx y hy => ?_⟩, fun x => ?_⟩
    · rw [rangesToChunks, hloop, Option.bind_some, hloop', append_assoc]
    · obtain ⟨r', hr', hy⟩ := (hmem' y).1 hy
      have hx := (hmem x).1 hx
      have hgap := hgap r' hr'
      have hge := hy.1
      omega
    · rw [mem_append, hmem x, hmem' x, List.exists_mem_cons_iff]
      rfl

theorem stop_lt_of_rangeLoop (h : rangeLoop stop fuel chunk chunks = some result) (hchunk : chunk ≤ 2147483647) :
    stop < 2147483647 := by
  induction fuel generalizing chunk chunks with
  | zero => cases h
  | succ fuel ih =>
    rw [rangeLoop] at h
    split at h
    · refine ih h ?_
      unfold toInt32
      omega
    · omega

theorem lt_of_rangeLoop (h : rangeLoop stop fuel chunk chunks = some result) (hx : x ∈ result) :
    x ∈ chunks ∨ x < 2147483647 := by
  induction fuel generalizing chunk chunks with
  | zero => cases h
  | succ fuel ih =>
    rw [rangeLoop] at h
    split at h
    · next hle =>
      refine (ih h).elim (fun hmem => (mem_append.1 hmem).imp_right fun heq => ?_) .inr
      have hstop := stop_lt_of_rangeLoop h (by unfold toInt32; omega)
      rw [List.mem_singleton.1 heq]
      omega
    · cases h
      exact .inl hx

/-- **The largest `int` is in no list that the ranges are expanded to.** -/
theorem lt_of_rangesToChunks (h : rangesToChunks fuel ranges chunks = some result) (hx : x ∈ result) :
    x ∈ chunks ∨ x < 2147483647 := by
  induction ranges generalizing chunks with
  | nil =>
    cases h
    exact .inl hx
  | cons r ranges ih =>
    obtain ⟨chunks', hloop, h⟩ := Option.bind_eq_some_iff.1 h
    exact (ih h).elim (lt_of_rangeLoop hloop) .inr

/-! ### Looking up -/

theorem length_le (low : ℤ) (hseparated : Separated ranges) (hlow : ∀ r ∈ ranges, low ≤ r.start)
    (hlt : ∀ r ∈ ranges, r.stop < 2147483647) (hle : low ≤ 2147483647) : (ranges.length : ℤ) ≤ 2147483647 - low := by
  induction ranges generalizing low with
  | nil => simpa using hle
  | cons r ranges ih =>
    obtain ⟨hgap, hsorted⟩ := pairwise_cons.1 hseparated.sorted
    have hle := hseparated.nonempty r mem_cons_self
    have hfirst := hlow r mem_cons_self
    have hstop := hlt r mem_cons_self
    have hrest := ih (r.stop + 1) ⟨hsorted, fun r' hr' => hseparated.nonempty r' (mem_cons_of_mem r hr')⟩
      (fun r' hr' => (hgap r' hr').le) (fun r' hr' => hlt r' (mem_cons_of_mem r hr')) (by omega)
    rw [List.length_cons]
    omega

/-- **The binary search finds the range** that is between its bounds. -/
theorem searchLoop_spec (hseparated : Separated ranges) (hlength : ranges.length ≤ 2147483647) (x : ℤ) {low high : ℤ}
    (hlow : 0 ≤ low) (hhigh : high < ranges.length) (hfuel : (high + 1 - low).toNat < fuel)
    (hbetween : ∀ (i : ℕ) (hi : i < ranges.length), (ranges[i]).Has x → low ≤ i ∧ i ≤ high) :
    ∃ b, searchLoop x ranges fuel low high = some b ∧ (b = true ↔ ∃ r ∈ ranges, r.Has x) := by
  induction fuel generalizing low high with
  | zero => cases hfuel
  | succ fuel ih =>
    rw [searchLoop]
    split
    · next hle =>
      have hmid : (low % 4294967296 + high % 4294967296) % 4294967296 / 2 = (low + high) / 2 := by omega
      obtain ⟨mid, hmid'⟩ : ∃ mid : ℕ, (low + high) / 2 = mid := ⟨((low + high) / 2).toNat, by omega⟩
      have hlt : mid < ranges.length := by omega
      rw [hmid, hmid']
      dsimp only
      rw [Int.toNat_natCast, List.getElem?_eq_getElem hlt]
      dsimp only
      have hsorted := List.pairwise_iff_getElem.1 hseparated.sorted
      split
      · next hhas => exact ⟨true, rfl, iff_of_true rfl ⟨_, List.getElem_mem hlt, hhas.2, hhas.1⟩⟩
      · next hnot =>
        split
        · next hpast =>
          refine ih (by omega) hhigh (by omega) fun i hi hhas => ⟨?_, (hbetween i hi hhas).2⟩
          by_contra hge
          rcases Nat.lt_or_eq_of_le (show i ≤ mid by omega) with hless | rfl
          · have hgap := hsorted i mid hi hlt hless
            have hnonempty := hseparated.nonempty _ (List.getElem_mem hlt)
            have hstop := hhas.2
            omega
          · exact absurd hhas.2 (by omega)
        · next hpast =>
          refine ih hlow (by omega) (by omega) fun i hi hhas => ⟨(hbetween i hi hhas).1, ?_⟩
          by_contra hge
          have hless : mid ≤ i := by omega
          rcases Nat.lt_or_eq_of_le hless with hless | rfl
          · have hgap := hsorted mid i hlt hi hless
            have hstart := hhas.1
            exact hnot ⟨by omega, by omega⟩
          · exact hnot ⟨hhas.2, hhas.1⟩
    · next hgt =>
      refine ⟨false, rfl, iff_of_false Bool.false_ne_true ?_⟩
      rintro ⟨r, hr, hhas⟩
      obtain ⟨i, hi, rfl⟩ := List.mem_iff_getElem.1 hr
      have hbounds := hbetween i hi hhas
      omega

theorem exists_isChunkInRange (hne : ranges ≠ []) (hseparated : Separated ranges)
    (hbound : ∀ r ∈ ranges, 0 < r.start ∧ r.stop < 2147483647) (x : ℤ) :
    ∃ b, isChunkInRange (ranges.length + 1) x ranges = some b ∧ (b = true ↔ ∃ r ∈ ranges, r.Has x) := by
  have hpos := List.length_pos_of_ne_nil hne
  have hlength := length_le 0 hseparated (fun r hr => (hbound r hr).1.le) (fun r hr => (hbound r hr).2) (by decide)
  rw [isChunkInRange, if_neg (by simpa using hne), toInt32_of_mem (by omega) (by omega)]
  exact searchLoop_spec hseparated (by omega) x le_rfl (by omega) (by omega) fun i hi _ => ⟨by omega, by omega⟩

/-! ### All together -/

/-- **Chunk numbers are consistent exactly where the largest `int` is none of them.** -/
theorem chunkRanges_spec (c : List ℤ) (hne : c ≠ []) (hpos : ∀ x ∈ c, 0 < x ∧ x ≤ 2147483647) :
    (∃ text ranges chunks, Consistent c text ranges chunks) ↔ 2147483647 ∉ c := by
  constructor
  · rintro ⟨text, ranges, chunks, h⟩ hmem
    obtain ⟨fuel, hexpanded⟩ := h.expanded
    rcases lt_of_rangesToChunks hexpanded ((h.mem_chunks _).mpr hmem) with hnil | hlt
    · cases hnil
    · exact lt_irrefl _ hlt
  · intro hmax
    have hperm := List.mergeSort_perm c (· ≤ ·)
    have hmem : ∀ y ∈ c.mergeSort (· ≤ ·), 0 < y ∧ y < 2147483647 := by
      intro y hy
      have hy := hperm.mem_iff.mp hy
      have hbounds := hpos y hy
      have hother : y ≠ 2147483647 := by
        rintro rfl
        exact hmax hy
      omega
    have hsorted : (c.mergeSort (· ≤ ·)).Pairwise (· ≤ ·) := List.pairwise_mergeSort' (· ≤ ·) c
    obtain ⟨ranges, hseparated, hlt, hiff, hloop⟩ := exists_rangeStringLoop hsorted hmem le_rfl
    have hbound : ∀ r ∈ ranges, 0 < r.start ∧ r.stop < 2147483647 := fun r hr =>
      ⟨(hmem _ ((hiff r.start).mpr ⟨r, hr, le_rfl, hseparated.nonempty r hr⟩)).1, hlt r hr⟩
    have hc : ∀ x, (∃ r ∈ ranges, r.Has x) ↔ x ∈ c := fun x => (hiff x).symm.trans hperm.mem_iff
    have hranges : ranges ≠ [] := by
      rintro rfl
      obtain ⟨y, l, rfl⟩ := List.exists_cons_of_ne_nil hne
      simpa using (hc y).mpr List.mem_cons_self
    obtain ⟨chunks, hexpanded, hchunks, hmem'⟩ := exists_rangesToChunks hseparated hbound
    refine ⟨_, ranges, chunks, ⟨_, hloop []⟩, stringToRanges_foldl hranges hseparated hbound, hseparated,
      ⟨_, hexpanded []⟩, hchunks, fun x => (hmem' x).trans (hc x), fun x => ?_⟩
    obtain ⟨b, hfound, hb⟩ := exists_isChunkInRange hranges hseparated hbound x
    refine ⟨_, hfound.trans (congrArg some ?_)⟩
    rw [Bool.eq_iff_iff, hb, hc x, decide_eq_true_eq]

/-- The numbers of two ranges, one of them twice. -/
theorem chunkRanges_spec_of_five : ∃ text ranges chunks, Consistent [7, 2, 3, 2, 4] text ranges chunks :=
  (chunkRanges_spec [7, 2, 3, 2, 4] (by decide) (by decide)).mpr (by decide)

/-- The list of the largest `int`. -/
theorem not_consistent_max : ¬ ∃ text ranges chunks, Consistent [2147483647] text ranges chunks := by
  rintro ⟨text, ranges, chunks, h⟩
  obtain ⟨fuel, hexpanded⟩ := h.expanded
  rcases lt_of_rangesToChunks hexpanded ((h.mem_chunks _).mpr List.mem_cons_self) with hnil | hlt
  · cases hnil
  · exact lt_irrefl _ hlt

end Chromium.SafeBrowsing
