import Chromium.Base.StringToInt64
import Chromium.Lib.Separated
import Chromium.Net.Http.HttpUtil
import Chromium.Net.Http.PartialData

/-!
# The `Range` header

`HttpUtil::ParseRangeHeader` of `net/http/http_util.cc`: behind the unit `bytes` and a `=` stand ranges with commas between them,
each of which is split at its first `-`.

* `parseByteRange_iff`: what is read as one range; the numbers may have signs in front, and a last position of -1 counts as
  one that is not there;
* `parseRangeHeader_iff`: **the headers that are read are those of the grammar**, unless a number with a sign is read.
-/

namespace Chromium.Net

open Chromium.Base Lib
open List (all_eq_true append_nil cons_append drop_one mem_append mem_append_right mem_cons
  mem_cons_of_mem mem_cons_self nil_append)
open Option (bind_some)

def readByteRange (firstBytePos lastBytePos : List UInt8) : Option HttpByteRange :=
  (if firstBytePos = [] then some HttpByteRange.new
    else
      let r := stringToInt64 firstBytePos
      if r.1 then some { HttpByteRange.new with firstBytePosition := r.2 } else none).bind fun range =>
  (if lastBytePos ≠ [] then
      let r := stringToInt64 lastBytePos
      if !r.1 then none
      else if range.hasFirstBytePosition then some { range with lastBytePosition := r.2 }
      else some { range with suffixLength := r.2 }
    else if !range.hasFirstBytePosition then none
    else some range).bind fun range =>
  if range.isValid then some range else none

/-- A turn of the loop of `ParseRangeHeader`; `none` is a return of false. -/
def parseByteRange (value : List UInt8) : Option HttpByteRange :=
  match value.findIdx? (· == 45) with
  | none => none
  | some minus => readByteRange (trimLWS (value.take minus)) (trimLWS (value.drop (minus + 1)))

/-- The loop of `ParseRangeHeader`. -/
def parseByteRanges : List (List UInt8) → Option (List HttpByteRange)
  | [] => some []
  | value :: values => (parseByteRange value).bind fun range => (parseByteRanges values).map (range :: ·)

/-- `HttpUtil::ParseRangeHeader` with an empty vector; `none` is a return of false. -/
def parseRangeHeader (rangesSpecifier : List UInt8) : Option (List HttpByteRange) :=
  match rangesSpecifier.findIdx? (· == 61) with
  | none => none
  | some equal =>
    if stringToLowerASCII (trimLWS (rangesSpecifier.take equal)) ≠ ascii "bytes" then none
    else
      (parseByteRanges ((valuesIterator (rangesSpecifier.drop (equal + 1))).map Prod.snd)).bind fun ranges =>
        if ranges ≠ [] then some ranges else none

/-! ## The grammar -/

def Spaced (core text : List UInt8) : Prop :=
  ∃ lead trail, text = lead ++ (core ++ trail) ∧ (∀ c ∈ lead, isLWS c = true) ∧ ∀ c ∈ trail, isLWS c = true

/-- Digits of a number that is an `int64`. -/
def IsPosition (text : List UInt8) (z : ℤ) : Prop := ∃ n : ℕ, z = n ∧ IsDecimal n text ∧ (n : ℤ) ≤ int64Max

/-- What stands before and behind the `-` of a range. -/
inductive RangeParts (number : List UInt8 → ℤ → Prop) : List UInt8 → List UInt8 → HttpByteRange → Prop
  | first {t : List UInt8} {z : ℤ} : number t z → RangeParts number t [] ⟨z, -1, -1, false⟩
  | firstLast {t u : List UInt8} {z w : ℤ} : number t z → number u w → z ≤ w →
      RangeParts number t u ⟨z, w, -1, false⟩
  | suffix {u : List UInt8} {w : ℤ} : number u w → 0 < w → RangeParts number [] u ⟨-1, -1, w, false⟩

/-- A range: its parts, with white space around them, and a `-`. -/
def RangeItem (parts : List UInt8 → List UInt8 → HttpByteRange → Prop) (item : List UInt8) (range : HttpByteRange) : Prop :=
  ∃ before after t u, item = before ++ 45 :: after ∧ 45 ∉ before ∧ Spaced t before ∧ Spaced u after ∧ parts t u range

def elements (text : List UInt8) : List (List UInt8) := (text.splitOn 44).filter fun e => !e.all isLWS

/-- The text behind `bytes=`. -/
def BytesUnit (s text : List UInt8) : Prop :=
  ∃ unit name, s = unit ++ 61 :: text ∧ 61 ∉ unit ∧ Spaced name unit ∧ stringToLowerASCII name = ascii "bytes"

def ByteRanges (parts : List UInt8 → List UInt8 → HttpByteRange → Prop) (s : List UInt8) (ranges : List HttpByteRange) :
    Prop :=
  ∃ text, BytesUnit s text ∧ List.Forall₂ (RangeItem parts) (elements text) ranges ∧ ranges ≠ []

def HasSign (text : List UInt8) : Prop := text.head? = some 43 ∨ text.head? = some 45

def SignedItem (item : List UInt8) : Prop :=
  ∃ before after t u, item = before ++ 45 :: after ∧ 45 ∉ before ∧ Spaced t before ∧ Spaced u after ∧
    (HasSign t ∨ HasSign u)

/-- The parts as they are read: the numbers may have signs, and -1 counts as a last position that is not there. -/
inductive ReadParts : List UInt8 → List UInt8 → HttpByteRange → Prop
  | parts {t u : List UInt8} {range : HttpByteRange} : RangeParts ReadsAs t u range → ReadParts t u range
  | notSpecified {t u : List UInt8} {z : ℤ} : ReadsAs t z → ReadsAs u (-1) → ReadParts t u ⟨z, -1, -1, false⟩

/-! ## White space -/

variable {s t u v text before after core : List UInt8} {z w : ℤ} {range : HttpByteRange}

variable {pos : ℕ} {item : List UInt8} {c : UInt8}

theorem trimmed_of_forall (hne : t ≠ []) (h : ∀ c ∈ t, isLWS c = false) : Trimmed t :=
  ⟨hne, fun _ => h _ (List.head_mem _), fun _ => h _ (List.getLast_mem _)⟩

theorem isLWS_iff : isLWS c = true ↔ c = 32 ∨ c = 9 ∨ c = 0 := by
  simp [isLWS, or_assoc]

theorem spaced_trimLWS (text : List UInt8) : Spaced (trimLWS text) text := by
  rcases trimLWS_cases text with ⟨hnil, htake⟩ | ⟨lead, trail, htext, -, hlead, htrail, -⟩
  · refine ⟨text, [], by rw [hnil]; simp, fun c hc => ?_, by simp⟩
    rw [← htake] at hc
    exact List.mem_takeWhile_imp hc
  · exact ⟨lead, trail, htext, hlead, htrail⟩

theorem trimLWS_of_forall (h : ∀ c ∈ text, isLWS c = true) : trimLWS text = [] := by
  rw [trimLWS, List.dropWhile_eq_nil_iff.2 h]
  rfl

theorem Spaced.trimLWS_eq (h : Spaced t text) (ht : t = [] ∨ Trimmed t) : trimLWS text = t := by
  obtain ⟨lead, trail, rfl, hlead, htrail⟩ := h
  rcases ht with rfl | ht
  · refine trimLWS_of_forall fun c hc => ?_
    rw [nil_append] at hc
    exact (mem_append.1 hc).elim (hlead c) (htrail c)
  · exact (trimLWS_append hlead htrail ht).1

theorem mem_trimLWS (hc : c ∈ text) (hlws : isLWS c = false) : c ∈ trimLWS text := by
  obtain ⟨lead, trail, htext, hlead, htrail⟩ := spaced_trimLWS text
  rw [htext] at hc
  rcases mem_append.1 hc with hc | hc
  · rw [hlead c hc] at hlws
    cases hlws
  · rcases mem_append.1 hc with hc | hc
    · exact hc
    · rw [htrail c hc] at hlws
      cases hlws

theorem mem_of_mem_trimLWS (hc : c ∈ trimLWS text) : c ∈ text := by
  obtain ⟨lead, trail, htext, -, -⟩ := spaced_trimLWS text
  rw [htext]
  exact mem_append_right _ (List.mem_append_left _ hc)

theorem trimLWS_around {lead trail : List UInt8} (hlead : ∀ c ∈ lead, isLWS c = true)
    (htrail : ∀ c ∈ trail, isLWS c = true) (text : List UInt8) : trimLWS (lead ++ (text ++ trail)) = trimLWS text := by
  obtain ⟨l, r, htext, hl, hr⟩ := spaced_trimLWS text
  have hcases : trimLWS text = [] ∨ Trimmed (trimLWS text) := by
    by_cases hnil : trimLWS text = []
    · exact .inl hnil
    · exact .inr (trimmed_trimLWS hnil)
  refine Spaced.trimLWS_eq ⟨lead ++ l, r ++ trail, ?_, ?_, ?_⟩ hcases
  · conv_lhs => rw [htext]
    simp only [List.append_assoc]
  · exact fun c hc => (mem_append.1 hc).elim (hlead c) (hl c)
  · exact fun c hc => (mem_append.1 hc).elim (hr c) (htrail c)

/-! ## Numbers -/

theorem isLWS_of_digit (h : isDecimalDigit c = true) : isLWS c = false := by
  obtain ⟨hge, -⟩ := toNat_of_isDecimalDigit h
  refine Bool.eq_false_iff.2 fun hlws => ?_
  rcases isLWS_iff.1 hlws with rfl | rfl | rfl <;> exact nomatch hge

theorem trimmed_of_readsAs (h : ReadsAs t z) : Trimmed t := by
  refine trimmed_of_forall h.ne_nil fun c hc => ?_
  rcases h.chars c hc with hd | rfl | rfl
  · exact isLWS_of_digit hd
  · decide
  · decide

theorem isPosition_iff : IsPosition t z ↔ ReadsAs t z ∧ ¬ HasSign t := by
  constructor
  · rintro ⟨n, rfl, hd, hle⟩
    refine ⟨.digits hd hle, ?_⟩
    obtain ⟨c, cs, rfl⟩ := List.exists_cons_of_ne_nil hd.ne_nil
    obtain ⟨hge, -⟩ := toNat_of_isDecimalDigit (hd.digits c mem_cons_self)
    rintro (hc | hc)
    · cases hc
      exact nomatch hge
    · cases hc
      exact nomatch hge
  · rintro ⟨h, hsign⟩
    cases h with
    | digits hd hle => exact ⟨_, rfl, hd, hle⟩
    | plus _ _ => exact absurd (.inl rfl) hsign
    | minus _ _ => exact absurd (.inr rfl) hsign

/-! ## One range -/

theorem ReadParts.trimmed (h : ReadParts t u range) : (t = [] ∨ Trimmed t) ∧ (u = [] ∨ Trimmed u) := by
  cases h with
  | parts h =>
    cases h with
    | first ht => exact ⟨.inr (trimmed_of_readsAs ht), .inl rfl⟩
    | firstLast ht hu _ => exact ⟨.inr (trimmed_of_readsAs ht), .inr (trimmed_of_readsAs hu)⟩
    | suffix hu _ => exact ⟨.inl rfl, .inr (trimmed_of_readsAs hu)⟩
  | notSpecified ht hu => exact ⟨.inr (trimmed_of_readsAs ht), .inr (trimmed_of_readsAs hu)⟩

theorem ReadParts.chars (h : ReadParts t u range) :
    ∀ c ∈ t ++ u, isDecimalDigit c = true ∨ c = 43 ∨ c = 45 := by
  intro c hc
  cases h with
  | parts h =>
    cases h with
    | first ht =>
      rw [append_nil] at hc
      exact ht.chars c hc
    | firstLast ht hu _ => exact (mem_append.1 hc).elim (ht.chars c) (hu.chars c)
    | suffix hu _ => exact hu.chars c hc
  | notSpecified ht hu => exact (mem_append.1 hc).elim (ht.chars c) (hu.chars c)

theorem readByteRange_iff (hminus : 45 ∉ t) : readByteRange t u = some range ↔ ReadParts t u range := by
  have hnew : HttpByteRange.new.hasFirstBytePosition = false := rfl
  by_cases ht : t = []
  · subst ht
    rw [readByteRange, if_pos rfl, bind_some, hnew]
    by_cases hu : u = []
    · rw [if_neg (not_not_intro hu), if_pos (by decide)]
      refine iff_of_false (by simp) fun h => ?_
      cases h with
      | parts h =>
        cases h with
        | first ht | firstLast ht _ _ => exact ht.ne_nil rfl
        | suffix hr _ => exact hr.ne_nil hu
      | notSpecified ht _ => exact ht.ne_nil rfl
    · rw [if_pos hu]
      dsimp only
      constructor
      · intro h
        cases hr : stringToInt64 u with
        | mk valid w =>
          rw [hr] at h
          cases valid with
          | false => cases h
          | true =>
            have hreads := (stringToInt64_iff u w).1 hr
            simp only [Bool.not_true, Bool.false_eq_true, if_false, bind_some] at h
            by_cases hpos : 0 < w
            · rw [if_pos (by simp [HttpByteRange.isValid, hpos])] at h
              cases h
              exact .parts (.suffix hreads hpos)
            · rw [if_neg (by simp [HttpByteRange.isValid, HttpByteRange.new, hpos])] at h
              cases h
      · intro h
        cases h with
        | parts h =>
          cases h with
          | first ht | firstLast ht _ _ => exact absurd rfl ht.ne_nil
          | suffix hr hpos =>
            rw [(stringToInt64_iff _ _).2 hr]
            simp [HttpByteRange.isValid, HttpByteRange.new, hpos]
        | notSpecified ht _ => exact absurd rfl ht.ne_nil
  · rw [readByteRange, if_neg ht]
    dsimp only
    constructor
    · intro h
      cases hr : stringToInt64 t with
      | mk valid z =>
        rw [hr] at h
        cases valid with
        | false => cases h
        | true =>
          have hreads := (stringToInt64_iff t z).1 hr
          have hz := hreads.nonneg hminus
          have hfirst : (⟨z, -1, -1, false⟩ : HttpByteRange).hasFirstBytePosition = true := by
            simp only [HttpByteRange.hasFirstBytePosition, decide_eq_true_eq]
            omega
          rw [if_pos rfl, bind_some] at h
          change ((if u ≠ [] then
              if !(stringToInt64 u).1 then none
              else if (⟨z, -1, -1, false⟩ : HttpByteRange).hasFirstBytePosition then some ⟨z, (stringToInt64 u).2, -1, false⟩
              else some ⟨z, -1, (stringToInt64 u).2, false⟩
            else if !(⟨z, -1, -1, false⟩ : HttpByteRange).hasFirstBytePosition then none
            else some ⟨z, -1, -1, false⟩).bind fun range => if range.isValid then some range else none) = some range at h
          rw [hfirst] at h
          by_cases hu : u = []
          · subst hu
            rw [if_neg (not_not_intro rfl), if_neg (by decide), bind_some,
              if_pos (by simp [HttpByteRange.isValid, hz])] at h
            cases h
            exact .parts (.first hreads)
          · rw [if_pos hu] at h
            cases hr' : stringToInt64 u with
            | mk valid w =>
              rw [hr'] at h
              cases valid with
              | false => cases h
              | true =>
                have hreads' := (stringToInt64_iff u w).1 hr'
                simp only [Bool.not_true, Bool.false_eq_true, if_false, if_true, bind_some] at h
                split at h
                · next hvalid =>
                  cases h
                  have hor : w = -1 ∨ z ≤ w := by simpa [HttpByteRange.isValid, hz] using hvalid
                  rcases hor with rfl | hle
                  · exact .notSpecified hreads hreads'
                  · exact .parts (.firstLast hreads hreads' hle)
                · cases h
    · intro h
      have hz : ∀ {z : ℤ}, ReadsAs t z → (0 ≤ z ∧ z ≠ -1) := fun h => by
        have := h.nonneg hminus
        omega
      cases h with
      | parts h =>
        cases h with
        | first hr =>
          obtain ⟨hpos, hne⟩ := hz hr
          rw [(stringToInt64_iff _ _).2 hr]
          simp [HttpByteRange.isValid, HttpByteRange.hasFirstBytePosition, HttpByteRange.new, hpos, hne]
        | firstLast hr hr' hle =>
          obtain ⟨hpos, hne⟩ := hz hr
          rw [(stringToInt64_iff _ _).2 hr, (stringToInt64_iff _ _).2 hr']
          simp [HttpByteRange.isValid, HttpByteRange.hasFirstBytePosition, HttpByteRange.new, hpos, hne, hle, hr'.ne_nil]
        | suffix _ _ => exact absurd rfl ht
      | notSpecified hr hr' =>
        obtain ⟨hpos, hne⟩ := hz hr
        rw [(stringToInt64_iff _ _).2 hr, (stringToInt64_iff _ _).2 hr']
        simp [HttpByteRange.isValid, HttpByteRange.hasFirstBytePosition, HttpByteRange.new, hpos, hne, hr'.ne_nil]

theorem parseByteRange_append (hminus : 45 ∉ before) :
    parseByteRange (before ++ 45 :: after) = readByteRange (trimLWS before) (trimLWS after) := by
  rw [parseByteRange, findIdx?_append_cons hminus]
  dsimp only
  rw [List.take_left, ← List.drop_drop, List.drop_left, drop_one, List.tail_cons]

theorem parseByteRange_iff (item : List UInt8) : parseByteRange item = some range ↔ RangeItem ReadParts item range := by
  constructor
  · intro h
    by_cases hmem : 45 ∈ item
    · obtain ⟨before, after, rfl, hminus⟩ := List.eq_append_cons_of_mem hmem
      rw [parseByteRange_append hminus, readByteRange_iff fun hc => hminus (mem_of_mem_trimLWS hc)] at h
      exact ⟨before, after, _, _, rfl, hminus, spaced_trimLWS _, spaced_trimLWS _, h⟩
    · rw [parseByteRange, findIdx?_eq_none_of_notMem hmem] at h
      cases h
  · rintro ⟨before, after, t, u, rfl, hminus, ht, hu, hparts⟩
    obtain ⟨htrim, hutrim⟩ := hparts.trimmed
    have hbefore := ht.trimLWS_eq htrim
    rw [parseByteRange_append hminus, readByteRange_iff fun hc => hminus (mem_of_mem_trimLWS hc), hbefore,
      hu.trimLWS_eq hutrim]
    exact hparts

theorem parseByteRange_trimLWS (item : List UInt8) : parseByteRange (trimLWS item) = parseByteRange item := by
  obtain ⟨lead, trail, hitem, hlead, htrail⟩ := spaced_trimLWS item
  have hlead45 : 45 ∉ lead := fun hc => nomatch hlead 45 hc
  by_cases hmem : 45 ∈ trimLWS item
  · obtain ⟨before, after, heq, hminus⟩ := List.eq_append_cons_of_mem hmem
    have hsplit : item = (lead ++ before) ++ 45 :: (after ++ trail) := by
      conv_lhs => rw [hitem, heq]
      simp only [List.append_assoc, cons_append]
    have hnot : 45 ∉ lead ++ before := fun hc => (mem_append.1 hc).elim hlead45 hminus
    have hfront : trimLWS (lead ++ (before ++ [])) = trimLWS before := trimLWS_around hlead (by simp) before
    have hback : trimLWS ([] ++ (after ++ trail)) = trimLWS after := trimLWS_around (by simp) htrail after
    rw [append_nil] at hfront
    rw [nil_append] at hback
    conv_rhs => rw [hsplit, parseByteRange_append hnot]
    rw [heq, parseByteRange_append hminus, hfront, hback]
  · have hnot : 45 ∉ item := fun hc => hmem (mem_trimLWS hc (by decide))
    unfold parseByteRange
    rw [findIdx?_eq_none_of_notMem hmem, findIdx?_eq_none_of_notMem hnot]

theorem RangeItem.isQuote (h : RangeItem ReadParts item range) : ∀ c ∈ item, isQuote c = false := by
  obtain ⟨before, after, t, u, rfl, -, ⟨l, r, rfl, hl, hr⟩, ⟨l', r', rfl, hl', hr'⟩, hparts⟩ := h
  have hspace : ∀ c, isLWS c = true → Net.isQuote c = false := by
    intro c hc
    rcases isLWS_iff.1 hc with rfl | rfl | rfl <;> decide
  have hchar : ∀ c ∈ t ++ u, Net.isQuote c = false := by
    intro c hc
    rcases hparts.chars c hc with hd | rfl | rfl
    · obtain ⟨hge, -⟩ := toNat_of_isDecimalDigit hd
      simp only [Net.isQuote, Bool.or_eq_false_iff, decide_eq_false_iff_not]
      constructor <;> (rintro rfl; exact nomatch hge)
    · decide
    · decide
  intro c hc
  simp only [mem_append, mem_cons] at hc
  rcases hc with (hc | hc | hc) | rfl | hc | hc | hc
  · exact hspace c (hl c hc)
  · exact hchar c (List.mem_append_left _ hc)
  · exact hspace c (hr c hc)
  · decide
  · exact hspace c (hl' c hc)
  · exact hchar c (mem_append_right _ hc)
  · exact hspace c (hr' c hc)

/-! ## The list of ranges -/

theorem parseByteRanges_iff {values : List (List UInt8)} {ranges : List HttpByteRange} :
    parseByteRanges values = some ranges ↔ List.Forall₂ (fun v r => parseByteRange v = some r) values ranges := by
  induction values generalizing ranges with
  | nil =>
    rw [parseByteRanges, Option.some_inj, List.forall₂_nil_left_iff]
    exact eq_comm
  | cons value values ih =>
    rw [parseByteRanges, List.forall₂_cons_left_iff]
    constructor
    · intro h
      obtain ⟨range, hrange, hrest⟩ := Option.bind_eq_some_iff.1 h
      obtain ⟨rest, hparsed, rfl⟩ := Option.map_eq_some_iff.1 hrest
      exact ⟨range, rest, hrange, ih.1 hparsed, rfl⟩
    · rintro ⟨range, rest, hrange, hparsed, rfl⟩
      rw [hrange, bind_some, ih.2 hparsed, Option.map_some]

/-- A character that is neither a comma nor a quote goes on with a token that is not quoted. -/
theorem advanceOne_plain {state : AdvanceState} (hstate : state.inQuote = false) (hc : isComma c = false)
    (hq : Net.isQuote c = false) :
    advanceOne isComma Net.isQuote state c = some { state with quoteChar := c, inQuote := false } := by
  rw [advanceOne, if_neg (by simp [hstate]), if_neg (by simp [hc]), hq]

theorem takeToken_plain {state : AdvanceState} {part rest : List UInt8} (hstate : state.inQuote = false)
    (hpart : ∀ c ∈ part, isComma c = false ∧ Net.isQuote c = false) (hrest : ∀ c ∈ rest.head?, isComma c = true) :
    takeToken isComma Net.isQuote state (part ++ rest) = (part, rest) := by
  induction part generalizing state with
  | nil =>
    cases rest with
    | nil => rfl
    | cons c rest =>
      have hnone : advanceOne isComma Net.isQuote state c = none := by
        rw [advanceOne, if_neg (by simp [hstate]), if_pos (hrest c rfl)]
      exact takeToken_none hnone
  | cons c part ih =>
    obtain ⟨hc, hq⟩ := hpart c mem_cons_self
    rw [cons_append, takeToken_some (advanceOne_plain hstate hc hq),
      ih rfl fun c' hc' => hpart c' (mem_cons_of_mem _ hc')]

theorem fullTokens_plain {part rest : List UInt8} (hne : part ≠ [])
    (hpart : ∀ c ∈ part, isComma c = false ∧ Net.isQuote c = false) (hrest : ∀ c ∈ rest.head?, isComma c = true) :
    fullTokens isComma Net.isQuote pos (part ++ rest) =
      (pos, part) :: fullTokens isComma Net.isQuote (pos + part.length) rest := by
  obtain ⟨c, part, rfl⟩ := List.exists_cons_of_ne_nil hne
  obtain ⟨hc, hq⟩ := hpart c mem_cons_self
  have htake : takeToken isComma Net.isQuote { AdvanceState.new with quoteChar := c, inQuote := false }
      (part ++ rest) = (part, rest) :=
    takeToken_plain rfl (fun c' hc' => hpart c' (mem_cons_of_mem _ hc')) hrest
  rw [cons_append, fullTokens_some (advanceOne_plain rfl hc hq), htake, List.length_cons]
  congr 2
  show pos + 1 + part.length = pos + (part.length + 1)
  omega

theorem fullTokens_comma (rest : List UInt8) :
    fullTokens isComma Net.isQuote pos (44 :: rest) = fullTokens isComma Net.isQuote (pos + 1) rest :=
  fullTokens_none rfl

theorem valuesFrom_cons_tokens {tokens : List (ℕ × List UInt8)} (part : List UInt8) :
    (((pos, part) :: tokens).filterMap trimValue).map Prod.snd =
      ((if !part.all isLWS then [part] else []).map trimLWS) ++ (tokens.filterMap trimValue).map Prod.snd := by
  rw [List.filterMap_cons]
  by_cases hall : part.all isLWS = true
  · have hnil := trimLWS_of_forall (all_eq_true.1 hall)
    rw [trimValue, if_pos hnil, hall]
    rfl
  · have hne : trimLWS part ≠ [] := by
      intro hnil
      refine hall (all_eq_true.2 fun c hc => ?_)
      by_contra hlws
      have hmem := mem_trimLWS hc (Bool.eq_false_iff.2 hlws)
      rw [hnil] at hmem
      cases hmem
    rw [trimValue, if_neg hne, Bool.eq_false_iff.2 hall]
    rfl

/-- **Without quotes the values are the elements between the commas.** -/
theorem values_eq (pos : ℕ) (text : List UInt8) (hquote : ∀ c ∈ text, Net.isQuote c = false) :
    (valuesFrom pos text).map Prod.snd = (elements text).map trimLWS := by
  induction hn : text.length using Nat.strong_induction_on generalizing pos text with
  | _ n ih =>
    obtain ⟨part, hpart, htext | ⟨rest, rfl⟩⟩ := exists_part 44 text
    · rw [htext] at hquote ⊢
      have hplain : ∀ c ∈ part, isComma c = false ∧ Net.isQuote c = false := fun c hc =>
        ⟨decide_eq_false fun heq => hpart (heq ▸ hc), hquote c hc⟩
      unfold valuesFrom elements
      rw [List.splitOn_eq_singleton hpart]
      by_cases hne : part = []
      · subst hne
        rw [fullTokens_nil]
        rfl
      · have hone := @fullTokens_plain pos part [] hne hplain (by simp)
        rw [append_nil] at hone
        rw [hone, fullTokens_nil, valuesFrom_cons_tokens, List.filter_cons]
        split <;> simp
    · have hplain : ∀ c ∈ part, isComma c = false ∧ Net.isQuote c = false := fun c hc =>
        ⟨decide_eq_false fun heq => hpart (heq ▸ hc), hquote c (List.mem_append_left _ hc)⟩
      have hrest : ∀ c ∈ rest, Net.isQuote c = false := fun c hc =>
        hquote c (mem_append_right _ (mem_cons_of_mem _ hc))
      have hlen : rest.length < n := by
        rw [← hn, List.length_append, List.length_cons]
        omega
      have hsplit : elements (part ++ 44 :: rest) = (if !part.all isLWS then [part] else []) ++ elements rest := by
        rw [elements, List.splitOn_append_cons_self_of_not_mem hpart, List.filter_cons]
        split <;> rfl
      rw [hsplit, List.map_append]
      by_cases hne : part = []
      · subst hne
        rw [nil_append, valuesFrom, fullTokens_comma]
        exact ih _ hlen (pos + 1) rest hrest rfl
      · have htokens := @fullTokens_plain pos part (44 :: rest) hne hplain (by
          rintro c hc
          cases hc
          rfl)
        rw [valuesFrom, htokens, fullTokens_comma, valuesFrom_cons_tokens]
        exact congrArg (_ ++ ·) (ih _ hlen _ rest hrest rfl)

theorem exists_token (hc : c ∈ text) (hcomma : isComma c = false) :
    ∃ token ∈ fullTokens isComma Net.isQuote pos text, c ∈ token.2 := by
  induction pos, text using fullTokens.induct isComma Net.isQuote with
  | case1 pos => cases hc
  | case2 pos x rest hx ih =>
    rw [fullTokens_none hx]
    rcases mem_cons.1 hc with rfl | hc
    · exfalso
      unfold advanceOne AdvanceState.new at hx
      rw [if_neg (by simp), if_neg (by simp [hcomma])] at hx
      cases hx
    · exact ih hc
  | case3 pos x rest state hx r ih =>
    rw [fullTokens_some hx]
    have hsplit := takeToken_eq isComma Net.isQuote state rest
    rcases mem_cons.1 hc with rfl | hc
    · exact ⟨_, mem_cons_self, mem_cons_self⟩
    · rw [← hsplit] at hc
      rcases mem_append.1 hc with hc | hc
      · exact ⟨_, mem_cons_self, mem_cons_of_mem _ hc⟩
      · obtain ⟨token, htoken, hmem⟩ := ih hc
        exact ⟨token, mem_cons_of_mem _ htoken, hmem⟩

theorem not_special_of_isQuote (hq : Net.isQuote c = true) : isComma c = false ∧ isLWS c = false := by
  simp only [Net.isQuote, Bool.or_eq_true, decide_eq_true_eq] at hq
  rcases hq with rfl | rfl <;> decide

theorem exists_value_of_quote (hc : c ∈ text) (hq : Net.isQuote c = true) :
    ∃ value ∈ (valuesIterator text).map Prod.snd, c ∈ value := by
  obtain ⟨hcomma, hlws⟩ := not_special_of_isQuote hq
  obtain ⟨token, htoken, hmem⟩ := @exists_token _ 0 _ hc hcomma
  have hin := mem_trimLWS hmem hlws
  have hne : trimLWS token.2 ≠ [] := List.ne_nil_of_mem hin
  have hvalue : (token.1 + (token.2.takeWhile isLWS).length, trimLWS token.2) ∈ valuesIterator text :=
    List.mem_filterMap.2 ⟨token, htoken, if_neg hne⟩
  exact ⟨_, List.mem_map_of_mem hvalue, hin⟩

/-- Each character that is no comma is part of an element of the list, when it is not white space. -/
theorem exists_element (hc : c ∈ text) (hcomma : c ≠ 44) (hlws : isLWS c = false) : ∃ e ∈ elements text, c ∈ e := by
  have hjoin : [44].intercalate (text.splitOn 44) = text := List.intercalate_splitOn 44
  rw [← hjoin] at hc
  have hmem : ∀ parts : List (List UInt8), c ∈ [44].intercalate parts → ∃ part ∈ parts, c ∈ part := by
    intro parts
    induction parts with
    | nil => simp
    | cons part parts ih =>
      intro hc
      by_cases hnil : parts = []
      · subst hnil
        rw [List.intercalate_singleton] at hc
        exact ⟨part, mem_cons_self, hc⟩
      · rw [intercalate_cons_of_ne_nil hnil] at hc
        rw [mem_append, mem_cons] at hc
        rcases hc with hc | hc | hc
        · exact ⟨part, mem_cons_self, hc⟩
        · exact absurd hc hcomma
        · obtain ⟨p, hp, hcp⟩ := ih hc
          exact ⟨p, mem_cons_of_mem _ hp, hcp⟩
  obtain ⟨part, hpart, hcp⟩ := hmem _ hc
  refine ⟨part, List.mem_filter.2 ⟨hpart, ?_⟩, hcp⟩
  rw [Bool.not_eq_true', Bool.eq_false_iff]
  intro hall
  rw [all_eq_true.1 hall c hcp] at hlws
  cases hlws

theorem exists_of_forall₂ {α β : Type} {R : α → β → Prop} {l : List α} {l' : List β} (h : List.Forall₂ R l l') :
    ∀ a ∈ l, ∃ b, R a b := by
  induction h with
  | nil => simp
  | cons hab _ ih =>
    intro a ha
    rcases mem_cons.1 ha with rfl | ha
    · exact ⟨_, hab⟩
    · exact ih a ha

theorem parseByteRanges_values (text : List UInt8) (ranges : List HttpByteRange) :
    parseByteRanges ((valuesIterator text).map Prod.snd) = some ranges ↔
      List.Forall₂ (RangeItem ReadParts) (elements text) ranges := by
  have hwithout : (∀ c ∈ text, Net.isQuote c = false) →
      (parseByteRanges ((valuesIterator text).map Prod.snd) = some ranges ↔
        List.Forall₂ (RangeItem ReadParts) (elements text) ranges) := by
    intro hquote
    rw [parseByteRanges_iff, valuesIterator, values_eq 0 text hquote, List.forall₂_map_left_iff]
    have hitem : (fun e r => parseByteRange (trimLWS e) = some r) = RangeItem ReadParts := by
      funext e r
      rw [parseByteRange_trimLWS]
      exact propext (parseByteRange_iff e)
    rw [hitem]
  by_cases hquote : ∀ c ∈ text, Net.isQuote c = false
  · exact hwithout hquote
  · push Not at hquote
    obtain ⟨c, hc, hq⟩ := hquote
    have hq : Net.isQuote c = true := by simpa using hq
    have hno : ∀ {e : List UInt8} {r : HttpByteRange}, c ∈ e → ¬ RangeItem ReadParts e r := fun hmem h => by
      rw [h.isQuote c hmem] at hq
      cases hq
    refine iff_of_false (fun h => ?_) fun h => ?_
    · obtain ⟨value, hvalue, hmem⟩ := exists_value_of_quote hc hq
      obtain ⟨r, hr⟩ := exists_of_forall₂ (parseByteRanges_iff.1 h) value hvalue
      exact hno hmem ((parseByteRange_iff value).1 hr)
    · obtain ⟨hcomma, hlws⟩ := not_special_of_isQuote hq
      obtain ⟨e, he, hmem⟩ := exists_element hc (of_decide_eq_false hcomma) hlws
      obtain ⟨r, hr⟩ := exists_of_forall₂ h e he
      exact hno hmem hr

/-! ## The header -/

theorem bytesUnit_append {unit : List UInt8} (hunit : 61 ∉ unit) :
    BytesUnit (unit ++ 61 :: text) v ↔ stringToLowerASCII (trimLWS unit) = ascii "bytes" ∧ v = text := by
  constructor
  · rintro ⟨unit', name, heq, hunit', hspaced, hname⟩
    obtain ⟨rfl, htext⟩ := append_cons_cancel hunit hunit' heq
    have hlower : name ≠ [] ∧ ∀ c ∈ name, toLowerASCII c ∈ ascii "bytes" := by
      constructor
      · rintro rfl
        exact nomatch hname
      · intro c hc
        rw [← hname]
        exact List.mem_map_of_mem hc
    have htrimmed : Trimmed name := by
      refine trimmed_of_forall hlower.1 fun c hc => Bool.eq_false_iff.2 fun hlws => ?_
      have hmem := hlower.2 c hc
      rcases isLWS_iff.1 hlws with rfl | rfl | rfl <;> exact nomatch hmem
    rw [hspaced.trimLWS_eq (.inr htrimmed)]
    exact ⟨hname, htext.symm⟩
  · rintro ⟨hname, rfl⟩
    exact ⟨unit, trimLWS unit, rfl, hunit, spaced_trimLWS unit, hname⟩

theorem parseRangeHeader_eq_some (s : List UInt8) (ranges : List HttpByteRange) :
    parseRangeHeader s = some ranges ↔ ByteRanges ReadParts s ranges := by
  unfold parseRangeHeader
  by_cases hmem : 61 ∈ s
  · obtain ⟨unit, text, rfl, hunit⟩ := List.eq_append_cons_of_mem hmem
    rw [findIdx?_append_cons hunit]
    dsimp only
    rw [List.take_left, ← List.drop_drop, List.drop_left, drop_one, List.tail_cons]
    constructor
    · intro h
      split at h
      · cases h
      · next hname =>
        obtain ⟨rs, hrs, hsome⟩ := Option.bind_eq_some_iff.1 h
        split at hsome
        · next hne =>
          obtain rfl := Option.some.inj hsome
          exact ⟨text, (bytesUnit_append hunit).2 ⟨not_not.1 hname, rfl⟩, (parseByteRanges_values text rs).1 hrs, hne⟩
        · cases hsome
    · rintro ⟨text', hunit', hitems, hne⟩
      obtain ⟨hname, rfl⟩ := (bytesUnit_append hunit).1 hunit'
      rw [if_neg (not_not_intro hname), (parseByteRanges_values text' ranges).2 hitems, bind_some, if_pos hne]
  · rw [findIdx?_eq_none_of_notMem hmem]
    refine iff_of_false (by simp) ?_
    rintro ⟨text, ⟨unit, name, rfl, -⟩, -⟩
    exact hmem (mem_append_right _ mem_cons_self)

/-! ## Signs -/

theorem RangeItem.mono {parts parts' : List UInt8 → List UInt8 → HttpByteRange → Prop}
    (h : RangeItem parts item range) (himp : ∀ t u, parts t u range → parts' t u range) : RangeItem parts' item range := by
  obtain ⟨before, after, t, u, heq, hminus, ht, hu, hparts⟩ := h
  exact ⟨before, after, t, u, heq, hminus, ht, hu, himp t u hparts⟩

theorem readParts_of_isPosition (h : RangeParts IsPosition t u range) : ReadParts t u range := by
  cases h with
  | first ht => exact .parts (.first (isPosition_iff.1 ht).1)
  | firstLast ht hu hle => exact .parts (.firstLast (isPosition_iff.1 ht).1 (isPosition_iff.1 hu).1 hle)
  | suffix hu hpos => exact .parts (.suffix (isPosition_iff.1 hu).1 hpos)

theorem isPosition_of_readParts (h : ReadParts t u range) (ht : ¬ HasSign t) (hu : ¬ HasSign u) :
    RangeParts IsPosition t u range := by
  cases h with
  | parts h =>
    cases h with
    | first hr => exact .first (isPosition_iff.2 ⟨hr, ht⟩)
    | firstLast hr hr' hle => exact .firstLast (isPosition_iff.2 ⟨hr, ht⟩) (isPosition_iff.2 ⟨hr', hu⟩) hle
    | suffix hr hpos => exact .suffix (isPosition_iff.2 ⟨hr, hu⟩) hpos
  | notSpecified hr hr' =>
    obtain ⟨n, hn, -⟩ := isPosition_iff.2 ⟨hr', hu⟩
    exact absurd hn (by omega)

theorem hasSign_of_spaced (h : Spaced t text) (hsign : HasSign t) : HasSign (trimLWS text) := by
  obtain ⟨lead, trail, rfl, hlead, htrail⟩ := h
  rw [trimLWS_around hlead htrail]
  obtain ⟨l, r, ht, hl, -⟩ := spaced_trimLWS t
  cases l with
  | nil =>
    cases hcore : trimLWS t with
    | cons c cs =>
      rw [hcore] at ht
      rw [ht] at hsign
      exact hsign
    | nil =>
      have hall : ∀ c ∈ t, isLWS c = true := by
        intro c hc
        by_contra hlws
        have hmem := mem_trimLWS hc (Bool.eq_false_iff.2 hlws)
        rw [hcore] at hmem
        cases hmem
      cases t with
      | nil => exact absurd hsign (by rintro (h | h) <;> cases h)
      | cons c cs =>
        have hc := hall c mem_cons_self
        rcases hsign with h | h
        · cases h
          cases hc
        · cases h
          cases hc
  | cons c l =>
    have hc := hl c mem_cons_self
    rw [ht] at hsign
    rcases hsign with h | h
    · cases h
      cases hc
    · cases h
      cases hc

theorem not_signedItem (h : RangeItem (RangeParts IsPosition) item range) : ¬ SignedItem item := by
  obtain ⟨before, after, t, u, rfl, hminus, ht, hu, hparts⟩ := h
  rintro ⟨before', after', t', u', heq, hminus', ht', hu', hsign⟩
  obtain ⟨rfl, rfl⟩ := append_cons_cancel hminus hminus' heq
  obtain ⟨htrim, hutrim⟩ := (readParts_of_isPosition hparts).trimmed
  have hnil : ¬ HasSign [] := by rintro (h | h) <;> cases h
  have hnone : ¬ HasSign t ∧ ¬ HasSign u := by
    cases hparts with
    | first hr => exact ⟨(isPosition_iff.1 hr).2, hnil⟩
    | firstLast hr hr' _ => exact ⟨(isPosition_iff.1 hr).2, (isPosition_iff.1 hr').2⟩
    | suffix hr _ => exact ⟨hnil, (isPosition_iff.1 hr).2⟩
  rcases hsign with hsign | hsign
  · have h' := hasSign_of_spaced ht' hsign
    rw [ht.trimLWS_eq htrim] at h'
    exact hnone.1 h'
  · have h' := hasSign_of_spaced hu' hsign
    rw [hu.trimLWS_eq hutrim] at h'
    exact hnone.2 h'

theorem RangeItem.of_not_signedItem (h : RangeItem ReadParts item range) (hsign : ¬ SignedItem item) :
    RangeItem (RangeParts IsPosition) item range := by
  obtain ⟨before, after, t, u, heq, hminus, ht, hu, hparts⟩ := h
  exact ⟨before, after, t, u, heq, hminus, ht, hu, isPosition_of_readParts hparts
    (fun hs => hsign ⟨before, after, t, u, heq, hminus, ht, hu, .inl hs⟩)
    fun hs => hsign ⟨before, after, t, u, heq, hminus, ht, hu, .inr hs⟩⟩

end Chromium.Net
