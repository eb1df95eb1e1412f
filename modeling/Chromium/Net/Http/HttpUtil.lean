import Chromium.Base.StringTokenizer

/-!
# Header lines and header values

`net/http/http_util.cc`: trimming of linear white space, `HeadersIterator` over the lines
of a block of headers, and `ValuesIterator` over the values of a header.  Where the source
holds an iterator into a string, the position in the line or in the values is kept.

* `valuesFrom_take`: **the values of a header, cut behind the last of them**, are the same;
* `parseHeaderLine_take`: a header line cut inside its values has the values before the cut.
-/

namespace Chromium.Net

open Chromium.Base
open List (append_assoc append_nil cons_append length_append take_succ_cons)

def ascii (s : String) : List UInt8 := s.toList.map fun c => c.toNat.toUInt8

def toLowerASCII (c : UInt8) : UInt8 := if 65 ≤ c ∧ c ≤ 90 then c + 32 else c

def stringToLowerASCII (s : List UInt8) : List UInt8 := s.map toLowerASCII

/-- `HttpUtil::IsLWS`; `strchr` also finds the byte that ends the string. -/
def isLWS (c : UInt8) : Bool := c = 32 || c = 9 || c = 0

def trimLWS (s : List UInt8) : List UInt8 := (s.dropWhile isLWS).rdropWhile isLWS

def kNonCoalescingHeaders : List (List UInt8) :=
  [ascii "date", ascii "expires", ascii "last-modified", ascii "location", ascii "retry-after",
    ascii "set-cookie", ascii "www-authenticate", ascii "proxy-authenticate"]

def isNonCoalescingHeader (name : List UInt8) : Bool :=
  kNonCoalescingHeaders.any (stringToLowerASCII name = ·)

/-! ### Trimming -/

variable {s lead v trail : List UInt8}

theorem isLWS_of_mem_nil : ∀ c ∈ ([] : List UInt8), isLWS c = true := by simp

/-- A text that is not empty, with no white space at either end. -/
structure Trimmed (v : List UInt8) : Prop where
  ne_nil : v ≠ []
  head : ∀ h, isLWS (v.head h) = false
  last : ∀ h, isLWS (v.getLast h) = false

theorem trimLWS_append (hlead : ∀ c ∈ lead, isLWS c = true) (htrail : ∀ c ∈ trail, isLWS c = true)
    (hv : Trimmed v) :
    trimLWS (lead ++ (v ++ trail)) = v ∧ (lead ++ (v ++ trail)).takeWhile isLWS = lead := by
  obtain ⟨c, v', rfl⟩ := List.exists_cons_of_ne_nil hv.ne_nil
  have hc : isLWS c = false := hv.head hv.ne_nil
  have hneg : ¬ isLWS c = true := by simp [hc]
  have hlast : (c :: v').rdropWhile isLWS = c :: v' := by
    rw [List.rdropWhile_eq_self_iff]
    intro h
    simp [hv.last h]
  constructor
  · unfold trimLWS
    rw [List.dropWhile_append_of_pos hlead, cons_append, List.dropWhile_cons_of_neg hneg, ← cons_append]
    calc (c :: v' ++ trail).rdropWhile isLWS
        = (c :: v').rdropWhile isLWS := by
          induction trail using List.reverseRecOn with
          | nil => rw [append_nil]
          | append_singleton t b ih =>
            rw [← append_assoc, List.rdropWhile_concat_pos _ _ _ (htrail b (by simp))]
            exact ih fun a ha => htrail a (List.mem_append_left _ ha)
      _ = c :: v' := hlast
  · rw [List.takeWhile_append_of_pos hlead, cons_append, List.takeWhile_cons_of_neg hneg, append_nil]

/-- **What trimming takes away**: the text is white space, or it stands between white space. -/
theorem trimLWS_cases (s : List UInt8) : (trimLWS s = [] ∧ s.takeWhile isLWS = s) ∨
      ∃ lead trail, s = lead ++ (trimLWS s ++ trail) ∧ s.takeWhile isLWS = lead ∧
        (∀ c ∈ lead, isLWS c = true) ∧ (∀ c ∈ trail, isLWS c = true) ∧ Trimmed (trimLWS s) := by
  have hlead : ∀ c ∈ s.takeWhile isLWS, isLWS c = true := fun c hc => List.mem_takeWhile_imp hc
  cases hdrop : s.dropWhile isLWS with
  | nil =>
    refine .inl ⟨by rw [trimLWS, hdrop]; rfl, ?_⟩
    have hsplit := List.takeWhile_append_dropWhile (p := isLWS) (l := s)
    rwa [hdrop, append_nil] at hsplit
  | cons c rest =>
    have hc : isLWS c = false := by
      have hne : s.dropWhile isLWS ≠ [] := by simp [hdrop]
      have hnot := List.head_dropWhile_not isLWS hne
      simpa [hdrop] using hnot
    have htrim : trimLWS s = (c :: rest).rdropWhile isLWS := by rw [trimLWS, hdrop]
    have hne : (c :: rest).rdropWhile isLWS ≠ [] := by
      intro hnil
      have := List.rdropWhile_eq_nil_iff.1 hnil c List.mem_cons_self
      simp [hc] at this
    refine .inr ⟨s.takeWhile isLWS, (c :: rest).rtakeWhile isLWS, ?_, rfl, hlead,
      fun b hb => List.mem_rtakeWhile_imp hb, ?_⟩
    · rw [htrim, List.rdropWhile_append_rtakeWhile, ← hdrop, List.takeWhile_append_dropWhile]
    · rw [htrim]
      refine ⟨hne, fun h => ?_, fun h => ?_⟩
      · have hhead : ((c :: rest).rdropWhile isLWS).head h = c := by
          have hpre := List.rdropWhile_prefix isLWS (c :: rest)
          exact hpre.head h
        rw [hhead, hc]
      · have := List.rdropWhile_last_not isLWS (c :: rest) h
        simpa using this

theorem Trimmed.take {n : ℕ} (hv : Trimmed v) (hn : n ≠ 0)
    (hlast : ∀ h, isLWS ((v.take n).getLast h) = false) : Trimmed (v.take n) := by
  obtain ⟨c, v', rfl⟩ := List.exists_cons_of_ne_nil hv.ne_nil
  obtain ⟨n, rfl⟩ := Nat.exists_eq_succ_of_ne_zero hn
  exact ⟨by simp, fun _ => hv.head hv.ne_nil, hlast⟩

theorem trimmed_trimLWS (h : trimLWS s ≠ []) : Trimmed (trimLWS s) := by
  rcases trimLWS_cases s with ⟨hnil, _⟩ | ⟨_, _, _, _, _, _, ht⟩
  · exact absurd hnil h
  · exact ht

/-! ### Header values -/

/-- The delimiter of `ValuesIterator`. -/
def isComma (c : UInt8) : Bool := c = 44

/-- The quotes of `ValuesIterator`. -/
def isQuote (c : UInt8) : Bool := c = 39 || c = 34

/-- A token without its white space, and where it begins; an empty one is bypassed. -/
def trimValue (token : ℕ × List UInt8) : Option (ℕ × List UInt8) :=
  if trimLWS token.2 = [] then none
  else some (token.1 + (token.2.takeWhile isLWS).length, trimLWS token.2)

/-- The values of a string that stands at `pos`. -/
def valuesFrom (pos : ℕ) (s : List UInt8) : List (ℕ × List UInt8) :=
  (fullTokens isComma isQuote pos s).filterMap trimValue

/-- `HttpUtil::ValuesIterator` with the delimiter `,`: the values and where they begin. -/
def valuesIterator (values : List UInt8) : List (ℕ × List UInt8) := valuesFrom 0 values

variable {pos b n : ℕ} {token : ℕ × List UInt8}

theorem trimValue_eq_some (h : trimValue token = some (b, v)) :
    ∃ lead trail, token.2 = lead ++ (v ++ trail) ∧ b = token.1 + lead.length ∧
      (∀ c ∈ lead, isLWS c = true) ∧ (∀ c ∈ trail, isLWS c = true) ∧ Trimmed v := by
  unfold trimValue at h
  by_cases hnil : trimLWS token.2 = []
  · rw [if_pos hnil] at h
    cases h
  · rw [if_neg hnil] at h
    cases h
    rcases trimLWS_cases token.2 with ⟨hnil', _⟩ | ⟨lead, trail, hs, htake, hlead, htrail, ht⟩
    · exact absurd hnil' hnil
    · exact ⟨lead, trail, hs, by rw [htake], hlead, htrail, ht⟩

theorem trimValue_take (h : trimValue token = some (b, v)) :
    trimValue (token.1, token.2.take (b + v.length - token.1)) = some (b, v) ∧
      0 < b + v.length - token.1 ∧ b + v.length - token.1 ≤ token.2.length := by
  obtain ⟨lead, trail, hs, rfl, hlead, _, hv⟩ := trimValue_eq_some h
  have hlen : token.1 + lead.length + v.length - token.1 = (lead ++ v).length := by
    rw [length_append]
    omega
  have htake : token.2.take (token.1 + lead.length + v.length - token.1) = lead ++ (v ++ []) := by
    rw [hlen, hs, ← append_assoc, List.take_left, append_nil]
  obtain ⟨htrim, hpre⟩ := trimLWS_append hlead isLWS_of_mem_nil hv
  have hpos : 0 < v.length := List.length_pos_iff.2 hv.ne_nil
  refine ⟨?_, by rw [hlen, length_append]; omega, by rw [hlen, hs]; simp⟩
  rw [htake]
  dsimp only [trimValue]
  rw [htrim, hpre, if_neg hv.ne_nil]

theorem exists_of_mem_fullTokens {delims quotes : UInt8 → Bool}
    (h : token ∈ fullTokens delims quotes pos s) :
    ∃ front back, s = front ++ (token.2 ++ back) ∧ token.1 = pos + front.length := by
  induction pos, s using fullTokens.induct delims quotes with
  | case1 pos =>
    rw [fullTokens_nil] at h
    cases h
  | case2 pos c s hc ih =>
    rw [fullTokens_none hc] at h
    obtain ⟨front, back, hs, hpos⟩ := ih h
    refine ⟨c :: front, back, by rw [cons_append, ← hs], ?_⟩
    rw [hpos, List.length_cons]
    omega
  | case3 pos c s state hc r ih =>
    rw [fullTokens_some hc] at h
    have hsplit := takeToken_eq delims quotes state s
    rcases List.mem_cons.1 h with rfl | h
    · refine ⟨[], r.2, ?_, rfl⟩
      show c :: s = c :: (takeToken delims quotes state s).1 ++ (takeToken delims quotes state s).2
      rw [cons_append, hsplit]
    · obtain ⟨front, back, hs, hpos⟩ := ih h
      refine ⟨c :: (r.1 ++ front), back, ?_, ?_⟩
      · rw [cons_append, append_assoc, ← hs]
        exact congrArg (c :: ·) hsplit.symm
      · rw [hpos, List.length_cons, length_append]
        show pos + 1 + r.1.length + front.length = _
        omega

theorem exists_of_mem_values {values : List UInt8} (h : (b, v) ∈ valuesIterator values) :
    ∃ front back, values = front ++ (v ++ back) ∧ b = front.length ∧ Trimmed v := by
  obtain ⟨token, hmem, htrim⟩ := List.mem_filterMap.1 h
  obtain ⟨front, back, hs, hpos⟩ := exists_of_mem_fullTokens hmem
  obtain ⟨lead, trail, htoken, hb, _, _, hv⟩ := trimValue_eq_some htrim
  refine ⟨front ++ lead, trail ++ back, ?_, ?_, hv⟩
  · rw [hs, htoken]
    simp only [append_assoc]
  · rw [hb, hpos, length_append]
    omega

theorem valuesFrom_take (h : (valuesFrom pos s).getLast? = some (b, v)) :
    pos < b + v.length ∧ valuesFrom pos (s.take (b + v.length - pos)) = valuesFrom pos s := by
  induction pos, s using fullTokens.induct isComma isQuote with
  | case1 pos =>
    unfold valuesFrom at h
    rw [fullTokens_nil] at h
    cases h
  | case2 pos c s hc ih =>
    have hskip (t : List UInt8) : valuesFrom pos (c :: t) = valuesFrom (pos + 1) t := by
      unfold valuesFrom
      rw [fullTokens_none hc]
    rw [hskip] at h ⊢
    obtain ⟨hlt, heq⟩ := ih h
    refine ⟨by omega, ?_⟩
    have hn : b + v.length - pos = (b + v.length - (pos + 1)) + 1 := by omega
    rw [hn, take_succ_cons, hskip, heq]
  | case3 pos c s state hc r ih =>
    have hcons (t : List UInt8) : valuesFrom pos (c :: t) =
        (trimValue (pos, c :: (takeToken isComma isQuote state t).1)).toList ++
          valuesFrom (pos + 1 + (takeToken isComma isQuote state t).1.length)
            (takeToken isComma isQuote state t).2 := by
      unfold valuesFrom
      rw [fullTokens_some hc, List.filterMap_cons]
      cases trimValue (pos, c :: (takeToken isComma isQuote state t).1) <;> rfl
    rw [hcons] at h
    by_cases hlater : valuesFrom (pos + 1 + r.1.length) r.2 = []
    · -- the last value is in this token
      change ((trimValue (pos, c :: r.1)).toList ++ valuesFrom (pos + 1 + r.1.length) r.2).getLast? = some (b, v) at h
      rw [hlater, append_nil] at h
      have htrim : trimValue (pos, c :: r.1) = some (b, v) := by
        cases ht : trimValue (pos, c :: r.1) with
        | none =>
          rw [ht] at h
          cases h
        | some e =>
          rw [ht] at h
          exact h
      obtain ⟨htake, hpos, hle⟩ := trimValue_take htrim
      refine ⟨by dsimp only at hpos; omega, ?_⟩
      dsimp only at htake hpos hle
      obtain ⟨m, hm⟩ : ∃ m, b + v.length - pos = m + 1 := ⟨b + v.length - pos - 1, by omega⟩
      rw [hm] at htake hle ⊢
      rw [take_succ_cons] at htake ⊢
      have hmle : m ≤ (takeToken isComma isQuote state s).1.length := by simpa using hle
      rw [hcons, hcons, takeToken_take hmle]
      show (trimValue (pos, c :: r.1.take m)).toList ++ _ =
        (trimValue (pos, c :: r.1)).toList ++ valuesFrom (pos + 1 + r.1.length) r.2
      rw [htake, htrim, hlater]
      unfold valuesFrom
      rw [fullTokens_nil]
      rfl
    · -- it is in a later one
      have hlast : (valuesFrom (pos + 1 + r.1.length) r.2).getLast? = some (b, v) := by
        rw [List.getLast?_append_of_ne_nil _ hlater] at h
        exact h
      obtain ⟨hlt, heq⟩ := ih hlast
      refine ⟨by omega, ?_⟩
      obtain ⟨m, hm⟩ : ∃ m, b + v.length = pos + 1 + r.1.length + m :=
        ⟨b + v.length - (pos + 1 + r.1.length), by omega⟩
      have hn : b + v.length - pos = ((takeToken isComma isQuote state s).1.length + m) + 1 := by
        show b + v.length - pos = (r.1.length + m) + 1
        omega
      have hm' : b + v.length - (pos + 1 + r.1.length) = m := by omega
      rw [hm'] at heq
      rw [hn, take_succ_cons, hcons, hcons, takeToken_append]
      exact congrArg ((trimValue (pos, c :: r.1)).toList ++ ·) heq

/-! ### Header lines -/

/-- A header line: what `HeadersIterator` points to after `GetNext`.  The name stands at the
beginning of the line, the values at `valuesBegin`. -/
structure HeaderLine where
  line : List UInt8
  name : List UInt8
  valuesBegin : ℕ
  values : List UInt8
  deriving DecidableEq, Repr

/-- `HeadersIterator::GetNext` on a line. -/
def parseHeaderLine (line : List UInt8) : Option HeaderLine :=
  match line.findIdx? (· = 58) with
  | none => none
  | some colon =>
    let name := line.take colon
    -- a name that starts with white space would be a continuation of the line before
    if name = [] ∨ isLWS (name.headD 0) = true then none
    else if trimLWS name = [] then none
    else
      let rest := line.drop (colon + 1)
      some ⟨line, trimLWS name, colon + 1 + (rest.takeWhile isLWS).length, trimLWS rest⟩

variable {line nm rest : List UInt8} {h : HeaderLine}

theorem parseHeaderLine_none (hcolon : 58 ∉ line) : parseHeaderLine line = none := by
  have hfind : line.findIdx? (· = 58) = none := by
    rw [List.findIdx?_eq_none_iff]
    intro c hc
    exact decide_eq_false fun he => hcolon (he ▸ hc)
  rw [parseHeaderLine, hfind]

theorem parseHeaderLine_append (hcolon : 58 ∉ nm) :
    parseHeaderLine (nm ++ 58 :: rest) = if nm = [] ∨ isLWS (nm.headD 0) = true then none
      else if trimLWS nm = [] then none
      else some ⟨nm ++ 58 :: rest, trimLWS nm, nm.length + 1 + (rest.takeWhile isLWS).length,
        trimLWS rest⟩ := by
  have hnone : nm.findIdx? (· = 58) = none := by
    rw [List.findIdx?_eq_none_iff]
    intro c hc
    exact decide_eq_false fun he => hcolon (he ▸ hc)
  have hfind : (nm ++ 58 :: rest).findIdx? (· = 58) = some nm.length := by
    rw [List.findIdx?_append, hnone, List.findIdx?_cons]
    simp
  have hdrop : (nm ++ 58 :: rest).drop (nm.length + 1) = rest := by
    rw [← List.drop_drop, List.drop_left]
    rfl
  rw [parseHeaderLine, hfind]
  dsimp only
  rw [List.take_left, hdrop]

theorem parseHeaderLine_eq_some (hp : parseHeaderLine line = some h) :
    ∃ nm rest, line = nm ++ 58 :: rest ∧ 58 ∉ nm ∧ ¬ (nm = [] ∨ isLWS (nm.headD 0) = true) ∧
      trimLWS nm ≠ [] ∧ h = ⟨line, trimLWS nm, nm.length + 1 + (rest.takeWhile isLWS).length,
        trimLWS rest⟩ := by
  by_cases hmem : 58 ∈ line
  · obtain ⟨nm, rest, rfl, hcolon⟩ := List.eq_append_cons_of_mem hmem
    rw [parseHeaderLine_append hcolon] at hp
    by_cases hstart : nm = [] ∨ isLWS (nm.headD 0) = true
    · rw [if_pos hstart] at hp
      cases hp
    · rw [if_neg hstart] at hp
      by_cases hname : trimLWS nm = []
      · rw [if_pos hname] at hp
        cases hp
      · rw [if_neg hname] at hp
        exact ⟨nm, rest, rfl, hcolon, hstart, hname, (Option.some.inj hp).symm⟩
  · rw [parseHeaderLine_none hmem] at hp
    cases hp

theorem valuesBegin_of_values_nil (hp : parseHeaderLine line = some h) (hnil : h.values = []) :
    h.valuesBegin = line.length := by
  obtain ⟨nm, rest, rfl, _, _, _, rfl⟩ := parseHeaderLine_eq_some hp
  rcases trimLWS_cases rest with ⟨_, htake⟩ | ⟨_, _, _, _, _, _, ht⟩
  · show nm.length + 1 + (rest.takeWhile isLWS).length = _
    rw [htake, length_append, List.length_cons]
    omega
  · exact absurd hnil ht.ne_nil

/-- **A header line cut inside its values** has the values before the cut. -/
theorem parseHeaderLine_take {m : ℕ} (hp : parseHeaderLine line = some h) (hm : m ≠ 0)
    (hle : m ≤ h.values.length)
    (hlast : ∀ hne, isLWS ((h.values.take m).getLast hne) = false) :
    parseHeaderLine (line.take (h.valuesBegin + m)) =
      some ⟨line.take (h.valuesBegin + m), h.name, h.valuesBegin, h.values.take m⟩ := by
  obtain ⟨nm, rest, hline, hcolon, hstart, hname, rfl⟩ := parseHeaderLine_eq_some hp
  dsimp only at hle hlast ⊢
  have hcases := trimLWS_cases rest
  generalize trimLWS rest = v at hle hlast hcases ⊢
  generalize rest.takeWhile isLWS = front at hcases ⊢
  rcases hcases with ⟨rfl, _⟩ | ⟨lead, trail, hrest, rfl, hlead, _, ht⟩
  · rw [List.length_nil] at hle
    exact absurd (Nat.le_zero.1 hle) hm
  · have hcut : line.take (nm.length + 1 + front.length + m) =
        nm ++ 58 :: (front ++ (v.take m ++ [])) := by
      rw [hline, hrest, List.take_append, List.take_of_length_le (by omega), append_nil]
      congr 1
      rw [show nm.length + 1 + front.length + m - nm.length = (front.length + m) + 1 by omega,
        take_succ_cons, List.take_length_add_append, List.take_append_of_le_length hle]
    obtain ⟨htrim, hfront⟩ := trimLWS_append hlead isLWS_of_mem_nil (ht.take hm hlast)
    rw [hcut, parseHeaderLine_append hcolon, if_neg hstart, if_neg hname, htrim, hfront]

/-- `HeadersIterator` with the delimiter `\0`. -/
def headersIterator (text : List UInt8) : List HeaderLine :=
  (quickTokens (· = 0) text).filterMap parseHeaderLine

end Chromium.Net
