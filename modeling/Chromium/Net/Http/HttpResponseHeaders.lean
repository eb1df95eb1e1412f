import Chromium.Base.StringNumberConversions
import Chromium.Net.Http.HttpUtil

/-!
# Response headers

`net/http/http_response_headers.cc`: parsing of a block of raw headers, whose lines end with
null bytes, and what is written to the cache (`persist`) and read from it again.

`parseStatusLine` normalizes the status line.  In one of its branches, where a number is
missing behind the first space (`MissingNumber`), it does not end the line, and the header
lines are appended to it.
-/

namespace Chromium.Net

open Chromium.Base
open List (append_assoc append_nil cons_append nil_append)

structure HttpVersion where
  value : ℕ
  deriving DecidableEq, Repr

/-- `HttpVersion(major, minor)`. -/
def HttpVersion.of (major minor : ℕ) : HttpVersion := ⟨major <<< 16 ||| minor⟩

/-- `HttpVersion()`. -/
def HttpVersion.new : HttpVersion := ⟨0⟩

/-- `ParsedHeader`: the line it stands in, its name, which is empty in a continuation, and its
value, which stands in the line at `valueBegin`. -/
structure ParsedHeader where
  line : List UInt8
  name : List UInt8
  valueBegin : ℕ
  value : List UInt8
  deriving DecidableEq, Repr

def ParsedHeader.isContinuation (h : ParsedHeader) : Bool := h.name = []

/-- `value_end`, as a position in the line. -/
def ParsedHeader.valueEnd (h : ParsedHeader) : ℕ := h.valueBegin + h.value.length

structure HttpResponseHeaders where
  rawHeaders : List UInt8
  parsed : List ParsedHeader
  responseCode : ℤ
  httpVersion : HttpVersion
  parsedHttpVersion : HttpVersion
  deriving DecidableEq, Repr

def isDigit (c : UInt8) : Bool := 48 ≤ c && c ≤ 57

/-- `HttpResponseHeaders::ParseVersion`.  Behind the line stands a null byte. -/
def parseVersion (line : List UInt8) : HttpVersion :=
  if line.length < 4 ∨ stringToLowerASCII (line.take 4) ≠ ascii "http" then .new
  else if line.length ≤ 4 ∨ line.getD 4 0 ≠ 47 then .new
  else
    match (line.drop 4).findIdx? (· = 46) with
    | none => .new
    | some dot =>
      let p := line.getD 5 0
      let q := line.getD (4 + dot + 1) 0
      if isDigit p && isDigit q then .of (p.toNat - 48) (q.toNat - 48) else .new

def clampVersion (parsed : HttpVersion) (hasHeaders : Bool) : HttpVersion :=
  if parsed = .of 0 9 ∧ ¬ hasHeaders then .of 0 9
  else if (HttpVersion.of 1 1).value ≤ parsed.value then .of 1 1
  else .of 1 0

def versionText (version : HttpVersion) : List UInt8 :=
  if version = .of 0 9 then ascii "HTTP/0.9"
  else if version = .of 1 1 then ascii "HTTP/1.1"
  else ascii "HTTP/1.0"

def trimEnd (text : List UInt8) : List UInt8 := text.rdropWhile (· = 32)

/-- What `ParseStatusLine` leaves. -/
structure StatusLine where
  raw : List UInt8
  responseCode : ℤ
  httpVersion : HttpVersion
  parsedHttpVersion : HttpVersion
  deriving DecidableEq, Repr

def parseStatusLine (line : List UInt8) (hasHeaders : Bool) : StatusLine :=
  let parsed := parseVersion line
  let version := clampVersion parsed hasHeaders
  let raw := versionText version
  let p := line.dropWhile (· ≠ 32)
  if p = [] then ⟨raw ++ ascii " 200 OK" ++ [0], 200, version, parsed⟩
  else
    let p := p.dropWhile (· = 32)
    let code := p.takeWhile isDigit
    -- this branch does not end the line
    if code = [] then ⟨raw ++ ascii " 200 OK", 200, version, parsed⟩
    else
      let text := trimEnd ((p.dropWhile isDigit).dropWhile (· = 32))
      ⟨raw ++ [32] ++ code ++ [32] ++ (if text = [] then ascii "OK" else text) ++ [0],
        (stringToInt code).2, version, parsed⟩

/-- `HttpResponseHeaders::AddHeader`: the values of a header that can be coalesced are split
up. -/
def addHeader (h : HeaderLine) : List ParsedHeader :=
  if h.values = [] ∨ isNonCoalescingHeader h.name = true then
    [⟨h.line, h.name, h.valuesBegin, h.values⟩]
  else
    match valuesIterator h.values with
    | [] => []
    | v :: vs =>
      ⟨h.line, h.name, h.valuesBegin + v.1, v.2⟩ :: vs.map fun v => ⟨h.line, [], h.valuesBegin + v.1, v.2⟩

def parsedHeaders (text : List UInt8) : List ParsedHeader := (headersIterator text).flatMap addHeader

def firstLine (text : List UInt8) : List UInt8 := text.takeWhile (· ≠ 0)

/-- There is data in the text behind a status line: it does not begin with an empty line. -/
def hasHeaders (rest : List UInt8) : Bool := decide (rest ≠ [] ∧ rest.headD 0 ≠ 0)

/-- `HttpResponseHeaders::Parse`, which both constructors call. -/
def HttpResponseHeaders.new (rawInput : List UInt8) : HttpResponseHeaders :=
  let line := firstLine rawInput
  match rawInput.drop line.length with
  | [] =>
    let status := parseStatusLine line false
    ⟨status.raw ++ [0], [], status.responseCode, status.httpVersion, status.parsedHttpVersion⟩
  | _ :: rest =>
    let status := parseStatusLine line (hasHeaders rest)
    ⟨status.raw ++ rest, parsedHeaders rest, status.responseCode, status.httpVersion, status.parsedHttpVersion⟩

/-- `HttpResponseHeaders::GetStatusLine`. -/
def HttpResponseHeaders.statusLine (h : HttpResponseHeaders) : List UInt8 := firstLine h.rawHeaders

/-! ### The normalized status line -/

def Clamped (v : HttpVersion) : Prop := v = .of 0 9 ∨ v = .of 1 0 ∨ v = .of 1 1

variable {v : HttpVersion} {line code text rest : List UInt8} {hh : Bool}

theorem clamped_clampVersion (parsed : HttpVersion) (hh : Bool) : Clamped (clampVersion parsed hh) := by
  unfold clampVersion
  split_ifs
  · exact .inl rfl
  · exact .inr (.inr rfl)
  · exact .inr (.inl rfl)

/-- **A version that a response counts as is kept**, unless it is that of a response without
headers and there are headers. -/
theorem clampVersion_eq_iff (hv : Clamped v) (hh : Bool) :
    clampVersion v hh = v ↔ ¬ (v = .of 0 9 ∧ hh = true) := by
  rcases hv with rfl | rfl | rfl <;> cases hh <;> decide

theorem clampVersion_eq_old (parsed : HttpVersion) (hh : Bool) :
    clampVersion parsed hh = .of 0 9 ↔ parsed = .of 0 9 ∧ hh = false := by
  unfold clampVersion
  constructor
  · intro h
    split_ifs at h with h1 h2
    · exact ⟨h1.1, by simpa using h1.2⟩
    · cases h
    · cases h
  · rintro ⟨rfl, rfl⟩
    rfl

theorem parseVersion_append {p q : UInt8} (hp : isDigit p = true) (hq : isDigit q = true)
    (s : List UInt8) :
    parseVersion (ascii "HTTP/" ++ p :: 46 :: q :: s) = .of (p.toNat - 48) (q.toNat - 48) := by
  show parseVersion (72 :: 84 :: 84 :: 80 :: 47 :: p :: 46 :: q :: s) = _
  have hpne : ¬ p = 46 := by
    rintro rfl
    cases hp
  have hdot : (47 :: p :: 46 :: q :: s).findIdx? (· = 46) = some 2 := by
    rw [List.findIdx?_cons, List.findIdx?_cons, List.findIdx?_cons]
    simp [hpne]
  have hlen : 8 ≤ (72 :: 84 :: 84 :: 80 :: 47 :: p :: 46 :: q :: s).length := by
    simp only [List.length_cons]
    omega
  rw [parseVersion, if_neg, if_neg]
  · show (match (47 :: p :: 46 :: q :: s).findIdx? (· = 46) with
      | none => HttpVersion.new
      | some dot => _) = _
    rw [hdot]
    show (if isDigit p && isDigit q then HttpVersion.of (p.toNat - 48) (q.toNat - 48)
      else .new) = _
    rw [hp, hq]
    rfl
  · rintro (h | h)
    · omega
    · exact h rfl
  · rintro (h | h)
    · omega
    · exact h rfl

theorem parseVersion_versionText (hv : Clamped v) (s : List UInt8) :
    parseVersion (versionText v ++ s) = v := by
  rcases hv with rfl | rfl | rfl
  · exact parseVersion_append (p := 48) (q := 57) rfl rfl s
  · exact parseVersion_append (p := 49) (q := 48) rfl rfl s
  · exact parseVersion_append (p := 49) (q := 49) rfl rfl s

theorem versionText_injective {v' : HttpVersion} (hv : Clamped v) (hv' : Clamped v')
    (h : versionText v = versionText v') : v = v' := by
  have h1 := parseVersion_versionText hv []
  rw [h, parseVersion_versionText hv' []] at h1
  exact h1.symm

theorem notMem_versionText (hv : Clamped v) : 32 ∉ versionText v ∧ 0 ∉ versionText v := by
  rcases hv with rfl | rfl | rfl <;> decide

def normalLine (v : HttpVersion) (code text : List UInt8) : List UInt8 :=
  versionText v ++ 32 :: (code ++ 32 :: text)

theorem parseStatusLine_normalLine (hv : Clamped v) (hne : code ≠ [])
    (hdigits : ∀ c ∈ code, isDigit c = true) (htext : trimEnd text ≠ [])
    (hstart : text.dropWhile (· = 32) = text) :
    parseStatusLine (normalLine v code text) hh =
      ⟨normalLine (clampVersion v hh) code (trimEnd text) ++ [0], (stringToInt code).2,
        clampVersion v hh, v⟩ := by
  obtain ⟨c, code, rfl⟩ := List.exists_cons_of_ne_nil hne
  have hc : c ≠ 32 := by
    rintro rfl
    exact nomatch hdigits 32 List.mem_cons_self
  have hversion : ∀ b ∈ versionText v, decide (b ≠ 32) = true := by
    intro b hb
    exact decide_eq_true fun he => (notMem_versionText hv).1 (he ▸ hb)
  have hspace : (normalLine v (c :: code) text).dropWhile (· ≠ 32) = 32 :: (c :: code ++ 32 :: text) := by
    rw [normalLine, List.dropWhile_append_of_pos hversion, List.dropWhile_cons_of_neg (by decide)]
  have hcode : (32 :: (c :: code ++ 32 :: text)).dropWhile (· = 32) = c :: code ++ 32 :: text := by
    rw [List.dropWhile_cons_of_pos (by decide), cons_append, List.dropWhile_cons_of_neg (by simpa using hc)]
  have htake : (c :: code ++ 32 :: text).takeWhile isDigit = c :: code := by
    rw [List.takeWhile_append_of_pos hdigits, List.takeWhile_cons_of_neg (by decide), append_nil]
  have hdrop : (c :: code ++ 32 :: text).dropWhile isDigit = 32 :: text := by
    rw [List.dropWhile_append_of_pos hdigits, List.dropWhile_cons_of_neg (by decide)]
  have hrest : (32 :: text).dropWhile (· = 32) = text := by
    rw [List.dropWhile_cons_of_pos (by decide), hstart]
  have hparsed : parseVersion (normalLine v (c :: code) text) = v := parseVersion_versionText hv _
  unfold parseStatusLine
  simp only [hparsed, hspace, hcode, htake, hdrop, hrest]
  rw [if_neg (by simp), if_neg (by simp), if_neg htext]
  unfold normalLine
  simp only [append_assoc, cons_append, nil_append]

def MissingNumber (line : List UInt8) : Prop :=
  line.dropWhile (· ≠ 32) ≠ [] ∧ ((line.dropWhile (· ≠ 32)).dropWhile (· = 32)).takeWhile isDigit = []

instance (line : List UInt8) : Decidable (MissingNumber line) := inferInstanceAs (Decidable (_ ∧ _))

theorem trimEnd_eq_self_iff : trimEnd text = text ↔ ∀ h, text.getLast h ≠ 32 := by
  rw [trimEnd, List.rdropWhile_eq_self_iff]
  simp

/-- **What `ParseStatusLine` leaves of a line with a number**: a normalized line and its end. -/
theorem parseStatusLine_of_number (hnum : ¬ MissingNumber line) (hnull : 0 ∉ line) (hh : Bool) :
    ∃ code text, code ≠ [] ∧ (∀ c ∈ code, isDigit c = true) ∧ text ≠ [] ∧
      text.dropWhile (· = 32) = text ∧ trimEnd text = text ∧ 0 ∉ text ∧
      parseStatusLine line hh =
        ⟨normalLine (clampVersion (parseVersion line) hh) code text ++ [0], (stringToInt code).2,
          clampVersion (parseVersion line) hh, parseVersion line⟩ := by
  by_cases hspace : line.dropWhile (· ≠ 32) = []
  · refine ⟨ascii "200", ascii "OK", by decide, by simp [ascii, isDigit], by decide, by decide,
      by decide, by decide, ?_⟩
    have hcode : (stringToInt (ascii "200")).2 = 200 := by decide +kernel
    unfold parseStatusLine
    simp only [hspace, if_true, hcode]
    unfold normalLine
    simp [ascii]
  · have hcode : ((line.dropWhile (· ≠ 32)).dropWhile (· = 32)).takeWhile isDigit ≠ [] :=
      fun h => hnum ⟨hspace, h⟩
    have hsub : ((line.dropWhile (· ≠ 32)).dropWhile (· = 32)).Sublist line :=
      (List.dropWhile_sublist _).trans (List.dropWhile_sublist _)
    generalize hp : (line.dropWhile (· ≠ 32)).dropWhile (· = 32) = p at hcode hsub
    have htext : ∃ text, text ≠ [] ∧ text.dropWhile (· = 32) = text ∧ trimEnd text = text ∧
        0 ∉ text ∧ text = (if trimEnd ((p.dropWhile isDigit).dropWhile (· = 32)) = [] then
          ascii "OK" else trimEnd ((p.dropWhile isDigit).dropWhile (· = 32))) := by
      by_cases hnil : trimEnd ((p.dropWhile isDigit).dropWhile (· = 32)) = []
      · rw [if_pos hnil]
        exact ⟨ascii "OK", by decide, by decide, by decide, by decide, rfl⟩
      · rw [if_neg hnil]
        have hpre := List.rdropWhile_prefix (· = 32) ((p.dropWhile isDigit).dropWhile (· = 32))
        refine ⟨_, hnil, ?_, ?_, ?_, rfl⟩
        · rw [List.dropWhile_eq_self_iff]
          intro hlen
          have hhead := List.head_dropWhile_not (· = 32) (l := p.dropWhile isDigit)
            (hpre.ne_nil hnil)
          rw [← hpre.head hnil] at hhead
          rw [← List.head_eq_getElem hnil]
          exact Bool.eq_false_iff.1 hhead
        · exact List.rdropWhile_idempotent _ _
        · intro hmem
          exact hnull (hsub.subset ((List.dropWhile_sublist _).subset
            ((List.dropWhile_sublist _).subset (hpre.subset hmem))))
    obtain ⟨text, hne, hstart, htrim, hnull', htext⟩ := htext
    refine ⟨p.takeWhile isDigit, text, hcode, fun c hc => List.mem_takeWhile_imp hc, hne, hstart, htrim, hnull', ?_⟩
    unfold parseStatusLine
    simp only [hp, ← htext]
    rw [if_neg hspace, if_neg hcode]
    unfold normalLine
    simp only [append_assoc, cons_append, nil_append]

theorem parseStatusLine_of_missing (h : MissingNumber line) : parseStatusLine line hh =
      ⟨normalLine (clampVersion (parseVersion line) hh) (ascii "200") (ascii "OK"), 200,
        clampVersion (parseVersion line) hh, parseVersion line⟩ := by
  dsimp only [parseStatusLine]
  rw [if_neg h.1, if_pos h.2]
  simp [normalLine, ascii]

theorem normalLine_append (v : HttpVersion) (code text s : List UInt8) :
    normalLine v code text ++ s = normalLine v code (text ++ s) := by
  unfold normalLine
  simp only [append_assoc, cons_append]

theorem notMem_normalLine (hv : Clamped v) (hcode : 0 ∉ code) (htext : 0 ∉ text) :
    0 ∉ normalLine v code text := by
  unfold normalLine
  simp [(notMem_versionText hv).2, hcode, htext]

theorem normalLine_inj {v' : HttpVersion} {text' : List UInt8} (hv : Clamped v)
    (hv' : Clamped v') :
    normalLine v code text = normalLine v' code text' ↔ v = v' ∧ text = text' := by
  have hlen (w : HttpVersion) (hw : Clamped w) : (versionText w).length = 8 := by
    rcases hw with rfl | rfl | rfl <;> rfl
  constructor
  · intro h
    unfold normalLine at h
    obtain ⟨h1, h2⟩ := List.append_inj h (by rw [hlen v hv, hlen v' hv'])
    refine ⟨versionText_injective hv hv' h1, ?_⟩
    simpa using h2
  · rintro ⟨rfl, rfl⟩
    rfl

/-! ### The lines of a block -/

variable {input : List UInt8}

def behind (text : List UInt8) : List UInt8 := text.drop ((firstLine text).length + 1)

theorem notMem_firstLine (text : List UInt8) : 0 ∉ firstLine text := by
  intro h
  simpa using List.mem_takeWhile_imp h

theorem firstLine_of_notMem (h : 0 ∉ line) : firstLine line = line ∧ behind line = [] := by
  have hline : firstLine line = line := by
    refine List.takeWhile_eq_self_iff.2 fun c hc => ?_
    exact decide_eq_true fun he => h (he ▸ hc)
  refine ⟨hline, ?_⟩
  rw [behind, hline]
  exact List.drop_eq_nil_of_le (Nat.le_succ _)

theorem firstLine_append (h : 0 ∉ line) (rest : List UInt8) :
    firstLine (line ++ 0 :: rest) = line ∧ behind (line ++ 0 :: rest) = rest := by
  have hpos : ∀ c ∈ line, decide (c ≠ 0) = true :=
    fun c hc => decide_eq_true fun he => h (he ▸ hc)
  have hline : firstLine (line ++ 0 :: rest) = line := by
    unfold firstLine
    rw [List.takeWhile_append_of_pos hpos, List.takeWhile_cons_of_neg (by decide), append_nil]
  refine ⟨hline, ?_⟩
  rw [behind, hline, ← List.drop_drop, List.drop_left]
  rfl

theorem firstLine_cases (text : List UInt8) : (0 ∉ text) ∨ text = firstLine text ++ 0 :: behind text := by
  by_cases h : 0 ∈ text
  · right
    obtain ⟨line, rest, rfl, hline⟩ := List.eq_append_cons_of_mem h
    obtain ⟨h1, h2⟩ := firstLine_append hline rest
    rw [h1, h2]
  · exact .inl h

theorem parsedHeaders_nil : parsedHeaders [] = [] := by
  unfold parsedHeaders headersIterator
  rw [quickTokens_nil]
  rfl

theorem parsedHeaders_append (h : 0 ∉ line) :
    parsedHeaders (line ++ 0 :: rest) = parsedHeaders line ++ parsedHeaders rest := by
  have hdelim : ∀ c ∈ line, decide (c = 0) = false :=
    fun c hc => decide_eq_false fun he => h (he ▸ hc)
  unfold parsedHeaders headersIterator
  by_cases hnil : line = []
  · rw [hnil, nil_append, quickTokens_delim (by decide), quickTokens_nil]
    rfl
  · rw [quickTokens_append hnil hdelim (by decide), quickTokens_last hnil hdelim,
      ← List.singleton_append, List.filterMap_append, List.flatMap_append]

def HoldsHeader (line : List UInt8) : Prop :=
  ∃ h, parseHeaderLine line = some h ∧
    (h.values = [] ∨ isNonCoalescingHeader h.name = true ∨ valuesIterator h.values ≠ [])

theorem addHeader_eq_nil_iff (h : HeaderLine) : addHeader h = [] ↔
      ¬ (h.values = [] ∨ isNonCoalescingHeader h.name = true ∨ valuesIterator h.values ≠ []) := by
  unfold addHeader
  split_ifs with hwhole
  · tauto
  · cases valuesIterator h.values with
    | nil => simpa [not_or] using hwhole
    | cons v vs => simp

theorem parsedHeaders_of_line (h : 0 ∉ line) :
    parsedHeaders line = (parseHeaderLine line).toList.flatMap addHeader := by
  have hdelim : ∀ c ∈ line, decide (c = 0) = false :=
    fun c hc => decide_eq_false fun he => h (he ▸ hc)
  unfold parsedHeaders headersIterator
  by_cases hnil : line = []
  · rw [hnil, quickTokens_nil]
    rfl
  · rw [quickTokens_last hnil hdelim, List.filterMap_cons]
    cases parseHeaderLine line <;> rfl

theorem parsedHeaders_line (h : 0 ∉ line) : parsedHeaders line = [] ↔ ¬ HoldsHeader line := by
  rw [parsedHeaders_of_line h]
  unfold HoldsHeader
  cases parseHeaderLine line with
  | none => simp
  | some h => simp [addHeader_eq_nil_iff]

/-! ### Parsing again -/

theorem new_spec (input : List UInt8) : let h := HttpResponseHeaders.new input
    let status := parseStatusLine (firstLine input) (hasHeaders (behind input))
    h.parsed = parsedHeaders (behind input) ∧ h.responseCode = status.responseCode ∧
      h.httpVersion = status.httpVersion ∧
      h.rawHeaders = status.raw ++ (if 0 ∈ input then behind input else [0]) := by
  rcases firstLine_cases input with hnull | hsplit
  · obtain ⟨h1, h2⟩ := firstLine_of_notMem hnull
    have hdrop : input.drop (firstLine input).length = [] := by rw [h1, List.drop_length]
    dsimp only [HttpResponseHeaders.new]
    rw [hdrop, h2, parsedHeaders_nil, if_neg hnull]
    exact ⟨rfl, rfl, rfl, rfl⟩
  · have hdrop : input.drop (firstLine input).length = 0 :: behind input := by
      conv_lhs => rw [hsplit]
      obtain ⟨h1, _⟩ := firstLine_append (notMem_firstLine input) (behind input)
      rw [h1, List.drop_left]
    have hmem : 0 ∈ input := by
      rw [hsplit]
      simp
    dsimp only [HttpResponseHeaders.new]
    rw [hdrop, if_pos hmem]
    exact ⟨rfl, rfl, rfl, rfl⟩

/-- Two responses are the same: the status line, the response code, the version, and the names
and values of the headers. -/
structure SameResponse (h h' : HttpResponseHeaders) : Prop where
  statusLine : h'.statusLine = h.statusLine
  responseCode : h'.responseCode = h.responseCode
  httpVersion : h'.httpVersion = h.httpVersion
  headers : h'.parsed.map (fun p => (p.name, p.value)) = h.parsed.map (fun p => (p.name, p.value))

/-- The text behind a status line that is appended to it does no harm: its first line, which
is lost, holds no header and does not end with a space, and it does not stand between the
status line and the first header of a response that counts as one without headers. -/
structure Harmless (line rest : List UInt8) : Prop where
  header : ¬ HoldsHeader (firstLine rest)
  space : ∀ h, (firstLine rest).getLast h ≠ 32
  version : ¬ (parseVersion line = .of 0 9 ∧ hasHeaders rest = false ∧ hasHeaders (behind rest) = true)

/-- **A response whose status line is normalized and ended is parsed again to the same.** -/
theorem reparse_of_normalLine (rest : List UInt8) (hne : code ≠ []) (hdigits : ∀ c ∈ code, isDigit c = true)
    (htext : text ≠ []) (hstart : text.dropWhile (· = 32) = text) (htrim : trimEnd text = text)
    (hnull : 0 ∉ text)
    (hv : v = clampVersion (parseVersion (firstLine input)) (hasHeaders (behind input)))
    (hcode : (HttpResponseHeaders.new input).responseCode = (stringToInt code).2)
    (hversion : (HttpResponseHeaders.new input).httpVersion = v)
    (hraw : (HttpResponseHeaders.new input).rawHeaders = normalLine v code text ++ 0 :: rest)
    (hsame : parsedHeaders rest = parsedHeaders (behind input))
    (hhas : hasHeaders rest = hasHeaders (behind input)) :
    SameResponse (.new input) (.new (HttpResponseHeaders.new input).rawHeaders) := by
  obtain ⟨hparsed, -⟩ := new_spec input
  have hclamped : Clamped v := hv ▸ clamped_clampVersion _ _
  have hkeep : clampVersion v (hasHeaders (behind input)) = v := by
    rw [clampVersion_eq_iff hclamped, hv, clampVersion_eq_old]
    rintro ⟨⟨_, hfalse⟩, htrue⟩
    rw [hfalse] at htrue
    cases htrue
  have hzero : 0 ∉ code := by
    intro hmem
    exact nomatch hdigits 0 hmem
  obtain ⟨hline, hbehind⟩ :=
    firstLine_append (notMem_normalLine hclamped hzero hnull) rest
  obtain ⟨hparsed', hcode', hversion', hraw'⟩ := new_spec (HttpResponseHeaders.new input).rawHeaders
  rw [hraw, hline, hbehind, parseStatusLine_normalLine hclamped hne hdigits (by rwa [htrim]) hstart,
    htrim, hhas, hkeep, ← hraw] at hraw' hcode' hversion'
  rw [hraw, hbehind, hsame, ← hraw] at hparsed'
  refine ⟨?_, by rw [hcode', hcode], by rw [hversion', hversion], by rw [hparsed', hparsed]⟩
  unfold HttpResponseHeaders.statusLine
  rw [hraw', hraw, hline, append_assoc]
  exact (firstLine_append (notMem_normalLine hclamped hzero hnull) _).1

/-- **A response with a number in its status line is parsed again to the same.** -/
theorem reparse_of_number (hnum : ¬ MissingNumber (firstLine input)) :
    SameResponse (.new input) (.new (HttpResponseHeaders.new input).rawHeaders) := by
  obtain ⟨-, hcode, hversion, hraw⟩ := new_spec input
  obtain ⟨code, text, hne, hdigits, htext, hstart, htrim, hnull, hstatus⟩ :=
    parseStatusLine_of_number hnum (notMem_firstLine input) (hasHeaders (behind input))
  rw [hstatus] at hcode hversion hraw
  by_cases hmem : 0 ∈ input
  · rw [if_pos hmem] at hraw
    exact reparse_of_normalLine (behind input) hne hdigits htext hstart htrim hnull rfl hcode
      hversion (by rw [hraw, append_assoc]; rfl) rfl rfl
  · have hbehind := (firstLine_of_notMem hmem).2
    have hskip : parsedHeaders [0] = [] := by
      rw [show [0] = [] ++ (0 : UInt8) :: [] from rfl, parsedHeaders_append (by simp), parsedHeaders_nil]
      rfl
    rw [if_neg hmem] at hraw
    exact reparse_of_normalLine [0] hne hdigits htext hstart htrim hnull rfl hcode hversion
      (by rw [hraw, append_assoc]; rfl)
      (by rw [hbehind, hskip, parsedHeaders_nil]) (by rw [hbehind]; rfl)

theorem reparse_of_line (hmiss : MissingNumber (firstLine input)) (hmem : 0 ∉ input) :
    SameResponse (.new input) (.new (HttpResponseHeaders.new input).rawHeaders) := by
  obtain ⟨-, hcode, hversion, hraw⟩ := new_spec input
  have hbehind := (firstLine_of_notMem hmem).2
  have hnumber : (stringToInt (ascii "200")).2 = 200 := by decide +kernel
  rw [parseStatusLine_of_missing hmiss] at hcode hversion hraw
  rw [if_neg hmem] at hraw
  exact reparse_of_normalLine [] (by decide) (by simp [ascii, isDigit]) (by decide) (by decide)
    (by decide) (by decide) rfl (hcode.trans hnumber.symm) hversion hraw
    (by rw [hbehind]) (by rw [hbehind])

theorem trimEnd_ok_iff : trimEnd (ascii "OK" ++ line) = ascii "OK" ++ line ↔
    ∀ h, line.getLast h ≠ 32 := by
  rw [trimEnd_eq_self_iff]
  by_cases hnil : line = []
  · subst hnil
    simp [ascii]
  · have hlast (h : ascii "OK" ++ line ≠ []) : (ascii "OK" ++ line).getLast h = line.getLast hnil :=
      List.getLast_append_of_ne_nil h hnil
    constructor
    · intro h _
      rw [← hlast (by simp [hnil])]
      exact h _
    · intro h hne
      rw [hlast hne]
      exact h hnil

/-- **A response whose status line was not ended is parsed again to the same** where the text
behind it does no harm. -/
theorem reparse_of_missing (hmiss : MissingNumber (firstLine input)) (hmem : 0 ∈ input) :
    SameResponse (.new input) (.new (HttpResponseHeaders.new input).rawHeaders) ↔
      Harmless (firstLine input) (behind input) := by
  obtain ⟨hparsed, hcode, hversion, hraw⟩ := new_spec input
  rw [if_pos hmem] at hraw
  generalize behind input = rest at *
  rw [parseStatusLine_of_missing hmiss] at hcode hversion hraw
  dsimp only at hcode hversion hraw
  have hv := clamped_clampVersion (parseVersion (firstLine input)) (hasHeaders rest)
  have hold := clampVersion_eq_old (parseVersion (firstLine input)) (hasHeaders rest)
  generalize clampVersion (parseVersion (firstLine input)) (hasHeaders rest) = v at *
  rw [normalLine_append] at hraw
  -- the first line of the text has become a part of the status line
  have hnull : 0 ∉ normalLine v (ascii "200") (ascii "OK" ++ firstLine rest) := by
    refine notMem_normalLine hv (by decide) ?_
    rw [List.mem_append, not_or]
    exact ⟨by decide, notMem_firstLine rest⟩
  obtain ⟨hline, hbehind, hsplit⟩ : firstLine (HttpResponseHeaders.new input).rawHeaders =
      normalLine v (ascii "200") (ascii "OK" ++ firstLine rest) ∧
        behind (HttpResponseHeaders.new input).rawHeaders = behind rest ∧
          parsedHeaders rest = parsedHeaders (firstLine rest) ++ parsedHeaders (behind rest) := by
    rcases firstLine_cases rest with h | h
    · obtain ⟨h1, h2⟩ := firstLine_of_notMem h
      rw [h1] at hnull
      rw [hraw, h1, h2, (firstLine_of_notMem hnull).1, (firstLine_of_notMem hnull).2,
        parsedHeaders_nil, append_nil]
      exact ⟨rfl, rfl, rfl⟩
    · have hraw' : (HttpResponseHeaders.new input).rawHeaders =
          normalLine v (ascii "200") (ascii "OK" ++ firstLine rest) ++ 0 :: behind rest := by
        rw [hraw, normalLine_append, append_assoc, ← h]
      rw [hraw', (firstLine_append hnull _).1, (firstLine_append hnull _).2]
      refine ⟨rfl, rfl, ?_⟩
      conv_lhs => rw [h]
      exact parsedHeaders_append (notMem_firstLine rest)
  obtain ⟨hparsed', hcode', hversion', hraw'⟩ := new_spec (HttpResponseHeaders.new input).rawHeaders
  have htrim : trimEnd (ascii "OK" ++ firstLine rest) ≠ [] := by
    intro h
    have hall := List.rdropWhile_eq_nil_iff.1 h 79
      (List.mem_append_left _ (show (79 : UInt8) ∈ ascii "OK" by decide))
    cases hall
  rw [hline, hbehind, parseStatusLine_normalLine hv (by decide) (by simp [ascii, isDigit]) htrim
    rfl] at hraw' hcode' hversion'
  dsimp only at hraw' hcode' hversion'
  rw [hbehind] at hparsed'
  have hnumber : (stringToInt (ascii "200")).2 = 200 := by decide +kernel
  have hv' := clamped_clampVersion v (hasHeaders (behind rest))
  have hkeep := clampVersion_eq_iff hv (hasHeaders (behind rest))
  generalize clampVersion v (hasHeaders (behind rest)) = v' at *
  have hstatus : (HttpResponseHeaders.new (HttpResponseHeaders.new input).rawHeaders).statusLine =
      normalLine v' (ascii "200") (trimEnd (ascii "OK" ++ firstLine rest)) := by
    rw [HttpResponseHeaders.statusLine, hraw', append_assoc]
    refine (firstLine_append (notMem_normalLine hv' (by decide) fun hmem => ?_) _).1
    have hpre := List.rdropWhile_prefix (· = 32) (ascii "OK" ++ firstLine rest)
    rcases List.mem_append.1 (hpre.subset hmem) with hm | hm
    · exact nomatch hm
    · exact notMem_firstLine rest hm
  have hheaders : (HttpResponseHeaders.new (HttpResponseHeaders.new input).rawHeaders).parsed.map
      (fun p => (p.name, p.value)) = (HttpResponseHeaders.new input).parsed.map
        (fun p => (p.name, p.value)) ↔ parsedHeaders (firstLine rest) = [] := by
    rw [hparsed', hparsed, hsplit, List.map_append]
    simp [List.self_eq_append_left]
  have hsame : SameResponse (.new input) (.new (HttpResponseHeaders.new input).rawHeaders) ↔
      (v' = v ∧ trimEnd (ascii "OK" ++ firstLine rest) = ascii "OK" ++ firstLine rest) ∧
        parsedHeaders (firstLine rest) = [] := by
    constructor
    · rintro ⟨h1, _, _, h4⟩
      rw [hstatus, HttpResponseHeaders.statusLine, hline, normalLine_inj hv' hv] at h1
      exact ⟨h1, hheaders.1 h4⟩
    · rintro ⟨⟨h1, h2⟩, h3⟩
      refine ⟨?_, by rw [hcode', hcode, hnumber], by rw [hversion', hversion, h1], hheaders.2 h3⟩
      rw [hstatus, HttpResponseHeaders.statusLine, hline, h1, h2]
  rw [hsame, trimEnd_ok_iff, parsedHeaders_line (notMem_firstLine rest), hkeep, hold, and_assoc]
  constructor
  · rintro ⟨h1, h2, h3⟩
    exact ⟨h3, h2, fun ⟨a, b, c⟩ => h1 ⟨⟨a, b⟩, c⟩⟩
  · rintro ⟨h1, h2, h3⟩
    exact ⟨fun ⟨⟨a, b⟩, c⟩ => h3 ⟨a, b, c⟩, h2, h1⟩

/-- **The raw headers of a response are parsed again to the same response** if and only if
behind the first space of the status line stands a number, or the text behind the line does
no harm. -/
theorem reparse_iff (input : List UInt8) :
    SameResponse (.new input) (.new (HttpResponseHeaders.new input).rawHeaders) ↔
      (MissingNumber (firstLine input) → 0 ∈ input → Harmless (firstLine input) (behind input)) := by
  by_cases hmiss : MissingNumber (firstLine input)
  · by_cases hmem : 0 ∈ input
    · rw [reparse_of_missing hmiss hmem]
      exact ⟨fun h _ _ => h, fun h => h hmiss hmem⟩
    · exact iff_of_true (reparse_of_line hmiss hmem) fun _ h => absurd h hmem
  · exact iff_of_true (reparse_of_number hmiss) fun h => absurd h hmiss

/-- A status line without a number swallows the header behind it. -/
theorem not_reparse_missing :
    ¬ SameResponse (.new (ascii "HTTP/1.1 x" ++ 0 :: (ascii "A: b" ++ [0, 0])))
      (.new (HttpResponseHeaders.new
        (ascii "HTTP/1.1 x" ++ 0 :: (ascii "A: b" ++ [0, 0]))).rawHeaders) := by
  intro h
  exact absurd (congrArg List.length h.headers) (by decide +kernel)

end Chromium.Net
