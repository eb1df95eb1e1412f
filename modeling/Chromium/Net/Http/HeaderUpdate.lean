import Chromium.Net.Http.HeaderPersistence

/-!
# Headers of a validated response

`net/http/http_response_headers.cc`: `HttpResponseHeaders::Update` takes the headers of a 304 or
206 response into the cached ones.  It writes the status line, the headers it takes and the
headers it keeps as raw headers, and these are parsed again.

`headerLines_update`: **the header lines are merged**, as `mergeLines` states it.
`update_spec` adds that the response code stays, and what becomes of the status line: it stays,
but a response of version 0.9 that has headers counts as one of version 1.0.  Where the raw
status line was not ended, and the text that is appended to it ends with a space, nothing is
said about it.
-/

namespace Chromium.Net

open Chromium.Base

def kNonUpdatedHeaders : List (List UInt8) :=
  [ascii "connection", ascii "proxy-connection", ascii "keep-alive", ascii "www-authenticate",
    ascii "proxy-authenticate", ascii "trailer", ascii "transfer-encoding", ascii "upgrade",
    ascii "content-location", ascii "content-md5", ascii "etag", ascii "content-encoding",
    ascii "content-range", ascii "content-type", ascii "content-length"]

def shouldUpdateHeader (name : List UInt8) : Bool :=
  !kNonUpdatedHeaders.any (stringToLowerASCII name = ·)

def HttpResponseHeaders.mergeWithHeaders (h : HttpResponseHeaders) (rawHeaders : List UInt8)
    (headersToRemove : List (List UInt8)) : HttpResponseHeaders :=
  .new (rawHeaders ++ (headerRuns h.parsed).flatMap (fun run =>
      if !headersToRemove.any (stringToLowerASCII (runName run) = ·) then
        persistedLine run ++ [0]
      else []) ++
    [0])

def HttpResponseHeaders.update (h newHeaders : HttpResponseHeaders) : HttpResponseHeaders :=
  let taken := (headerRuns newHeaders.parsed).filter fun run => shouldUpdateHeader (runName run)
  let newRawHeaders :=
    firstLine h.rawHeaders ++ [0] ++ taken.flatMap fun run => persistedLine run ++ [0]
  let updatedHeaders := taken.map fun run => stringToLowerASCII (runName run)
  h.mergeWithHeaders newRawHeaders updatedHeaders

/-! ### The header lines -/

/-- The lines of a merged response: those taken from the new lines, then the old ones whose
name was not taken. -/
def mergeLines (old new : List (List UInt8 × List (List UInt8))) :
    List (List UInt8 × List (List UInt8)) :=
  let taken := new.filter fun l => shouldUpdateHeader l.1
  taken ++ old.filter fun l => !taken.any fun t => stringToLowerASCII l.1 = stringToLowerASCII t.1

variable {cached newer line body code text : List UInt8} {v : HttpVersion}
  {runs : List (List ParsedHeader)}

def mergeRuns (old new : List (List ParsedHeader)) : List (List ParsedHeader) :=
  let taken := new.filter fun run => shouldUpdateHeader (runName run)
  taken ++ old.filter fun run =>
    !(taken.map fun run => stringToLowerASCII (runName run)).any (stringToLowerASCII (runName run) = ·)

theorem map_mergeRuns (old new : List (List ParsedHeader)) :
    (mergeRuns old new).map lineOfRun = mergeLines (old.map lineOfRun) (new.map lineOfRun) := by
  dsimp only [mergeRuns, mergeLines]
  rw [List.map_append, List.filter_map, List.filter_map]
  refine congrArg (_ ++ ·) (congrArg (List.map lineOfRun) (List.filter_congr fun run _ => ?_))
  rw [List.any_map, Function.comp_apply, List.any_map]
  rfl

/-- **What `Update` parses**: the status line, the runs that are merged, and an empty line. -/
theorem update_eq (h newHeaders : HttpResponseHeaders) :
    h.update newHeaders = .new (h.statusLine ++ [0] ++
      (mergeRuns (headerRuns h.parsed) (headerRuns newHeaders.parsed)).flatMap
        (fun run => persistedLine run ++ [0]) ++ [0]) := by
  dsimp only [HttpResponseHeaders.update, HttpResponseHeaders.mergeWithHeaders, mergeRuns]
  rw [flatMap_ite, List.flatMap_append, ← List.append_assoc (h.statusLine ++ [0])]
  rfl

theorem notMem_statusLine (h : HttpResponseHeaders) : 0 ∉ h.statusLine := notMem_firstLine _

theorem fromLine_of_mem_mergeRuns {run : List ParsedHeader}
    (hrun : run ∈ mergeRuns (headerRuns (HttpResponseHeaders.new cached).parsed)
      (headerRuns (HttpResponseHeaders.new newer).parsed)) : FromLine run := by
  rcases List.mem_append.1 hrun with hnew | hold
  · exact fromLine_of_mem_headerRuns (List.mem_of_mem_filter hnew)
  · exact fromLine_of_mem_headerRuns (List.mem_of_mem_filter hold)

theorem headerLines_update (cached newer : List UInt8) :
    ((HttpResponseHeaders.new cached).update (.new newer)).headerLines =
      mergeLines (HttpResponseHeaders.new cached).headerLines
        (HttpResponseHeaders.new newer).headerLines := by
  rw [update_eq, headerLines_lines (fun run hrun => fromLine_of_mem_mergeRuns hrun)
    (notMem_statusLine _), map_mergeRuns, ← headerLines_eq_headerRuns, ← headerLines_eq_headerRuns]

theorem hasHeaders_lines (hruns : ∀ run ∈ runs, FromLine run) :
    hasHeaders (runs.flatMap (fun run => persistedLine run ++ [0]) ++ [0]) = true ↔ runs ≠ [] := by
  cases runs with
  | nil => decide
  | cons run runs =>
    obtain ⟨hnull, h, hparse, -⟩ := (hruns run List.mem_cons_self).exists_parse
    obtain ⟨nm, rest, hline, -⟩ := parseHeaderLine_eq_some hparse
    obtain ⟨c, s, hcons⟩ : ∃ c s, persistedLine run = c :: s :=
      List.exists_cons_of_ne_nil (by simp [hline])
    have hc : c ≠ 0 := fun he => hnull (by simp [hcons, he])
    rw [hasHeaders, List.flatMap_cons, hcons]
    simpa using hc

/-! ### The status line -/

structure StatusParts (h : HttpResponseHeaders) (v : HttpVersion) (code text : List UInt8) :
    Prop where
  clamped : Clamped v
  code_ne_nil : code ≠ []
  digits : ∀ c ∈ code, isDigit c = true
  trim_ne_nil : trimEnd text ≠ []
  start : text.dropWhile (· = 32) = text
  null : 0 ∉ text
  statusLine : h.statusLine = normalLine v code text
  responseCode : h.responseCode = (stringToInt code).2
  httpVersion : h.httpVersion = v

/-- The status line was not ended, and the text that was appended to it ends with a space. -/
def SpaceAppended (input : List UInt8) : Prop :=
  MissingNumber (firstLine input) ∧ ¬ ∀ h, (firstLine (behind input)).getLast h ≠ 32

theorem firstLine_append_of_notMem (h : 0 ∉ line) (rest : List UInt8) :
    firstLine (line ++ rest) = line ++ firstLine rest :=
  List.takeWhile_append_of_pos fun _ hc => decide_eq_true fun he => h (he ▸ hc)

/-- **The status line of every response has its parts.**  It is trimmed, unless a space was
appended to it. -/
theorem exists_statusParts (input : List UInt8) : ∃ v code text, StatusParts (.new input) v code text ∧
      (¬ SpaceAppended input → trimEnd text = text) := by
  obtain ⟨-, hcode, hversion, hraw⟩ := new_spec input
  have hv := clamped_clampVersion (parseVersion (firstLine input)) (hasHeaders (behind input))
  by_cases hmiss : MissingNumber (firstLine input)
  · -- the first line behind it is appended
    rw [parseStatusLine_of_missing hmiss] at hcode hversion hraw
    have hfirst : firstLine (if 0 ∈ input then behind input else [0]) = firstLine (behind input) := by
      split_ifs with hmem
      · rfl
      · rw [(firstLine_of_notMem hmem).2]
        rfl
    have hnumber : (stringToInt (ascii "200")).2 = 200 := by decide +kernel
    refine ⟨_, ascii "200", ascii "OK" ++ firstLine (behind input),
      ⟨hv, by decide, by simp [ascii, isDigit], ?_, rfl, ?_, ?_, hcode.trans hnumber.symm, hversion⟩, ?_⟩
    · intro h
      have hall := List.rdropWhile_eq_nil_iff.1 h 79
        (List.mem_append_left _ (show (79 : UInt8) ∈ ascii "OK" by decide))
      cases hall
    · rw [List.mem_append, not_or]
      exact ⟨by decide, notMem_firstLine _⟩
    · unfold HttpResponseHeaders.statusLine
      rw [hraw, firstLine_append_of_notMem (notMem_normalLine hv (by decide) (by decide)), hfirst, normalLine_append]
    · intro hspace
      exact trimEnd_ok_iff.2 (not_not.1 fun h => hspace ⟨hmiss, h⟩)
  · obtain ⟨code, text, hne, hdigits, htext, hstart, htrim, hnull, hstatus⟩ :=
      parseStatusLine_of_number hmiss (notMem_firstLine input) (hasHeaders (behind input))
    rw [hstatus] at hcode hversion hraw
    have hzero : 0 ∉ code := fun hmem => absurd (hdigits 0 hmem) (by decide)
    refine ⟨_, code, text, ⟨hv, hne, hdigits, by rwa [htrim], hstart, hnull, ?_, hcode, hversion⟩, fun _ => htrim⟩
    unfold HttpResponseHeaders.statusLine
    rw [hraw, List.append_assoc]
    exact (firstLine_append (notMem_normalLine hv hzero hnull) _).1

/-- **What is parsed behind the same status line** has its code and its text, and the version
that the response now counts as. -/
theorem StatusParts.reparse {h : HttpResponseHeaders} (hp : StatusParts h v code text)
    (body : List UInt8) :
    let h' := HttpResponseHeaders.new (h.statusLine ++ 0 :: body)
    h'.responseCode = h.responseCode ∧
      h'.statusLine = normalLine (clampVersion v (hasHeaders body)) code (trimEnd text) := by
  have hzero : 0 ∉ code := fun hmem => nomatch hp.digits 0 hmem
  obtain ⟨hline, hbehind⟩ := firstLine_append (notMem_statusLine h) body
  obtain ⟨-, hcode, -, hraw⟩ := new_spec (h.statusLine ++ 0 :: body)
  have hstatus : parseStatusLine (normalLine v code text) (hasHeaders body) = _ :=
    parseStatusLine_normalLine hp.clamped hp.code_ne_nil hp.digits hp.trim_ne_nil hp.start
  rw [← hp.statusLine] at hstatus
  rw [hline, hbehind, hstatus] at hcode hraw
  have hpre := List.rdropWhile_prefix (· = 32) text
  have hnull : 0 ∉ trimEnd text := fun hmem => hp.null (hpre.subset hmem)
  refine ⟨hcode.trans hp.responseCode.symm, ?_⟩
  show firstLine (HttpResponseHeaders.new (h.statusLine ++ 0 :: body)).rawHeaders = _
  rw [hraw, List.append_assoc]
  exact (firstLine_append (notMem_normalLine (clamped_clampVersion _ _) hzero hnull) _).1

/-- **Only the version of a response without headers changes**, when there are headers. -/
theorem normalLine_clampVersion (hv : Clamped v) (hh : Bool) (code text : List UInt8) :
    normalLine (clampVersion v hh) code text =
      if v = .of 0 9 ∧ hh = true then versionText (.of 1 0) ++ (normalLine v code text).drop 8
      else normalLine v code text := by
  split_ifs with h
  · obtain ⟨rfl, rfl⟩ := h
    rfl
  · rw [(clampVersion_eq_iff hv hh).2 h]

/-- **What `Update` leaves**: the header lines are merged, the response code is the old one,
and so is the status line, but for the version of a response of version 0.9 that has headers
now. -/
theorem update_spec (cached newer : List UInt8) :
    ((HttpResponseHeaders.new cached).update (.new newer)).headerLines =
        mergeLines (HttpResponseHeaders.new cached).headerLines
          (HttpResponseHeaders.new newer).headerLines ∧
      ((HttpResponseHeaders.new cached).update (.new newer)).responseCode =
        (HttpResponseHeaders.new cached).responseCode ∧
      (¬ SpaceAppended cached → ((HttpResponseHeaders.new cached).update (.new newer)).statusLine =
          if (HttpResponseHeaders.new cached).httpVersion = .of 0 9 ∧
              ((HttpResponseHeaders.new cached).update (.new newer)).headerLines ≠ [] then
            versionText (.of 1 0) ++ (HttpResponseHeaders.new cached).statusLine.drop 8
          else (HttpResponseHeaders.new cached).statusLine) := by
  obtain ⟨v, code, text, hp, htrim⟩ := exists_statusParts cached
  have hlines := headerLines_update cached newer
  have hempty : hasHeaders ((mergeRuns (headerRuns (HttpResponseHeaders.new cached).parsed)
      (headerRuns (HttpResponseHeaders.new newer).parsed)).flatMap
        (fun run => persistedLine run ++ [0]) ++ [0]) = true ↔
      ((HttpResponseHeaders.new cached).update (.new newer)).headerLines ≠ [] := by
    rw [hasHeaders_lines fun run hrun => fromLine_of_mem_mergeRuns hrun, hlines,
      headerLines_eq_headerRuns, headerLines_eq_headerRuns, ← map_mergeRuns, Ne, Ne,
      List.map_eq_nil_iff]
  refine ⟨hlines, ?_⟩
  have hreparse := hp.reparse ((mergeRuns (headerRuns (HttpResponseHeaders.new cached).parsed)
      (headerRuns (HttpResponseHeaders.new newer).parsed)).flatMap
        (fun run => persistedLine run ++ [0]) ++ [0])
  dsimp only at hreparse
  rw [← List.singleton_append, ← List.append_assoc, ← List.append_assoc, ← update_eq] at hreparse
  refine ⟨hreparse.1, fun hspace => ?_⟩
  rw [hreparse.2, htrim hspace, normalLine_clampVersion hp.clamped, hp.httpVersion, hp.statusLine]
  simp only [hempty]

def cachedResponse : List UInt8 :=
  ascii "HTTP/1.1 200 OK" ++ 0 :: (ascii "Vary: a, b" ++ 0 :: (ascii "Age: 1" ++ [0, 0]))

def notModifiedResponse : List UInt8 :=
  ascii "HTTP/1.1 304 Not Modified" ++ 0 :: (ascii "ETag: c" ++ 0 :: (ascii "AGE: 2" ++ [0, 0]))

theorem update_spec_cachedResponse :
    ((HttpResponseHeaders.new cachedResponse).update (.new notModifiedResponse)).headerLines =
        mergeLines (HttpResponseHeaders.new cachedResponse).headerLines
          (HttpResponseHeaders.new notModifiedResponse).headerLines ∧
      ((HttpResponseHeaders.new cachedResponse).update (.new notModifiedResponse)).statusLine =
        (HttpResponseHeaders.new cachedResponse).statusLine := by
  obtain ⟨hlines, -, hstatus⟩ := update_spec cachedResponse notModifiedResponse
  refine ⟨hlines, ?_⟩
  rw [hstatus fun h => absurd h.1 (by decide +kernel), if_neg]
  exact fun h => absurd h.1 (by decide +kernel)

/-- A response of version 0.9 that has headers now counts as one of version 1.0. -/
theorem update_oldVersion : (HttpResponseHeaders.new notModifiedResponse).responseCode = 304 ∧
      (HttpResponseHeaders.new (ascii "HTTP/0.9 200 OK" ++ [0, 0])).statusLine = ascii "HTTP/0.9 200 OK" ∧
      ((HttpResponseHeaders.new (ascii "HTTP/0.9 200 OK" ++ [0, 0])).update
        (.new notModifiedResponse)).statusLine = ascii "HTTP/1.0 200 OK" := by
  decide +kernel

end Chromium.Net
