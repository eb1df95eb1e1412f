import Chromium.Lib.Runs
import Chromium.Net.Http.HttpResponseHeaders

/-!
# Headers in the cache

`net/http/http_response_headers.cc`: what `HttpResponseHeaders::Persist` writes, with the
headers left out that the options select, and the headers that are restored from it.

`headerLines_restore`: **the restored header lines are those whose name was not selected**, in
their order and with their values.
-/

namespace Chromium.Net

open Chromium.Base
open List (append_assoc append_nil cons_append flatMap_cons flatten_cons length_append
  mem_cons_of_mem mem_cons_self mem_flatMap mem_map take_left take_length)

abbrev PersistOptions := BitVec 32

/-- `PERSIST_RAW`. -/
def kPersistRaw : PersistOptions := -1

/-- `PERSIST_ALL`. -/
def kPersistAll : PersistOptions := 0

/-- `PERSIST_SANS_COOKIES`. -/
def kPersistSansCookies : PersistOptions := 1 <<< 0

/-- `PERSIST_SANS_CHALLENGES`. -/
def kPersistSansChallenges : PersistOptions := 1 <<< 1

/-- `PERSIST_SANS_HOP_BY_HOP`. -/
def kPersistSansHopByHop : PersistOptions := 1 <<< 2

/-- `PERSIST_SANS_NON_CACHEABLE`. -/
def kPersistSansNonCacheable : PersistOptions := 1 <<< 3

/-- `PERSIST_SANS_RANGES`. -/
def kPersistSansRanges : PersistOptions := 1 <<< 4

def PersistOptions.Selects (options flag : PersistOptions) : Prop := options &&& flag = flag

instance (options flag : PersistOptions) : Decidable (options.Selects flag) :=
  inferInstanceAs (Decidable (_ = _))

def kHopByHopResponseHeaders : List (List UInt8) :=
  [ascii "connection", ascii "proxy-connection", ascii "keep-alive", ascii "trailer",
    ascii "transfer-encoding", ascii "upgrade"]

def kChallengeResponseHeaders : List (List UInt8) :=
  [ascii "www-authenticate", ascii "proxy-authenticate"]

def kCookieResponseHeaders : List (List UInt8) := [ascii "set-cookie", ascii "set-cookie2"]

/-! ### Enumerating a header -/

def findHeader (parsed : List ParsedHeader) (start : ℕ) (search : List UInt8) : Option ℕ :=
  ((parsed.drop start).findIdx? fun p =>
    !p.isContinuation && (stringToLowerASCII p.name = stringToLowerASCII search)).map (start + ·)

/-- `HttpResponseHeaders::EnumerateHeader`; the iterator begins as 0. -/
def enumerateHeader (parsed : List ParsedHeader) (iter : ℕ) (name : List UInt8) :
    Option (ℕ × List UInt8) :=
  let i :=
    if iter = 0 then findHeader parsed 0 name
    else
      match parsed[iter]? with
      | none => none
      | some p => if p.isContinuation then some iter else findHeader parsed iter name
  i.bind fun i => parsed[i]?.map fun p => (i + 1, p.value)

theorem findHeader_lt {parsed : List ParsedHeader} {start i : ℕ} {search : List UInt8}
    (h : findHeader parsed start search = some i) : start ≤ i ∧ i < parsed.length := by
  obtain ⟨k, hk, rfl⟩ := Option.map_eq_some_iff.1 h
  have hlt := (List.findIdx?_eq_some_iff_findIdx_eq.1 hk).1
  rw [List.length_drop] at hlt
  omega

theorem enumerateHeader_lt {parsed : List ParsedHeader} {iter iter' : ℕ} {name value : List UInt8}
    (h : enumerateHeader parsed iter name = some (iter', value)) :
    iter < iter' ∧ iter' ≤ parsed.length := by
  unfold enumerateHeader at h
  obtain ⟨i, hi, h⟩ := Option.bind_eq_some_iff.1 h
  obtain ⟨p, hp, h⟩ := Option.map_eq_some_iff.1 h
  obtain ⟨rfl, -⟩ := Prod.mk.inj h
  have hlt := (List.getElem?_eq_some_iff.1 hp).1
  refine ⟨Nat.lt_succ_of_le ?_, hlt⟩
  split at hi
  · next h0 => omega
  · split at hi
    · cases hi
    · split at hi
      · exact (Option.some.inj hi).le
      · exact (findHeader_lt hi).1

/-- The values that the loop over `EnumerateHeader` gives. -/
def enumerateFrom (parsed : List ParsedHeader) (name : List UInt8) (iter : ℕ) : List (List UInt8) :=
  match _h : enumerateHeader parsed iter name with
  | none => []
  | some (iter', value) => value :: enumerateFrom parsed name iter'
termination_by parsed.length - iter
decreasing_by
  have := enumerateHeader_lt _h
  omega

/-! ### The names that are not cacheable -/

/-- The characters of `HTTP_LWS`. -/
def isHTTPLWS (c : UInt8) : Bool := c = 32 || c = 9

/-- `TrimString` with `HTTP_LWS`. -/
def trimString (s : List UInt8) : List UInt8 := (s.dropWhile isHTTPLWS).rdropWhile isHTTPLWS

/-- The loop over the names in `AddNonCacheableHeaders`, on the value from `begin_pos`. -/
def addNames (value : List UInt8) : List (List UInt8) :=
  let item := value.takeWhile (· ≠ 44)
  let name := item.rdropWhile isLWS
  let result := if name = [] then [] else [stringToLowerASCII name]
  let next := (value.drop (item.length + 1)).dropWhile isLWS
  if _h : next = [] then result else result ++ addNames next
termination_by value.length
decreasing_by
  have hle := (List.dropWhile_sublist (l := value.drop (item.length + 1)) isLWS).length_le
  have hpos : 0 < next.length := List.length_pos_iff.2 _h
  rw [List.length_drop] at hle
  show next.length < value.length
  change next.length ≤ _ at hle
  omega

def kPrefix : List UInt8 := ascii "no-cache=\""

/-- The names that `AddNonCacheableHeaders` takes from a value. -/
def namesOfValue (value : List UInt8) : List (List UInt8) :=
  if kPrefix.length < value.length ∧ value.take kPrefix.length = kPrefix then
    if value.getD (value.length - 1) 0 ≠ 34 then []
    else
      let len := value.length - kPrefix.length - 1
      addNames (trimString ((value.drop kPrefix.length).take len))
  else []

/-- `HttpResponseHeaders::AddNonCacheableHeaders`: the names that are inserted. -/
def addNonCacheableHeaders (parsed : List ParsedHeader) : List (List UInt8) :=
  (enumerateFrom parsed (ascii "cache-control") 0).flatMap namesOfValue

/-- The names of the headers that `Persist` leaves out. -/
def filterHeaders (parsed : List ParsedHeader) (options : PersistOptions) : List (List UInt8) :=
  (if options.Selects kPersistSansNonCacheable then addNonCacheableHeaders parsed else []) ++
    (if options.Selects kPersistSansCookies then kCookieResponseHeaders else []) ++
    (if options.Selects kPersistSansChallenges then kChallengeResponseHeaders else []) ++
    (if options.Selects kPersistSansHopByHop then kHopByHopResponseHeaders else []) ++
    (if options.Selects kPersistSansRanges then [ascii "content-range"] else [])

/-! ### Persisting -/

def headerRuns (parsed : List ParsedHeader) : List (List ParsedHeader) :=
  parsed.splitBy fun _ p => p.isContinuation

/-- What `Persist` writes of a header and its continuations. -/
def persistedLine (run : List ParsedHeader) : List UInt8 :=
  match run.head?, run.getLast? with
  | some p, some q => p.line.take q.valueEnd
  | _, _ => []

def runName (run : List ParsedHeader) : List UInt8 := (run.head?.map (·.name)).getD []

def HttpResponseHeaders.persist (h : HttpResponseHeaders) (options : PersistOptions) : List UInt8 :=
  if options = kPersistRaw then h.rawHeaders
  else
    let filter := filterHeaders h.parsed options
    firstLine h.rawHeaders ++ [0] ++ (headerRuns h.parsed).flatMap (fun run =>
        if stringToLowerASCII (runName run) ∈ filter then [] else persistedLine run ++ [0]) ++
      [0]

/-- `HttpResponseHeaders(pickle)`, on what `Persist` wrote. -/
def HttpResponseHeaders.restore (h : HttpResponseHeaders) (options : PersistOptions) :
    HttpResponseHeaders := .new (h.persist options)

/-! ### The header lines -/

def HttpResponseHeaders.headerLines (h : HttpResponseHeaders) :
    List (List UInt8 × List (List UInt8)) :=
  ((h.parsed.map fun p => (p.name, p.value)).splitBy fun _ q => q.1 = []).map fun run =>
    ((run.head?.map Prod.fst).getD [], run.map Prod.snd)

/-- A name is listed in `no-cache="..."` of a header `Cache-Control`. -/
def ListedNonCacheable (lines : List (List UInt8 × List (List UInt8))) (name : List UInt8) : Prop :=
  ∃ l ∈ lines, stringToLowerASCII l.1 = ascii "cache-control" ∧
    ∃ inner, kPrefix ++ (inner ++ [34]) ∈ l.2 ∧
      ∃ item ∈ inner.splitOn 44, trimLWS item ≠ [] ∧ stringToLowerASCII (trimLWS item) = name

def Selected (lines : List (List UInt8 × List (List UInt8))) (options : PersistOptions)
    (name : List UInt8) : Prop :=
  options ≠ kPersistRaw ∧
    ((options.Selects kPersistSansNonCacheable ∧ ListedNonCacheable lines name) ∨
      (options.Selects kPersistSansCookies ∧ name ∈ kCookieResponseHeaders) ∨
      (options.Selects kPersistSansChallenges ∧ name ∈ kChallengeResponseHeaders) ∨
      (options.Selects kPersistSansHopByHop ∧ name ∈ kHopByHopResponseHeaders) ∨
      (options.Selects kPersistSansRanges ∧ name = ascii "content-range"))

/-! ### The names in a value -/

variable {s item rest lead trail value name : List UInt8} {c : UInt8}

def itemName (item : List UInt8) : List (List UInt8) :=
  if trimLWS item = [] then [] else [stringToLowerASCII (trimLWS item)]

def itemNames (s : List UInt8) : List (List UInt8) := (s.splitOn 44).flatMap itemName

theorem mem_itemNames : name ∈ itemNames s ↔
    ∃ item ∈ s.splitOn 44, trimLWS item ≠ [] ∧ stringToLowerASCII (trimLWS item) = name := by
  unfold itemNames itemName
  rw [mem_flatMap]
  refine exists_congr fun item => and_congr_right fun _ => ?_
  split_ifs with h
  · simp [h]
  · simp [h, eq_comm]

theorem itemNames_of_notMem (h : 44 ∉ s) : itemNames s = itemName s := by
  rw [itemNames, List.splitOn_eq_singleton h, List.flatMap_singleton]

theorem itemNames_append (h : 44 ∉ item) :
    itemNames (item ++ 44 :: rest) = itemName item ++ itemNames rest := by
  unfold itemNames
  rw [List.splitOn_append_cons_self_of_not_mem h, flatMap_cons]

theorem trimLWS_cons (hc : isLWS c = true) : trimLWS (c :: s) = trimLWS s := by
  unfold trimLWS
  rw [List.dropWhile_cons_of_pos hc]

theorem trimLWS_concat (hc : isLWS c = true) : trimLWS (s ++ [c]) = trimLWS s := by
  unfold trimLWS
  rw [List.dropWhile_append]
  by_cases hnil : s.dropWhile isLWS = []
  · rw [hnil]
    simp [hc]
  · rw [if_neg (by simpa [List.isEmpty_iff] using hnil), List.rdropWhile_concat_pos _ _ _ hc]

theorem ne_comma_of_isLWS (hc : isLWS c = true) : c ≠ 44 := by
  rintro rfl
  cases hc

theorem itemNames_cons (hc : isLWS c = true) : itemNames (c :: s) = itemNames s := by
  have hname (t : List UInt8) : itemName (c :: t) = itemName t := by
    unfold itemName
    rw [trimLWS_cons hc]
  by_cases hs : 44 ∈ s
  · obtain ⟨item, rest, rfl, hitem⟩ := List.eq_append_cons_of_mem hs
    have hcons : 44 ∉ c :: item := by simp [hitem, (ne_comma_of_isLWS hc).symm]
    rw [← cons_append, itemNames_append hcons, itemNames_append hitem, hname]
  · have hcons : 44 ∉ c :: s := by simp [hs, (ne_comma_of_isLWS hc).symm]
    rw [itemNames_of_notMem hcons, itemNames_of_notMem hs, hname]

theorem itemNames_concat (hc : isLWS c = true) : itemNames (s ++ [c]) = itemNames s := by
  induction hlen : s.length using Nat.strong_induction_on generalizing s with
  | _ n ih =>
    by_cases hs : 44 ∈ s
    · obtain ⟨item, rest, rfl, hitem⟩ := List.eq_append_cons_of_mem hs
      have hlt : rest.length < n := by
        rw [← hlen, length_append, List.length_cons]
        omega
      rw [append_assoc, cons_append, itemNames_append hitem, itemNames_append hitem, ih _ hlt rfl]
    · have hconcat : 44 ∉ s ++ [c] := by simp [hs, (ne_comma_of_isLWS hc).symm]
      rw [itemNames_of_notMem hconcat, itemNames_of_notMem hs]
      unfold itemName
      rw [trimLWS_concat hc]

theorem itemNames_lead (h : ∀ c ∈ lead, isLWS c = true) : itemNames (lead ++ s) = itemNames s := by
  induction lead with
  | nil => rfl
  | cons c lead ih =>
    rw [cons_append, itemNames_cons (h c mem_cons_self)]
    exact ih fun b hb => h b (mem_cons_of_mem _ hb)

theorem itemNames_trail (h : ∀ c ∈ trail, isLWS c = true) : itemNames (s ++ trail) = itemNames s := by
  induction trail using List.reverseRecOn with
  | nil => rw [append_nil]
  | append_singleton trail c ih =>
    rw [← append_assoc, itemNames_concat (h c (by simp))]
    exact ih fun b hb => h b (List.mem_append_left _ hb)

theorem itemNames_trimLWS (s : List UInt8) : itemNames (trimLWS s) = itemNames s := by
  rcases trimLWS_cases s with ⟨hnil, htake⟩ | ⟨lead, trail, hs, -, hlead, htrail, -⟩
  · have hall : ∀ c ∈ s, isLWS c = true := List.takeWhile_eq_self_iff.1 htake
    rw [hnil, ← itemNames_lead hall, append_nil]
  · conv_rhs => rw [hs]
    rw [itemNames_lead hlead, itemNames_trail htrail]

theorem itemName_of_head (h : ∀ hne, isLWS (item.head hne) = false) : itemName item =
      if item.rdropWhile isLWS = [] then [] else [stringToLowerASCII (item.rdropWhile isLWS)] := by
  have hstart : item.dropWhile isLWS = item := by
    cases item with
    | nil => rfl
    | cons c item => exact List.dropWhile_cons_of_neg (by simpa using h (List.cons_ne_nil c item))
  unfold itemName trimLWS
  rw [hstart]

/-- **The loop of `AddNonCacheableHeaders` finds the names of a list** that does not begin
with white space. -/
theorem addNames_eq (value : List UInt8) (h : ∀ hne, isLWS (value.head hne) = false) :
    addNames value = itemNames value := by
  induction hlen : value.length using Nat.strong_induction_on generalizing value with
  | _ n ih =>
    by_cases hcomma : 44 ∈ value
    · obtain ⟨item, rest, rfl, hitem⟩ := List.eq_append_cons_of_mem hcomma
      have hpos : ∀ c ∈ item, decide (c ≠ 44) = true :=
        fun c hc => decide_eq_true fun he => hitem (he ▸ hc)
      have htake : (item ++ 44 :: rest).takeWhile (· ≠ 44) = item := by
        rw [List.takeWhile_append_of_pos hpos, List.takeWhile_cons_of_neg (by decide), append_nil]
      have hdrop : (item ++ 44 :: rest).drop (item.length + 1) = rest := by
        rw [← List.drop_drop, List.drop_left]
        rfl
      have hhead : ∀ hne, isLWS (item.head hne) = false := by
        intro hne
        rw [← List.head_append_of_ne_nil hne]
        exact h (by simp)
      have hnext : itemNames (rest.dropWhile isLWS) = itemNames rest := by
        conv_rhs => rw [← List.takeWhile_append_dropWhile (p := isLWS) (l := rest)]
        exact (itemNames_lead fun c hc => List.mem_takeWhile_imp hc).symm
      rw [addNames, htake, hdrop, ← itemName_of_head hhead, itemNames_append hitem, ← hnext]
      split_ifs with hnil
      · rw [hnil, itemNames_of_notMem (by simp)]
        simp [itemName, trimLWS]
      · have hlt : (rest.dropWhile isLWS).length < n := by
          have hle := (List.dropWhile_sublist (l := rest) isLWS).length_le
          rw [← hlen, length_append, List.length_cons]
          omega
        rw [ih _ hlt _ (fun hne => List.head_dropWhile_not isLWS hne) rfl]
    · have htake : value.takeWhile (· ≠ 44) = value :=
        List.takeWhile_eq_self_iff.2 fun c hc => decide_eq_true fun he => hcomma (he ▸ hc)
      rw [addNames, htake, List.drop_eq_nil_of_le (Nat.le_succ _), dif_pos (by rfl),
        ← itemName_of_head h, itemNames_of_notMem hcomma]

theorem dropWhile_congr {p q : UInt8 → Bool} (h : ∀ c ∈ s, p c = q c) :
    s.dropWhile p = s.dropWhile q := by
  induction s with
  | nil => rfl
  | cons c s ih =>
    rw [List.dropWhile_cons, List.dropWhile_cons, h c mem_cons_self,
      ih fun b hb => h b (mem_cons_of_mem _ hb)]

theorem trimString_eq (h : 0 ∉ s) : trimString s = trimLWS s := by
  have hsame : ∀ c ∈ s, isHTTPLWS c = isLWS c := by
    intro c hc
    have hne : c ≠ 0 := fun he => h (he ▸ hc)
    simp [isHTTPLWS, isLWS, hne]
  unfold trimString trimLWS List.rdropWhile
  rw [dropWhile_congr hsame]
  refine congrArg List.reverse (dropWhile_congr fun c hc => hsame c ?_)
  exact (List.dropWhile_sublist _).subset (List.mem_reverse.1 hc)

theorem namesOfValue_append (inner : List UInt8) (c : UInt8) : namesOfValue (kPrefix ++ (inner ++ [c])) =
      if c ≠ 34 then [] else addNames (trimString inner) := by
  have hlen : (kPrefix ++ (inner ++ [c])).length = kPrefix.length + inner.length + 1 := by
    simp [Nat.add_assoc]
  have hlast : (kPrefix ++ (inner ++ [c])).getD (kPrefix.length + inner.length + 1 - 1) 0 = c := by
    rw [← append_assoc, Nat.add_sub_cancel, ← length_append]
    simp
  have hinner : ((kPrefix ++ (inner ++ [c])).drop kPrefix.length).take
      (kPrefix.length + inner.length + 1 - kPrefix.length - 1) = inner := by
    rw [List.drop_left, show kPrefix.length + inner.length + 1 - kPrefix.length - 1 = inner.length
      by omega, take_left]
  dsimp only [namesOfValue]
  rw [hlen, hlast, hinner, take_left, if_pos ⟨by omega, rfl⟩]

/-- A value without `no-cache="` at its beginning, or without anything behind it, has no names. -/
theorem eq_append_of_mem_namesOfValue (h : name ∈ namesOfValue value) :
    ∃ inner c, value = kPrefix ++ (inner ++ [c]) := by
  unfold namesOfValue at h
  by_cases hstart : kPrefix.length < value.length ∧ value.take kPrefix.length = kPrefix
  · obtain ⟨hlen, htake⟩ := hstart
    have hsplit := List.take_append_drop kPrefix.length value
    rw [htake] at hsplit
    rcases List.eq_nil_or_concat' (value.drop kPrefix.length) with hnil | ⟨inner, c, hback⟩
    · have hle := List.drop_eq_nil_iff.1 hnil
      omega
    · exact ⟨inner, c, by rw [← hback, hsplit]⟩
  · rw [if_neg hstart] at h
    cases h

/-- **The names that are taken from a value** are those listed between `no-cache="` and the
quote at its end. -/
theorem mem_namesOfValue (h : 0 ∉ value) : name ∈ namesOfValue value ↔
    ∃ inner, value = kPrefix ++ (inner ++ [34]) ∧ name ∈ itemNames inner := by
  have hnames (inner : List UInt8) (c : UInt8) (hv : value = kPrefix ++ (inner ++ [c])) :
      addNames (trimString inner) = itemNames inner := by
    have hinner : 0 ∉ inner := fun hm => h (by simp [hv, hm])
    rw [trimString_eq hinner, addNames_eq, itemNames_trimLWS]
    exact fun hne => (trimmed_trimLWS hne).head hne
  constructor
  · intro hmem
    obtain ⟨inner, c, hv⟩ := eq_append_of_mem_namesOfValue hmem
    rw [hv, namesOfValue_append, hnames inner c hv] at hmem
    by_cases hc : c ≠ 34
    · rw [if_pos hc] at hmem
      cases hmem
    · rw [if_neg hc] at hmem
      obtain rfl : c = 34 := not_not.1 hc
      exact ⟨inner, hv, hmem⟩
  · rintro ⟨inner, hv, hmem⟩
    rw [hv, namesOfValue_append, if_neg (by simp), hnames inner 34 hv]
    exact hmem

/-! ### What is enumerated -/

variable {parsed : List ParsedHeader} {p : ParsedHeader} {run : List ParsedHeader}
  {runs : List (List ParsedHeader)} {i : ℕ}

/-- The values of the headers with a name; `b` tells that the header before has the name. -/
def valuesOf (name : List UInt8) (b : Bool) : List ParsedHeader → List (List UInt8)
  | [] => []
  | p :: parsed =>
    if p.isContinuation then (if b then [p.value] else []) ++ valuesOf name b parsed
    else if stringToLowerASCII p.name = stringToLowerASCII name then
      p.value :: valuesOf name true parsed
    else valuesOf name false parsed

theorem valuesOf_cons_of_not (hp : p.isContinuation = false) (b : Bool) :
    valuesOf name b (p :: parsed) = valuesOf name false (p :: parsed) := by
  simp [valuesOf, hp]

theorem valuesOf_of_findIdx : valuesOf name false parsed = match parsed.findIdx? fun p =>
        !p.isContinuation && (stringToLowerASCII p.name = stringToLowerASCII name) with
      | none => []
      | some k => (parsed[k]?.map (·.value)).toList ++ valuesOf name true (parsed.drop (k + 1)) := by
  induction parsed with
  | nil => rfl
  | cons p parsed ih =>
    rw [List.findIdx?_cons, valuesOf]
    cases hp : p.isContinuation with
    | true =>
      rw [ih]
      cases parsed.findIdx? _ <;> simp
    | false =>
      by_cases hname : stringToLowerASCII p.name = stringToLowerASCII name
      · simp [hname]
      · rw [ih]
        cases parsed.findIdx? _ <;> simp [hname]

theorem valuesOf_drop (i : ℕ) : valuesOf name false (parsed.drop i) = match findHeader parsed i name with
      | none => []
      | some k => (parsed[k]?.map (·.value)).toList ++ valuesOf name true (parsed.drop (k + 1)) := by
  rw [valuesOf_of_findIdx]
  unfold findHeader
  cases (parsed.drop i).findIdx? _ with
  | none => rfl
  | some k =>
    simp only [Option.map_some, List.getElem?_drop, List.drop_drop]
    rfl

theorem valuesOf_enumerateHeader (iter : ℕ) : valuesOf name (iter != 0) (parsed.drop iter) =
      match enumerateHeader parsed iter name with
      | none => []
      | some (iter', value) => value :: valuesOf name true (parsed.drop iter') := by
  -- what is enumerated behind a header that `FindHeader` found
  have hfound (i : ℕ) : valuesOf name false (parsed.drop i) =
      match (findHeader parsed i name).bind fun k => parsed[k]?.map fun p => (k + 1, p.value) with
      | none => []
      | some (iter', value) => value :: valuesOf name true (parsed.drop iter') := by
    rw [valuesOf_drop]
    cases hk : findHeader parsed i name with
    | none => rfl
    | some k =>
      have hlt := (findHeader_lt hk).2
      simp only [Option.bind_some, List.getElem?_eq_getElem hlt, Option.map_some,
        Option.toList_some, List.singleton_append]
  unfold enumerateHeader
  by_cases h0 : iter = 0
  · subst h0
    exact hfound 0
  · have hb : (iter != 0) = true := by simpa using h0
    rw [hb]
    dsimp only
    rw [if_neg h0]
    cases hp : parsed[iter]? with
    | none =>
      rw [List.drop_eq_nil_of_le (List.getElem?_eq_none_iff.1 hp)]
      rfl
    | some p =>
      obtain ⟨hlt, hget⟩ := List.getElem?_eq_some_iff.1 hp
      have hdrop : parsed.drop iter = p :: parsed.drop (iter + 1) := by
        rw [List.drop_eq_getElem_cons hlt, hget]
      dsimp only
      cases hcont : p.isContinuation with
      | true =>
        rw [if_pos rfl, Option.bind_some, hp, hdrop, valuesOf, if_pos hcont]
        rfl
      | false =>
        rw [if_neg (by simp), hdrop, valuesOf_cons_of_not hcont, ← hdrop]
        exact hfound iter

/-- **What the loop over `EnumerateHeader` gives** from a position on. -/
theorem enumerateFrom_eq (iter : ℕ) :
    enumerateFrom parsed name iter = valuesOf name (iter != 0) (parsed.drop iter) := by
  induction iter using enumerateFrom.induct parsed name with
  | case1 iter h => rw [enumerateFrom, valuesOf_enumerateHeader, h]
  | case2 iter iter' value h ih =>
    have hne : iter' ≠ 0 := by
      have := enumerateHeader_lt h
      omega
    have hb : (iter' != 0) = true := by simpa using hne
    rw [hb] at ih
    rw [enumerateFrom, valuesOf_enumerateHeader, h]
    exact congrArg (value :: ·) ih

theorem valuesOf_append (h : ∀ p ∈ run, p.isContinuation = true) (b : Bool) :
    valuesOf name b (run ++ parsed) =
      (if b then run.map (·.value) else []) ++ valuesOf name b parsed := by
  induction run with
  | nil => simp
  | cons p run ih =>
    rw [cons_append, valuesOf, if_pos (h p mem_cons_self), ih fun q hq => h q (mem_cons_of_mem _ hq)]
    cases b <;> simp

theorem valuesOf_flatten (h : ∀ run ∈ runs, Lib.IsRun ParsedHeader.isContinuation run)
    (b : Bool) :
    valuesOf name b runs.flatten = runs.flatMap fun run =>
      if stringToLowerASCII (runName run) = stringToLowerASCII name then run.map (·.value)
      else [] := by
  induction runs generalizing b with
  | nil => rfl
  | cons run runs ih =>
    have hruns := ih fun r hr => h r (mem_cons_of_mem _ hr)
    cases run with
    | nil =>
      rw [flatten_cons, List.nil_append, hruns, flatMap_cons]
      simp
    | cons p run =>
      obtain ⟨hp, hrun⟩ := h _ mem_cons_self p run rfl
      have hname : runName (p :: run) = p.name := rfl
      rw [flatten_cons, cons_append, valuesOf, hp, flatMap_cons, hname]
      simp only [Bool.false_eq_true, if_false]
      rw [valuesOf_append hrun, valuesOf_append hrun, hruns, hruns]
      by_cases hn : stringToLowerASCII p.name = stringToLowerASCII name <;> simp [hn]

/-! ### The runs of the parsed headers -/

variable {line text : List UInt8} {h : HeaderLine} {options : PersistOptions}

theorem exists_of_mem_headersIterator (hmem : h ∈ headersIterator text) :
    ∃ line, 0 ∉ line ∧ parseHeaderLine line = some h := by
  obtain ⟨line, htoken, hp⟩ := List.mem_filterMap.1 hmem
  refine ⟨line, fun h0 => ?_, hp⟩
  simpa using delims_of_mem_quickTokens htoken 0 h0

theorem name_ne_nil (hp : parseHeaderLine line = some h) : h.name ≠ [] := by
  obtain ⟨nm, rest, -, -, -, hname, rfl⟩ := parseHeaderLine_eq_some hp
  exact hname

theorem isRun_addHeader (hname : h.name ≠ []) : Lib.IsRun ParsedHeader.isContinuation (addHeader h) := by
  intro p ps hps
  unfold addHeader at hps
  split_ifs at hps with hwhole
  · cases hps
    exact ⟨decide_eq_false hname, by simp⟩
  · cases hv : valuesIterator h.values with
    | nil =>
      rw [hv] at hps
      cases hps
    | cons v vs =>
      rw [hv] at hps
      cases hps
      refine ⟨decide_eq_false hname, fun q hq => ?_⟩
      obtain ⟨w, -, rfl⟩ := mem_map.1 hq
      rfl

def lineRuns (text : List UInt8) : List (List ParsedHeader) := (headersIterator text).map addHeader

theorem parsedHeaders_eq (text : List UInt8) : parsedHeaders text = (lineRuns text).flatten := by
  unfold parsedHeaders lineRuns
  rw [List.flatMap_def]

theorem isRun_of_mem_lineRuns (hrun : run ∈ lineRuns text) :
    Lib.IsRun ParsedHeader.isContinuation run := by
  obtain ⟨h, hmem, rfl⟩ := mem_map.1 hrun
  obtain ⟨line, -, hp⟩ := exists_of_mem_headersIterator hmem
  exact isRun_addHeader (name_ne_nil hp)

theorem headerRuns_parsedHeaders (text : List UInt8) :
    headerRuns (parsedHeaders text) = (lineRuns text).filter (· ≠ []) := by
  rw [headerRuns, parsedHeaders_eq]
  exact Lib.splitBy_flatten_runs fun run hrun => isRun_of_mem_lineRuns hrun

theorem splitBy_names {g : List (List ParsedHeader)}
    (hruns : ∀ run ∈ g, Lib.IsRun ParsedHeader.isContinuation run) :
    (g.flatten.map fun p => (p.name, p.value)).splitBy (fun _ q => q.1 = []) =
      (g.filter (· ≠ [])).map fun run => run.map fun p => (p.name, p.value) := by
  rw [List.map_flatten, Lib.splitBy_flatten_runs (α := List UInt8 × List UInt8)]
  · rw [List.filter_map]
    congr 1
    refine List.filter_congr fun run _ => ?_
    simp
  · intro r hr q qs hq
    obtain ⟨run, hrun, rfl⟩ := mem_map.1 hr
    obtain ⟨p, ps, rfl, rfl, rfl⟩ := List.map_eq_cons_iff.1 hq
    obtain ⟨hp, hps⟩ := hruns _ hrun p ps rfl
    refine ⟨hp, fun q hq => ?_⟩
    obtain ⟨p', hp', rfl⟩ := mem_map.1 hq
    exact hps p' hp'

/-! ### A line that is written -/

theorem addHeader_whole (hw : h.values = [] ∨ isNonCoalescingHeader h.name = true) :
    addHeader h = [⟨h.line, h.name, h.valuesBegin, h.values⟩] := if_pos hw

theorem addHeader_split {v : ℕ × List UInt8} {vs : List (ℕ × List UInt8)}
    (hw : ¬ (h.values = [] ∨ isNonCoalescingHeader h.name = true))
    (hv : valuesIterator h.values = v :: vs) :
    addHeader h = ⟨h.line, h.name, h.valuesBegin + v.1, v.2⟩ ::
      vs.map fun v => ⟨h.line, [], h.valuesBegin + v.1, v.2⟩ := by
  rw [addHeader, if_neg hw, hv]

theorem persistedLine_split {v : ℕ × List UInt8} {vs : List (ℕ × List UInt8)} {e : ℕ}
    (hw : ¬ (h.values = [] ∨ isNonCoalescingHeader h.name = true))
    (hv : valuesIterator h.values = v :: vs) (hlast : (v :: vs).getLast? = some (e, value)) :
    persistedLine (addHeader h) = h.line.take (h.valuesBegin + (e + value.length)) := by
  rw [addHeader_split hw hv]
  rw [List.getLast?_cons] at hlast
  rw [persistedLine, List.head?_cons, List.getLast?_cons, List.getLast?_map]
  cases hvs : vs.getLast? with
  | none =>
    rw [hvs] at hlast
    obtain rfl : v = (e, value) := Option.some.inj hlast
    simp only [Option.map_none, Option.getD_none, ParsedHeader.valueEnd, Nat.add_assoc]
  | some w =>
    rw [hvs] at hlast
    obtain rfl : w = (e, value) := Option.some.inj hlast
    simp only [Option.map_some, Option.getD_some, ParsedHeader.valueEnd, Nat.add_assoc]

/-- **A line that is written has the name and the values of the run.** -/
theorem exists_parse_persistedLine (hp : parseHeaderLine line = some h) (hne : addHeader h ≠ []) :
    (∃ n, persistedLine (addHeader h) = line.take n) ∧
      ∃ h', parseHeaderLine (persistedLine (addHeader h)) = some h' ∧
        (addHeader h').map (fun p => (p.name, p.value)) =
          (addHeader h).map (fun p => (p.name, p.value)) := by
  have hline : h.line = line := by
    obtain ⟨_, _, _, _, _, _, rfl⟩ := parseHeaderLine_eq_some hp
    rfl
  by_cases hnil : h.values = []
  · -- the line is written as a whole
    have hwhole : persistedLine (addHeader h) = line := by
      rw [addHeader_whole (.inl hnil)]
      show h.line.take (h.valuesBegin + h.values.length) = line
      rw [hnil, hline, valuesBegin_of_values_nil hp hnil]
      exact take_length
    exact ⟨⟨line.length, by rw [hwhole, take_length]⟩, h, by rw [hwhole, hp], rfl⟩
  by_cases hcoal : isNonCoalescingHeader h.name = true
  · -- up to the end of the values
    have hwritten : persistedLine (addHeader h) = line.take (h.valuesBegin + h.values.length) := by
      rw [addHeader_whole (.inr hcoal), ← hline]
      rfl
    have htrimmed : Trimmed h.values := by
      obtain ⟨_, rest, _, _, _, _, rfl⟩ := parseHeaderLine_eq_some hp
      exact trimmed_trimLWS hnil
    have hcut := parseHeaderLine_take hp (List.length_pos_iff.2 hnil).ne' le_rfl (by
      rw [take_length]
      exact htrimmed.last)
    rw [take_length] at hcut
    refine ⟨⟨_, hwritten⟩, _, by rw [hwritten, hcut], ?_⟩
    have hadd := addHeader_whole (h := ⟨line.take (h.valuesBegin + h.values.length), h.name,
      h.valuesBegin, h.values⟩) (.inr hcoal)
    rw [hadd, addHeader_whole (.inr hcoal)]
    rfl
  · -- up to the end of the last value
    have hw : ¬ (h.values = [] ∨ isNonCoalescingHeader h.name = true) := by tauto
    cases hv : valuesIterator h.values with
    | nil =>
      rw [addHeader, if_neg hw, hv] at hne
      exact absurd rfl hne
    | cons v vs =>
      obtain ⟨⟨e, value⟩, hlast⟩ : ∃ w, (v :: vs).getLast? = some w :=
        ⟨_, List.getLast?_eq_some_getLast (List.cons_ne_nil v vs)⟩
      have hmem : (e, value) ∈ valuesIterator h.values := by
        rw [hv]
        exact List.mem_of_getLast? hlast
      obtain ⟨front, back, hvalues, rfl, htrimmed⟩ := exists_of_mem_values hmem
      have htake : h.values.take (front.length + value.length) = front ++ value := by
        rw [hvalues, ← append_assoc, ← length_append, take_left]
      have hlen : 0 < value.length := List.length_pos_iff.2 htrimmed.ne_nil
      have hcut := parseHeaderLine_take (m := front.length + value.length) hp (by omega)
        (by rw [hvalues, length_append, length_append]; omega) (by
          rw [htake]
          intro hne'
          rw [List.getLast_append_of_ne_nil hne' htrimmed.ne_nil]
          exact htrimmed.last _)
      have hsame : valuesIterator (h.values.take (front.length + value.length)) = v :: vs := by
        have hfrom := (valuesFrom_take (s := h.values) (by
          rw [← hlast, ← hv]
          rfl)).2
        rw [Nat.sub_zero] at hfrom
        rw [← hv]
        exact hfrom
      have hwritten := persistedLine_split hw hv hlast
      rw [hline] at hwritten
      have hw' : ¬ (h.values.take (front.length + value.length) = [] ∨
          isNonCoalescingHeader h.name = true) := by
        rintro (hnil' | hcoal')
        · rw [htake, List.append_eq_nil_iff] at hnil'
          exact htrimmed.ne_nil hnil'.2
        · exact hcoal hcoal'
      refine ⟨⟨_, hwritten⟩, _, by rw [hwritten, hcut], ?_⟩
      rw [addHeader_split hw hv, addHeader_split hw' hsame]
      simp

/-! ### What is restored -/

variable {input : List UInt8}

/-- The headers that a line of some text gave. -/
structure FromLine (run : List ParsedHeader) : Prop where
  ne_nil : run ≠ []
  exists_line : ∃ line h, 0 ∉ line ∧ parseHeaderLine line = some h ∧ addHeader h = run

theorem FromLine.isRun (hrun : FromLine run) : Lib.IsRun ParsedHeader.isContinuation run := by
  obtain ⟨line, h, -, hp, rfl⟩ := hrun.exists_line
  exact isRun_addHeader (name_ne_nil hp)

theorem fromLine_of_mem_lineRuns (hrun : run ∈ lineRuns text) (hne : run ≠ []) : FromLine run := by
  obtain ⟨h, hmem, rfl⟩ := mem_map.1 hrun
  obtain ⟨line, hline, hp⟩ := exists_of_mem_headersIterator hmem
  exact ⟨hne, line, h, hline, hp, rfl⟩

/-- **A line that is written** has no null byte, and has the name and the values of the run. -/
theorem FromLine.exists_parse (hrun : FromLine run) :
    0 ∉ persistedLine run ∧ ∃ h, parseHeaderLine (persistedLine run) = some h ∧
      (addHeader h).map (fun p => (p.name, p.value)) = run.map (fun p => (p.name, p.value)) := by
  obtain ⟨line, h, hline, hp, rfl⟩ := hrun.exists_line
  obtain ⟨⟨n, htake⟩, h', hparse, hsame⟩ := exists_parse_persistedLine hp hrun.ne_nil
  refine ⟨fun h0 => hline ?_, h', hparse, hsame⟩
  rw [htake] at h0
  exact List.take_subset n line h0

theorem parsedHeaders_persistedLine (hrun : FromLine run) (rest : List UInt8) :
    ∃ ps, parsedHeaders (persistedLine run ++ 0 :: rest) = ps ++ parsedHeaders rest ∧
      ps.map (fun p => (p.name, p.value)) = run.map (fun p => (p.name, p.value)) := by
  obtain ⟨hnull, h, hparse, hsame⟩ := hrun.exists_parse
  refine ⟨addHeader h, ?_, hsame⟩
  rw [parsedHeaders_append hnull, parsedHeaders_of_line hnull, hparse]
  simp

theorem parsedHeaders_written (hruns : ∀ run ∈ runs, FromLine run) (rest : List UInt8) :
    (parsedHeaders (runs.flatMap (fun run => persistedLine run ++ [0]) ++ rest)).map
        (fun p => (p.name, p.value)) =
      (runs.flatten ++ parsedHeaders rest).map (fun p => (p.name, p.value)) := by
  induction runs with
  | nil => rfl
  | cons run runs ih =>
    have hrest := ih fun r hr => hruns r (mem_cons_of_mem _ hr)
    obtain ⟨ps, hps, hsame⟩ := parsedHeaders_persistedLine (hruns run mem_cons_self)
      (runs.flatMap (fun run => persistedLine run ++ [0]) ++ rest)
    rw [flatMap_cons, append_assoc, append_assoc, List.singleton_append, hps,
      List.map_append, hsame, hrest, flatten_cons, append_assoc, ← List.map_append]

def lineOfRun (run : List ParsedHeader) : List UInt8 × List (List UInt8) :=
  (runName run, run.map (·.value))

theorem headerLines_of_runs {h : HttpResponseHeaders}
    (hruns : ∀ run ∈ runs, Lib.IsRun ParsedHeader.isContinuation run)
    (hparsed : h.parsed.map (fun p => (p.name, p.value)) = runs.flatten.map fun p => (p.name, p.value)) :
    h.headerLines = (runs.filter (· ≠ [])).map lineOfRun := by
  rw [HttpResponseHeaders.headerLines, hparsed, splitBy_names hruns, List.map_map]
  refine List.map_congr_left fun run _ => ?_
  unfold lineOfRun runName
  cases run <;> simp

theorem headerLines_eq (input : List UInt8) : (HttpResponseHeaders.new input).headerLines =
      ((lineRuns (behind input)).filter (· ≠ [])).map lineOfRun :=
  headerLines_of_runs (fun _ hrun => isRun_of_mem_lineRuns hrun)
    (by rw [(new_spec input).1, parsedHeaders_eq])

theorem fromLine_of_mem_headerRuns
    (hrun : run ∈ headerRuns (HttpResponseHeaders.new input).parsed) : FromLine run := by
  rw [(new_spec input).1, headerRuns_parsedHeaders] at hrun
  obtain ⟨hmem, hne⟩ := List.mem_filter.1 hrun
  exact fromLine_of_mem_lineRuns hmem (of_decide_eq_true hne)

theorem headerLines_eq_headerRuns (input : List UInt8) : (HttpResponseHeaders.new input).headerLines =
      (headerRuns (HttpResponseHeaders.new input).parsed).map lineOfRun := by
  rw [headerLines_eq, (new_spec input).1, headerRuns_parsedHeaders]

/-- **The header lines of a response that consists of written lines.** -/
theorem headerLines_lines (hruns : ∀ run ∈ runs, FromLine run) (h : 0 ∉ line) :
    (HttpResponseHeaders.new (line ++ [0] ++ runs.flatMap (fun run => persistedLine run ++ [0]) ++ [0])).headerLines =
      runs.map lineOfRun := by
  have hend : parsedHeaders [0] = [] := by
    rw [show [0] = [] ++ (0 : UInt8) :: [] from rfl, parsedHeaders_append (by simp), parsedHeaders_nil]
    rfl
  rw [headerLines_of_runs fun run hrun => (hruns run hrun).isRun]
  · -- no run that was written is empty
    rw [List.filter_eq_self.2 fun run hrun => decide_eq_true (hruns run hrun).ne_nil]
  · rw [(new_spec _).1, append_assoc, append_assoc, List.singleton_append,
      (firstLine_append h _).2, parsedHeaders_written hruns, hend, append_nil]

theorem flatMap_ite {α β : Type} (keep : α → Bool) (f : α → List β) (l : List α) :
    l.flatMap (fun a => if keep a then f a else []) = (l.filter keep).flatMap f := by
  induction l with
  | nil => rfl
  | cons a l ih =>
    rw [flatMap_cons, ih]
    cases hk : keep a with
    | true => rw [List.filter_cons_of_pos hk, flatMap_cons, if_pos rfl]
    | false => rw [List.filter_cons_of_neg (by simp [hk]), if_neg (by simp), List.nil_append]

/-- **The header lines that are restored** when some runs were written. -/
theorem headerLines_written (input : List UInt8) (keep : List ParsedHeader → Bool) (h : 0 ∉ line) :
    (HttpResponseHeaders.new (line ++ [0] ++
      (headerRuns (HttpResponseHeaders.new input).parsed).flatMap (fun run =>
        if keep run then persistedLine run ++ [0] else []) ++ [0])).headerLines =
      (((lineRuns (behind input)).filter (· ≠ [])).filter keep).map lineOfRun := by
  rw [flatMap_ite, headerLines_lines _ h, (new_spec input).1, headerRuns_parsedHeaders]
  exact fun run hrun => fromLine_of_mem_headerRuns (List.mem_of_mem_filter hrun)

theorem notMem_value (hmem : h ∈ headersIterator text) (hp : p ∈ addHeader h) : 0 ∉ p.value := by
  obtain ⟨line, hline, hparse⟩ := exists_of_mem_headersIterator hmem
  have hvalues : 0 ∉ h.values := by
    obtain ⟨nm, rest, rfl, -, -, -, rfl⟩ := parseHeaderLine_eq_some hparse
    intro h0
    have hrest : 0 ∈ rest :=
      (List.dropWhile_sublist _).subset ((List.rdropWhile_prefix isLWS _).subset h0)
    exact hline (by simp [hrest])
  have hsplit {w : ℕ × List UInt8} (hw : w ∈ valuesIterator h.values) : 0 ∉ w.2 := by
    obtain ⟨front, back, heq, -, -⟩ := exists_of_mem_values (b := w.1) (v := w.2) hw
    exact fun h0 => hvalues (by rw [heq]; simp [h0])
  unfold addHeader at hp
  split_ifs at hp with hw
  · obtain rfl := List.mem_singleton.1 hp
    exact hvalues
  · cases hv : valuesIterator h.values with
    | nil =>
      rw [hv] at hp
      cases hp
    | cons v vs =>
      rw [hv] at hp hsplit
      rcases List.mem_cons.1 hp with rfl | hp
      · exact hsplit mem_cons_self
      · obtain ⟨w, hw, rfl⟩ := mem_map.1 hp
        exact hsplit (mem_cons_of_mem _ hw)

/-- **The names that are not cacheable** are those listed in the header lines. -/
theorem mem_addNonCacheableHeaders :
    name ∈ addNonCacheableHeaders (HttpResponseHeaders.new input).parsed ↔
      ListedNonCacheable (HttpResponseHeaders.new input).headerLines name := by
  have hlower : stringToLowerASCII (ascii "cache-control") = ascii "cache-control" := by decide
  have henum : enumerateFrom (HttpResponseHeaders.new input).parsed (ascii "cache-control") 0 =
      (lineRuns (behind input)).flatMap fun run =>
        if stringToLowerASCII (runName run) = ascii "cache-control" then run.map (·.value)
        else [] := by
    rw [enumerateFrom_eq, (new_spec input).1, parsedHeaders_eq, List.drop_zero,
      valuesOf_flatten fun run hrun => isRun_of_mem_lineRuns hrun, hlower]
  unfold addNonCacheableHeaders ListedNonCacheable
  rw [henum, headerLines_eq, mem_flatMap]
  constructor
  · rintro ⟨value, hvalue, hname⟩
    obtain ⟨run, hrun, hvalue⟩ := mem_flatMap.1 hvalue
    split_ifs at hvalue with hcc
    · obtain ⟨p, hp, rfl⟩ := mem_map.1 hvalue
      obtain ⟨h, hmem, rfl⟩ := mem_map.1 hrun
      obtain ⟨inner, heq, hitem⟩ := (mem_namesOfValue (notMem_value hmem hp)).1 hname
      refine ⟨_, mem_map.2 ⟨addHeader h, List.mem_filter.2 ⟨hrun, ?_⟩, rfl⟩, hcc, inner,
        ?_, mem_itemNames.1 hitem⟩
      · exact decide_eq_true (List.ne_nil_of_mem hp)
      · rw [← heq]
        exact hvalue
    · cases hvalue
  · rintro ⟨l, hl, hcc, inner, hvalue, hitem⟩
    obtain ⟨run, hrun, rfl⟩ := mem_map.1 hl
    have hrun := List.mem_of_mem_filter hrun
    refine ⟨kPrefix ++ (inner ++ [34]), mem_flatMap.2 ⟨run, hrun, ?_⟩, ?_⟩
    · rw [if_pos (show stringToLowerASCII (runName run) = _ from hcc)]
      exact hvalue
    · obtain ⟨p, hp, heq⟩ := mem_map.1 hvalue
      obtain ⟨h, hmem, rfl⟩ := mem_map.1 hrun
      have hnull := notMem_value hmem hp
      rw [heq] at hnull
      exact (mem_namesOfValue hnull).2 ⟨inner, rfl, mem_itemNames.2 hitem⟩

/-- **The options select the names that `Persist` leaves out.** -/
theorem mem_filterHeaders (hraw : options ≠ kPersistRaw) :
    name ∈ filterHeaders (HttpResponseHeaders.new input).parsed options ↔
      Selected (HttpResponseHeaders.new input).headerLines options name := by
  unfold filterHeaders Selected
  rw [and_iff_right hraw]
  simp only [List.mem_append, List.mem_ite_nil_right, mem_addNonCacheableHeaders, List.mem_singleton, or_assoc]

open Classical in
/-- **The restored header lines** are those whose name is not selected, in their order, each
with its values. -/
theorem headerLines_restore (hnum : ¬ MissingNumber (firstLine input)) (options : PersistOptions) :
    ((HttpResponseHeaders.new input).restore options).headerLines =
      (HttpResponseHeaders.new input).headerLines.filter fun l =>
        ¬ Selected (HttpResponseHeaders.new input).headerLines options
          (stringToLowerASCII l.1) := by
  unfold HttpResponseHeaders.restore HttpResponseHeaders.persist
  by_cases hraw : options = kPersistRaw
  · have hall : ∀ l ∈ (HttpResponseHeaders.new input).headerLines,
        decide (¬ Selected (HttpResponseHeaders.new input).headerLines options
          (stringToLowerASCII l.1)) = true := fun _ _ => decide_eq_true fun hsel => hsel.1 hraw
    rw [if_pos hraw, List.filter_eq_self.mpr hall]
    unfold HttpResponseHeaders.headerLines
    rw [(reparse_of_number hnum).headers]
  · have hwritten := headerLines_written input (fun run => decide
      (stringToLowerASCII (runName run) ∉
        filterHeaders (HttpResponseHeaders.new input).parsed options))
      (notMem_firstLine (HttpResponseHeaders.new input).rawHeaders)
    simp only [decide_eq_true_eq, ite_not] at hwritten
    rw [if_neg hraw]
    dsimp only
    rw [hwritten, headerLines_eq, List.filter_map]
    refine congrArg (List.map lineOfRun) (List.filter_congr fun run _ => ?_)
    rw [← headerLines_eq]
    exact decide_eq_decide.mpr (not_congr (mem_filterHeaders hraw))

def cookieResponse : List UInt8 :=
  ascii "HTTP/1.1 200 OK" ++ 0 :: (ascii "A: b, c" ++ 0 :: (ascii "Set-Cookie: d" ++ [0, 0]))

open Classical in
theorem headerLines_restore_cookieResponse :
    ((HttpResponseHeaders.new cookieResponse).restore kPersistSansCookies).headerLines =
      (HttpResponseHeaders.new cookieResponse).headerLines.filter fun l =>
        ¬ Selected (HttpResponseHeaders.new cookieResponse).headerLines kPersistSansCookies
          (stringToLowerASCII l.1) :=
  headerLines_restore (by decide +kernel) kPersistSansCookies

end Chromium.Net
