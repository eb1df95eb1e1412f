import Chromium.Base.StringToInt64
import Chromium.Net.Http.HeaderPersistence

/-!
# How long a response stays fresh

`RequiresValidation` of `net/http/http_response_headers.cc`, with the lifetime that `GetFreshnessLifetime` finds in the headers and
the age of `GetCurrentAge`.  Times and differences of times are microseconds in 64 bits, and what does not fit wraps.

A larger `max-age` does not shorten the lifetime as long as its microseconds fit (`lifetimes_le`).
`requiresValidation_antitone_iff` says **exactly when a response with a larger `max-age` stays fresh as long**.
-/

namespace Chromium.Net

open Chromium.Base Lib

namespace HttpResponseHeaders

def fromSeconds (seconds : ℤ) : ℤ := toInt64 (seconds * 1000000)

/-- The values that `EnumerateHeader` gives one after the other. -/
def values (h : HttpResponseHeaders) (name : String) : List (List UInt8) := enumerateFrom h.parsed (ascii name) 0

def hasHeaderValue (h : HttpResponseHeaders) (name value : String) : Bool :=
  (h.values name).any fun v => stringToLowerASCII v = ascii value

/-- A value that begins with `max-age=`. -/
def isMaxAge (value : List UInt8) : Bool :=
  8 < value.length && decide (stringToLowerASCII (value.take 8) = ascii "max-age=")

/-- `GetMaxAgeValue`; what `StringToInt64` returns is not looked at. -/
def getMaxAgeValue (h : HttpResponseHeaders) : Option ℤ :=
  ((h.values "cache-control").find? isMaxAge).map fun value => fromSeconds (stringToInt64 (value.drop 8)).2

def getAgeValue (h : HttpResponseHeaders) : ℤ :=
  match h.values "age" with
  | [] => 0
  | value :: _ => fromSeconds (stringToInt64 value).2

/-- `GetTimeValuedHeader`, with `Time::FromString`. -/
def getTimeValuedHeader (fromString : List UInt8 → Option ℤ) (h : HttpResponseHeaders) (name : String) : Option ℤ :=
  match h.values name with
  | [] => none
  | value :: _ => fromString value

def neverFresh (h : HttpResponseHeaders) : Bool :=
  h.hasHeaderValue "cache-control" "no-cache" || h.hasHeaderValue "cache-control" "no-store" ||
    h.hasHeaderValue "pragma" "no-cache" || h.hasHeaderValue "vary" "*"

def dateValue (fromString : List UInt8 → Option ℤ) (h : HttpResponseHeaders) (responseTime : ℤ) : ℤ :=
  (h.getTimeValuedHeader fromString "date").getD responseTime

/-- The rest of `GetFreshnessLifetime`, where there is no `max-age`. -/
def otherLifetime (fromString : List UInt8 → Option ℤ) (h : HttpResponseHeaders) (responseTime : ℤ) : ℤ :=
  let date := h.dateValue fromString responseTime
  let implicit := if h.responseCode ∈ [300, 301, 410] then int64Max else 0
  match h.getTimeValuedHeader fromString "expires" with
  | some expires => if expires > date then toInt64 (expires - date) else 0
  | none =>
    if h.responseCode ∈ [200, 203, 206] ∧ !h.hasHeaderValue "cache-control" "must-revalidate" then
      match h.getTimeValuedHeader fromString "last-modified" with
      | some lastModified => if lastModified ≤ date then (toInt64 (date - lastModified)).tdiv 10 else implicit
      | none => implicit
    else implicit

def getFreshnessLifetime (fromString : List UInt8 → Option ℤ) (h : HttpResponseHeaders) (responseTime : ℤ) : ℤ :=
  if h.neverFresh then 0 else h.getMaxAgeValue.getD (h.otherLifetime fromString responseTime)

def getCurrentAge (fromString : List UInt8 → Option ℤ) (h : HttpResponseHeaders)
    (requestTime responseTime currentTime : ℤ) : ℤ :=
  let apparentAge := max 0 (toInt64 (responseTime - h.dateValue fromString responseTime))
  let correctedReceivedAge := max apparentAge h.getAgeValue
  let responseDelay := toInt64 (responseTime - requestTime)
  let correctedInitialAge := toInt64 (correctedReceivedAge + responseDelay)
  let residentTime := toInt64 (currentTime - responseTime)
  toInt64 (correctedInitialAge + residentTime)

def requiresValidation (fromString : List UInt8 → Option ℤ) (h : HttpResponseHeaders)
    (requestTime responseTime currentTime : ℤ) : Bool :=
  let lifetime := h.getFreshnessLifetime fromString responseTime
  lifetime = 0 || lifetime ≤ h.getCurrentAge fromString requestTime responseTime currentTime

end HttpResponseHeaders

/-! ### Values of a header -/

/-- The header belongs to `name`, if `given` tells this of the one before: it has the name, or it continues such a header. -/
def belongs (name : List UInt8) (given : Bool) (h : ParsedHeader) : Bool :=
  if h.isContinuation then given else stringToLowerASCII h.name = stringToLowerASCII name

/-- Whether the last of some headers belongs to `name`. -/
def givenAfter (name : List UInt8) : Bool → List ParsedHeader → Bool
  | given, [] => given
  | given, h :: hs => givenAfter name (belongs name given h) hs

variable {name name' : List UInt8} {given given' : Bool} {h h' : ParsedHeader} {pre post : List ParsedHeader}

theorem valuesOf_cons (name : List UInt8) (given : Bool) (h : ParsedHeader) (hs : List ParsedHeader) :
    valuesOf name given (h :: hs) =
      (if belongs name given h then [h.value] else []) ++ valuesOf name (belongs name given h) hs := by
  rw [valuesOf]
  unfold belongs
  cases h.isContinuation with
  | true => rfl
  | false => by_cases hname : stringToLowerASCII h.name = stringToLowerASCII name <;> simp [hname]

theorem valuesOf_append_cons (name : List UInt8) (pre post : List ParsedHeader) (given : Bool) (h : ParsedHeader) :
    valuesOf name given (pre ++ h :: post) =
      valuesOf name given pre ++ ((if belongs name (givenAfter name given pre) h then [h.value] else []) ++
        valuesOf name (belongs name (givenAfter name given pre) h) post) := by
  induction pre generalizing given with
  | nil => exact valuesOf_cons name given h post
  | cons x pre ih => rw [List.cons_append, valuesOf_cons, valuesOf_cons, ih, List.append_assoc, givenAfter]

theorem belongs_unique (hgiven : given = true → given' = true → stringToLowerASCII name = stringToLowerASCII name')
    (hb : belongs name given h = true) (hb' : belongs name' given' h = true) :
    stringToLowerASCII name = stringToLowerASCII name' := by
  unfold belongs at hb hb'
  split at hb
  · next hc =>
    rw [if_pos hc] at hb'
    exact hgiven hb hb'
  · next hc =>
    rw [if_neg hc] at hb'
    exact (of_decide_eq_true hb).symm.trans (of_decide_eq_true hb')

theorem givenAfter_unique (hgiven : given = true → given' = true → stringToLowerASCII name = stringToLowerASCII name')
    (hg : givenAfter name given pre = true) (hg' : givenAfter name' given' pre = true) :
    stringToLowerASCII name = stringToLowerASCII name' := by
  induction pre generalizing given given' with
  | nil => exact hgiven hg hg'
  | cons h pre ih => exact ih (fun hb hb' => belongs_unique hgiven hb hb') hg hg'

theorem belongs_congr (hname : h.name = h'.name) : belongs name given h = belongs name given h' := by
  unfold belongs ParsedHeader.isContinuation
  rw [hname]

theorem HttpResponseHeaders.values_eq (h : HttpResponseHeaders) (name : String) :
    h.values name = valuesOf (ascii name) false h.parsed := by
  rw [HttpResponseHeaders.values, enumerateFrom_eq]
  rfl

/-! ### Two responses -/

/-- **The only difference between two responses is a larger number behind `max-age=`** in a value of `Cache-Control`. -/
structure LargerMaxAge (a b : HttpResponseHeaders) (m n : ℕ) : Prop where
  code : a.responseCode = b.responseCode
  headers : ∃ pre post h h' directive t u, a.parsed = pre ++ h :: post ∧ b.parsed = pre ++ h' :: post ∧
    h.name = h'.name ∧ belongs (ascii "cache-control") (givenAfter (ascii "cache-control") false pre) h = true ∧
    h.value = directive ++ t ∧ h'.value = directive ++ u ∧ stringToLowerASCII directive = ascii "max-age=" ∧
    IsDecimal m t ∧ IsDecimal n u
  lt : m < n

def readSeconds (n : ℕ) : ℤ := min (n : ℤ) int64Max

def maxAgeLifetime (n : ℕ) : ℤ := HttpResponseHeaders.fromSeconds (readSeconds n)

variable {a b : HttpResponseHeaders} {m n : ℕ} {fromString : List UInt8 → Option ℤ}

namespace LargerMaxAge

/-- The values of `Cache-Control` differ in one place. -/
theorem cacheControl (hd : LargerMaxAge a b m n) :
    ∃ before after directive t u, a.values "cache-control" = before ++ (directive ++ t) :: after ∧
      b.values "cache-control" = before ++ (directive ++ u) :: after ∧ stringToLowerASCII directive = ascii "max-age=" ∧
      IsDecimal m t ∧ IsDecimal n u := by
  obtain ⟨pre, post, h, h', directive, t, u, ha, hb, hname, hbelongs, hvalue, hvalue', hdirective, ht, hu⟩ := hd.headers
  refine ⟨valuesOf (ascii "cache-control") false pre, valuesOf (ascii "cache-control") true post, directive, t, u, ?_, ?_,
    hdirective, ht, hu⟩
  · rw [HttpResponseHeaders.values_eq, ha, valuesOf_append_cons, hbelongs, if_pos rfl, hvalue]
    rfl
  · rw [HttpResponseHeaders.values_eq, hb, valuesOf_append_cons, ← belongs_congr hname, hbelongs, if_pos rfl, hvalue']
    rfl

theorem values_eq (hd : LargerMaxAge a b m n) {name : String}
    (hne : stringToLowerASCII (ascii name) ≠ stringToLowerASCII (ascii "cache-control")) : a.values name = b.values name := by
  obtain ⟨pre, post, h, h', -, -, -, ha, hb, hname, hbelongs, -⟩ := hd.headers
  have hnot : belongs (ascii name) (givenAfter (ascii name) false pre) h = false := by
    rw [Bool.eq_false_iff]
    intro hbelongs'
    exact hne (belongs_unique (fun hg hg' => givenAfter_unique (by simp) hg hg') hbelongs' hbelongs)
  rw [HttpResponseHeaders.values_eq, HttpResponseHeaders.values_eq, ha, hb, valuesOf_append_cons, valuesOf_append_cons,
    ← belongs_congr hname, hnot]
  rfl

theorem length_directive {directive : List UInt8} (h : stringToLowerASCII directive = ascii "max-age=") :
    directive.length = 8 := by
  have hlen := congrArg List.length h
  rwa [stringToLowerASCII, List.length_map] at hlen

theorem isMaxAge_append {directive t : List UInt8} (h : stringToLowerASCII directive = ascii "max-age=")
    (ht : IsDecimal n t) : HttpResponseHeaders.isMaxAge (directive ++ t) = true ∧ (directive ++ t).drop 8 = t := by
  have hlen := length_directive h
  have hpos : 0 < t.length := List.length_pos_iff.2 ht.ne_nil
  have htake : (directive ++ t).take 8 = directive := by rw [← hlen, List.take_left]
  constructor
  · simp only [HttpResponseHeaders.isMaxAge, htake, h, List.length_append, hlen, decide_true, Bool.and_true,
      decide_eq_true_eq]
    omega
  · rw [← hlen, List.drop_left]

theorem not_directive {directive t : List UInt8} (h : stringToLowerASCII directive = ascii "max-age=") {value : String}
    (hvalue : (ascii value).take 8 ≠ ascii "max-age=") : decide (stringToLowerASCII (directive ++ t) = ascii value) = false := by
  refine decide_eq_false fun heq => hvalue ?_
  have hlen : (stringToLowerASCII directive).length = 8 := by rw [h]; rfl
  rw [← heq, stringToLowerASCII, List.map_append]
  show (stringToLowerASCII directive ++ stringToLowerASCII t).take 8 = _
  rw [← hlen, List.take_left, h]

theorem hasHeaderValue_eq (hd : LargerMaxAge a b m n) {value : String} (hvalue : (ascii value).take 8 ≠ ascii "max-age=") :
    a.hasHeaderValue "cache-control" value = b.hasHeaderValue "cache-control" value := by
  obtain ⟨before, after, directive, t, u, ha, hb, hdirective, -⟩ := hd.cacheControl
  rw [HttpResponseHeaders.hasHeaderValue, HttpResponseHeaders.hasHeaderValue, ha, hb, List.any_append, List.any_append,
    List.any_cons, List.any_cons, not_directive hdirective hvalue, not_directive hdirective hvalue]

theorem neverFresh_eq (hd : LargerMaxAge a b m n) : a.neverFresh = b.neverFresh := by
  unfold HttpResponseHeaders.neverFresh
  rw [hd.hasHeaderValue_eq (by decide), hd.hasHeaderValue_eq (by decide)]
  unfold HttpResponseHeaders.hasHeaderValue
  rw [hd.values_eq (by decide), hd.values_eq (by decide)]

theorem getCurrentAge_eq (hd : LargerMaxAge a b m n) (requestTime responseTime currentTime : ℤ) :
    a.getCurrentAge fromString requestTime responseTime currentTime =
      b.getCurrentAge fromString requestTime responseTime currentTime := by
  unfold HttpResponseHeaders.getCurrentAge HttpResponseHeaders.dateValue HttpResponseHeaders.getTimeValuedHeader
    HttpResponseHeaders.getAgeValue
  rw [hd.values_eq (by decide), hd.values_eq (by decide)]

end LargerMaxAge

/-- The value that decides, which is the first one that begins with `max-age=`. -/
def HttpResponseHeaders.firstMaxAge (h : HttpResponseHeaders) : Option (List UInt8) :=
  (h.values "cache-control").find? HttpResponseHeaders.isMaxAge

theorem HttpResponseHeaders.getMaxAgeValue_eq (h : HttpResponseHeaders) :
    h.getMaxAgeValue = h.firstMaxAge.map fun value => fromSeconds (stringToInt64 (value.drop 8)).2 := rfl

/-- **The lifetimes are those of the two numbers**, unless another value decides, or the responses are never fresh. -/
theorem LargerMaxAge.getFreshnessLifetime (hd : LargerMaxAge a b m n) (responseTime : ℤ) :
    ((a.neverFresh = true ∨ a.firstMaxAge = b.firstMaxAge) ∧
        a.getFreshnessLifetime fromString responseTime = b.getFreshnessLifetime fromString responseTime) ∨
      ¬(a.neverFresh = true ∨ a.firstMaxAge = b.firstMaxAge) ∧
        a.getFreshnessLifetime fromString responseTime = maxAgeLifetime m ∧
        b.getFreshnessLifetime fromString responseTime = maxAgeLifetime n := by
  unfold HttpResponseHeaders.getFreshnessLifetime
  rw [← hd.neverFresh_eq, HttpResponseHeaders.getMaxAgeValue_eq, HttpResponseHeaders.getMaxAgeValue_eq]
  by_cases hnever : a.neverFresh = true
  · rw [if_pos hnever, if_pos hnever]
    exact .inl ⟨.inl hnever, rfl⟩
  · rw [if_neg hnever, if_neg hnever]
    obtain ⟨before, after, directive, t, u, ha, hb, hdirective, ht, hu⟩ := hd.cacheControl
    obtain ⟨hmax, hdrop⟩ := isMaxAge_append hdirective ht
    obtain ⟨hmax', hdrop'⟩ := isMaxAge_append hdirective hu
    unfold HttpResponseHeaders.firstMaxAge
    rw [ha, hb, List.find?_append, List.find?_append]
    cases hfind : before.find? HttpResponseHeaders.isMaxAge with
    | some value => exact .inl ⟨.inr rfl, rfl⟩
    | none =>
      rw [Option.none_or, Option.none_or, List.find?_cons_of_pos hmax, List.find?_cons_of_pos hmax', Option.map_some,
        Option.map_some, hdrop, hdrop', stringToInt64_of_decimal ht, stringToInt64_of_decimal hu]
      refine .inr ⟨?_, rfl, rfl⟩
      rintro (hnever' | heq)
      · exact hnever hnever'
      · have htu : t = u := List.append_cancel_left (Option.some.inj heq)
        have hvalue := ht.value
        rw [htu, hu.value] at hvalue
        exact absurd hd.lt (by omega)

def IsTime (t : ℤ) : Prop := int64Min ≤ t ∧ t ≤ int64Max

instance instDecidableIsTime (t : ℤ) : Decidable (IsTime t) := inferInstanceAs (Decidable (_ ∧ _))

theorem isTime_toInt64 (x : ℤ) : IsTime (toInt64 x) := by
  unfold IsTime toInt64 int64Min int64Max
  omega

theorem exists_getCurrentAge (a : HttpResponseHeaders) {age : ℤ} (hage : IsTime age) :
    ∃ currentTime, IsTime currentTime ∧ a.getCurrentAge fromString 0 0 currentTime = age := by
  refine ⟨toInt64 (age - toInt64 (max (max 0 (toInt64 (0 - a.dateValue fromString 0))) a.getAgeValue + toInt64 (0 - 0))),
    isTime_toInt64 _, ?_⟩
  dsimp only [HttpResponseHeaders.getCurrentAge]
  generalize toInt64 (max (max 0 (toInt64 (0 - a.dateValue fromString 0))) a.getAgeValue + toInt64 (0 - 0)) = initial
  unfold IsTime int64Min int64Max at hage
  unfold toInt64
  omega

theorem requiresValidation_eq_false (a : HttpResponseHeaders) (requestTime responseTime currentTime : ℤ) :
    a.requiresValidation fromString requestTime responseTime currentTime = false ↔
      a.getFreshnessLifetime fromString responseTime ≠ 0 ∧
        a.getCurrentAge fromString requestTime responseTime currentTime < a.getFreshnessLifetime fromString responseTime := by
  unfold HttpResponseHeaders.requiresValidation
  simp only [Bool.or_eq_false_iff, decide_eq_false_iff_not, not_le]

/-- **With a larger `max-age` a response stays fresh at least as long, exactly if its lifetime is not shorter** in 64 bits, or
the one with the smaller number is never fresh, or another directive decides. -/
theorem requiresValidation_antitone_iff (fromString : List UInt8 → Option ℤ) (a b : HttpResponseHeaders) (m n : ℕ)
    (hd : LargerMaxAge a b m n) :
    (∀ requestTime responseTime currentTime, IsTime requestTime → IsTime responseTime → IsTime currentTime →
        a.requiresValidation fromString requestTime responseTime currentTime = false →
        b.requiresValidation fromString requestTime responseTime currentTime = false) ↔
      (a.neverFresh = true ∨ a.firstMaxAge = b.firstMaxAge) ∨ maxAgeLifetime m = 0 ∨ maxAgeLifetime m = int64Min ∨
        maxAgeLifetime n ≠ 0 ∧ maxAgeLifetime m ≤ maxAgeLifetime n := by
  constructor
  · intro hall
    by_contra hno
    obtain ⟨hdecided, hno⟩ := not_or.mp hno
    obtain ⟨hzero, hno⟩ := not_or.mp hno
    obtain ⟨hmin, hshorter⟩ := not_or.mp hno
    have hm : IsTime (maxAgeLifetime m) := isTime_toInt64 _
    have hage : IsTime (maxAgeLifetime m - 1) := by
      unfold IsTime at hm ⊢
      omega
    obtain ⟨currentTime, hcurrent, hcurrentAge⟩ := @exists_getCurrentAge fromString a _ hage
    have htime : IsTime 0 := by unfold IsTime int64Min int64Max; omega
    rcases @LargerMaxAge.getFreshnessLifetime a b m n fromString hd 0 with ⟨h, -⟩ | ⟨-, hla, hlb⟩
    · exact hdecided h
    · have hfresh := hall 0 0 currentTime htime htime hcurrent
      rw [requiresValidation_eq_false, requiresValidation_eq_false, ← hd.getCurrentAge_eq, hcurrentAge, hla, hlb] at hfresh
      have hlonger := hfresh ⟨hzero, by omega⟩
      exact hshorter ⟨hlonger.1, by omega⟩
  · intro hcond requestTime responseTime currentTime _ _ hcurrent
    rw [requiresValidation_eq_false, requiresValidation_eq_false, ← hd.getCurrentAge_eq]
    rcases @LargerMaxAge.getFreshnessLifetime a b m n fromString hd responseTime with ⟨-, heq⟩ | ⟨hdecided, hla, hlb⟩
    · rw [heq]
      exact id
    · rw [hla, hlb]
      rintro ⟨hne, hlt⟩
      rcases hcond.resolve_left hdecided with hzero | hmin | ⟨hne', hle⟩
      · exact absurd hzero hne
      · have hage : IsTime (a.getCurrentAge fromString requestTime responseTime currentTime) := isTime_toInt64 _
        unfold IsTime at hage
        omega
      · exact ⟨hne', hlt.trans_le hle⟩

/-- **Numbers whose microseconds fit** have lifetimes in their order. -/
theorem lifetimes_le (hlt : m < n) (hfits : n ≤ 9223372036854) :
    maxAgeLifetime n ≠ 0 ∧ maxAgeLifetime m ≤ maxAgeLifetime n := by
  have hlifetime : ∀ k : ℕ, k ≤ 9223372036854 → maxAgeLifetime k = k * 1000000 := by
    intro k hk
    have hread : readSeconds k = k := min_eq_left (by unfold int64Max; omega)
    rw [maxAgeLifetime, hread]
    exact toInt64_of_mem (by omega) (by omega)
  rw [hlifetime m (by omega), hlifetime n hfits]
  omega

/-! ### A number that is too large -/

/-- A response with `Cache-Control: max-age=` and a number. -/
def maxAgeResponse (number : List UInt8) : HttpResponseHeaders :=
  ⟨ascii "HTTP/1.1 200 OK" ++ 0 :: (ascii "Cache-Control: max-age=" ++ number) ++ [0, 0],
    [⟨ascii "Cache-Control: max-age=" ++ number, ascii "Cache-Control", 15, ascii "max-age=" ++ number⟩], 200, .of 1 1, .of 1 1⟩

theorem largerMaxAge_maxAgeResponse {t u : List UInt8} (ht : IsDecimal m t) (hu : IsDecimal n u) (hlt : m < n) :
    LargerMaxAge (maxAgeResponse t) (maxAgeResponse u) m n where
  code := rfl
  headers := ⟨[], [], _, _, ascii "max-age=", t, u, rfl, rfl, rfl,
    (@belongs_congr _ _ _ ⟨[], ascii "Cache-Control", 0, []⟩ rfl).trans (by decide +kernel), rfl, rfl, by decide, ht, hu⟩
  lt := hlt

theorem isDecimal_one : IsDecimal 1 (ascii "1") := ⟨by decide +kernel, by decide +kernel, rfl⟩

theorem isDecimal_two : IsDecimal 2 (ascii "2") := ⟨by decide +kernel, by decide +kernel, rfl⟩

theorem requiresValidation_two :
    (maxAgeResponse (ascii "2")).requiresValidation (fun _ => none) 0 0 500000 = false :=
  (requiresValidation_antitone_iff _ _ _ 1 2 (largerMaxAge_maxAgeResponse isDecimal_one isDecimal_two (by decide))).mpr
    (.inr (.inr (.inr (lifetimes_le (by decide) (by decide))))) 0 0 500000 (by decide) (by decide) (by decide)
    (by decide +kernel)

/-- **A `max-age` whose microseconds do not fit makes a response stale** that is fresh with `max-age=1`. -/
theorem requiresValidation_overflow :
    ¬ ∀ fromString a b m n, LargerMaxAge a b m n → ∀ requestTime responseTime currentTime,
      IsTime requestTime → IsTime responseTime → IsTime currentTime →
      a.requiresValidation fromString requestTime responseTime currentTime = false →
      b.requiresValidation fromString requestTime responseTime currentTime = false := by
  intro h
  have hlarge : IsDecimal 9223372036855 (ascii "9223372036855") := ⟨by decide +kernel, by decide +kernel, by decide +kernel⟩
  have hstale := h (fun _ => none) (maxAgeResponse (ascii "1")) (maxAgeResponse (ascii "9223372036855")) 1 9223372036855
    (largerMaxAge_maxAgeResponse isDecimal_one hlarge (by decide)) 0 0 0 (by decide) (by decide) (by decide) (by decide +kernel)
  exact absurd hstale (by decide +kernel)

end Chromium.Net
