import Chromium.Lib.MachineInt
import Chromium.Lib.Separated
import Mathlib.Data.List.TakeWhile

/-!
# The registry of a host

`net/base/registry_controlled_domain.cc`.  `std::string::npos` is `none`, and `int`, `unsigned int` and `size_t`
have 32 bits.  The find function is given a place in the host and a length.

A name is a list of labels.  `registry` is the public suffix of a name by the rules, and the walk over the host
finds it (`registry_of_host`).
-/

namespace Chromium.Net

open Lib
open List (append_assoc cons_append drop_drop drop_eq_nil_iff drop_left drop_left' length_append
  length_pos_iff length_replicate mem_cons_self take_add take_left)

/-- `'.'`. -/
def dot : UInt8 := 46

structure DomainRule where
  name : List UInt8
  type : ℤ

def kExceptionRule : ℤ := 1

def kWildcardRule : ℤ := 2

def tolower (c : UInt8) : UInt8 := if 65 ≤ c ∧ c ≤ 90 then c + 32 else c

/-- `strncasecmp`, on strings that end in a zero. -/
def strncasecmp : List UInt8 → List UInt8 → ℕ → ℤ
  | _, _, 0 => 0
  | s1, s2, n + 1 =>
    let c1 := tolower (s1.headD 0)
    let c2 := tolower (s2.headD 0)
    if c1 ≠ c2 then (c1.toNat : ℤ) - c2.toNat else if c1 = 0 then 0 else strncasecmp s1.tail s2.tail n

/-- `FindDomainPtr`: the rule for a text and a length. -/
abbrev FindDomain : Type := List UInt8 → ℕ → Option DomainRule

/-- The rule that is found and has the name, at `curr_start`. -/
def ruleAt (findDomain : FindDomain) (host : List UInt8) (hostCheckLen currStart : ℕ) : Option DomainRule :=
  let domainStr := host.drop currStart
  let domainLength := (uint32OfInt (toInt32 (hostCheckLen - currStart))).toNat
  match findDomain domainStr domainLength with
  | some rule => if strncasecmp domainStr rule.name domainLength = 0 then some rule else none
  | none => none

/-- What a rule at `curr_start` decides. -/
def ruleLength (rule : DomainRule) (host : List UInt8) (hostCheckBegin : ℕ) (prevStart : Option ℕ) (currStart : ℕ)
    (nextDot : Option ℕ) : ℕ :=
  if rule.type = kWildcardRule ∧ prevStart ≠ none then
    if prevStart = some hostCheckBegin then 0 else host.length - prevStart.getD 0
  else if rule.type = kExceptionRule then
    match nextDot with
    | none => 0
    | some nextDot => host.length - nextDot - 1
  else if currStart = hostCheckBegin then 0
  else host.length - currStart

def walk (findDomain : FindDomain) (host : List UInt8) (allowUnknownRegistries : Bool) (hostCheckBegin hostCheckLen : ℕ) :
    ℕ → Option ℕ → ℕ → Option ℕ → Option ℕ
  | 0, _, _, _ => none
  | fuel + 1, prevStart, currStart, nextDot =>
    match ruleAt findDomain host hostCheckLen currStart with
    | some rule => some (ruleLength rule host hostCheckBegin prevStart currStart nextDot)
    | none =>
      match nextDot with
      | none => some (if allowUnknownRegistries then host.length - currStart else 0)
      | some nextDot =>
        if hostCheckLen ≤ nextDot then some (if allowUnknownRegistries then host.length - currStart else 0)
        else walk findDomain host allowUnknownRegistries hostCheckBegin hostCheckLen fuel (some currStart)
          (nextDot + 1) (findFrom host dot (nextDot + 1))

/-- `GetRegistryLengthImpl`; `none` is no return. -/
def getRegistryLengthImpl (findDomain : FindDomain) (host : List UInt8) (allowUnknownRegistries : Bool) : Option ℕ :=
  match host.findIdx? (· != dot) with
  | none => some 0
  | some hostCheckBegin =>
    if host.getLast? = some dot ∧ (host.dropLast).getLast? = some dot then some 0
    else
      let hostCheckLen := if host.getLast? = some dot then host.length - 1 else host.length
      let nextDot := findFrom host dot hostCheckBegin
      if nextDot.all (hostCheckLen ≤ ·) then some 0
      else walk findDomain host allowUnknownRegistries hostCheckBegin hostCheckLen (host.length + 1) none
        hostCheckBegin nextDot

/-- `a - b` on `size_t`. -/
def sizeSub (a b : ℕ) : ℕ := (a + 4294967296 - b) % 4294967296

/-- `GetDomainAndRegistryImpl`; `none` is no return. -/
def getDomainAndRegistryImpl (findDomain : FindDomain) (host : List UInt8) : Option (List UInt8) :=
  (getRegistryLengthImpl findDomain host true).map fun registryLength =>
    if registryLength = 0 then []
    else if sizeSub host.length 2 < registryLength then []
    else
      match findBack host dot (sizeSub (sizeSub host.length registryLength) 2) with
      | none => host
      | some place => host.drop (place + 1)

/-! ## Public suffixes -/

inductive RuleType
  | normal
  | exception
  | wildcard
  deriving DecidableEq

def RuleType.toInt : RuleType → ℤ
  | normal => 0
  | exception => kExceptionRule
  | wildcard => kWildcardRule

/-- A rule table: the type of the rule of a name, if there is one. -/
abbrev RuleTable : Type := List UInt8 → Option RuleType

def Finds (rules : RuleTable) (findDomain : FindDomain) : Prop :=
  ∀ s n, findDomain s n = (rules (s.take n)).map fun type => ⟨s.take n, type.toInt⟩

def joined (labels : List (List UInt8)) : List UInt8 := [dot].intercalate labels

/-- What a rule says about a name, when its own name is that of the labels from `k` on. -/
def RuleType.registry (labels : List (List UInt8)) (k : ℕ) : RuleType → List (List UInt8)
  | normal => if k = 0 then [] else labels.drop k
  | wildcard => if k ≤ 1 then [] else labels.drop (k - 1)
  | exception => labels.drop (k + 1)

def decided (rules : RuleTable) (labels : List (List UInt8)) : Option (List (List UInt8)) :=
  (List.range labels.length).findSome? fun k => (rules (joined (labels.drop k))).map (RuleType.registry labels k)

def registry (rules : RuleTable) (allowUnknown : Bool) (labels : List (List UInt8)) : List (List UInt8) :=
  if labels.length ≤ 1 ∨ labels.getLast? = some [] then []
  else (decided rules labels).getD (if allowUnknown then labels.drop (labels.length - 1) else [])

def checkedHost (host : List UInt8) : List UInt8 := host.dropWhile (· == dot)

def trailingDot (host : List UInt8) : List UInt8 := if (checkedHost host).getLast? = some dot then [dot] else []

def hostLabels (host : List UInt8) : List (List UInt8) :=
  ((checkedHost host).take ((checkedHost host).length - (trailingDot host).length)).splitOn dot

def hostEnd (host : List UInt8) (labels : List (List UInt8)) : List UInt8 :=
  if labels = [] then [] else joined labels ++ trailingDot host

section

variable {rules : RuleTable} {findDomain : FindDomain} {host : List UInt8} {allow : Bool} {labels ls : List (List UInt8)}
  {l : List UInt8} {begin pos checkLen k : ℕ}

theorem decided_eq_some {type : RuleType} (hbefore : ∀ j < k, rules (joined (labels.drop j)) = none)
    (hk : k < labels.length) (hrule : rules (joined (labels.drop k)) = some type) :
    decided rules labels = some (type.registry labels k) := by
  obtain ⟨n, hn⟩ : ∃ n, labels.length = k + (n + 1) := ⟨labels.length - k - 1, by omega⟩
  have hnone : (List.range k).findSome?
      (fun j => (rules (joined (labels.drop j))).map (RuleType.registry labels j)) = none := by
    rw [List.findSome?_eq_none_iff]
    intro j hj
    rw [hbefore j (List.mem_range.1 hj)]
    rfl
  rw [decided, hn, List.range_add, List.findSome?_append, hnone, List.range_succ_eq_map, List.map_cons,
    List.findSome?_cons, Nat.add_zero, hrule]
  rfl

theorem decided_eq_none (h : ∀ j < labels.length, rules (joined (labels.drop j)) = none) :
    decided rules labels = none := by
  rw [decided, List.findSome?_eq_none_iff]
  intro j hj
  rw [h j (List.mem_range.1 hj)]
  rfl

/-- From `pos` on the host has the labels `ls`, and at most a dot behind `checkLen`. -/
structure LabelsAt (host : List UInt8) (checkLen pos : ℕ) (ls : List (List UInt8)) : Prop where
  drop : host.drop pos = joined ls ++ host.drop checkLen
  ends : pos + (joined ls).length = checkLen
  le : checkLen ≤ host.length
  trailing : host.drop checkLen = [] ∨ host.drop checkLen = [dot]
  notMem : ∀ l ∈ ls, dot ∉ l

theorem LabelsAt.findFrom_cons (h : LabelsAt host checkLen pos (l :: ls)) (hne : ls ≠ []) :
    findFrom host dot pos = some (pos + l.length) := by
  have hdrop : host.drop pos = l ++ dot :: (joined ls ++ host.drop checkLen) := by
    rw [h.drop, joined, intercalate_cons_of_ne_nil hne, append_assoc]
    rfl
  exact findFrom_append_cons hdrop (h.notMem l mem_cons_self)

theorem LabelsAt.next (h : LabelsAt host checkLen pos (l :: ls)) (hne : ls ≠ []) :
    LabelsAt host checkLen (pos + l.length + 1) ls := by
  have hjoined : joined (l :: ls) = l ++ dot :: joined ls := intercalate_cons_of_ne_nil hne
  have hlen := h.ends
  rw [hjoined, length_append, List.length_cons] at hlen
  refine ⟨?_, by omega, h.le, h.trailing, fun l hl => h.notMem l (List.mem_cons_of_mem _ hl)⟩
  have hdrop := congrArg (List.drop (l.length + 1)) h.drop
  rw [drop_drop, hjoined] at hdrop
  rw [Nat.add_assoc, hdrop]
  simp

theorem LabelsAt.findFrom_singleton (h : LabelsAt host checkLen pos [l]) :
    findFrom host dot pos = none ∨ findFrom host dot pos = some checkLen ∧ host.length = checkLen + 1 := by
  have hdrop := h.drop
  have hlen := h.ends
  have hnot := h.notMem l mem_cons_self
  rw [joined, List.intercalate_singleton] at hdrop hlen
  rcases h.trailing with htail | htail
  · left
    apply findFrom_eq_none
    rwa [hdrop, htail, List.append_nil]
  · right
    have hlast := congrArg List.length htail
    rw [List.length_drop, List.length_singleton] at hlast
    refine ⟨?_, by omega⟩
    rw [htail] at hdrop
    rw [findFrom_append_cons hdrop hnot, hlen]

theorem LabelsAt.length (h : LabelsAt host checkLen pos ls) :
    host.length - pos = (joined ls ++ host.drop checkLen).length := by
  rw [← h.drop, List.length_drop]

theorem strncasecmp_self (s : List UInt8) (n : ℕ) : strncasecmp s (s.take n) n = 0 := by
  induction n generalizing s with
  | zero => rfl
  | succ n ih =>
    cases s with
    | nil => simp [strncasecmp, tolower]
    | cons c s =>
      rw [List.take_succ_cons, strncasecmp]
      simp only [List.headD_cons, List.tail_cons, ih s]
      simp

theorem LabelsAt.ruleAt (h : LabelsAt host checkLen pos ls) (hfinds : Finds rules findDomain)
    (hlen : host.length < 2147483648) :
    ruleAt findDomain host checkLen pos = (rules (joined ls)).map fun type => ⟨joined ls, type.toInt⟩ := by
  have hle := h.le
  have hcheck := h.ends
  have hn : (uint32OfInt (toInt32 (checkLen - pos))).toNat = (joined ls).length := by
    have hval := toNat_uint32OfInt (toInt32 ((checkLen : ℤ) - pos))
    rw [toInt32_of_mem (by omega) (by omega)] at hval ⊢
    omega
  have htake : (host.drop pos).take (joined ls).length = joined ls := by rw [h.drop, take_left]
  have hcmp := strncasecmp_self (host.drop pos) (joined ls).length
  rw [htake] at hcmp
  have hfind := hfinds (host.drop pos) (joined ls).length
  rw [htake] at hfind
  rw [Chromium.Net.ruleAt, hn, hfind]
  cases rules (joined ls) with
  | none => rfl
  | some type => exact if_pos hcmp

def endLength (host : List UInt8) (checkLen : ℕ) (ls : List (List UInt8)) : ℕ :=
  if ls = [] then 0 else (joined ls ++ host.drop checkLen).length

theorem LabelsAt.endLength (h : LabelsAt host checkLen pos ls) (hne : ls ≠ []) :
    host.length - pos = endLength host checkLen ls := by
  rw [h.length, Chromium.Net.endLength, if_neg hne]

/-- The label with the number `k` begins at `pos`. -/
structure LabelBegins (host : List UInt8) (checkLen begin : ℕ) (labels : List (List UInt8)) (k pos : ℕ) : Prop where
  labelsAt : LabelsAt host checkLen pos (labels.drop k)
  lt : k < labels.length
  le : begin ≤ pos
  eq_iff : pos = begin ↔ k = 0
  before : pos = 0 ∨ ∃ front, host.take pos = front ++ [dot]

theorem LabelBegins.ne_nil (h : LabelBegins host checkLen begin labels k pos) : labels.drop k ≠ [] := by
  rw [ne_eq, drop_eq_nil_iff]
  have := h.lt
  omega

theorem LabelBegins.drop_eq (h : LabelBegins host checkLen begin labels k pos) :
    labels.drop k = labels.get ⟨k, h.lt⟩ :: labels.drop (k + 1) := List.drop_eq_getElem_cons h.lt

theorem LabelBegins.findFrom (h : LabelBegins host checkLen begin labels k pos) (hk : k + 1 < labels.length) :
    findFrom host dot pos = some (pos + (labels.get ⟨k, h.lt⟩).length) := by
  have hat := h.labelsAt
  rw [h.drop_eq] at hat
  refine hat.findFrom_cons ?_
  rw [ne_eq, drop_eq_nil_iff]
  omega

theorem LabelBegins.next (h : LabelBegins host checkLen begin labels k pos) (hk : k + 1 < labels.length) :
    LabelBegins host checkLen begin labels (k + 1) (pos + (labels.get ⟨k, h.lt⟩).length + 1) := by
  have hne : labels.drop (k + 1) ≠ [] := by
    rw [ne_eq, drop_eq_nil_iff]
    omega
  have hat := h.labelsAt
  rw [h.drop_eq] at hat
  have hle := h.le
  refine ⟨hat.next hne, hk, by omega, by omega, .inr ?_⟩
  have hdrop := hat.drop
  rw [joined, intercalate_cons_of_ne_nil hne, append_assoc, cons_append] at hdrop
  refine ⟨host.take pos ++ labels.get ⟨k, h.lt⟩, ?_⟩
  rw [Nat.add_assoc, take_add, hdrop, append_assoc]
  congr 1
  rw [List.take_length_add_append]
  rfl

theorem LabelBegins.findFrom_last (h : LabelBegins host checkLen begin labels k pos) (hk : k + 1 = labels.length) :
    Lib.findFrom host dot pos = none ∨ Lib.findFrom host dot pos = some checkLen ∧ host.length = checkLen + 1 := by
  have hat := h.labelsAt
  rw [h.drop_eq, drop_eq_nil_iff.2 (by omega)] at hat
  exact hat.findFrom_singleton

/-- The label in front of the label `k` is known. -/
def PrevBegins (host : List UInt8) (checkLen begin : ℕ) (labels : List (List UInt8)) (k : ℕ) (prev : Option ℕ) : Prop :=
  match k with
  | 0 => prev = none
  | k + 1 => ∃ pos, prev = some pos ∧ LabelBegins host checkLen begin labels k pos

theorem LabelBegins.ruleLength {prev : Option ℕ} (h : LabelBegins host checkLen begin labels k pos)
    (hprev : PrevBegins host checkLen begin labels k prev) (name : List UInt8) (type : RuleType) :
    ruleLength ⟨name, type.toInt⟩ host begin prev pos (Lib.findFrom host dot pos) =
      endLength host checkLen (type.registry labels k) := by
  have hbegin : (if pos = begin then 0 else host.length - pos) =
      Chromium.Net.endLength host checkLen (if k = 0 then [] else labels.drop k) := by
    by_cases hk : k = 0
    · rw [if_pos (h.eq_iff.2 hk), if_pos hk]
      rfl
    · rw [if_neg (mt h.eq_iff.1 hk), if_neg hk, h.labelsAt.endLength h.ne_nil]
  cases type with
  | normal => exact hbegin
  | exception =>
    rw [RuleType.registry]
    by_cases hk : k + 1 < labels.length
    · have hnext := h.next hk
      rw [h.findFrom hk, ← hnext.labelsAt.endLength hnext.ne_nil]
      exact Nat.sub_sub _ _ _
    · have hlast : k + 1 = labels.length := by have := h.lt; omega
      rw [drop_eq_nil_iff.2 (by omega)]
      rcases h.findFrom_last hlast with hnone | ⟨hsome, hlen⟩
      · rw [hnone]
        rfl
      · rw [hsome]
        change host.length - checkLen - 1 = 0
        omega
  | wildcard =>
    rw [RuleType.registry]
    match k, hprev with
    | 0, hprev =>
      rw [hprev]
      exact hbegin
    | k + 1, ⟨p, hp, hbegins⟩ =>
      rw [hp]
      change (if some p = some begin then 0 else host.length - p) = _
      by_cases hk : k = 0
      · rw [if_pos (congrArg some (hbegins.eq_iff.2 hk)), if_pos (by omega)]
        rfl
      · rw [if_neg (fun heq => hk (hbegins.eq_iff.1 (Option.some.inj heq))), if_neg (by omega),
          hbegins.labelsAt.endLength hbegins.ne_nil]
        rfl

theorem walk_eq (hfinds : Finds rules findDomain) (hlen : host.length < 2147483648) (allow : Bool) (fuel : ℕ) :
    ∀ {k pos : ℕ} {prev : Option ℕ}, LabelBegins host checkLen begin labels k pos →
      PrevBegins host checkLen begin labels k prev → (∀ j < k, rules (joined (labels.drop j)) = none) →
      labels.length ≤ k + fuel →
      walk findDomain host allow begin checkLen fuel prev pos (findFrom host dot pos) =
        some (endLength host checkLen
          ((decided rules labels).getD (if allow then labels.drop (labels.length - 1) else []))) := by
  induction fuel with
  | zero =>
    intro k pos prev h _ _ hfuel
    have := h.lt
    omega
  | succ fuel ih =>
    intro k pos prev h hprev hbefore hfuel
    unfold walk
    rw [h.labelsAt.ruleAt hfinds hlen]
    cases hrule : rules (joined (labels.drop k)) with
    | some type =>
      rw [decided_eq_some hbefore h.lt hrule]
      exact congrArg some (h.ruleLength hprev _ type)
    | none =>
      have hnone : ∀ j < k + 1, rules (joined (labels.drop j)) = none := by
        intro j hj
        by_cases hjk : j = k
        · rw [hjk, hrule]
        · exact hbefore j (by omega)
      by_cases hk : k + 1 < labels.length
      · have hnext := h.next hk
        have hends := hnext.labelsAt.ends
        rw [h.findFrom hk]
        change (if checkLen ≤ pos + _ then _ else _) = _
        rw [if_neg (by omega)]
        exact ih hnext ⟨pos, rfl, h⟩ hnone (by omega)
      · have hlast : k + 1 = labels.length := by have := h.lt; omega
        have hunknown : (if allow then host.length - pos else 0) =
            endLength host checkLen (if allow then labels.drop (labels.length - 1) else []) := by
          rw [← hlast, Nat.add_sub_cancel, h.labelsAt.endLength h.ne_nil]
          cases allow <;> rfl
        rw [decided_eq_none fun j hj => hnone j (by omega), Option.getD_none, ← hunknown]
        rcases h.findFrom_last hlast with hdot | ⟨hdot, -⟩
        · rw [hdot]
          rfl
        · rw [hdot]
          change (if checkLen ≤ checkLen then _ else _) = _
          rw [if_pos le_rfl]

/-! ## The parts of a host -/

/-- A host has dots in front, a text that does not begin with a dot, and a dot or nothing behind it. -/
structure HostParts (host : List UInt8) (begin : ℕ) (body tail : List UInt8) : Prop where
  host_eq : host = List.replicate begin dot ++ (body ++ tail)
  head : ∃ c rest, body = c :: rest ∧ c ≠ dot
  tail_eq : tail = [] ∧ body.getLast? ≠ some dot ∨ tail = [dot]

theorem dots_or_parts (host : List UInt8) :
    (∀ c ∈ host, c = dot) ∨ ∃ begin body tail, HostParts host begin body tail := by
  induction host with
  | nil => exact .inl (by simp)
  | cons c host ih =>
    by_cases hc : c = dot
    · subst hc
      rcases ih with hdots | ⟨begin, body, tail, hparts⟩
      · exact .inl (List.forall_mem_cons.2 ⟨rfl, hdots⟩)
      · refine .inr ⟨begin + 1, body, tail, ?_, hparts.head, hparts.tail_eq⟩
        rw [hparts.host_eq]
        rfl
    · right
      rcases List.eq_nil_or_concat host with rfl | ⟨init, last, hlast⟩
      · refine ⟨0, [c], [], by simp, ⟨c, [], rfl, hc⟩, .inl ⟨rfl, ?_⟩⟩
        simpa using hc
      · rw [List.concat_eq_append] at hlast
        subst hlast
        by_cases hl : last = dot
        · exact ⟨0, c :: init, [dot], by simp [hl], ⟨c, init, rfl, hc⟩, .inr rfl⟩
        · refine ⟨0, c :: (init ++ [last]), [], by simp, ⟨c, _, rfl, hc⟩, .inl ⟨rfl, ?_⟩⟩
          rw [← cons_append, List.getLast?_concat]
          exact fun heq => hl (Option.some.inj heq)

variable {body tail : List UInt8}

theorem HostParts.ne_nil (h : HostParts host begin body tail) : body ≠ [] := by
  obtain ⟨c, rest, hbody, -⟩ := h.head
  rw [hbody]
  exact List.cons_ne_nil _ _

theorem HostParts.findIdx? (h : HostParts host begin body tail) : host.findIdx? (· != dot) = some begin := by
  obtain ⟨c, rest, hbody, hc⟩ := h.head
  have hdots : (List.replicate begin dot).findIdx? (· != dot) = none := by
    rw [List.findIdx?_eq_none_iff]
    intro x hx
    rw [List.eq_of_mem_replicate hx]
    rfl
  have hcons : (c :: (rest ++ tail)).findIdx? (· != dot) = some 0 := by
    rw [List.findIdx?_cons, if_pos (by simpa using hc)]
  rw [h.host_eq, List.findIdx?_append, hdots, hbody, cons_append, hcons]
  simp

theorem HostParts.checkedHost (h : HostParts host begin body tail) : checkedHost host = body ++ tail := by
  obtain ⟨c, rest, hbody, hc⟩ := h.head
  rw [h.host_eq, Chromium.Net.checkedHost, List.dropWhile_append_of_pos, hbody, cons_append,
    List.dropWhile_cons_of_neg (by simpa using hc)]
  intro x hx
  rw [List.eq_of_mem_replicate hx]
  rfl

theorem HostParts.getLast? (h : HostParts host begin body tail) : host.getLast? = (body ++ tail).getLast? := by
  rw [h.host_eq, List.getLast?_append]
  cases hlast : (body ++ tail).getLast? with
  | none =>
    rw [List.getLast?_eq_none_iff, List.append_eq_nil_iff] at hlast
    exact absurd hlast.1 h.ne_nil
  | some c => rfl

theorem HostParts.getLast?_eq_iff (h : HostParts host begin body tail) :
    (body ++ tail).getLast? = some dot ↔ tail = [dot] := by
  rcases h.tail_eq with ⟨htail, hbody⟩ | htail
  · subst htail
    rw [List.append_nil]
    exact ⟨fun heq => absurd heq hbody, nofun⟩
  · subst htail
    simp

theorem HostParts.trailingDot (h : HostParts host begin body tail) : trailingDot host = tail := by
  have hiff := h.getLast?_eq_iff
  rw [Chromium.Net.trailingDot, h.checkedHost]
  rcases h.tail_eq with ⟨htail, -⟩ | htail
  · rw [if_neg (by rw [hiff, htail]; simp), htail]
  · rw [if_pos (hiff.2 htail), htail]

theorem HostParts.hostLabels (h : HostParts host begin body tail) : hostLabels host = body.splitOn dot := by
  rw [Chromium.Net.hostLabels, h.checkedHost, h.trailingDot, length_append, Nat.add_sub_cancel, take_left]

theorem HostParts.labelBegins (h : HostParts host begin body tail) :
    LabelBegins host (begin + body.length) begin (body.splitOn dot) 0 begin := by
  have hdrop : ∀ n, host.drop (begin + n) = (body ++ tail).drop n := by
    intro n
    rw [← drop_drop, h.host_eq, drop_left' (length_replicate)]
  have htail : host.drop (begin + body.length) = tail := by rw [hdrop, drop_left]
  have hbody : joined (body.splitOn dot) = body := List.intercalate_splitOn dot
  have hlen := congrArg List.length h.host_eq
  simp only [length_append, length_replicate] at hlen
  refine ⟨⟨?_, ?_, by omega, ?_, notMem_of_mem_splitOn body⟩, length_pos_iff.2 (List.splitOn_ne_nil dot body),
    Nat.le_refl _, by simp, ?_⟩
  · rw [List.drop_zero, hbody, htail]
    exact hdrop 0
  · rw [List.drop_zero, hbody]
  · rw [htail]
    exact h.tail_eq.imp And.left id
  · cases begin with
    | zero => exact .inl rfl
    | succ n =>
      refine .inr ⟨List.replicate n dot, ?_⟩
      rw [h.host_eq, List.take_left' length_replicate, List.replicate_succ']

theorem getLast?_splitOn_eq_iff (s : List UInt8) :
    (s.splitOn dot).getLast? = some [] ↔ s = [] ∨ s.getLast? = some dot := by
  induction hn : s.length using Nat.strong_induction_on generalizing s with
  | _ n ih =>
    obtain ⟨part, hpart, rfl | ⟨rest, rfl⟩⟩ := exists_part dot s
    · rw [List.splitOn_eq_singleton hpart, List.getLast?_singleton, Option.some_inj]
      refine ⟨.inl, fun hor => hor.resolve_right ?_⟩
      exact fun hlast => hpart (List.mem_of_getLast? hlast)
    · have hrest := ih rest.length (by subst hn; simp; omega) rest rfl
      rw [List.splitOn_append_cons_self_of_not_mem hpart]
      obtain ⟨l, ls, hls⟩ := List.exists_cons_of_ne_nil (List.splitOn_ne_nil dot rest)
      have hlast : (part :: rest.splitOn dot).getLast? = (rest.splitOn dot).getLast? := by
        rw [hls, List.getLast?_cons_cons]
      rw [hlast, hrest]
      cases rest with
      | nil => simp
      | cons c rest => simp [List.getLast?_append, List.getLast?_cons_cons]

theorem HostParts.two_dots_iff (h : HostParts host begin body tail) :
    (host.getLast? = some dot ∧ host.dropLast.getLast? = some dot) ↔ body.getLast? = some dot := by
  rw [h.getLast?, h.getLast?_eq_iff]
  rcases h.tail_eq with ⟨htail, hbody⟩ | htail
  · exact ⟨fun hand => (nomatch htail.symm.trans hand.1), fun hlast => absurd hlast hbody⟩
  · have hdropLast : host.dropLast.getLast? = body.getLast? := by
      rw [h.host_eq, htail, ← append_assoc, List.dropLast_concat, List.getLast?_append_of_ne_nil _ h.ne_nil]
    rw [hdropLast]
    exact ⟨And.right, fun hlast => ⟨htail, hlast⟩⟩

theorem HostParts.hostCheckLen (h : HostParts host begin body tail) :
    (if host.getLast? = some dot then host.length - 1 else host.length) = begin + body.length := by
  have hlen := congrArg List.length h.host_eq
  simp only [length_append, length_replicate] at hlen
  have hiff := h.getLast?_eq_iff
  rw [← h.getLast?] at hiff
  rcases h.tail_eq with ⟨htail, -⟩ | htail
  · rw [htail, List.length_nil] at hlen
    rw [if_neg (by rw [hiff, htail]; simp), hlen, Nat.add_zero]
  · rw [htail, List.length_singleton] at hlen
    rw [if_pos (hiff.2 htail), hlen]
    omega

theorem HostParts.length_hostEnd (h : HostParts host begin body tail) (ls : List (List UInt8)) :
    (hostEnd host ls).length = endLength host (begin + body.length) ls := by
  have htail : host.drop (begin + body.length) = tail := by
    rw [← drop_drop, h.host_eq, drop_left' length_replicate, drop_left]
  rw [Chromium.Net.hostEnd, Chromium.Net.endLength, h.trailingDot, htail]
  split <;> rfl

/-- **The length of the registry**, on a host that is not only dots. -/
theorem HostParts.getRegistryLengthImpl (h : HostParts host begin body tail) (hfinds : Finds rules findDomain)
    (hlen : host.length < 2147483648) (allow : Bool) :
    getRegistryLengthImpl findDomain host allow =
      some (endLength host (begin + body.length) (registry rules allow (body.splitOn dot))) := by
  have hbegins := h.labelBegins
  have hone := length_pos_iff.2 (List.splitOn_ne_nil dot body)
  rw [Chromium.Net.getRegistryLengthImpl, h.findIdx?]
  simp only [h.two_dots_iff, h.hostCheckLen]
  by_cases hlast : body.getLast? = some dot
  · rw [if_pos hlast, registry, if_pos (.inr ((getLast?_splitOn_eq_iff body).2 (.inr hlast)))]
    rfl
  · have hne : (body.splitOn dot).getLast? ≠ some [] := by
      rw [ne_eq, getLast?_splitOn_eq_iff]
      exact not_or.2 ⟨h.ne_nil, hlast⟩
    rw [if_neg hlast]
    by_cases hk : 0 + 1 < (body.splitOn dot).length
    · have hends := (hbegins.next hk).labelsAt.ends
      have hall : ¬(findFrom host dot begin).all (begin + body.length ≤ ·) = true := by
        rw [hbegins.findFrom hk, Option.all_some, decide_eq_true_eq]
        omega
      have hparts := length_splitOn_le dot body
      have hle := hbegins.labelsAt.le
      rw [if_neg hall, registry, if_neg (not_or.2 ⟨by omega, hne⟩)]
      exact walk_eq hfinds hlen allow _ hbegins rfl (by simp) (by omega)
    · have hall : (findFrom host dot begin).all (begin + body.length ≤ ·) = true := by
        rcases hbegins.findFrom_last (by omega) with hnone | ⟨hsome, -⟩
        · rw [hnone]
          rfl
        · rw [hsome, Option.all_some, decide_eq_true_eq]
      rw [if_pos hall, registry, if_pos (.inl (by omega))]
      rfl

theorem registry_eq_drop (rules : RuleTable) (allow : Bool) (labels : List (List UInt8))
    (hne : registry rules allow labels ≠ []) :
    labels.getLast? ≠ some [] ∧
      ∃ k, k + 1 < labels.length ∧ registry rules allow labels = labels.drop (k + 1) := by
  have hdrop : ∀ k, labels.drop k ≠ [] → k ≠ 0 → ∃ j, j + 1 < labels.length ∧ labels.drop k = labels.drop (j + 1) := by
    intro k hk h0
    rw [ne_eq, drop_eq_nil_iff] at hk
    exact ⟨k - 1, by omega, by rw [Nat.sub_add_cancel (by omega)]⟩
  have htype : ∀ (type : RuleType) (k : ℕ), type.registry labels k ≠ [] →
      ∃ j, j + 1 < labels.length ∧ type.registry labels k = labels.drop (j + 1) := by
    intro type k
    cases type with
    | normal =>
      rw [RuleType.registry]
      split
      · exact fun h => absurd rfl h
      · exact fun h => hdrop k h ‹_›
    | exception => exact fun h => hdrop (k + 1) h (by omega)
    | wildcard =>
      rw [RuleType.registry]
      split
      · exact fun h => absurd rfl h
      · exact fun h => hdrop (k - 1) h (by omega)
  by_cases hone : labels.length ≤ 1 ∨ labels.getLast? = some []
  · rw [registry, if_pos hone] at hne
    exact absurd rfl hne
  · rw [registry, if_neg hone] at hne ⊢
    rw [not_or] at hone
    refine ⟨hone.2, ?_⟩
    cases hdecided : decided rules labels with
    | none =>
      rw [hdecided, Option.getD_none] at hne
      rw [Option.getD_none]
      cases allow with
      | false => exact absurd rfl hne
      | true => exact hdrop _ hne (by omega)
    | some ls =>
      rw [hdecided, Option.getD_some] at hne
      rw [Option.getD_some]
      obtain ⟨k, -, hk⟩ := List.exists_of_findSome?_eq_some hdecided
      obtain ⟨type, -, rfl⟩ := Option.map_eq_some_iff.1 hk
      exact htype type k hne

theorem LabelBegins.exists (h : LabelBegins host checkLen begin labels 0 pos) :
    ∀ k < labels.length, ∃ p, LabelBegins host checkLen begin labels k p := by
  intro k
  induction k with
  | zero => exact fun _ => ⟨pos, h⟩
  | succ k ih =>
    intro hk
    obtain ⟨p, hp⟩ := ih (by omega)
    exact ⟨_, hp.next hk⟩

/-- **One label in front of the others** is found from the length of the others. -/
theorem LabelBegins.findBack (h : LabelBegins host checkLen begin labels k pos) (hk : k + 1 < labels.length)
    {back : ℕ} (hback : back + 1 = pos + (labels.get ⟨k, h.lt⟩).length) :
    (match findBack host dot back with | none => host | some place => host.drop (place + 1)) = host.drop pos := by
  have hne : labels.drop (k + 1) ≠ [] := by
    rw [ne_eq, drop_eq_nil_iff]
    omega
  have hnot := h.labelsAt.notMem (labels.get ⟨k, h.lt⟩) (by rw [h.drop_eq]; exact mem_cons_self)
  have htake : host.take (back + 1) = host.take pos ++ labels.get ⟨k, h.lt⟩ := by
    have hdrop := h.labelsAt.drop
    rw [h.drop_eq, joined, intercalate_cons_of_ne_nil hne, append_assoc] at hdrop
    rw [hback, take_add, hdrop, take_left]
  generalize labels.get ⟨k, h.lt⟩ = l at hnot htake
  rcases h.before with hzero | ⟨front, hfront⟩
  · rw [hzero, List.take_zero, List.nil_append] at htake
    rw [findBack_eq_none (by rwa [htake]), hzero]
    rfl
  · rw [hfront, append_assoc, List.singleton_append] at htake
    have hlen := congrArg List.length hfront
    have hle := h.labelsAt.ends
    have hle' := h.labelsAt.le
    rw [List.length_take, length_append, List.length_singleton, Nat.min_eq_left (by omega)] at hlen
    rw [findBack_append_cons htake hnot, hlen]

theorem sizeSub_of_le {a b : ℕ} (hb : b ≤ a) (ha : a < 2147483648) : sizeSub a b = a - b := by
  unfold sizeSub
  omega

theorem HostParts.head_ne_nil (h : HostParts host begin body tail) : (body.splitOn dot)[0]? ≠ some [] := by
  obtain ⟨c, rest, hbody, hc⟩ := h.head
  rw [hbody, List.splitOn_cons_eq_if_modifyHead, if_neg (by simpa using hc)]
  cases rest.splitOn dot <;> simp

theorem hostEnd_drop_eq (h : HostParts host begin body tail)
    (hbegins : LabelBegins host (begin + body.length) begin (body.splitOn dot) k pos) :
    hostEnd host ((body.splitOn dot).drop k) = host.drop pos := by
  have htail : host.drop (begin + body.length) = tail := by
    rw [← drop_drop, h.host_eq, drop_left' length_replicate, drop_left]
  rw [hostEnd, if_neg hbegins.ne_nil, h.trailingDot, hbegins.labelsAt.drop, htail]

theorem joined_ne_nil (hne : ls ≠ []) (hlast : ls.getLast? ≠ some []) : joined ls ≠ [] := by
  match ls, hne with
  | [l], _ =>
    rw [joined, List.intercalate_singleton]
    rintro rfl
    exact hlast rfl
  | l :: l' :: ls, _ =>
    rw [joined, intercalate_cons_of_ne_nil (by simp)]
    simp

/-- **The domain and registry**: one label in front of the registry. -/
theorem HostParts.getDomainAndRegistryImpl (h : HostParts host begin body tail) (hfinds : Finds rules findDomain)
    (hlen : host.length < 2147483648) (hk : k + 1 < (body.splitOn dot).length)
    (hname : (body.splitOn dot).getLast? ≠ some [])
    (hregistry : registry rules true (body.splitOn dot) = (body.splitOn dot).drop (k + 1)) :
    getDomainAndRegistryImpl findDomain host = some (hostEnd host ((body.splitOn dot).drop k)) := by
  obtain ⟨pos, hpos⟩ := h.labelBegins.exists k (by omega)
  have hnext := hpos.next hk
  have hends := hpos.labelsAt.ends
  have hle := hpos.labelsAt.le
  have hbehind := hnext.labelsAt.ends
  have hlast : 0 < pos + ((body.splitOn dot).get ⟨k, hpos.lt⟩).length := by
    rcases Nat.eq_zero_or_pos k with rfl | hk0
    · have hfirst := h.head_ne_nil
      rw [List.getElem?_eq_getElem hpos.lt, ne_eq, Option.some_inj] at hfirst
      have : 0 < ((body.splitOn dot).get ⟨0, hpos.lt⟩).length := length_pos_iff.2 hfirst
      omega
    · have hne := mt hpos.eq_iff.1 (by omega)
      have := hpos.le
      omega
  have hlength : 0 < (joined ((body.splitOn dot).drop (k + 1))).length := by
    rw [length_pos_iff]
    refine joined_ne_nil hnext.ne_nil ?_
    rwa [List.getLast?_drop, if_neg (by omega)]
  have hback : sizeSub (sizeSub host.length
      (host.length - (pos + ((body.splitOn dot).get ⟨k, hpos.lt⟩).length + 1))) 2 + 1 =
      pos + ((body.splitOn dot).get ⟨k, hpos.lt⟩).length := by
    rw [sizeSub_of_le (Nat.sub_le _ _) hlen, sizeSub_of_le (by omega) (by omega)]
    omega
  rw [Chromium.Net.getDomainAndRegistryImpl, h.getRegistryLengthImpl hfinds hlen true, hregistry,
    ← hnext.labelsAt.endLength hnext.ne_nil, Option.map_some, hostEnd_drop_eq h hpos, if_neg (by omega),
    if_neg (by rw [sizeSub_of_le (by omega) hlen]; omega), hpos.findBack hk hback]

end

/-- **The registry of a host** is the public suffix of its labels, and the domain is one label more. -/
theorem registry_of_host (rules : RuleTable) (findDomain : FindDomain) (hfinds : Finds rules findDomain)
    (host : List UInt8) (hlen : host.length < 2147483648) (allowUnknown : Bool) :
    getRegistryLengthImpl findDomain host allowUnknown =
        some (hostEnd host (registry rules allowUnknown (hostLabels host))).length ∧
      (registry rules true (hostLabels host) = [] ∧ getDomainAndRegistryImpl findDomain host = some [] ∨
        registry rules true (hostLabels host) ≠ [] ∧
          ∃ label, label :: registry rules true (hostLabels host) <:+ hostLabels host ∧
            getDomainAndRegistryImpl findDomain host =
              some (hostEnd host (label :: registry rules true (hostLabels host))) ∧
            hostEnd host (label :: registry rules true (hostLabels host)) <:+ host) := by
  rcases dots_or_parts host with hdots | ⟨begin, body, tail, hparts⟩
  · have hchecked : checkedHost host = [] := by
      rw [checkedHost, List.dropWhile_eq_nil_iff]
      intro c hc
      rw [hdots c hc]
      rfl
    have hlabels : hostLabels host = [[]] := by
      rw [hostLabels, hchecked, List.take_nil, List.splitOn_nil]
    have hlength : ∀ allow, getRegistryLengthImpl findDomain host allow = some 0 := by
      intro allow
      have hfind : host.findIdx? (· != dot) = none := by
        rw [List.findIdx?_eq_none_iff]
        intro c hc
        rw [hdots c hc]
        rfl
      rw [getRegistryLengthImpl, hfind]
    rw [hlabels, hlength, getDomainAndRegistryImpl, hlength]
    exact ⟨rfl, .inl ⟨rfl, rfl⟩⟩
  · rw [hparts.hostLabels, hparts.length_hostEnd, hparts.getRegistryLengthImpl hfinds hlen]
    refine ⟨rfl, ?_⟩
    by_cases hne : registry rules true (body.splitOn dot) = []
    · refine .inl ⟨hne, ?_⟩
      rw [getDomainAndRegistryImpl, hparts.getRegistryLengthImpl hfinds hlen, hne]
      rfl
    · obtain ⟨hname, k, hk, hregistry⟩ := registry_eq_drop rules true _ hne
      obtain ⟨pos, hpos⟩ := hparts.labelBegins.exists k (by omega)
      refine .inr ⟨hne, (body.splitOn dot).get ⟨k, hpos.lt⟩, ?_⟩
      rw [hregistry, ← hpos.drop_eq]
      refine ⟨List.drop_suffix _ _, hparts.getDomainAndRegistryImpl hfinds hlen hk hname hregistry, ?_⟩
      rw [hostEnd_drop_eq hparts hpos]
      exact List.drop_suffix _ _

/-- The rules `jp`, `*.bar.jp` and `!pref.bar.jp`. -/
def japaneseRules : RuleTable := fun s =>
  if s = [106, 112] then some .normal
  else if s = [98, 97, 114, 46, 106, 112] then some .wildcard
  else if s = [112, 114, 101, 102, 46, 98, 97, 114, 46, 106, 112] then some .exception
  else none

/-- The registry of `baz.pref.bar.jp` is `bar.jp`, and the domain has one label more. -/
theorem registry_of_host_exception : ∃ findDomain, getRegistryLengthImpl findDomain
        [98, 97, 122, 46, 112, 114, 101, 102, 46, 98, 97, 114, 46, 106, 112] false = some 6 ∧
      ∃ label, getDomainAndRegistryImpl findDomain
          [98, 97, 122, 46, 112, 114, 101, 102, 46, 98, 97, 114, 46, 106, 112] =
        some (hostEnd [98, 97, 122, 46, 112, 114, 101, 102, 46, 98, 97, 114, 46, 106, 112]
          [label, [98, 97, 114], [106, 112]]) := by
  refine ⟨fun s n => (japaneseRules (s.take n)).map fun type => ⟨s.take n, type.toInt⟩, ?_⟩
  obtain ⟨hlength, ⟨hnil, -⟩ | ⟨-, label, -, hdomain, -⟩⟩ := registry_of_host japaneseRules
    (fun s n => (japaneseRules (s.take n)).map fun type => ⟨s.take n, type.toInt⟩) (fun _ _ => rfl)
    [98, 97, 122, 46, 112, 114, 101, 102, 46, 98, 97, 114, 46, 106, 112] (by decide) false
  · exact absurd hnil (by decide)
  · refine ⟨hlength.trans (by decide), label, hdomain.trans ?_⟩
    exact congrArg (fun ls => some (hostEnd _ (label :: ls))) (by decide)

end Chromium.Net
