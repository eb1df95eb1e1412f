import Mathlib.Data.List.Basic
import Mathlib.Data.UInt

/-!
# The header of gzip data

`net/base/gzip_header.cc`.  What a header still needs is the same however much of it came in earlier buffers: `expect`
reads a stream from any state of the machine, and a buffer leaves the machine in a state that reads the rest of the
stream as it would have been read (`readMore_expect`).
-/

namespace Chromium.Net

inductive GZipState
  | IN_HEADER_ID1 | IN_HEADER_ID2 | IN_HEADER_CM | IN_HEADER_FLG
  | IN_HEADER_MTIME_BYTE_0 | IN_HEADER_MTIME_BYTE_1 | IN_HEADER_MTIME_BYTE_2 | IN_HEADER_MTIME_BYTE_3
  | IN_HEADER_XFL | IN_HEADER_OS
  | IN_XLEN_BYTE_0 | IN_XLEN_BYTE_1 | IN_FEXTRA | IN_FNAME | IN_FCOMMENT | IN_FHCRC_BYTE_0 | IN_FHCRC_BYTE_1 | IN_DONE
  deriving DecidableEq

inductive GZipStatus
  | INCOMPLETE_HEADER | COMPLETE_HEADER | INVALID_HEADER
  deriving DecidableEq

def FLAG_FHCRC : UInt8 := 0x02

def FLAG_FEXTRA : UInt8 := 0x04

def FLAG_FNAME : UInt8 := 0x08

def FLAG_FCOMMENT : UInt8 := 0x10

structure GZipHeader where
  state : GZipState
  flags : UInt8
  extraLength : ℕ

namespace GZipHeader

open GZipState GZipStatus

/-- `Reset`. -/
def new : GZipHeader := ⟨IN_HEADER_ID1, 0, 0⟩

/-- A turn of the loop: it returns, or leaves these bytes. -/
inductive Turn
  | invalid
  | complete
  | goOn (s : GZipHeader) (pos : List UInt8)

/-- `IN_FEXTRA`. -/
def readExtra (s : GZipHeader) (pos : List UInt8) : Turn :=
  let numExtraBytes := min s.extraLength pos.length
  let extraLength := s.extraLength - numExtraBytes
  if extraLength = 0 then .goOn ⟨IN_FNAME, s.flags &&& ~~~FLAG_FEXTRA, extraLength⟩ (pos.drop numExtraBytes)
  else .goOn { s with extraLength } (pos.drop numExtraBytes)

/-- `IN_FNAME` and `IN_FCOMMENT`: without the flag there is no field, and else it ends with a zero. -/
def readString (s : GZipHeader) (flag : UInt8) (next : GZipState) (pos : List UInt8) : Turn :=
  if s.flags &&& flag = 0 then .goOn { s with state := next } pos
  else
    match pos.dropWhile (· ≠ 0) with
    | [] => .goOn s []
    | _ :: rest => .goOn { s with state := next, flags := s.flags &&& ~~~flag } rest

def turn (s : GZipHeader) (b : UInt8) (rest : List UInt8) : Turn :=
  match s.state with
  | IN_HEADER_ID1 => if b ≠ 0x1f then .invalid else .goOn { s with state := IN_HEADER_ID2 } rest
  | IN_HEADER_ID2 => if b ≠ 0x8b then .invalid else .goOn { s with state := IN_HEADER_CM } rest
  | IN_HEADER_CM => if b ≠ 8 then .invalid else .goOn { s with state := IN_HEADER_FLG } rest
  | IN_HEADER_FLG =>
    let flags := b &&& (FLAG_FHCRC ||| FLAG_FEXTRA ||| FLAG_FNAME ||| FLAG_FCOMMENT)
    .goOn { s with state := IN_HEADER_MTIME_BYTE_0, flags } rest
  | IN_HEADER_MTIME_BYTE_0 => .goOn { s with state := IN_HEADER_MTIME_BYTE_1 } rest
  | IN_HEADER_MTIME_BYTE_1 => .goOn { s with state := IN_HEADER_MTIME_BYTE_2 } rest
  | IN_HEADER_MTIME_BYTE_2 => .goOn { s with state := IN_HEADER_MTIME_BYTE_3 } rest
  | IN_HEADER_MTIME_BYTE_3 => .goOn { s with state := IN_HEADER_XFL } rest
  | IN_HEADER_XFL => .goOn { s with state := IN_HEADER_OS } rest
  | IN_HEADER_OS => .goOn { s with state := IN_XLEN_BYTE_0 } rest
  | IN_XLEN_BYTE_0 =>
    if s.flags &&& FLAG_FEXTRA = 0 then .goOn { s with state := IN_FNAME } (b :: rest)
    else .goOn { s with state := IN_XLEN_BYTE_1, extraLength := b.toNat } rest
  | IN_XLEN_BYTE_1 => readExtra { s with state := IN_FEXTRA, extraLength := s.extraLength + b.toNat * 256 } rest
  | IN_FEXTRA => s.readExtra (b :: rest)
  | IN_FNAME => s.readString FLAG_FNAME IN_FCOMMENT (b :: rest)
  | IN_FCOMMENT => s.readString FLAG_FCOMMENT IN_FHCRC_BYTE_0 (b :: rest)
  | IN_FHCRC_BYTE_0 =>
    if s.flags &&& FLAG_FHCRC = 0 then .goOn { s with state := IN_DONE } (b :: rest)
    else .goOn { s with state := IN_FHCRC_BYTE_1 } rest
  | IN_FHCRC_BYTE_1 => .goOn { s with state := IN_DONE, flags := s.flags &&& ~~~FLAG_FHCRC } rest
  | IN_DONE => .complete

/-- `state_ > IN_HEADER_OS`. -/
def pastFixed (s : GZipHeader) : Bool := IN_HEADER_OS.ctorIdx < s.state.ctorIdx

theorem turn_lt {s s' : GZipHeader} {b : UInt8} {rest pos : List UInt8} (h : s.turn b rest = .goOn s' pos) :
    pos.length ≤ (b :: rest).length ∧ pos.length + (IN_DONE.ctorIdx - s'.state.ctorIdx) <
      (b :: rest).length + (IN_DONE.ctorIdx - s.state.ctorIdx) := by
  have hdrop := ((b :: rest).dropWhile_sublist (· ≠ 0)).length_le
  obtain ⟨state, flags, n⟩ := s
  cases state <;> simp only [turn, readExtra, readString] at h <;> grind [GZipState.ctorIdx]

/-- The status, the machine, and what is behind `pos`.  A turn takes a byte or goes on to a later state. -/
def readMore (s : GZipHeader) (inbuf : List UInt8) : GZipStatus × GZipHeader × List UInt8 :=
  match inbuf with
  | [] => (if s.pastFixed ∧ s.flags = 0 then COMPLETE_HEADER else INCOMPLETE_HEADER, s, [])
  | b :: rest =>
    match _h : s.turn b rest with
    | .invalid => (INVALID_HEADER, s, b :: rest)
    | .complete => (COMPLETE_HEADER, s, b :: rest)
    | .goOn s' pos => s'.readMore pos
termination_by inbuf.length + (IN_DONE.ctorIdx - s.state.ctorIdx)
decreasing_by exact (turn_lt _h).2

/-- `ReadMore` on the buffers in order, until the header is complete or invalid: the status, and all the bytes up to
`header_end`. -/
def feed (s : GZipHeader) (total : ℕ) : List (List UInt8) → GZipStatus × Option ℕ
  | [] => (INCOMPLETE_HEADER, none)
  | inbuf :: bufs =>
    match s.readMore inbuf with
    | (INCOMPLETE_HEADER, s, _) => s.feed (total + inbuf.length) bufs
    | (COMPLETE_HEADER, _, pos) => (COMPLETE_HEADER, some (total + (inbuf.length - pos.length)))
    | (INVALID_HEADER, _, _) => (INVALID_HEADER, none)

/-- What a stream is: an invalid header, the start of a header, or a header and more bytes. -/
inductive Stream
  | invalid
  | incomplete
  | complete (rest : List UInt8)

abbrev Reader : Type := List UInt8 → Stream

def magic (c : UInt8) (k : Reader) : Reader
  | [] => .incomplete
  | b :: l => if b ≠ c then .invalid else k l

def byte (k : UInt8 → Reader) : Reader
  | [] => .incomplete
  | b :: l => k b l

def skip (n : ℕ) (k : Reader) (l : List UInt8) : Stream :=
  if l.length < n then .incomplete else k (l.drop n)

def text (k : Reader) (l : List UInt8) : Stream :=
  match l.dropWhile (· ≠ 0) with
  | [] => .incomplete
  | _ :: l => k l

def field (flags flag : UInt8) (read : Reader → Reader) (k : Reader) : Reader :=
  if flags &&& flag = 0 then k else read k

def fhcrc (flags : UInt8) : Reader := field flags FLAG_FHCRC (skip 2) .complete

def fcomment (flags : UInt8) : Reader := field flags FLAG_FCOMMENT text (fhcrc flags)

def fname (flags : UInt8) : Reader := field flags FLAG_FNAME text (fcomment flags)

def extraField (k : Reader) : Reader :=
  byte fun lo => byte fun hi => skip (lo.toNat + hi.toNat * 256) k

def fextra (flags : UInt8) : Reader := field flags FLAG_FEXTRA extraField (fname flags)

def flg : Reader :=
  byte fun b => skip 6 (fextra (b &&& (FLAG_FHCRC ||| FLAG_FEXTRA ||| FLAG_FNAME ||| FLAG_FCOMMENT)))

def expect (s : GZipHeader) : Reader :=
  match s.state with
  | IN_HEADER_ID1 => magic 0x1f (magic 0x8b (magic 8 flg))
  | IN_HEADER_ID2 => magic 0x8b (magic 8 flg)
  | IN_HEADER_CM => magic 8 flg
  | IN_HEADER_FLG => flg
  | IN_HEADER_MTIME_BYTE_0 => skip 6 (fextra s.flags)
  | IN_HEADER_MTIME_BYTE_1 => skip 5 (fextra s.flags)
  | IN_HEADER_MTIME_BYTE_2 => skip 4 (fextra s.flags)
  | IN_HEADER_MTIME_BYTE_3 => skip 3 (fextra s.flags)
  | IN_HEADER_XFL => skip 2 (fextra s.flags)
  | IN_HEADER_OS => skip 1 (fextra s.flags)
  | IN_XLEN_BYTE_0 => fextra s.flags
  | IN_XLEN_BYTE_1 => byte fun hi => skip (s.extraLength + hi.toNat * 256) (fname s.flags)
  | IN_FEXTRA => skip s.extraLength (fname s.flags)
  | IN_FNAME => fname s.flags
  | IN_FCOMMENT => fcomment s.flags
  | IN_FHCRC_BYTE_0 => fhcrc s.flags
  | IN_FHCRC_BYTE_1 => skip 1 .complete
  | IN_DONE => .complete

def mask : GZipState → UInt8
  | IN_HEADER_ID1 | IN_HEADER_ID2 | IN_HEADER_CM | IN_HEADER_FLG | IN_DONE => 0
  | IN_FNAME => 0x1a
  | IN_FCOMMENT => 0x12
  | IN_FHCRC_BYTE_0 | IN_FHCRC_BYTE_1 => 0x02
  | _ => 0x1e

/-- The invariant of the machine: a flag is set as long as its field is not behind. -/
structure Ok (s : GZipHeader) : Prop where
  mask : s.flags &&& mask s.state = s.flags
  inField : match s.state with
    | IN_XLEN_BYTE_1 => s.flags &&& FLAG_FEXTRA ≠ 0
    | IN_FEXTRA => s.flags &&& FLAG_FEXTRA ≠ 0 ∧ 0 < s.extraLength
    | IN_FHCRC_BYTE_1 => s.flags ≠ 0
    | _ => True

variable (k : Reader)

theorem skip_zero : skip 0 k = k := rfl

theorem skip_cons (n : ℕ) (b : UInt8) (l : List UInt8) : skip (n + 1) k (b :: l) = skip n k l := by
  simp only [skip, List.length_cons, Nat.add_lt_add_iff_right, List.drop_succ_cons]

theorem skip_append (n : ℕ) (pos q : List UInt8) :
    skip n k (pos ++ q) = skip (n - min n pos.length) k (pos.drop (min n pos.length) ++ q) := by
  induction pos generalizing n with
  | nil => simp
  | cons b pos ih =>
    cases n with
    | zero => simp
    | succ n => rw [List.cons_append, skip_cons, ih, List.length_cons, Nat.succ_min_succ, List.drop_succ_cons,
        Nat.add_sub_add_right]

theorem text_append (pos q : List UInt8) : text k (pos ++ q) = match pos.dropWhile (· ≠ 0) with
    | [] => text k q
    | _ :: rest => k (rest ++ q) := by
  rw [text, List.dropWhile_append]
  cases pos.dropWhile (· ≠ 0) <;> rfl

theorem fname_without_fextra (flags : UInt8) : fname (flags &&& ~~~FLAG_FEXTRA) = fname flags := by
  simp only [fname, fcomment, fhcrc, field, UInt8.and_assoc]
  rfl

theorem fcomment_without_fname (flags : UInt8) : fcomment (flags &&& ~~~FLAG_FNAME) = fcomment flags := by
  simp only [fcomment, fhcrc, field, UInt8.and_assoc]
  rfl

theorem fhcrc_without_fcomment (flags : UInt8) : fhcrc (flags &&& ~~~FLAG_FCOMMENT) = fhcrc flags := by
  simp only [fhcrc, field, UInt8.and_assoc]
  rfl

theorem mask_clear {flags m c n : UInt8} (h : flags &&& m = flags) (hm : m &&& c = n) :
    flags &&& c &&& n = flags &&& c := by
  have hc : flags &&& c = flags &&& n := by rw [← hm, ← UInt8.and_assoc, h]
  rw [hc, UInt8.and_assoc, UInt8.and_self]

theorem mask_unset {flags m c n : UInt8} (h : flags &&& m = flags) (hm : m = n ||| c) (h0 : flags &&& c = 0) :
    flags &&& n = flags := by
  have hor : flags &&& (n ||| c) = flags &&& n ||| flags &&& c := UInt8.toBitVec_inj.1 BitVec.and_or_distrib_left
  rw [hm, hor, h0, UInt8.or_zero] at h
  exact h

def Turn.Keeps (s : GZipHeader) (pos : List UInt8) : Turn → Prop
  | .invalid => ∀ q, s.expect (pos ++ q) = .invalid
  | .complete => ∀ q, s.expect (pos ++ q) = .complete (pos ++ q)
  | .goOn s' pos' => Ok s' ∧ ∀ q, s.expect (pos ++ q) = s'.expect (pos' ++ q)

variable {s : GZipHeader}

theorem readExtra_keeps {flags : UInt8} {n : ℕ} {pos pos' : List UInt8}
    (hmask : flags &&& 0x1e = flags) (hset : flags &&& FLAG_FEXTRA ≠ 0)
    (hexpect : ∀ q, s.expect (pos' ++ q) = skip n (fname flags) (pos ++ q)) :
    (readExtra ⟨IN_FEXTRA, flags, n⟩ pos).Keeps s pos' := by
  dsimp only [readExtra]
  split_ifs with h0
  · refine ⟨⟨mask_clear (n := 0x1a) hmask (by decide), trivial⟩, fun q => ?_⟩
    rw [hexpect, skip_append, h0, skip_zero]
    exact congrFun (fname_without_fextra flags).symm _
  · refine ⟨⟨hmask, hset, Nat.pos_of_ne_zero h0⟩, fun q => ?_⟩
    rw [hexpect, skip_append]
    rfl

/-- A field of text, before the state `next` whose bytes are those of `k`. -/
theorem readString_keeps (h : Ok s) {flag : UInt8} {next : GZipState} {k : UInt8 → Reader}
    (hnext : next = IN_FCOMMENT ∨ next = IN_FHCRC_BYTE_0) {m n : UInt8} (hm : s.flags &&& m = s.flags)
    (hn : mask next = n) (hor : m = n ||| flag) (hand : m &&& ~~~flag = n)
    (hexpect : s.expect = field s.flags flag text (k s.flags))
    (hk : ∀ flags n, expect ⟨next, flags, n⟩ = k flags) (hclear : k (s.flags &&& ~~~flag) = k s.flags)
    (pos : List UInt8) : (s.readString flag next pos).Keeps s pos := by
  have hok (flags : UInt8) (hmask : flags &&& mask next = flags) : Ok ⟨next, flags, s.extraLength⟩ := by
    obtain rfl | rfl := hnext <;> exact ⟨hmask, trivial⟩
  unfold readString
  split_ifs with h0
  · refine ⟨hok _ (hn ▸ mask_unset hm hor h0), fun q => ?_⟩
    rw [hexpect, hk, field, if_pos h0]
  · have htext (q : List UInt8) := text_append (k s.flags) pos q
    split
    · rename_i heq
      refine ⟨h, fun q => ?_⟩
      simp only [heq] at htext
      rw [hexpect, field, if_neg h0, htext]
      rfl
    · rename_i heq
      refine ⟨hok _ (hn ▸ mask_clear hm hand), fun q => ?_⟩
      simp only [heq] at htext
      rw [hexpect, field, if_neg h0, htext, hk, hclear]

theorem turn_keeps (h : Ok s) (b : UInt8) (rest : List UInt8) : (s.turn b rest).Keeps s (b :: rest) := by
  obtain ⟨state, flags, n⟩ := s
  cases state
  case IN_HEADER_ID1 | IN_HEADER_ID2 | IN_HEADER_CM =>
    dsimp only [turn]
    split_ifs with hb
    · exact fun q => if_pos hb
    · exact ⟨⟨h.mask, trivial⟩, fun q => if_neg hb⟩
  case IN_HEADER_FLG =>
    refine ⟨⟨?_, trivial⟩, fun q => rfl⟩
    exact (UInt8.and_assoc ..).trans (congrArg (b &&& ·) (show (0x1e : UInt8) &&& 0x1e = 0x1e by decide))
  case IN_XLEN_BYTE_0 =>
    have hmask : flags &&& 0x1e = flags := h.mask
    dsimp only [turn]
    split_ifs with h0
    · refine ⟨⟨mask_unset (n := 0x1a) hmask (by decide) h0, trivial⟩, fun q => ?_⟩
      exact congrFun (if_pos h0) _
    · refine ⟨⟨hmask, h0⟩, fun q => ?_⟩
      exact congrFun (if_neg h0) _
  case IN_XLEN_BYTE_1 =>
    exact readExtra_keeps (n := n + b.toNat * 256) h.mask h.inField fun q => rfl
  case IN_FEXTRA => exact readExtra_keeps h.mask h.inField.1 fun q => rfl
  case IN_FNAME =>
    exact readString_keeps (m := 0x1a) (n := 0x12) h (.inl rfl) h.mask rfl (by decide) (by decide) rfl
      (fun _ _ => rfl) (fcomment_without_fname _) _
  case IN_FCOMMENT =>
    exact readString_keeps (m := 0x12) (n := 0x02) h (.inr rfl) h.mask rfl (by decide) (by decide) rfl
      (fun _ _ => rfl) (fhcrc_without_fcomment _) _
  case IN_FHCRC_BYTE_0 =>
    have hmask : flags &&& 0x02 = flags := h.mask
    dsimp only [turn]
    split_ifs with h0
    · refine ⟨⟨mask_unset (n := 0) hmask (by decide) h0, trivial⟩, fun q => ?_⟩
      exact congrFun (if_pos h0) _
    · refine ⟨⟨hmask, fun h => h0 ?_⟩, fun q => ?_⟩
      · rw [show flags = 0 from h]
        decide
      · exact (congrFun (if_neg h0) _).trans (skip_cons ..)
  case IN_FHCRC_BYTE_1 =>
    have hmask : flags &&& 0x02 = flags := h.mask
    exact ⟨⟨mask_clear (n := 0) hmask (by decide), trivial⟩, fun q => skip_cons ..⟩
  case IN_DONE => exact fun q => rfl
  all_goals exact ⟨⟨h.mask, trivial⟩, fun q => skip_cons ..⟩

theorem field_zero (c : UInt8) (read : Reader → Reader) : field 0 c read k = k := if_pos UInt8.zero_and

theorem field_nil {flags m c n : UInt8} {read : Reader → Reader} {k : Reader}
    (hread : read k [] = .incomplete) (hmask : flags &&& m = flags) (hm : m = n ||| c)
    (hk : flags &&& n = flags → k [] = .incomplete) : field flags c read k [] = .incomplete := by
  unfold field
  split_ifs with h0
  · exact hk (mask_unset hmask hm h0)
  · exact hread

section End

variable {flags : UInt8} (h0 : flags ≠ 0)
include h0

theorem fhcrc_nil (h : flags &&& 0x02 = flags) : fhcrc flags [] = .incomplete :=
  field_nil (n := 0) rfl h rfl fun h => absurd (h.symm.trans UInt8.and_zero) h0

theorem fcomment_nil (h : flags &&& 0x12 = flags) : fcomment flags [] = .incomplete :=
  field_nil rfl h rfl (fhcrc_nil h0)

theorem fname_nil (h : flags &&& 0x1a = flags) : fname flags [] = .incomplete :=
  field_nil rfl h rfl (fcomment_nil h0)

theorem fextra_nil (h : flags &&& 0x1e = flags) : fextra flags [] = .incomplete :=
  field_nil rfl h rfl (fname_nil h0)

end End

/-- **The test at the end of a buffer**: no byte is needed, or some byte is. -/
theorem expect_end (h : Ok s) :
    if s.pastFixed ∧ s.flags = 0 then s.expect = .complete else s.expect [] = .incomplete := by
  obtain ⟨state, flags, n⟩ := s
  split_ifs with hend
  · obtain ⟨hpast, rfl : flags = 0⟩ := hend
    cases state
    case IN_XLEN_BYTE_1 => exact absurd UInt8.zero_and h.inField
    case IN_FEXTRA => exact absurd UInt8.zero_and h.inField.1
    case IN_FHCRC_BYTE_1 => exact absurd rfl h.inField
    all_goals first
      | exact absurd hpast Bool.false_ne_true
      | simp only [expect, fextra, fname, fcomment, fhcrc, field_zero]
  · rw [not_and] at hend
    cases state
    case IN_XLEN_BYTE_0 => exact fextra_nil (hend rfl) h.mask
    case IN_FEXTRA => exact if_pos h.inField.2
    case IN_FNAME => exact fname_nil (hend rfl) h.mask
    case IN_FCOMMENT => exact fcomment_nil (hend rfl) h.mask
    case IN_FHCRC_BYTE_0 => exact fhcrc_nil (hend rfl) h.mask
    case IN_DONE => exact absurd (h.mask.symm.trans UInt8.and_zero) (hend rfl)
    all_goals rfl

/-- **A buffer leaves the machine in a state that reads the rest as it would have been read.** -/
theorem readMore_expect (h : Ok s) (inbuf : List UInt8) : match s.readMore inbuf with
    | (INVALID_HEADER, _, _) => ∀ q, s.expect (inbuf ++ q) = .invalid
    | (COMPLETE_HEADER, _, pos) => pos.length ≤ inbuf.length ∧ ∀ q, s.expect (inbuf ++ q) = .complete (pos ++ q)
    | (INCOMPLETE_HEADER, s', _) => Ok s' ∧ s'.expect [] = .incomplete ∧ ∀ q, s.expect (inbuf ++ q) = s'.expect q := by
  fun_induction readMore s inbuf with
  | case1 s =>
    have hend := expect_end h
    split_ifs at hend ⊢ with hc
    · exact ⟨le_rfl, fun q => congrFun hend q⟩
    · exact ⟨h, hend, fun q => rfl⟩
  | case2 s b rest heq =>
    have hkeeps := turn_keeps h b rest
    rw [heq] at hkeeps
    exact hkeeps
  | case3 s b rest heq =>
    have hkeeps := turn_keeps h b rest
    rw [heq] at hkeeps
    exact ⟨le_rfl, hkeeps⟩
  | case4 s b rest s' pos heq ih =>
    have hkeeps := turn_keeps h b rest
    rw [heq] at hkeeps
    have hle := (turn_lt heq).1
    have ih := ih hkeeps.1
    split at ih
    · exact fun q => (hkeeps.2 q).trans (ih q)
    · exact ⟨ih.1.trans hle, fun q => (hkeeps.2 q).trans (ih.2 q)⟩
    · exact ⟨ih.1, ih.2.1, fun q => (hkeeps.2 q).trans (ih.2.2 q)⟩

def outcome (length : ℕ) : Stream → GZipStatus × Option ℕ
  | .invalid => (INVALID_HEADER, none)
  | .incomplete => (INCOMPLETE_HEADER, none)
  | .complete rest => (COMPLETE_HEADER, some (length - rest.length))

/-- **However a stream is cut, the machine says what the stream is.** -/
theorem feed_expect (h : Ok s) (hnil : s.expect [] = .incomplete) (total : ℕ) (bufs : List (List UInt8)) :
    s.feed total bufs = outcome (total + bufs.flatten.length) (s.expect bufs.flatten) := by
  induction bufs generalizing s total with
  | nil => rw [feed, List.flatten_nil, hnil, outcome]
  | cons inbuf bufs ih =>
    have hread := readMore_expect h inbuf
    rw [feed, List.flatten_cons]
    split at hread <;> rename_i heq <;> rw [heq] <;> dsimp only
    · rw [hread, outcome]
    · rw [hread.2, outcome, List.length_append, List.length_append, ← Nat.add_assoc, Nat.add_sub_add_right,
        Nat.add_sub_assoc hread.1]
    · rw [hread.2.2, ih hread.1 hread.2.1, List.length_append, Nat.add_assoc]

def IsField (flags flag : UInt8) (P : List UInt8 → Prop) (bytes : List UInt8) : Prop :=
  if flags &&& flag = 0 then bytes = [] else P bytes

def IsExtraField (bytes : List UInt8) : Prop :=
  ∃ lo hi data, bytes = lo :: hi :: data ∧ data.length = lo.toNat + hi.toNat * 256

def IsText (bytes : List UInt8) : Prop := ∃ string, bytes = string ++ [0] ∧ 0 ∉ string

/-- The header of RFC 1952: the magic, the method, the flags, six bytes, and the fields that the flags select. -/
def IsHeader (bytes : List UInt8) : Prop :=
  ∃ flags fixed extra name comment crc, bytes = [0x1f, 0x8b, 8, flags] ++ fixed ++ extra ++ name ++ comment ++ crc ∧
    fixed.length = 6 ∧ IsField flags FLAG_FEXTRA IsExtraField extra ∧ IsField flags FLAG_FNAME IsText name ∧
    IsField flags FLAG_FCOMMENT IsText comment ∧ IsField flags FLAG_FHCRC (·.length = 2) crc

def IsWrong (stream : List UInt8) : Prop := ¬ stream.take 3 <+: [0x1f, 0x8b, 8]

/-- `read` takes such bytes. -/
def Takes (read : Reader → Reader) (P : List UInt8 → Prop) : Prop :=
  ∀ k l rest, read k l = .complete rest ↔ ∃ a m, l = a ++ m ∧ P a ∧ k m = .complete rest

theorem takes_magic (c : UInt8) : Takes (magic c) (· = [c]) := by
  intro k l rest
  constructor
  · intro h
    cases l with
    | nil => cases h
    | cons b l =>
      dsimp only [magic] at h
      split_ifs at h with hb
      exact ⟨[b], l, rfl, congrArg ([·]) (not_not.1 hb), h⟩
  · rintro ⟨-, m, rfl, rfl, hk⟩
    exact (if_neg (not_not.2 rfl)).trans hk

theorem takes_skip (n : ℕ) : Takes (skip n) (·.length = n) := by
  intro k l rest
  unfold skip
  constructor
  · intro h
    split_ifs at h with hlt
    exact ⟨l.take n, l.drop n, (List.take_append_drop n l).symm, by simp; omega, h⟩
  · rintro ⟨a, m, rfl, rfl, hk⟩
    rw [if_neg (by simp), List.drop_left]
    exact hk

theorem text_cons (b : UInt8) (l : List UInt8) : text k (b :: l) = if b = 0 then k l else text k l := by
  unfold text
  split_ifs with h
  · rw [List.dropWhile_cons_of_neg (by simpa using h)]
  · rw [List.dropWhile_cons_of_pos (by simpa using h)]

theorem takes_text : Takes text IsText := by
  intro k l rest
  constructor
  · intro h
    induction l with
    | nil => cases h
    | cons b l ih =>
      rw [text_cons] at h
      split_ifs at h with hb
      · exact ⟨[b], l, rfl, ⟨[], congrArg ([·]) hb, List.not_mem_nil⟩, h⟩
      · obtain ⟨-, m, rfl, ⟨string, rfl, h0⟩, hk⟩ := ih h
        exact ⟨b :: string ++ [0], m, rfl, ⟨b :: string, rfl, by simp [h0, Ne.symm hb]⟩, hk⟩
  · rintro ⟨-, m, rfl, ⟨string, rfl, h0⟩, hk⟩
    induction string with
    | nil => exact hk
    | cons b string ih =>
      rw [List.mem_cons, not_or] at h0
      rw [List.cons_append, List.cons_append, text_cons, if_neg (Ne.symm h0.1)]
      exact ih h0.2

theorem takes_extraField : Takes extraField IsExtraField := by
  intro k l rest
  constructor
  · intro h
    match l, h with
    | lo :: hi :: l, h =>
      obtain ⟨a, m, rfl, ha, hk⟩ := (takes_skip _ k l rest).1 h
      exact ⟨lo :: hi :: a, m, rfl, ⟨lo, hi, a, rfl, ha⟩, hk⟩
  · rintro ⟨-, m, rfl, ⟨lo, hi, a, rfl, ha⟩, hk⟩
    exact (takes_skip _ k (a ++ m) rest).2 ⟨a, m, rfl, ha, hk⟩

theorem Takes.field {read : Reader → Reader} {P : List UInt8 → Prop} (h : Takes read P) (flags flag : UInt8) :
    Takes (field flags flag read) (IsField flags flag P) := by
  intro k l rest
  unfold GZipHeader.field IsField
  split_ifs with h0
  · simp
  · exact h k l rest

theorem fextra_and (flags : UInt8) :
    fextra (flags &&& (FLAG_FHCRC ||| FLAG_FEXTRA ||| FLAG_FNAME ||| FLAG_FCOMMENT)) = fextra flags := by
  simp only [fextra, fname, fcomment, fhcrc, field, UInt8.and_assoc]
  rfl

theorem expect_eq_complete (stream rest : List UInt8) :
    new.expect stream = .complete rest ↔ ∃ header, stream = header ++ rest ∧ IsHeader header := by
  constructor
  · intro h
    obtain ⟨-, stream, rfl, rfl, h⟩ := (takes_magic _ _ _ _).1 h
    obtain ⟨-, stream, rfl, rfl, h⟩ := (takes_magic _ _ _ _).1 h
    obtain ⟨-, stream, rfl, rfl, h⟩ := (takes_magic _ _ _ _).1 h
    match stream, h with
    | flags :: stream, h =>
      obtain ⟨fixed, stream, rfl, hfixed, h⟩ := (takes_skip _ _ _ _).1 h
      rw [fextra_and] at h
      obtain ⟨extra, stream, rfl, hextra, h⟩ := (takes_extraField.field _ _ _ _ _).1 h
      obtain ⟨name, stream, rfl, hname, h⟩ := (takes_text.field _ _ _ _ _).1 h
      obtain ⟨comment, stream, rfl, hcomment, h⟩ := (takes_text.field _ _ _ _ _).1 h
      obtain ⟨crc, stream, rfl, hcrc, h⟩ := ((takes_skip 2).field _ _ _ _ _).1 h
      cases h
      exact ⟨[0x1f, 0x8b, 8, flags] ++ fixed ++ extra ++ name ++ comment ++ crc, by simp, flags, fixed, extra, name,
        comment, crc, rfl, hfixed, hextra, hname, hcomment, hcrc⟩
  · rintro ⟨-, rfl, flags, fixed, extra, name, comment, crc, rfl, hfixed, hextra, hname, hcomment, hcrc⟩
    simp only [List.append_assoc]
    refine (takes_magic 0x1f _ _ _).2 ⟨_, _, rfl, rfl, (takes_magic 0x8b _ _ _).2 ⟨_, _, rfl, rfl,
      (takes_magic 8 flg _ _).2 ⟨_, flags :: _, rfl, rfl, (takes_skip 6 _ (fixed ++ _) _).2
        ⟨_, _, rfl, hfixed, ?_⟩⟩⟩⟩
    rw [fextra_and]
    exact (takes_extraField.field _ _ _ _ _).2 ⟨_, _, rfl, hextra, (takes_text.field _ _ _ _ _).2 ⟨_, _, rfl,
      hname, (takes_text.field _ _ _ _ _).2 ⟨_, _, rfl, hcomment, ((takes_skip 2).field _ _ _ _ _).2 ⟨_, _, rfl,
      hcrc, rfl⟩⟩⟩⟩

theorem flg_ne_invalid (l : List UInt8) : flg l ≠ .invalid := by
  have hskip (n k) (hk : ∀ l, k l ≠ .invalid) (l) : skip n k l ≠ .invalid := by
    unfold skip
    split_ifs
    exacts [Stream.noConfusion, hk _]
  have htext (k) (hk : ∀ l, k l ≠ .invalid) (l) : text k l ≠ .invalid := by
    unfold text
    split
    exacts [Stream.noConfusion, hk _]
  have hextra (k) (hk : ∀ l, k l ≠ .invalid) : ∀ l, extraField k l ≠ .invalid
    | [] | [_] => Stream.noConfusion
    | _ :: _ :: _ => hskip _ _ hk _
  have hfield (flags flag) {read} (hread : ∀ k, (∀ l, k l ≠ .invalid) → ∀ l, read k l ≠ .invalid) (k)
      (hk : ∀ l, k l ≠ .invalid) (l) : field flags flag read k l ≠ .invalid := by
    unfold field
    split_ifs
    exacts [hk l, hread k hk l]
  match l with
  | [] => exact Stream.noConfusion
  | b :: l =>
    exact hskip _ _ (hfield _ _ hextra _ (hfield _ _ htext _ (hfield _ _ htext _ (hfield _ _ (hskip 2) _
      fun _ => Stream.noConfusion)))) l

theorem expect_eq_invalid (stream : List UInt8) : new.expect stream = .invalid ↔ IsWrong stream := by
  unfold IsWrong
  match stream with
  | [] => simp [expect, new, magic]
  | [b] => simp [expect, new, magic]
  | [b, c] => simp [expect, new, magic]
  | b :: c :: d :: l => simp [expect, new, magic, flg_ne_invalid]

/-- **However a stream is cut, `ReadMore` ends behind the first header of RFC 1952 in it, the header is invalid where a
byte of the magic or the method is wrong, and all that is found depends on the stream only.** -/
theorem feed_header (bufs : List (List UInt8)) :
    (∀ n, new.feed 0 bufs = (COMPLETE_HEADER, some n) ↔ n ≤ bufs.flatten.length ∧ IsHeader (bufs.flatten.take n)) ∧
    ((new.feed 0 bufs).1 = INVALID_HEADER ↔ IsWrong bufs.flatten) ∧
    ∀ bufs', bufs'.flatten = bufs.flatten → new.feed 0 bufs' = new.feed 0 bufs := by
  have hnew : Ok new := ⟨rfl, trivial⟩
  have hfeed (bufs) : new.feed 0 bufs = outcome bufs.flatten.length (new.expect bufs.flatten) := by
    rw [feed_expect hnew rfl, Nat.zero_add]
  refine ⟨fun n => ?_, ?_, fun bufs' h => by rw [hfeed, hfeed, h]⟩
  · rw [hfeed]
    constructor
    · intro h
      cases he : new.expect bufs.flatten with
      | complete rest =>
        obtain ⟨header, hl, hheader⟩ := (expect_eq_complete _ _).mp he
        rw [he, hl, outcome, List.length_append, Nat.add_sub_cancel] at h
        cases h
        rw [hl, List.length_append, List.take_left]
        exact ⟨Nat.le_add_right .., hheader⟩
      | _ =>
        rw [he] at h
        cases h
    · rintro ⟨hle, hheader⟩
      rw [(expect_eq_complete _ (bufs.flatten.drop n)).mpr ⟨_, (List.take_append_drop n _).symm, hheader⟩, outcome,
        List.length_drop, Nat.sub_sub_self hle]
  · rw [hfeed, ← expect_eq_invalid]
    cases new.expect bufs.flatten <;> simp [outcome]

end GZipHeader

end Chromium.Net
