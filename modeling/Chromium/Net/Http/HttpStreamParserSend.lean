import Chromium.Base.StringPrintf
import Chromium.Lib.TransSys
import Chromium.Net.Base.UploadDataStream
import Chromium.Net.Http.ChunkedCoding
import Mathlib.Data.Nat.Digits.Lemmas

/-!
# Sending a chunked upload

`net/http/http_stream_parser.cc`: `SendRequest`, `OnIOComplete` and `OnChunkAvailable` run `DoLoop`, which goes on
until a write is pending.  A turn of the loop is a step of its own; `loop` is the result of the turn before, and `none`
when the loop is not running.  The socket takes some of the bytes of a write at once, or later, and then it takes them
from the buffer as it is then.

`chunked_upload_of_run`: when no chunk is appended while a write of the body is pending, the bytes behind the headers
are a chunked coding of the data.
-/

namespace Chromium.Net

open Lib Chromium.Base UploadDataStream
open List (append_assoc append_nil flatMap_append flatMap_singleton length_append nil_append
  prefix_append prefix_append_right_inj)

/-- `io_state_`, until the request is sent. -/
inductive SendState
  | none
  | sendingHeaders
  | sendingBody
  | requestSent
  deriving DecidableEq

/-- A write the socket has not completed, of the headers or of `chunk_buf_`. -/
inductive PendingWrite
  | headers (len : ℕ)
  | chunk (len : ℕ)
  deriving DecidableEq

def PendingWrite.len : PendingWrite → ℕ
  | headers len => len
  | chunk len => len

def PendingWrite.isChunk : PendingWrite → Bool
  | headers _ => false
  | chunk _ => true

/-- What the socket does with a write. -/
inductive WriteOutcome
  | done (n : ℕ)
  | pending

/-- `HttpStreamParser` while it sends a request, its socket, and the bytes the socket has taken. -/
structure HttpStreamSender where
  ioState : SendState
  requestHeaders : List UInt8
  requestBody : UploadDataStream
  chunkBuf : List UInt8
  chunkLength : ℕ
  chunkLengthWithoutEncoding : ℕ
  sentLastChunk : Bool
  loop : Option ℤ
  pending : List PendingWrite
  wire : List UInt8
  deriving DecidableEq

def kLastChunk : List UInt8 := [48] ++ crlf ++ crlf

namespace HttpStreamSender

def buffer (s : HttpStreamSender) : PendingWrite → List UInt8
  | .headers _ => s.requestHeaders
  | .chunk _ => s.chunkBuf

/-- `n` bytes of a write are taken, and `DoLoop` goes on. -/
def take (s : HttpStreamSender) (w : PendingWrite) (n : ℕ) : Option HttpStreamSender :=
  if 0 < n ∧ n ≤ w.len then some { s with wire := s.wire ++ (s.buffer w).take n, loop := some n } else none

def write (s : HttpStreamSender) (w : PendingWrite) : WriteOutcome → Option HttpStreamSender
  | .done n => s.take w n
  | .pending => some { s with pending := s.pending ++ [w], loop := none }

/-- `memcpy` to the begin of `chunk_buf_`. -/
def copyToChunkBuf (s : HttpStreamSender) (bytes : List UInt8) : HttpStreamSender :=
  { s with chunkBuf := bytes ++ s.chunkBuf.drop bytes.length, chunkLength := bytes.length }

def doSendHeaders (s : HttpStreamSender) (result : ℕ) (outcome : WriteOutcome) : Option HttpStreamSender :=
  let s := { s with requestHeaders := s.requestHeaders.drop result }
  if s.requestHeaders ≠ [] then s.write (.headers s.requestHeaders.length) outcome
  else some { s with ioState := .sendingBody, loop := some 0 }

/-- The part of `DoSendBody` that fills `chunk_buf_`. -/
def sendNextChunk (s : HttpStreamSender) (outcome : WriteOutcome) : Option HttpStreamSender :=
  let body := s.requestBody.markConsumedAndFillBuffer s.chunkLengthWithoutEncoding
  let s := { s with requestBody := body, chunkLengthWithoutEncoding := 0, chunkLength := 0 }
  if body.eof then ({ s with sentLastChunk := true }.copyToChunkBuf kLastChunk).write (.chunk kLastChunk.length) outcome
  else if body.buf ≠ [] then
    let chunk := upperHex body.buf.length ++ crlf ++ body.buf ++ crlf
    ({ s with chunkLengthWithoutEncoding := body.buf.length }.copyToChunkBuf chunk).write (.chunk chunk.length) outcome
  else some { s with loop := none }

def doSendBody (s : HttpStreamSender) (result : ℕ) (outcome : WriteOutcome) : Option HttpStreamSender :=
  let chunkLength := (uint32OfInt (s.chunkLength - result)).toNat
  if chunkLength ≠ 0 then
    { s with
      chunkLength := chunkLength
      chunkBuf := (s.chunkBuf.drop result).take chunkLength ++ s.chunkBuf.drop chunkLength }.write (.chunk chunkLength)
        outcome
  else if s.sentLastChunk then some { s with chunkLength := 0, ioState := .requestSent, loop := some 0 }
  else s.sendNextChunk outcome

/-- A turn of `DoLoop`. -/
def turn (s : HttpStreamSender) (outcome : WriteOutcome) : Option HttpStreamSender :=
  match s.loop with
  | none => none
  | some result =>
    match s.ioState with
    | .sendingHeaders =>
      if result < 0 then some { s with loop := none } else s.doSendHeaders result.toNat outcome
    | .sendingBody => if result < 0 then some { s with loop := none } else s.doSendBody result.toNat outcome
    | _ => some { s with loop := none }

inductive Event
  | sendRequest
  | turn (outcome : WriteOutcome)
  | writeCompleted (n : ℕ)
  | appendChunk (data : List UInt8) (isLastChunk : Bool)

def onChunkAvailable (s : HttpStreamSender) : HttpStreamSender :=
  if s.ioState = .sendingBody then { s with loop := some 0 } else s

def next (s : HttpStreamSender) : Event → Option HttpStreamSender
  | .sendRequest =>
    if s.ioState = .none ∧ s.loop = none then some { s with ioState := .sendingHeaders, loop := some 0 } else none
  | .turn outcome => s.turn outcome
  | .writeCompleted n =>
    match s.loop, s.pending with
    | none, w :: pending => { s with pending := pending }.take w n
    | _, _ => none
  | .appendChunk data isLastChunk =>
    if s.loop = none ∧ s.requestBody.endsWithLastChunk = false then
      some { s with requestBody := s.requestBody.appendChunk data isLastChunk }.onChunkAvailable
    else none

/-- A parser with nothing sent, for a body with these chunks. -/
structure Initial (headers : List UInt8) (elements : List Element) (s : HttpStreamSender) : Prop where
  ioState : s.ioState = .none
  requestHeaders : s.requestHeaders = headers
  requestBody : s.requestBody = { UploadDataStream.newChunked with elements := elements }.fillBuf
  chunkLength : s.chunkLength = 0
  chunkLengthWithoutEncoding : s.chunkLengthWithoutEncoding = 0
  sentLastChunk : s.sentLastChunk = false
  loop : s.loop = none
  pending : s.pending = []
  wire : s.wire = []

def system (headers : List UInt8) (elements : List Element) : TransSys HttpStreamSender Event where
  init := Initial headers elements
  step s e s' := s.next e = some s'

def NotWhileWriting (s : HttpStreamSender) : Event → Prop
  | .appendChunk _ _ => ∀ w ∈ s.pending, w.isChunk = false
  | _ => True

instance decidableNotWhileWriting (s : HttpStreamSender) : (e : Event) → Decidable (NotWhileWriting s e)
  | .appendChunk _ _ => inferInstanceAs (Decidable (∀ w ∈ s.pending, w.isChunk = false))
  | .sendRequest => inferInstanceAs (Decidable True)
  | .turn _ => inferInstanceAs (Decidable True)
  | .writeCompleted _ => inferInstanceAs (Decidable True)

def Event.element : Event → Option Element
  | appendChunk data isLastChunk => some (.chunk data isLastChunk)
  | _ => none

def uploaded (elements : List Element) (events : List Event) : List Element :=
  elements ++ events.filterMap Event.element

/-! ## Messages on the wire -/

section

variable {headers : List UInt8} {s s' : HttpStreamSender} {chunks : List Chunk} {before after message : List UInt8}

variable {data : List UInt8} {n : ℕ} {outcome : WriteOutcome}

/-- What the parser is writing, when the chunks were written. -/
inductive Current (body : UploadDataStream) (chunks : List Chunk) : (withoutEncoding : ℕ) → (sentLast : Bool) →
    (message : List UInt8) → Prop
  | idle : dataOf chunks ++ (body.buf ++ body.unread) = body.appended → Current body chunks 0 false []
  | chunk (c : Chunk) : c.data = body.buf → c.encode.length < 65536 →
      dataOf chunks ++ (body.buf ++ body.unread) = body.appended → Current body chunks c.data.length false c.encode
  | last : dataOf chunks = body.appended → body.endsWithLastChunk = true → Current body chunks 0 true kLastChunk

/-- The parser sends the body: the chunks and `before` are on the wire, and `after` is to follow. -/
structure InBody (headers : List UInt8) (s : HttpStreamSender) (chunks : List Chunk) (before after : List UInt8) :
    Prop where
  ioState : s.ioState = .sendingBody
  body : s.requestBody.ChunkedBody
  wire : s.wire = headers ++ (chunks.flatMap Chunk.encode ++ before)
  current : Current s.requestBody chunks s.chunkLengthWithoutEncoding s.sentLastChunk (before ++ after)

/-- The loop runs with a result: so many bytes of `chunk_buf_` are on the wire. -/
structure Running (s : HttpStreamSender) (after : List UInt8) (result : ℕ) : Prop where
  loop : s.loop = some (result : ℤ)
  pending : s.pending = []
  chunkLength : s.chunkLength = result + after.length
  chunkBuf : (s.chunkBuf.drop result).take after.length = after

/-- The rest of the message is in `chunk_buf_`. -/
structure Buffered (s : HttpStreamSender) (after : List UInt8) : Prop where
  ne_nil : after ≠ []
  chunkLength : s.chunkLength = after.length
  chunkBuf : s.chunkBuf.take after.length = after

/-- Nothing is pending, and the parser waits for a chunk. -/
structure Waiting (s : HttpStreamSender) : Prop where
  loop : s.loop = none
  pending : s.pending = []
  chunkLength : s.chunkLength = 0
  notLast : s.requestBody.endsWithLastChunk = false

inductive BodyState (headers : List UInt8) (s : HttpStreamSender) : Prop
  | running (chunks : List Chunk) (before after : List UInt8) (result : ℕ) : InBody headers s chunks before after →
      Running s after result → BodyState headers s
  | writing (chunks : List Chunk) (before after : List UInt8) : InBody headers s chunks before after →
      Buffered s after → s.loop = none → s.pending = [.chunk after.length] → BodyState headers s
  | waiting (chunks : List Chunk) : InBody headers s chunks [] [] → Waiting s → BodyState headers s

theorem BodyState.ioState (h : BodyState headers s) : s.ioState = .sendingBody := by
  cases h with
  | running _ _ _ _ hin _ | writing _ _ _ hin _ _ _ | waiting _ hin _ => exact hin.ioState

/-- At most one write is pending, and when none is, the parser waits for a chunk that is not the last. -/
theorem BodyState.inBody (h : BodyState headers s) : ∃ chunks before after, InBody headers s chunks before after ∧
    s.pending.length ≤ 1 ∧ (s.loop = none → s.pending = [] → s.requestBody.endsWithLastChunk = false) := by
  cases h with
  | running chunks before after result hin hrun =>
    refine ⟨chunks, before, after, hin, ?_, fun hloop => nomatch hloop.symm.trans hrun.loop⟩
    rw [hrun.pending]
    exact Nat.zero_le _
  | writing chunks before after hin _ _ hpending =>
    refine ⟨chunks, before, after, hin, ?_, fun _ hnil => nomatch hnil.symm.trans hpending⟩
    rw [hpending, List.length_singleton]
  | waiting chunks hin hwaiting =>
    refine ⟨chunks, [], [], hin, ?_, fun _ _ => hwaiting.notLast⟩
    rw [hwaiting.pending]
    exact Nat.zero_le _

theorem InBody.wire_begin (h : InBody headers s chunks before after) :
    ∃ chunks, dataOf chunks <+: s.requestBody.appended ∧ s.wire <+: headers ++ chunks.flatMap Chunk.encode ∨
      dataOf chunks = s.requestBody.appended ∧ s.requestBody.endsWithLastChunk = true ∧
        s.wire <+: headers ++ encode chunks := by
  have hcurrent := h.current
  have hwire := h.wire
  generalize s.chunkLengthWithoutEncoding = n, s.sentLastChunk = sentLast, hm : before ++ after = message at hcurrent
  have hbefore : before <+: message := by
    rw [← hm]
    exact prefix_append _ _
  cases hcurrent with
  | idle hdata =>
    rw [List.prefix_nil.1 hbefore, append_nil] at hwire
    refine ⟨chunks, .inl ⟨?_, by rw [hwire]⟩⟩
    rw [← hdata]
    exact prefix_append _ _
  | chunk c hc _ hdata =>
    refine ⟨chunks ++ [c], .inl ⟨?_, ?_⟩⟩
    · rw [← hdata, dataOf, flatMap_append, flatMap_singleton, hc]
      exact prefix_append_right_inj _ |>.2 (prefix_append _ _)
    · rw [hwire, flatMap_append, flatMap_singleton]
      exact prefix_append_right_inj _ |>.2 (prefix_append_right_inj _ |>.2 hbefore)
  | last hdata hends =>
    refine ⟨chunks, .inr ⟨hdata, hends, ?_⟩⟩
    rw [hwire]
    exact prefix_append_right_inj _ |>.2 (prefix_append_right_inj _ |>.2 hbefore)

theorem InBody.take (h : InBody headers s chunks before after) (hbuffered : Buffered s after)
    (hpending : s.pending = []) (htake : s.take (.chunk after.length) n = some s') : BodyState headers s' := by
  rw [HttpStreamSender.take] at htake
  split at htake
  · rename_i hn
    cases htake
    have hle : n ≤ after.length := hn.2
    have hbytes : s.chunkBuf.take n = after.take n := by
      rw [← hbuffered.chunkBuf, List.take_take, Nat.min_eq_left hle]
    refine .running chunks (before ++ after.take n) (after.drop n) n ⟨h.ioState, h.body, ?_, ?_⟩ ⟨rfl, hpending, ?_, ?_⟩
    · change s.wire ++ s.chunkBuf.take n = _
      rw [h.wire, hbytes, append_assoc, append_assoc]
    · rw [append_assoc, List.take_append_drop]
      exact h.current
    · rw [List.length_drop]
      exact hbuffered.chunkLength.trans (by omega)
    · rw [List.length_drop, ← List.drop_take, hbuffered.chunkBuf]
  · cases htake

theorem InBody.write (h : InBody headers s chunks before after) (hbuffered : Buffered s after)
    (hpending : s.pending = [])
    (hwrite : s.write (.chunk after.length) outcome = some s') : BodyState headers s' := by
  cases outcome with
  | done n => exact h.take hbuffered hpending hwrite
  | pending =>
    cases hwrite
    refine .writing chunks before after ⟨h.ioState, h.body, h.wire, h.current⟩
      ⟨hbuffered.ne_nil, hbuffered.chunkLength, hbuffered.chunkBuf⟩ rfl ?_
    change s.pending ++ [_] = _
    rw [hpending]
    rfl

theorem InBody.writeCompleted (h : InBody headers s chunks before after) (hbuffered : Buffered s after)
    (htake : { s with pending := [] }.take (.chunk after.length) n = some s') : BodyState headers s' :=
  InBody.take (s := { s with pending := [] }) ⟨h.ioState, h.body, h.wire, h.current⟩
    ⟨hbuffered.ne_nil, hbuffered.chunkLength, hbuffered.chunkBuf⟩ rfl htake

theorem buffered_copyToChunkBuf (hne : after ≠ []) : Buffered (s.copyToChunkBuf after) after := by
  refine ⟨hne, rfl, ?_⟩
  change (after ++ _).take after.length = after
  rw [List.take_left]

theorem InBody.writeMessage (h : InBody headers s chunks [] message) (hne : message ≠ []) (hpending : s.pending = [])
    (hwrite : (s.copyToChunkBuf message).write (.chunk message.length) outcome = some s') : BodyState headers s' :=
  InBody.write (s := s.copyToChunkBuf message) ⟨h.ioState, h.body, h.wire, h.current⟩ (buffered_copyToChunkBuf hne)
    hpending hwrite

def chunkOf (data : List UInt8) (hne : data ≠ []) (hlen : data.length ≤ UploadDataStream.kBufSize) : Chunk where
  size := upperHex data.length
  data := data
  digits := upperHex_mem _
  value := hexValue_upperHex _
  ne_nil := hne
  short := Nat.lt_of_le_of_lt hlen (by decide)

theorem length_upperHex_le (hn : n < 65536) : (upperHex n).length ≤ 4 := by
  rw [upperHex]
  split
  · decide
  · rw [List.length_map, List.length_reverse]
    exact (Nat.digits_length_le_iff (by decide) n).2 hn

theorem length_encode_chunkOf_lt (hne : data ≠ [])
    (hlen : data.length ≤ UploadDataStream.kBufSize) : (chunkOf data hne hlen).encode.length < 65536 := by
  have hkBufSize : UploadDataStream.kBufSize = 16384 := rfl
  have hsize := length_upperHex_le (n := data.length) (by omega)
  simp only [Chunk.encode, chunkOf, crlf, length_append, List.length_cons, List.length_nil]
  omega

theorem encode_ne_nil (c : Chunk) : c.encode ≠ [] := by
  intro h
  simp [Chunk.encode, crlf] at h

theorem Current.length_lt {body : UploadDataStream} {withoutEncoding : ℕ} {sentLast : Bool}
    (h : Current body chunks withoutEncoding sentLast message) : message.length < 65536 := by
  cases h with
  | idle _ | last _ _ => decide
  | chunk c _ hlen _ => exact hlen

/-- The request is sent: the chunks and the last chunk are on the wire. -/
structure Sent (headers : List UInt8) (s : HttpStreamSender) : Prop where
  ioState : s.ioState = .requestSent
  loop : s.loop = none ∨ s.loop = some 0
  pending : s.pending = []
  wire : ∃ chunks, s.wire = headers ++ encode chunks ∧ dataOf chunks = s.requestBody.appended
  endsWithLastChunk : s.requestBody.endsWithLastChunk = true

/-- **The next message**, when the one before is on the wire and was not the last. -/
theorem InBody.sendNextChunk (h : InBody headers s chunks before []) (hpending : s.pending = [])
    (hlast : s.sentLastChunk = false) (hsend : s.sendNextChunk outcome = some s') :
    BodyState headers s' := by
  obtain ⟨chunks', hwire, hdata⟩ : ∃ chunks', s.wire = headers ++ (chunks'.flatMap Chunk.encode ++ []) ∧
      dataOf chunks' ++ (s.requestBody.buf.drop s.chunkLengthWithoutEncoding ++ s.requestBody.unread) =
        s.requestBody.appended := by
    have hcurrent := h.current
    have hwire := h.wire
    rw [append_nil] at hcurrent
    rw [hlast] at hcurrent
    generalize s.chunkLengthWithoutEncoding = n at hcurrent ⊢
    cases hcurrent with
    | idle hdata => exact ⟨chunks, hwire, by rwa [List.drop_zero]⟩
    | chunk c hc _ hdata =>
      refine ⟨chunks ++ [c], ?_, ?_⟩
      · rw [hwire, flatMap_append, flatMap_singleton, append_nil]
      · rw [hc, List.drop_length, nil_append, ← hdata, dataOf, flatMap_append, flatMap_singleton, hc,
          append_assoc]
        rfl
  obtain ⟨hbody, helements, hkept, hempty, heof⟩ := h.body.markConsumedAndFillBuffer s.chunkLengthWithoutEncoding
  rw [HttpStreamSender.sendNextChunk] at hsend
  generalize s.requestBody.markConsumedAndFillBuffer s.chunkLengthWithoutEncoding = body at *
  have happended : body.appended = s.requestBody.appended := by rw [appended, helements, appended]
  have hends : body.endsWithLastChunk = s.requestBody.endsWithLastChunk := by
    rw [endsWithLastChunk, helements, endsWithLastChunk]
  rw [← hkept, ← happended] at hdata
  split at hsend
  · rename_i heof'
    have hbuf := heof heof'
    obtain ⟨hunread, hend⟩ := hempty hbuf
    rw [hbuf, hunread, append_nil, append_nil] at hdata
    refine InBody.writeMessage (s := { s with
      requestBody := body
      chunkLengthWithoutEncoding := 0
      chunkLength := 0
      sentLastChunk := true }) ⟨h.ioState, hbody, hwire, ?_⟩ (List.cons_ne_nil _ _) hpending hsend
    exact .last hdata (hends.trans (hend.symm.trans heof'))
  · split at hsend
    · rename_i hbuf
      have hcurrent := Current.chunk (chunkOf body.buf hbuf hbody.buf_le) rfl
        (length_encode_chunkOf_lt hbuf hbody.buf_le) hdata
      have hmessage : upperHex body.buf.length ++ crlf ++ body.buf ++ crlf =
          (chunkOf body.buf hbuf hbody.buf_le).encode := by
        rw [Chunk.encode, nil_append, append_assoc _ body.buf]
        rfl
      rw [hmessage] at hsend
      refine InBody.writeMessage (s := { s with
        requestBody := body
        chunkLengthWithoutEncoding := body.buf.length
        chunkLength := 0 }) ⟨h.ioState, hbody, hwire, ?_⟩ (encode_ne_nil _) hpending hsend
      change Current body chunks' body.buf.length s.sentLastChunk _
      rw [hlast]
      exact hcurrent
    · rename_i heof' hbuf
      have hbuf := not_not.1 hbuf
      obtain ⟨hunread, hend⟩ := hempty hbuf
      cases hsend
      refine .waiting chunks' ⟨h.ioState, hbody, hwire, ?_⟩ ⟨rfl, hpending, rfl, ?_⟩
      · change Current body chunks' 0 s.sentLastChunk _
        rw [hlast]
        exact Current.idle hdata
      · rw [hends, ← hend]
        exact Bool.not_eq_true _ ▸ heof'

/-- **A turn of the loop** in the body: it goes on with the message or takes the next one, or the request is sent. -/
theorem InBody.turn (h : InBody headers s chunks before after) {result : ℕ} (hrun : Running s after result) (hturn : s.turn outcome = some s') : BodyState headers s' ∨ Sent headers s' := by
  have hmessage := h.current.length_lt
  rw [length_append] at hmessage
  have hlength : (uint32OfInt ((s.chunkLength : ℤ) - result)).toNat = after.length := by
    have hval := toNat_uint32OfInt ((s.chunkLength : ℤ) - result)
    rw [hrun.chunkLength] at hval ⊢
    omega
  rw [HttpStreamSender.turn, hrun.loop] at hturn
  simp only [h.ioState] at hturn
  rw [if_neg (by omega), Int.toNat_natCast, doSendBody, hlength] at hturn
  by_cases hafter : after = []
  · subst hafter
    rw [if_neg (by simp)] at hturn
    by_cases hlast : s.sentLastChunk = true
    · rw [if_pos hlast] at hturn
      cases hturn
      have hcurrent := h.current
      have hwire := h.wire
      rw [append_nil, hlast] at hcurrent
      right
      generalize s.chunkLengthWithoutEncoding = n at hcurrent
      cases hcurrent with
      | last hdata hends => exact ⟨rfl, .inr rfl, hrun.pending, ⟨chunks, hwire, hdata⟩, hends⟩
    · rw [if_neg hlast] at hturn
      exact .inl (h.sendNextChunk hrun.pending (Bool.eq_false_iff.2 hlast) hturn)
  · rw [if_pos (by rwa [ne_eq, List.length_eq_zero_iff])] at hturn
    refine .inl (InBody.write (s := { s with
      chunkLength := after.length
      chunkBuf := (s.chunkBuf.drop result).take after.length ++ s.chunkBuf.drop after.length })
      ⟨h.ioState, h.body, h.wire, h.current⟩ ⟨hafter, rfl, ?_⟩ hrun.pending hturn)
    rw [hrun.chunkBuf, List.take_left]

/-! ## All states -/

structure Fresh (s : HttpStreamSender) : Prop where
  body : s.requestBody.ChunkedBody
  appended : s.requestBody.buf ++ s.requestBody.unread = s.requestBody.appended
  chunkLength : s.chunkLength = 0
  chunkLengthWithoutEncoding : s.chunkLengthWithoutEncoding = 0
  sentLastChunk : s.sentLastChunk = false

structure HeaderState (headers : List UInt8) (s : HttpStreamSender) : Prop where
  ioState : s.ioState = .sendingHeaders
  fresh : Fresh s
  wire : ∃ result : ℕ, s.wire ++ s.requestHeaders.drop result = headers ∧
    (s.loop = some (result : ℤ) ∧ s.pending = [] ∨
      result = 0 ∧ s.loop = none ∧ s.pending = [.headers s.requestHeaders.length])

structure NoneState (headers : List UInt8) (s : HttpStreamSender) : Prop where
  ioState : s.ioState = .none
  fresh : Fresh s
  requestHeaders : s.requestHeaders = headers
  loop : s.loop = none
  pending : s.pending = []
  wire : s.wire = []

/-- **The states of a parser that sends a request.** -/
inductive Inv (headers : List UInt8) (s : HttpStreamSender) : Prop
  | none : NoneState headers s → Inv headers s
  | headers : HeaderState headers s → Inv headers s
  | body : BodyState headers s → Inv headers s
  | sent : Sent headers s → Inv headers s

theorem Initial.inv {elements : List Element} (horder : ChunksInOrder elements) (h : Initial headers elements s) :
    Inv headers s := by
  obtain ⟨hbody, helements, hkept, -, -⟩ := (chunkedBody_of_inOrder horder).fillBuf
  rw [← h.requestBody] at hbody helements hkept
  refine .none ⟨h.ioState, ⟨hbody, ?_, h.chunkLength, h.chunkLengthWithoutEncoding, h.sentLastChunk⟩, h.requestHeaders,
    h.loop, h.pending, h.wire⟩
  rw [hkept, appended, helements]
  rfl

theorem HeaderState.take (hioState : s.ioState = .sendingHeaders) (hfresh : Fresh s)
    (hwire : s.wire ++ s.requestHeaders = headers) (hpending : s.pending = [])
    (htake : s.take (.headers s.requestHeaders.length) n = some s') : HeaderState headers s' := by
  rw [HttpStreamSender.take] at htake
  split at htake
  · cases htake
    refine ⟨hioState, ⟨hfresh.body, hfresh.appended, hfresh.chunkLength, hfresh.chunkLengthWithoutEncoding,
      hfresh.sentLastChunk⟩, n, ?_, .inl ⟨rfl, hpending⟩⟩
    change (s.wire ++ s.requestHeaders.take n) ++ s.requestHeaders.drop n = headers
    rw [append_assoc, List.take_append_drop, hwire]
  · cases htake

theorem HeaderState.turn (h : HeaderState headers s) (hturn : s.turn outcome = some s') :
    Inv headers s' := by
  obtain ⟨result, hwire, ⟨hloop, hpending⟩ | ⟨-, hloop, -⟩⟩ := h.wire
  all_goals rw [HttpStreamSender.turn, hloop] at hturn
  · simp only [h.ioState] at hturn
    rw [if_neg (by omega), Int.toNat_natCast, doSendHeaders] at hturn
    have hfresh := h.fresh
    split at hturn
    · cases outcome with
      | done n =>
        exact .headers (HeaderState.take (s := { s with requestHeaders := s.requestHeaders.drop result }) h.ioState
          ⟨hfresh.body, hfresh.appended, hfresh.chunkLength, hfresh.chunkLengthWithoutEncoding, hfresh.sentLastChunk⟩
          hwire hpending hturn)
      | pending =>
        cases hturn
        refine .headers ⟨h.ioState, ⟨hfresh.body, hfresh.appended, hfresh.chunkLength,
          hfresh.chunkLengthWithoutEncoding, hfresh.sentLastChunk⟩, 0, hwire, .inr ⟨rfl, rfl, ?_⟩⟩
        change s.pending ++ [_] = _
        rw [hpending]
        rfl
    · rename_i hnil
      have hnil : s.requestHeaders.drop result = [] := not_not.1 hnil
      cases hturn
      rw [hnil, append_nil] at hwire
      refine .body (.running [] [] [] 0 ⟨rfl, hfresh.body, ?_, ?_⟩ ⟨rfl, hpending, hfresh.chunkLength, rfl⟩)
      · rw [hwire]
        exact (append_nil _).symm
      · change Current s.requestBody [] s.chunkLengthWithoutEncoding s.sentLastChunk []
        rw [hfresh.chunkLengthWithoutEncoding, hfresh.sentLastChunk]
        exact .idle hfresh.appended
  · cases hturn

theorem Fresh.appendChunk (h : Fresh s) (hlast : s.requestBody.endsWithLastChunk = false) (data : List UInt8)
    (isLastChunk : Bool) : Fresh { s with requestBody := s.requestBody.appendChunk data isLastChunk } := by
  obtain ⟨hbody, hunread⟩ := h.body.appendChunk hlast data isLastChunk
  refine ⟨hbody, ?_, h.chunkLength, h.chunkLengthWithoutEncoding, h.sentLastChunk⟩
  change s.requestBody.buf ++ (s.requestBody.appendChunk data isLastChunk).unread =
    (s.requestBody.appendChunk data isLastChunk).appended
  rw [hunread, appended_appendChunk, ← h.appended, append_assoc]

theorem Inv.appendChunk (h : Inv headers s) {isLastChunk : Bool}
    (hwaits : NotWhileWriting s (.appendChunk data isLastChunk))
    (hnext : s.next (.appendChunk data isLastChunk) = some s') : Inv headers s' := by
  rw [next] at hnext
  split at hnext
  · rename_i hidle
    obtain ⟨hloop, hlast⟩ := hidle
    cases hnext
    cases h with
    | none hnone =>
      rw [onChunkAvailable, if_neg (by simp [hnone.ioState])]
      exact .none ⟨hnone.ioState, hnone.fresh.appendChunk hlast data isLastChunk, hnone.requestHeaders, hnone.loop,
        hnone.pending, hnone.wire⟩
    | headers hheaders =>
      rw [onChunkAvailable, if_neg (by simp [hheaders.ioState])]
      exact .headers ⟨hheaders.ioState, hheaders.fresh.appendChunk hlast data isLastChunk, hheaders.wire⟩
    | sent hsent => exact nomatch hlast.symm.trans hsent.endsWithLastChunk
    | body hbody =>
      cases hbody with
      | running chunks before after result _ hrun => exact nomatch hloop.symm.trans hrun.loop
      | writing chunks before after _ _ _ hpending =>
        exact absurd (hwaits (.chunk after.length) (by rw [hpending]; exact List.mem_singleton_self _)) (by simp [PendingWrite.isChunk])
      | waiting chunks hin hwaiting =>
        obtain ⟨hbody, hunread⟩ := hin.body.appendChunk hlast data isLastChunk
        have hcurrent : Current (s.requestBody.appendChunk data isLastChunk) chunks s.chunkLengthWithoutEncoding
            s.sentLastChunk [] := by
          have hold := hin.current
          have hmessage : ([] : List UInt8) = [] ++ [] := rfl
          generalize s.chunkLengthWithoutEncoding = n, s.sentLastChunk = sentLast at hold ⊢
          rw [← hmessage] at hold
          generalize hm : ([] : List UInt8) = message at hold
          cases hold with
          | idle hdata =>
            refine .idle ?_
            rw [hunread, appended_appendChunk, ← hdata, append_assoc, append_assoc]
            rfl
          | chunk c => exact absurd hm.symm (encode_ne_nil c)
          | last => cases hm
        rw [onChunkAvailable, if_pos hin.ioState]
        exact .body (.running chunks [] [] 0 ⟨hin.ioState, hbody, hin.wire, hcurrent⟩
          ⟨rfl, hwaiting.pending, hwaiting.chunkLength, rfl⟩)
  · cases hnext

theorem Inv.writeCompleted (h : Inv headers s) (hnext : s.next (.writeCompleted n) = some s') :
    Inv headers s' := by
  cases h with
  | none hnone =>
    rw [next, hnone.pending, hnone.loop] at hnext
    cases hnext
  | headers hheaders =>
    obtain ⟨result, hwire, ⟨hloop, hpending⟩ | ⟨rfl, hloop, hpending⟩⟩ := hheaders.wire
    all_goals rw [next, hloop, hpending] at hnext
    · cases hnext
    · have hfresh := hheaders.fresh
      exact .headers (HeaderState.take (s := { s with pending := [] }) hheaders.ioState ⟨hfresh.body, hfresh.appended,
        hfresh.chunkLength, hfresh.chunkLengthWithoutEncoding, hfresh.sentLastChunk⟩ hwire rfl hnext)
  | sent hsent =>
    rw [next, hsent.pending] at hnext
    cases hloop : s.loop <;> rw [hloop] at hnext <;> cases hnext
  | body hbody =>
    cases hbody with
    | running chunks before after result _ hrun =>
      rw [next, hrun.loop, hrun.pending] at hnext
      cases hnext
    | writing chunks before after hin hbuffered hloop hpending =>
      rw [next, hloop, hpending] at hnext
      exact .body (hin.writeCompleted hbuffered hnext)
    | waiting chunks _ hwaiting =>
      rw [next, hwaiting.loop, hwaiting.pending] at hnext
      cases hnext

/-- **Every event keeps the states**, when no chunk is appended while a write of the body is pending. -/
theorem Inv.step (h : Inv headers s) {e : Event} (hwaits : NotWhileWriting s e) (hnext : s.next e = some s') :
    Inv headers s' := by
  cases e with
  | appendChunk data isLastChunk => exact h.appendChunk hwaits hnext
  | writeCompleted n => exact h.writeCompleted hnext
  | sendRequest =>
    rw [next] at hnext
    split at hnext
    · rename_i hstart
      cases hnext
      cases h with
      | none hnone =>
        have hfresh := hnone.fresh
        refine .headers ⟨rfl, ⟨hfresh.body, hfresh.appended, hfresh.chunkLength, hfresh.chunkLengthWithoutEncoding,
          hfresh.sentLastChunk⟩, 0, ?_, .inl ⟨rfl, hnone.pending⟩⟩
        change s.wire ++ s.requestHeaders = headers
        rw [hnone.wire, hnone.requestHeaders, nil_append]
      | headers hheaders => exact nomatch hstart.1.symm.trans hheaders.ioState
      | sent hsent => exact nomatch hstart.1.symm.trans hsent.ioState
      | body hbody => exact nomatch hstart.1.symm.trans hbody.ioState
    · cases hnext
  | turn outcome =>
    cases h with
    | none hnone =>
      rw [next, HttpStreamSender.turn, hnone.loop] at hnext
      cases hnext
    | headers hheaders => exact hheaders.turn hnext
    | sent hsent =>
      rw [next, HttpStreamSender.turn] at hnext
      rcases hsent.loop with hloop | hloop
      · rw [hloop] at hnext
        cases hnext
      · simp only [hloop, hsent.ioState] at hnext
        cases hnext
        exact .sent ⟨rfl, .inl rfl, hsent.pending, hsent.wire, hsent.endsWithLastChunk⟩
    | body hbody =>
      cases hbody with
      | running chunks before after result hin hrun =>
        rcases hin.turn hrun hnext with hbody | hsent
        · exact .body hbody
        · exact .sent hsent
      | writing chunks before after _ _ hloop _ =>
        rw [next, HttpStreamSender.turn, hloop] at hnext
        cases hnext
      | waiting chunks _ hwaiting =>
        rw [next, HttpStreamSender.turn, hwaiting.loop] at hnext
        cases hnext

/-- **A chunk that is appended while a write of the body is pending** makes the parser write once more. -/
theorem Inv.write_again (h : Inv headers s) {isLastChunk : Bool}
    (hwriting : ¬NotWhileWriting s (.appendChunk data isLastChunk)) {s₁ : HttpStreamSender}
    (happend : s.next (.appendChunk data isLastChunk) = some s₁) (hturn : s₁.next (.turn .pending) = some s') :
    s'.pending.length = 2 := by
  have hchunk : ∃ w ∈ s.pending, w.isChunk = true := by simpa [NotWhileWriting] using hwriting
  obtain ⟨w, hw, hisChunk⟩ := hchunk
  cases h with
  | none hnone =>
    rw [hnone.pending] at hw
    cases hw
  | headers hheaders =>
    obtain ⟨result, -, ⟨-, hpending⟩ | ⟨-, -, hpending⟩⟩ := hheaders.wire
    · rw [hpending] at hw
      cases hw
    · rw [hpending] at hw
      rw [List.mem_singleton.1 hw] at hisChunk
      cases hisChunk
  | sent hsent =>
    rw [hsent.pending] at hw
    cases hw
  | body hbody =>
    cases hbody with
    | running chunks before after result _ hrun =>
      rw [hrun.pending] at hw
      cases hw
    | waiting chunks _ hwaiting =>
      rw [hwaiting.pending] at hw
      cases hw
    | writing chunks before after hin hbuffered hloop hpending =>
      have hmessage := hin.current.length_lt
      rw [length_append] at hmessage
      have hpos := List.length_pos_iff.2 hbuffered.ne_nil
      have hlength : (uint32OfInt ((after.length : ℤ) - (0 : ℕ))).toNat = after.length := by
        have hval := toNat_uint32OfInt ((after.length : ℤ) - (0 : ℕ))
        omega
      rw [next] at happend
      split at happend
      · cases happend
        rw [onChunkAvailable, if_pos hin.ioState, next, HttpStreamSender.turn] at hturn
        simp only [hin.ioState] at hturn
        rw [if_neg (by decide), Int.toNat_zero, doSendBody] at hturn
        simp only [hbuffered.chunkLength, hlength] at hturn
        rw [if_pos (by omega)] at hturn
        cases hturn
        change (s.pending ++ [_]).length = 2
        rw [hpending]
        rfl
      · cases happend

theorem take_elements {w : PendingWrite} (h : s.take w n = some s') :
    s'.requestBody.elements = s.requestBody.elements := by
  rw [HttpStreamSender.take] at h
  split at h
  · cases h
    rfl
  · cases h

theorem write_elements {w : PendingWrite} (h : s.write w outcome = some s') :
    s'.requestBody.elements = s.requestBody.elements := by
  cases outcome with
  | done n => exact take_elements h
  | pending =>
    cases h
    rfl

theorem sendNextChunk_elements (h : s.sendNextChunk outcome = some s') :
    s'.requestBody.elements = s.requestBody.elements := by
  rw [HttpStreamSender.sendNextChunk] at h
  split at h
  · have helements := write_elements h
    exact helements
  · split at h
    · have helements := write_elements h
      exact helements
    · cases h
      rfl

theorem turn_elements (h : s.turn outcome = some s') :
    s'.requestBody.elements = s.requestBody.elements := by
  have hheaders : ∀ result, s.doSendHeaders result outcome = some s' →
      s'.requestBody.elements = s.requestBody.elements := by
    intro result h
    rw [doSendHeaders] at h
    split at h
    · have helements := write_elements h
      exact helements
    · cases h
      rfl
  have hbody : ∀ result, s.doSendBody result outcome = some s' →
      s'.requestBody.elements = s.requestBody.elements := by
    intro result h
    rw [doSendBody] at h
    split at h
    · have helements := write_elements h
      exact helements
    · split at h
      · cases h
        rfl
      · exact sendNextChunk_elements h
  have hstop : some { s with loop := none } = some s' → s'.requestBody.elements = s.requestBody.elements := by
    intro h
    cases h
    rfl
  rw [HttpStreamSender.turn] at h
  cases hloop : s.loop with
  | none =>
    rw [hloop] at h
    cases h
  | some result =>
    simp only [hloop] at h
    cases hioState : s.ioState with
    | none | requestSent => exact hstop (by simpa only [hioState] using h)
    | sendingHeaders =>
      simp only [hioState] at h
      split at h
      · cases h
        rfl
      · exact hheaders _ h
    | sendingBody =>
      simp only [hioState] at h
      split at h
      · cases h
        rfl
      · exact hbody _ h

theorem next_elements {e : Event} (h : s.next e = some s') :
    s'.requestBody.elements = s.requestBody.elements ++ e.element.toList := by
  cases e with
  | sendRequest =>
    rw [next] at h
    split at h
    · cases h
      exact (append_nil _).symm
    · cases h
  | turn outcome => exact (turn_elements h).trans (append_nil _).symm
  | writeCompleted n =>
    rw [next] at h
    split at h
    · exact (take_elements h).trans (append_nil _).symm
    · cases h
  | appendChunk data isLastChunk =>
    rw [next] at h
    split at h
    · cases h
      rw [onChunkAvailable]
      split <;> rfl
    · cases h

theorem Run.elements {elements : List Element} {tr : List Event} (h : (system headers elements).Run tr s) :
    s.requestBody.elements = uploaded elements tr := by
  refine h.traceInvariant (I := fun tr s => s.requestBody.elements = uploaded elements tr) ?_ ?_
  · intro s hinit
    rw [hinit.requestBody, uploaded]
    exact (append_nil _).symm
  · intro tr s e s' hs hstep
    rw [next_elements hstep, hs, uploaded, uploaded, List.filterMap_append, append_assoc]
    cases he : e.element <;> simp [he]

end

/-- **A chunked upload is sent as a chunked coding of its data**, with one write at a time, when no chunk is appended
while a write of the body is pending. -/
theorem chunked_upload_of_run (headers : List UInt8) (elements : List Element) (horder : ChunksInOrder elements)
    (tr : List Event) (s : HttpStreamSender)
    (h : ((system headers elements).restrict NotWhileWriting).Run tr s) :
    s.pending.length ≤ 1 ∧ (∃ chunks, dataOf chunks <+: (uploaded elements tr).flatMap Element.data ∧
          s.wire <+: headers ++ chunks.flatMap Chunk.encode ∨
        dataOf chunks = (uploaded elements tr).flatMap Element.data ∧ s.requestBody.endsWithLastChunk = true ∧
          s.wire <+: headers ++ encode chunks) ∧
      (s.ioState = .requestSent → s.requestBody.endsWithLastChunk = true ∧
        ∃ chunks, dataOf chunks = (uploaded elements tr).flatMap Element.data ∧ s.wire = headers ++ encode chunks) ∧
      (s.requestBody.endsWithLastChunk = true → s.ioState ≠ .none → s.loop = none → s.pending = [] →
        s.ioState = .requestSent) ∧
      ∀ data isLastChunk s₁ s₂, ¬NotWhileWriting s (.appendChunk data isLastChunk) →
        s.next (.appendChunk data isLastChunk) = some s₁ → s₁.next (.turn .pending) = some s₂ →
        s₂.pending.length = 2 := by
  have hinv : Inv headers s := by
    refine TransSys.Run.invariant (fun s hinit => ?_) (fun s e s' hs hstep => ?_) h
    · exact Initial.inv horder hinit
    · exact hs.step hstep.1 hstep.2
  have hdata : s.requestBody.appended = (uploaded elements tr).flatMap Element.data := by
    rw [appended, Run.elements h.of_restrict]
  have hagain : ∀ data isLastChunk s₁ s₂, ¬NotWhileWriting s (.appendChunk data isLastChunk) →
      s.next (.appendChunk data isLastChunk) = some s₁ → s₁.next (.turn .pending) = some s₂ → s₂.pending.length = 2 :=
    fun _ _ _ _ hwriting happend hturn => hinv.write_again hwriting happend hturn
  rw [← hdata]
  cases hinv with
  | none hnone =>
    refine ⟨?_, ⟨[], .inl ⟨List.nil_prefix, ?_⟩⟩, fun hsent => ?_, fun _ hne => absurd hnone.ioState hne, hagain⟩
    · rw [hnone.pending]
      exact Nat.zero_le _
    · rw [hnone.wire]
      exact List.nil_prefix
    · exact absurd (hnone.ioState.symm.trans hsent) (by simp)
  | headers hheaders =>
    obtain ⟨result, hwire, hwriting⟩ := hheaders.wire
    refine ⟨?_, ⟨[], .inl ⟨List.nil_prefix, ?_⟩⟩, fun hsent => ?_, fun _ _ hloop hpending => ?_, hagain⟩
    · rcases hwriting with ⟨-, hpending⟩ | ⟨-, -, hpending⟩ <;> rw [hpending] <;> simp
    · rw [← hwire]
      exact (List.prefix_append _ _).trans (List.prefix_append _ _)
    · exact absurd (hheaders.ioState.symm.trans hsent) (by simp)
    · rcases hwriting with ⟨hrun, -⟩ | ⟨-, -, hwrite⟩
      · exact absurd (hloop.symm.trans hrun) (by simp)
      · exact absurd (hpending.symm.trans hwrite) (by simp)
  | sent hsent =>
    obtain ⟨chunks, hwire, hall⟩ := hsent.wire
    refine ⟨?_, ⟨chunks, .inr ⟨hall, hsent.endsWithLastChunk, ?_⟩⟩, fun _ => ⟨hsent.endsWithLastChunk, chunks, hall, hwire⟩,
      fun _ _ _ _ => hsent.ioState, hagain⟩
    · rw [hsent.pending]
      exact Nat.zero_le _
    · rw [hwire]
  | body hbody =>
    obtain ⟨chunks, before, after, hin, hpending, hwaiting⟩ := hbody.inBody
    refine ⟨hpending, hin.wire_begin, fun hsent => ?_, fun hlast _ hloop hnil => ?_, hagain⟩
    · exact absurd (hin.ioState.symm.trans hsent) (by simp)
    · exact absurd (hlast.symm.trans (hwaiting hloop hnil)) (by simp)

theorem wire_of_inv (h : Inv headers s) :
    ∃ chunks, dataOf chunks <+: s.requestBody.appended ∧ s.wire <+: headers ++ encode chunks ∧
      (s.ioState = .requestSent → dataOf chunks = s.requestBody.appended ∧ s.wire = headers ++ encode chunks) := by
  cases h with
  | none hnone =>
    refine ⟨[], List.nil_prefix, hnone.wire ▸ List.nil_prefix, fun hsent => ?_⟩
    exact nomatch hnone.ioState.symm.trans hsent
  | headers hheaders =>
    obtain ⟨result, hwire, -⟩ := hheaders.wire
    refine ⟨[], List.nil_prefix, ?_, fun hsent => nomatch hheaders.ioState.symm.trans hsent⟩
    rw [← hwire]
    exact (List.prefix_append _ _).trans (List.prefix_append _ _)
  | sent hsent =>
    obtain ⟨chunks, hwire, hall⟩ := hsent.wire
    exact ⟨chunks, hall ▸ List.prefix_rfl, hwire ▸ List.prefix_rfl, fun _ => ⟨hall, hwire⟩⟩
  | body hbody =>
    obtain ⟨chunks, before, after, hin, -, -⟩ := hbody.inBody
    have hnot : s.ioState ≠ .requestSent := by simp [hin.ioState]
    obtain ⟨chunks, ⟨hdata, hwire⟩ | ⟨hdata, -, hwire⟩⟩ := hin.wire_begin
    · refine ⟨chunks, hdata, hwire.trans ?_, fun hsent => absurd hsent hnot⟩
      rw [encode, ← append_assoc]
      exact List.prefix_append _ _
    · exact ⟨chunks, hdata ▸ List.prefix_rfl, hwire, fun hsent => absurd hsent hnot⟩

/-- **The decoder gets the data of a chunked upload back** from what is on the wire behind the headers, however that is
cut: at any time a part of it from its beginning, and all of it once the request is sent. -/
theorem upload_decoded_of_run (headers : List UInt8) (elements : List Element) (horder : ChunksInOrder elements)
    (tr : List Event) (s : HttpStreamSender)
    (h : ((system headers elements).restrict NotWhileWriting).Run tr s) (bufs : List (List UInt8))
    (hcut : bufs.flatten = s.wire.drop headers.length) :
    ∃ d out, filterBufs .new bufs = .ok (d, out) ∧ out <+: (uploaded elements tr).flatMap Element.data ∧
      (s.ioState = .requestSent → out = (uploaded elements tr).flatMap Element.data ∧ d.reachedEof = true ∧
        d.bytesAfterEof = 0) := by
  have hinv : Inv headers s := by
    refine h.invariant (fun s hinit => ?_) (fun s e s' hs hstep => ?_)
    · exact Initial.inv horder hinit
    · exact hs.step hstep.1 hstep.2
  have hdata : s.requestBody.appended = (uploaded elements tr).flatMap Element.data := by
    rw [appended, Run.elements h.of_restrict]
  rw [← hdata]
  obtain ⟨chunks, hchunks, hwire, hall⟩ := wire_of_inv hinv
  have hprefix := hwire.drop headers.length
  rw [← hcut, List.drop_left] at hprefix
  obtain ⟨rest, hrest⟩ := hprefix
  have hread := ChunkedReader.reads_encode chunks
  rw [← hrest] at hread
  obtain ⟨n, hn, hafter⟩ := hread.prefix_left
  obtain ⟨d, hd, heof, hbytes⟩ := hn.filterBufs
  have hout : n.out <+: dataOf chunks := ChunkedReader.out_prefix_of_readBytes hafter.read
  refine ⟨d, n.out, hd, hout.trans hchunks, fun hsent => ?_⟩
  obtain ⟨hsame, hwhole⟩ := hall hsent
  rw [hwhole, List.drop_left] at hcut
  rw [← hcut] at hrest
  obtain rfl := List.append_right_eq_self.1 hrest
  cases hafter.read
  exact ⟨hsame, heof, hbytes⟩

/-- A parser with the headers `G`, for a body that has no chunk yet. -/
def smallSender : HttpStreamSender where
  ioState := .none
  requestHeaders := [71]
  requestBody := newChunked.fillBuf
  chunkBuf := []
  chunkLength := 0
  chunkLengthWithoutEncoding := 0
  sentLastChunk := false
  loop := none
  pending := []
  wire := []

theorem smallSender_initial : Initial [71] [] smallSender := ⟨rfl, rfl, rfl, rfl, rfl, rfl, rfl, rfl, rfl⟩

/-- The next state, if no chunk is appended while a write of the body is pending. -/
def nextIfWaiting (s : HttpStreamSender) (e : Event) : Option HttpStreamSender :=
  if NotWhileWriting s e then s.next e else none

/-- A body of two bytes, with a write that is completed later, and partly. -/
theorem chunked_upload_of_run_partial :
    ∃ tr s, ((system [71] []).restrict NotWhileWriting).Run tr s ∧ s.ioState = .requestSent ∧
      ∃ chunks, dataOf chunks = [1, 2] ∧ s.wire = [71] ++ encode chunks := by
  obtain ⟨s, hs, hsent⟩ : ∃ s, ([.sendRequest, .turn (.done 1), .turn .pending, .turn .pending,
      .appendChunk [1, 2] true, .turn (.done 3), .turn .pending, .writeCompleted 4, .turn (.done 5), .turn .pending,
      .turn .pending].foldlM nextIfWaiting smallSender) = some s ∧ s.ioState = .requestSent :=
    ⟨_, rfl, rfl⟩
  have hrun : ((system [71] []).restrict NotWhileWriting).Run _ s :=
    TransSys.Run.foldlM (f := nextIfWaiting) (fun s e s' hstep => by
      rw [nextIfWaiting] at hstep
      split at hstep
      · exact ⟨‹_›, hstep⟩
      · cases hstep) (.init smallSender_initial) hs
  obtain ⟨-, -, hall, -⟩ := chunked_upload_of_run [71] [] ⟨by simp, by simp⟩ _ s hrun
  exact ⟨_, s, hrun, hsent, (hall hsent).2⟩

theorem upload_decoded_of_run_two :
    ∃ s : HttpStreamSender, s.ioState = .requestSent ∧ ∃ d, filterBufs .new [s.wire.drop 1] = .ok (d, [1, 2]) := by
  obtain ⟨s, hs, hsent⟩ : ∃ s, ([.sendRequest, .turn (.done 1), .turn .pending, .turn .pending, .appendChunk [1, 2] true,
      .turn (.done 7), .turn (.done 5), .turn .pending, .turn .pending].foldlM nextIfWaiting smallSender) =
        some s ∧ s.ioState = .requestSent :=
    ⟨_, rfl, rfl⟩
  have hrun : ((system [71] []).restrict NotWhileWriting).Run _ s :=
    TransSys.Run.foldlM (f := nextIfWaiting) (fun s e s' hstep => by
      rw [nextIfWaiting] at hstep
      split at hstep
      · exact ⟨‹_›, hstep⟩
      · cases hstep) (.init smallSender_initial) hs
  obtain ⟨d, out, hd, -, hall⟩ := upload_decoded_of_run [71] [] ⟨by simp, by simp⟩ _ s hrun [_] (append_nil _)
  obtain ⟨rfl, -⟩ := hall hsent
  exact ⟨s, hsent, d, hd⟩

/-- **A chunk that is appended while one is written** is a second write, of the same bytes. -/
theorem not_one_write : ∃ tr s, (system [71] []).Run tr s ∧ s.pending = [.chunk 6, .chunk 6] := by
  obtain ⟨s, hs, hpending⟩ : ∃ s, ([.sendRequest, .turn (.done 1), .turn .pending, .turn .pending,
      .appendChunk [1] false, .turn .pending, .appendChunk [2] true, .turn .pending].foldlM next smallSender) = some s ∧
        s.pending = [.chunk 6, .chunk 6] :=
    ⟨_, rfl, rfl⟩
  exact ⟨_, s, TransSys.Run.foldlM (fun _ _ _ hstep => hstep) (.init smallSender_initial) hs, hpending⟩

end HttpStreamSender

end Chromium.Net
