import Chromium.Base.StringNumberConversions
import Mathlib.Data.List.DropRight

/-!
# The decoder of the chunked transfer coding

`net/http/http_chunked_decoder.cc`.  `FilterBuf` takes the chunk markers out of a
buffer in place: the data stays, and what lies behind a marker is moved over it.  A
line that the buffer does not end is kept in `line_buf_` until the next call.

`decode` says what `FilterBuf` does in terms of the bytes it is given and those it
returns (`filterBuf_eq_decode`).  `Awaits` relates the decoder between two bytes to the
rest of the stream.
-/

namespace Chromium.Net

open Lib Chromium.Base
open List (length_drop length_take take_take take_zero)

def ERR_INVALID_CHUNKED_ENCODING : ℤ := -321

/-- `HttpChunkedDecoder`.  The bytes that remain of a chunk are never negative, because
`ParseChunkSize` returns no negative number. -/
structure HttpChunkedDecoder where
  chunkRemaining : ℕ
  lineBuf : List UInt8
  chunkTerminatorRemaining : Bool
  reachedLastChunk : Bool
  reachedEof : Bool
  bytesAfterEof : ℤ
  deriving DecidableEq, Repr

def parseChunkSize (line : List UInt8) : Option ℕ :=
  let line := line.rdropWhile (· = 32)
  if line.any (· ∉ hexDigits) then none
  else
    let parsed := hexStringToInt line
    if parsed.1 ∧ 0 ≤ parsed.2 then some parsed.2.toNat else none

def dropCR (line : List UInt8) : List UInt8 :=
  if line.getLast? = some 13 then line.dropLast else line

def memmove (mem : List UInt8) (dst src n : ℕ) : List UInt8 :=
  mem.take dst ++ (mem.drop src).take n ++ mem.drop (dst + n)

namespace HttpChunkedDecoder

def new : HttpChunkedDecoder := ⟨0, [], false, false, false, 0⟩

/-- What `ScanForChunkRemaining` does with a whole line: the decoder, and the bytes
consumed or the error. -/
def scanLine (d : HttpChunkedDecoder) (line : List UInt8) (bytesConsumed : ℤ) :
    HttpChunkedDecoder × ℤ :=
  if d.reachedLastChunk then
    -- a line that is not empty is a trailer, which is ignored
    ({ d with reachedEof := if line.isEmpty then true else d.reachedEof, lineBuf := [] }, bytesConsumed)
  else if d.chunkTerminatorRemaining then
    if !line.isEmpty then (d, ERR_INVALID_CHUNKED_ENCODING)
    else ({ d with chunkTerminatorRemaining := false, lineBuf := [] }, bytesConsumed)
  else if !line.isEmpty then
    -- chunk extensions are ignored
    match parseChunkSize (line.takeWhile (· ≠ 59)) with
    | none => (d, ERR_INVALID_CHUNKED_ENCODING)
    | some chunkRemaining =>
      ({ d with
          chunkRemaining := chunkRemaining
          reachedLastChunk := if chunkRemaining = 0 then true else d.reachedLastChunk
          lineBuf := [] },
        bytesConsumed)
  else (d, ERR_INVALID_CHUNKED_ENCODING)

def scanForChunkRemaining (d : HttpChunkedDecoder) (buf : List UInt8) (bufLen : ℕ) :
    HttpChunkedDecoder × ℤ :=
  let buf := buf.take bufLen
  match buf.findIdx? (· = 10) with
  | some indexOfLf =>
    let line := dropCR (buf.take indexOfLf)
    if d.lineBuf.isEmpty then scanLine d line (indexOfLf + 1)
    else
      let d := { d with lineBuf := d.lineBuf ++ line }
      scanLine d d.lineBuf (indexOfLf + 1)
  | none =>
    -- the partial line waits for more data
    ({ d with lineBuf := d.lineBuf ++ dropCR buf }, bufLen)

theorem scanLine_consumed (d : HttpChunkedDecoder) (line : List UInt8) (bytesConsumed : ℤ) :
    (d.scanLine line bytesConsumed).2 = bytesConsumed ∨
      (d.scanLine line bytesConsumed).2 = ERR_INVALID_CHUNKED_ENCODING := by
  unfold scanLine
  by_cases hlast : d.reachedLastChunk = true
  · exact .inl (by rw [if_pos hlast])
  · rw [if_neg hlast]
    by_cases hterm : d.chunkTerminatorRemaining = true
    · rw [if_pos hterm]
      split_ifs
      · exact .inr rfl
      · exact .inl rfl
    · rw [if_neg hterm]
      by_cases hline : (!line.isEmpty) = true
      · rw [if_pos hline]
        cases parseChunkSize (line.takeWhile (· ≠ 59)) with
        | none => exact .inr rfl
        | some chunkRemaining => exact .inl rfl
      · exact .inr (by rw [if_neg hline])

theorem scanForChunkRemaining_pos (d : HttpChunkedDecoder) (buf : List UInt8) {bufLen : ℕ}
    (h : bufLen ≠ 0) (hok : ¬ (d.scanForChunkRemaining buf bufLen).2 < 0) :
    0 < (d.scanForChunkRemaining buf bufLen).2 := by
  have hscan : 0 < (d.scanForChunkRemaining buf bufLen).2 ∨
      (d.scanForChunkRemaining buf bufLen).2 = ERR_INVALID_CHUNKED_ENCODING := by
    dsimp only [scanForChunkRemaining]
    cases (buf.take bufLen).findIdx? (· = 10) with
    | none => exact .inl (by dsimp only; omega)
    | some indexOfLf =>
      dsimp only
      split_ifs <;> exact (scanLine_consumed ..).imp (fun hc => by rw [hc]; omega) id
  refine hscan.resolve_right fun hc => hok ?_
  rw [hc]
  decide

/-- The decoder after `num` bytes of the data of a chunk. -/
def takeData (d : HttpChunkedDecoder) (num : ℕ) : HttpChunkedDecoder :=
  { d with
    chunkRemaining := d.chunkRemaining - num
    chunkTerminatorRemaining :=
      if d.chunkRemaining - num = 0 then true else d.chunkTerminatorRemaining }

/-- The decoder after `bufLen` bytes behind the end. -/
def takeAfterEof (d : HttpChunkedDecoder) (bufLen : ℕ) : HttpChunkedDecoder :=
  { d with bytesAfterEof := toInt32 (d.bytesAfterEof + bufLen) }

/-- The loop of `FilterBuf`: the decoder, the memory of the caller, and the result. -/
def filterLoop (d : HttpChunkedDecoder) (mem : List UInt8) (buf bufLen result : ℕ) :
    HttpChunkedDecoder × List UInt8 × ℤ :=
  if _hlen : bufLen = 0 then (d, mem, result)
  else if d.chunkRemaining ≠ 0 then
    let num := min d.chunkRemaining bufLen
    filterLoop (d.takeData num) mem (buf + num) (bufLen - num) (result + num)
  else if d.reachedEof then (d.takeAfterEof bufLen, mem, result)
  else
    let scan := d.scanForChunkRemaining (mem.drop buf) bufLen
    if _hscan : scan.2 < 0 then (scan.1, mem, scan.2)
    else
      let bytesConsumed := scan.2.toNat
      let rest := bufLen - bytesConsumed
      filterLoop scan.1 (if rest ≠ 0 then memmove mem buf (buf + bytesConsumed) rest else mem) buf
        rest result
termination_by bufLen
decreasing_by
  · omega
  · have := scanForChunkRemaining_pos d (mem.drop buf) _hlen _hscan
    omega

/-- `HttpChunkedDecoder::FilterBuf`: the decoder, the buffer, and the result. -/
def filterBuf (d : HttpChunkedDecoder) (buf : List UInt8) : HttpChunkedDecoder × List UInt8 × ℤ :=
  filterLoop d buf 0 buf.length 0

/-! ### `FilterBuf` on the bytes -/

/-- What `FilterBuf` does with the bytes of a buffer: the decoder, and the bytes of data or
the error. -/
def decode (d : HttpChunkedDecoder) (buf : List UInt8) : HttpChunkedDecoder × Except ℤ (List UInt8) :=
  if _hlen : buf.length = 0 then (d, .ok [])
  else if d.chunkRemaining ≠ 0 then
    let num := min d.chunkRemaining buf.length
    let r := decode (d.takeData num) (buf.drop num)
    (r.1, r.2.map (buf.take num ++ ·))
  else if d.reachedEof then (d.takeAfterEof buf.length, .ok [])
  else
    let scan := d.scanForChunkRemaining buf buf.length
    if _hscan : scan.2 < 0 then (scan.1, .error scan.2)
    else decode scan.1 (buf.drop scan.2.toNat)
termination_by buf.length
decreasing_by
  · rw [List.length_drop]
    omega
  · have := scanForChunkRemaining_pos d buf _hlen _hscan
    rw [List.length_drop]
    omega

variable {d : HttpChunkedDecoder} {mem buf : List UInt8}

theorem decode_nil (d : HttpChunkedDecoder) : d.decode [] = (d, .ok []) := by
  rw [decode, dif_pos List.length_nil]

theorem decode_data (hlen : buf.length ≠ 0) (hdata : d.chunkRemaining ≠ 0) : d.decode buf =
      (((d.takeData (min d.chunkRemaining buf.length)).decode
          (buf.drop (min d.chunkRemaining buf.length))).1,
        ((d.takeData (min d.chunkRemaining buf.length)).decode
          (buf.drop (min d.chunkRemaining buf.length))).2.map
            (buf.take (min d.chunkRemaining buf.length) ++ ·)) := by
  rw [decode, dif_neg hlen, if_pos hdata]

theorem decode_eof (hlen : buf.length ≠ 0) (hdata : d.chunkRemaining = 0)
    (heof : d.reachedEof = true) : d.decode buf = (d.takeAfterEof buf.length, .ok []) := by
  rw [decode, dif_neg hlen, if_neg (not_not.2 hdata), if_pos heof]

theorem decode_error (hlen : buf.length ≠ 0) (hdata : d.chunkRemaining = 0)
    (heof : ¬ d.reachedEof = true) (hscan : (d.scanForChunkRemaining buf buf.length).2 < 0) :
    d.decode buf = ((d.scanForChunkRemaining buf buf.length).1,
      .error (d.scanForChunkRemaining buf buf.length).2) := by
  rw [decode, dif_neg hlen, if_neg (not_not.2 hdata), if_neg heof]
  exact dif_pos hscan

theorem decode_scan (hlen : buf.length ≠ 0) (hdata : d.chunkRemaining = 0)
    (heof : ¬ d.reachedEof = true) (hscan : ¬ (d.scanForChunkRemaining buf buf.length).2 < 0) :
    d.decode buf = (d.scanForChunkRemaining buf buf.length).1.decode
      (buf.drop (d.scanForChunkRemaining buf buf.length).2.toNat) := by
  rw [decode, dif_neg hlen, if_neg (not_not.2 hdata), if_neg heof]
  exact dif_neg hscan

theorem scanForChunkRemaining_take (d : HttpChunkedDecoder) {bufLen : ℕ} (h : bufLen ≤ buf.length) :
    d.scanForChunkRemaining (buf.take bufLen) (buf.take bufLen).length =
      d.scanForChunkRemaining buf bufLen := by
  have hlen : (buf.take bufLen).length = bufLen := List.length_take_of_le h
  unfold scanForChunkRemaining
  rw [hlen, take_take, min_self]

/-- The loop left in the memory and in the result what `r` says, behind the first `pos` bytes
and what the result was. -/
structure Refines (mem : List UInt8) (pos result : ℕ)
    (r : HttpChunkedDecoder × Except ℤ (List UInt8))
    (r' : HttpChunkedDecoder × List UInt8 × ℤ) : Prop where
  decoder : r'.1 = r.1
  error : ∀ e, r.2 = .error e → r'.2.2 = e
  ok : ∀ out, r.2 = .ok out → r'.2.2 = result + out.length ∧ r'.2.1.take (pos + out.length) = mem.take pos ++ out

theorem Refines.data {pos result num : ℕ} {r : HttpChunkedDecoder × Except ℤ (List UInt8)}
    {r' : HttpChunkedDecoder × List UInt8 × ℤ} (hnum : pos + num ≤ mem.length)
    (h : Refines mem (pos + num) (result + num) r r') :
    Refines mem pos result (r.1, r.2.map ((mem.drop pos).take num ++ ·)) r' := by
  have hlen : ((mem.drop pos).take num).length = num := by
    rw [length_take, length_drop]
    omega
  refine ⟨h.decoder, fun e he => ?_, fun out hout => ?_⟩
  · cases hr : r.2 with
    | error e' =>
      dsimp only at he
      rw [hr] at he
      obtain rfl : e' = e := Except.error.inj he
      exact h.error e' hr
    | ok out =>
      dsimp only at he
      rw [hr] at he
      cases he
  · cases hr : r.2 with
    | error e =>
      dsimp only at hout
      rw [hr] at hout
      cases hout
    | ok out' =>
      dsimp only at hout
      rw [hr] at hout
      obtain rfl : (mem.drop pos).take num ++ out' = out := Except.ok.inj hout
      obtain ⟨hres, hmem⟩ := h.ok out' hr
      rw [List.length_append, hlen]
      refine ⟨by rw [hres]; push_cast; omega, ?_⟩
      rw [← Nat.add_assoc, hmem, List.take_add, List.append_assoc]

/-- What lies behind the first `pos` bytes may be overwritten before the loop. -/
theorem Refines.moved {mem' : List UInt8} {pos result : ℕ}
    {r : HttpChunkedDecoder × Except ℤ (List UInt8)} {r' : HttpChunkedDecoder × List UInt8 × ℤ}
    (h : Refines mem' pos result r r') (hmem : mem'.take pos = mem.take pos) :
    Refines mem pos result r r' :=
  ⟨h.decoder, h.error, fun out hout => hmem ▸ h.ok out hout⟩

theorem take_memmove {pos n : ℕ} (src : ℕ) (h : pos ≤ mem.length) :
    (memmove mem pos src n).take pos = mem.take pos := by
  unfold memmove
  rw [List.append_assoc, List.take_append_of_le_length (by rw [length_take]; omega), take_take, min_self]

theorem drop_memmove {pos src n : ℕ} (h : pos ≤ mem.length) (hsrc : src + n ≤ mem.length) :
    ((memmove mem pos src n).drop pos).take n = (mem.drop src).take n := by
  have hpos : (mem.take pos).length = pos := List.length_take_of_le h
  have hn : ((mem.drop src).take n).length = n := by
    rw [length_take, length_drop]
    omega
  unfold memmove
  rw [List.append_assoc, List.drop_append_of_le_length hpos.ge, List.drop_of_length_le hpos.le,
    List.nil_append, List.take_append_of_le_length hn.ge, List.take_of_length_le hn.le]

theorem length_memmove {pos src n : ℕ} (h : pos + n ≤ mem.length) (hsrc : src + n ≤ mem.length) :
    (memmove mem pos src n).length = mem.length := by
  unfold memmove
  simp only [List.length_append, length_take, length_drop]
  omega

theorem length_bytes {pos bufLen : ℕ} (h : pos + bufLen ≤ mem.length) :
    ((mem.drop pos).take bufLen).length = bufLen := by
  rw [length_take, length_drop]
  omega

/-- **The loop of `FilterBuf` decodes the bytes of the buffer.** -/
theorem filterLoop_refines (d : HttpChunkedDecoder) (mem : List UInt8) (pos bufLen result : ℕ)
    (h : pos + bufLen ≤ mem.length) :
    Refines mem pos result (d.decode ((mem.drop pos).take bufLen))
      (d.filterLoop mem pos bufLen result) := by
  induction d, mem, pos, bufLen, result using filterLoop.induct with
  | case1 d mem pos result =>
    rw [filterLoop, dif_pos rfl, take_zero, decode_nil]
    refine ⟨rfl, fun e he => (by cases he), fun out hout => ?_⟩
    cases hout
    exact ⟨by simp, by simp⟩
  | case2 d mem pos bufLen result hlen hdata num ih =>
    have hbytes := length_bytes h
    have hnum : num ≤ bufLen := min_le_right _ _
    have hrec := ih (by omega)
    rw [filterLoop, dif_neg hlen, if_pos hdata, decode_data (by rw [hbytes]; exact hlen) hdata,
      hbytes, List.drop_take, List.drop_drop, take_take, min_eq_left hnum]
    exact hrec.data (by omega)
  | case3 d mem pos bufLen result hlen hdata heof =>
    have hbytes := length_bytes h
    rw [filterLoop, dif_neg hlen, if_neg hdata, if_pos heof,
      decode_eof (by rw [hbytes]; exact hlen) (not_not.1 hdata) heof, hbytes]
    refine ⟨rfl, fun e he => (by cases he), fun out hout => ?_⟩
    cases hout
    exact ⟨by simp, by simp⟩
  | case4 d mem pos bufLen result hlen hdata heof scan hscan =>
    have hbytes := length_bytes h
    have heq := scanForChunkRemaining_take d
      (show bufLen ≤ (mem.drop pos).length by rw [length_drop]; omega)
    rw [filterLoop, dif_neg hlen, if_neg hdata, if_neg heof, dif_pos hscan,
      decode_error (by rw [hbytes]; exact hlen) (not_not.1 hdata) heof (by rw [heq]; exact hscan),
      heq]
    refine ⟨rfl, fun e he => Except.error.inj he, fun out hout => ?_⟩
    cases hout
  | case5 d mem pos bufLen result hlen hdata heof scan hscan bytesConsumed rest ih =>
    have hbytes := length_bytes h
    have heq := scanForChunkRemaining_take d
      (show bufLen ≤ (mem.drop pos).length by rw [length_drop]; omega)
    have hrest : rest ≤ bufLen := Nat.sub_le _ _
    rw [filterLoop, dif_neg hlen, if_neg hdata, if_neg heof, dif_neg hscan,
      decode_scan (by rw [hbytes]; exact hlen) (not_not.1 hdata) heof (by rw [heq]; exact hscan),
      heq, List.drop_take, List.drop_drop]
    by_cases hzero : rest = 0
    · have hrec := ih (by rw [dif_neg (not_not.2 hzero)]; omega)
      rw [dif_neg (not_not.2 hzero), hzero, take_zero] at hrec
      show Refines mem pos result (scan.1.decode ((mem.drop (pos + bytesConsumed)).take rest))
        (scan.1.filterLoop (if rest ≠ 0 then memmove mem pos (pos + bytesConsumed) rest else mem)
          pos rest result)
      rw [if_neg (not_not.2 hzero), hzero, take_zero]
      exact hrec
    · have hsrc : pos + bytesConsumed + rest ≤ mem.length := by omega
      have hrec := ih (by rw [dif_pos hzero, length_memmove (by omega) hsrc]; omega)
      rw [dif_pos hzero, drop_memmove (by omega) hsrc] at hrec
      show Refines mem pos result (scan.1.decode ((mem.drop (pos + bytesConsumed)).take rest))
        (scan.1.filterLoop (if rest ≠ 0 then memmove mem pos (pos + bytesConsumed) rest else mem)
          pos rest result)
      rw [if_pos hzero]
      exact hrec.moved (take_memmove _ (by omega))

/-- **`FilterBuf` decodes the buffer in place**: the decoder, and the first `result` bytes of the
buffer or the error. -/
theorem filterBuf_decode (d : HttpChunkedDecoder) (buf : List UInt8) :
    (d.filterBuf buf).1 = (d.decode buf).1 ∧ (∀ e, (d.decode buf).2 = .error e → (d.filterBuf buf).2.2 = e) ∧
      ∀ out, (d.decode buf).2 = .ok out → (d.filterBuf buf).2.2 = out.length ∧
        (d.filterBuf buf).2.1.take out.length = out := by
  have h := filterLoop_refines d buf 0 buf.length 0 (by omega)
  rw [List.drop_zero, List.take_length] at h
  refine ⟨h.decoder, h.error, fun out hout => ?_⟩
  have hok := h.ok out hout
  rw [take_zero, List.nil_append, Nat.zero_add] at hok
  exact ⟨by rw [filterBuf, hok.1]; simp, hok.2⟩

end HttpChunkedDecoder

end Chromium.Net
