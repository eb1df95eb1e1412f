import Chromium.Net.Http.HttpChunkedDecoder

/-!
# Chunked decoding byte by byte

`ChunkedReader` is the decoder within a buffer.  `FilterBuf` on a buffer is one step for
each byte (`decode_readBytes`), and then `cut`, which keeps the line that the buffer does
not end.  `filterBufs` is `FilterBuf` on one buffer after the other, and reads the bytes of
the buffers (`filterBufs_readBufs`).
-/

namespace Chromium.Net

open Lib Chromium.Base
open List (append_assoc append_nil drop_left length_cons nil_append)

namespace HttpChunkedDecoder

/-- What `ScanForChunkRemaining` makes of a whole line. -/
def readLine (d : HttpChunkedDecoder) (line : List UInt8) : Option HttpChunkedDecoder :=
  if (d.scanLine line 0).2 < 0 then none else some (d.scanLine line 0).1

variable {d : HttpChunkedDecoder} {line : List UInt8}

theorem readLine_trailer (h : d.reachedLastChunk = true) : d.readLine line =
      some { d with reachedEof := if line.isEmpty then true else d.reachedEof, lineBuf := [] } := by
  unfold readLine scanLine
  rw [if_pos h]
  rfl

theorem readLine_terminator (h : ¬ d.reachedLastChunk = true)
    (hterm : d.chunkTerminatorRemaining = true) :
    d.readLine line = if line = [] then some { d with chunkTerminatorRemaining := false, lineBuf := [] }
      else none := by
  unfold readLine scanLine
  rw [if_neg h, if_pos hterm]
  cases line with
  | nil | cons b bs => rfl

theorem readLine_size (h : ¬ d.reachedLastChunk = true)
    (hterm : ¬ d.chunkTerminatorRemaining = true) :
    d.readLine line = (parseChunkSize (line.takeWhile (· ≠ 59))).map fun chunkRemaining =>
        { d with
          chunkRemaining := chunkRemaining
          reachedLastChunk := if chunkRemaining = 0 then true else d.reachedLastChunk
          lineBuf := [] } := by
  unfold readLine scanLine
  rw [if_neg h, if_neg hterm]
  cases line with
  | nil => rfl
  | cons b bs =>
    rw [if_pos (show (!(b :: bs).isEmpty) = true from rfl)]
    cases parseChunkSize ((b :: bs).takeWhile (· ≠ 59)) with
    | none | some chunkRemaining => rfl

theorem readLine_lineBuf (lineBuf : List UInt8) :
    ({ d with lineBuf := lineBuf } : HttpChunkedDecoder).readLine line = d.readLine line := by
  by_cases hlast : d.reachedLastChunk = true
  · exact (readLine_trailer (d := { d with lineBuf := lineBuf }) hlast).trans
      (readLine_trailer hlast).symm
  · by_cases hterm : d.chunkTerminatorRemaining = true
    · exact (readLine_terminator (d := { d with lineBuf := lineBuf }) hlast hterm).trans
        (readLine_terminator hlast hterm).symm
    · exact (readLine_size (d := { d with lineBuf := lineBuf }) hlast hterm).trans
        (readLine_size hlast hterm).symm

theorem readLine_frame {d' : HttpChunkedDecoder} (h : d.readLine line = some d') :
    d'.lineBuf = [] ∧ d'.bytesAfterEof = d.bytesAfterEof ∧ (d.reachedEof = true → d'.reachedEof = true) ∧
      (d.reachedLastChunk = true → d'.reachedLastChunk = true) := by
  by_cases hlast : d.reachedLastChunk = true
  · rw [readLine_trailer hlast] at h
    cases h
    exact ⟨rfl, rfl, fun heof => by dsimp only; split_ifs <;> trivial, fun h => h⟩
  · by_cases hterm : d.chunkTerminatorRemaining = true
    · rw [readLine_terminator hlast hterm] at h
      by_cases hline : line = []
      · rw [if_pos hline] at h
        cases h
        exact ⟨rfl, rfl, fun h => h, fun h => h⟩
      · rw [if_neg hline] at h
        cases h
    · rw [readLine_size hlast hterm, Option.map_eq_some_iff] at h
      obtain ⟨_, _, rfl⟩ := h
      exact ⟨rfl, rfl, fun h => h, fun h => absurd h hlast⟩

theorem scanLine_readLine (bytesConsumed : ℤ) :
    (d.readLine line = none ∧ (d.scanLine line bytesConsumed).2 = ERR_INVALID_CHUNKED_ENCODING) ∨
      ∃ d', d.readLine line = some d' ∧ d.scanLine line bytesConsumed = (d', bytesConsumed) := by
  by_cases hlast : d.reachedLastChunk = true
  · refine .inr ⟨_, readLine_trailer hlast, ?_⟩
    rw [scanLine, if_pos hlast]
  · by_cases hterm : d.chunkTerminatorRemaining = true
    · rw [readLine_terminator hlast hterm]
      rw [scanLine, if_neg hlast, if_pos hterm]
      cases line with
      | nil => exact .inr ⟨_, rfl, rfl⟩
      | cons b bs => exact .inl ⟨rfl, rfl⟩
    · rw [readLine_size hlast hterm]
      rw [scanLine, if_neg hlast, if_neg hterm]
      cases line with
      | nil => exact .inl ⟨rfl, rfl⟩
      | cons b bs =>
        rw [if_pos (show (!(b :: bs).isEmpty) = true from rfl)]
        cases parseChunkSize ((b :: bs).takeWhile (· ≠ 59)) with
        | none => exact .inl ⟨rfl, rfl⟩
        | some chunkRemaining => exact .inr ⟨_, rfl, rfl⟩

end HttpChunkedDecoder

/-! ### The reader -/

/-- The decoder within a buffer: the bytes of the line so far that this buffer brought, and
the bytes of data. -/
structure ChunkedReader where
  decoder : HttpChunkedDecoder
  line : List UInt8
  out : List UInt8
  deriving DecidableEq, Repr

def dropAllCR (line : List UInt8) : List UInt8 := line.filter (· ≠ 13)

namespace ChunkedReader

def new : ChunkedReader := ⟨.new, [], []⟩

/-- Reading a byte; `strip` is applied to the line when it ends. -/
def byte (strip : List UInt8 → List UInt8) (r : ChunkedReader) (b : UInt8) : Option ChunkedReader :=
  if r.decoder.chunkRemaining ≠ 0 then
    some { r with decoder := r.decoder.takeData 1, out := r.out ++ [b] }
  else if r.decoder.reachedEof then some { r with decoder := r.decoder.takeAfterEof 1 }
  else if b = 10 then
    (r.decoder.readLine (r.decoder.lineBuf ++ strip r.line)).map fun d => ⟨d, [], r.out⟩
  else some { r with line := r.line ++ [b] }

def readBytes (strip : List UInt8 → List UInt8) (r : ChunkedReader) (bytes : List UInt8) :
    Option ChunkedReader :=
  bytes.foldlM (byte strip) r

def cut (r : ChunkedReader) : ChunkedReader :=
  { r with
    decoder := { r.decoder with lineBuf := r.decoder.lineBuf ++ dropCR r.line }
    line := [] }

def readBufs (r : ChunkedReader) (bufs : List (List UInt8)) : Option ChunkedReader :=
  bufs.foldlM (fun r buf => (readBytes dropCR r buf).map cut) r

variable {strip : List UInt8 → List UInt8} {r r' : ChunkedReader} {b : UInt8}
  {bytes bytes' : List UInt8}

theorem readBytes_cons :
    readBytes strip r (b :: bytes) = (byte strip r b).bind (readBytes strip · bytes) :=
  List.foldlM_cons

theorem readBytes_append : readBytes strip r (bytes ++ bytes') =
      (readBytes strip r bytes).bind (readBytes strip · bytes') :=
  List.foldlM_append

theorem byte_data (h : r.decoder.chunkRemaining ≠ 0) :
    byte strip r b = some { r with decoder := r.decoder.takeData 1, out := r.out ++ [b] } :=
  if_pos h

theorem byte_eof (h : r.decoder.chunkRemaining = 0) (heof : r.decoder.reachedEof = true) :
    byte strip r b = some { r with decoder := r.decoder.takeAfterEof 1 } := by
  rw [byte, if_neg (not_not.2 h), if_pos heof]

structure InLine (r : ChunkedReader) : Prop where
  chunkRemaining : r.decoder.chunkRemaining = 0
  reachedEof : ¬ r.decoder.reachedEof = true

theorem InLine.byte_lf (h : r.InLine) : byte strip r 10 =
      (r.decoder.readLine (r.decoder.lineBuf ++ strip r.line)).map fun d => ⟨d, [], r.out⟩ := by
  rw [byte, if_neg (not_not.2 h.chunkRemaining), if_neg h.reachedEof, if_pos rfl]

theorem InLine.byte_ne (h : r.InLine) (hb : b ≠ 10) :
    byte strip r b = some { r with line := r.line ++ [b] } := by
  rw [byte, if_neg (not_not.2 h.chunkRemaining), if_neg h.reachedEof, if_neg hb]

/-- **What a byte does**: it is data, or behind the end, or ends a line, or stands in one. -/
theorem byte_cases (h : byte strip r b = some r') :
    (r.decoder.chunkRemaining ≠ 0 ∧ r' = { r with decoder := r.decoder.takeData 1, out := r.out ++ [b] }) ∨
      (r.decoder.chunkRemaining = 0 ∧ r.decoder.reachedEof = true ∧
        r' = { r with decoder := r.decoder.takeAfterEof 1 }) ∨
      (r.InLine ∧ b = 10 ∧ ∃ d, r.decoder.readLine (r.decoder.lineBuf ++ strip r.line) = some d ∧ r' = ⟨d, [], r.out⟩) ∨
      (r.InLine ∧ b ≠ 10 ∧ r' = { r with line := r.line ++ [b] }) := by
  by_cases hdata : r.decoder.chunkRemaining = 0
  · by_cases heof : r.decoder.reachedEof = true
    · rw [byte_eof hdata heof] at h
      exact .inr (.inl ⟨hdata, heof, (Option.some.inj h).symm⟩)
    · have hin : r.InLine := ⟨hdata, heof⟩
      by_cases hlf : b = 10
      · subst hlf
        rw [hin.byte_lf, Option.map_eq_some_iff] at h
        obtain ⟨d, hd, hr⟩ := h
        exact .inr (.inr (.inl ⟨hin, rfl, d, hd, hr.symm⟩))
      · rw [hin.byte_ne hlf] at h
        exact .inr (.inr (.inr ⟨hin, hlf, (Option.some.inj h).symm⟩))
  · rw [byte_data hdata] at h
    exact .inl ⟨hdata, (Option.some.inj h).symm⟩

variable (strip) in
theorem readBytes_data (hne : bytes ≠ []) (hlen : bytes.length ≤ r.decoder.chunkRemaining) :
    readBytes strip r bytes =
      some { r with decoder := r.decoder.takeData bytes.length, out := r.out ++ bytes } := by
  induction bytes generalizing r with
  | nil => exact absurd rfl hne
  | cons b bytes ih =>
    rw [length_cons] at hlen
    rw [readBytes_cons, byte_data (by omega)]
    show readBytes strip _ bytes = _
    rcases bytes with - | ⟨b', bytes⟩
    · rfl
    · rw [ih (List.cons_ne_nil _ _) (by show _ ≤ _ - 1; omega)]
      have hne : ¬ r.decoder.chunkRemaining - 1 = 0 := by
        rw [length_cons] at hlen
        omega
      simp only [HttpChunkedDecoder.takeData, if_neg hne, Nat.sub_sub, append_assoc,
        List.singleton_append, length_cons, Nat.add_comm 1]

theorem readBytes_eof (hne : bytes ≠ []) (h : r.decoder.chunkRemaining = 0)
    (heof : r.decoder.reachedEof = true) :
    readBytes strip r bytes = some { r with decoder := r.decoder.takeAfterEof bytes.length } := by
  induction bytes generalizing r with
  | nil => exact absurd rfl hne
  | cons b bytes ih =>
    rw [readBytes_cons, byte_eof h heof]
    show readBytes strip _ bytes = _
    rcases bytes with - | ⟨b', bytes⟩
    · rfl
    · rw [ih (r := { r with decoder := r.decoder.takeAfterEof 1 }) (List.cons_ne_nil _ _) h heof]
      dsimp only [HttpChunkedDecoder.takeAfterEof]
      have hsum : toInt32 (toInt32 (r.decoder.bytesAfterEof + ((1 : ℕ) : ℤ)) + (((b' :: bytes).length : ℕ) : ℤ)) =
          toInt32 (r.decoder.bytesAfterEof + (((b :: b' :: bytes).length : ℕ) : ℤ)) := by
        rw [length_cons (a := b)]
        unfold toInt32
        push_cast
        omega
      rw [hsum]

theorem InLine.readBytes (h : r.InLine) (hlf : 10 ∉ bytes) :
    readBytes strip r bytes = some { r with line := r.line ++ bytes } := by
  induction bytes generalizing r with
  | nil =>
    rw [append_nil]
    rfl
  | cons b bytes ih =>
    have hb : b ≠ 10 := fun he => hlf (he ▸ List.mem_cons_self)
    have hrest := ih (r := { r with line := r.line ++ [b] }) ⟨h.chunkRemaining, h.reachedEof⟩
      (fun he => hlf (List.mem_cons_of_mem _ he))
    rw [readBytes_cons, h.byte_ne hb]
    show ChunkedReader.readBytes strip _ bytes = _
    rw [hrest, append_assoc, List.singleton_append]

theorem InLine.readBytes_line (h : r.InLine) (hlf : 10 ∉ bytes) :
    ChunkedReader.readBytes strip r (bytes ++ 10 :: bytes') =
      (r.decoder.readLine (r.decoder.lineBuf ++ strip (r.line ++ bytes))).bind fun d =>
        ChunkedReader.readBytes strip ⟨d, [], r.out⟩ bytes' := by
  have hin : InLine { r with line := r.line ++ bytes } := ⟨h.chunkRemaining, h.reachedEof⟩
  rw [readBytes_append, h.readBytes hlf]
  show ChunkedReader.readBytes strip _ (10 :: bytes') = _
  rw [readBytes_cons, hin.byte_lf, Option.bind_map]
  rfl

/-! ### `FilterBuf` is reading bytes -/

theorem scanForChunkRemaining_none (d : HttpChunkedDecoder) {buf : List UInt8} (hlf : 10 ∉ buf) :
    d.scanForChunkRemaining buf buf.length =
      ({ d with lineBuf := d.lineBuf ++ dropCR buf }, (buf.length : ℤ)) := by
  have hfind : buf.findIdx? (· = 10) = none := by
    rw [List.findIdx?_eq_none_iff]
    intro b hb
    exact decide_eq_false fun he => hlf (he ▸ hb)
  dsimp only [HttpChunkedDecoder.scanForChunkRemaining]
  rw [List.take_length, hfind]

theorem scanForChunkRemaining_some (d : HttpChunkedDecoder) {line : List UInt8}
    (rest : List UInt8) (hlf : 10 ∉ line) :
    (d.readLine (d.lineBuf ++ dropCR line) = none ∧
        (d.scanForChunkRemaining (line ++ 10 :: rest) (line ++ 10 :: rest).length).2 = ERR_INVALID_CHUNKED_ENCODING) ∨
      ∃ d', d.readLine (d.lineBuf ++ dropCR line) = some d' ∧
        d.scanForChunkRemaining (line ++ 10 :: rest) (line ++ 10 :: rest).length =
          (d', (line.length : ℤ) + 1) := by
  have hnone : line.findIdx? (· = 10) = none := by
    rw [List.findIdx?_eq_none_iff]
    intro b hb
    exact decide_eq_false fun he => hlf (he ▸ hb)
  have hfind : (line ++ 10 :: rest).findIdx? (· = 10) = some line.length := by
    rw [List.findIdx?_append, hnone, List.findIdx?_cons]
    simp
  have hscan : d.scanForChunkRemaining (line ++ 10 :: rest) (line ++ 10 :: rest).length =
      HttpChunkedDecoder.scanLine
        (if d.lineBuf.isEmpty then d else { d with lineBuf := d.lineBuf ++ dropCR line })
        (d.lineBuf ++ dropCR line) ((line.length : ℤ) + 1) := by
    dsimp only [HttpChunkedDecoder.scanForChunkRemaining]
    rw [List.take_length, hfind]
    dsimp only
    rw [List.take_left]
    by_cases hempty : d.lineBuf.isEmpty = true
    · rw [if_pos hempty, if_pos hempty, List.isEmpty_iff.1 hempty, nil_append]
    · rw [if_neg hempty, if_neg hempty]
  have hread : HttpChunkedDecoder.readLine
      (if d.lineBuf.isEmpty then d else { d with lineBuf := d.lineBuf ++ dropCR line })
      (d.lineBuf ++ dropCR line) = d.readLine (d.lineBuf ++ dropCR line) := by
    by_cases hempty : d.lineBuf.isEmpty = true
    · rw [if_pos hempty]
    · rw [if_neg hempty, HttpChunkedDecoder.readLine_lineBuf]
  rw [hscan, ← hread]
  exact HttpChunkedDecoder.scanLine_readLine _

/-- What a reader gives after a buffer, next to what `decode` gives for it. -/
inductive Decodes (out : List UInt8) :
    Option ChunkedReader → HttpChunkedDecoder × Except ℤ (List UInt8) → Prop
  | ok {r : ChunkedReader} {o : List UInt8} (h : r.out = out ++ o) :
      Decodes out (some r) (r.cut.decoder, .ok o)
  | error (d : HttpChunkedDecoder) : Decodes out none (d, .error ERR_INVALID_CHUNKED_ENCODING)

theorem Decodes.append {out o : List UInt8} {r : Option ChunkedReader}
    {res : HttpChunkedDecoder × Except ℤ (List UInt8)} (h : Decodes (out ++ o) r res) :
    Decodes out r (res.1, res.2.map (o ++ ·)) := by
  cases h with
  | ok h => exact Decodes.ok (by rw [h, append_assoc])
  | error d => exact Decodes.error d

/-- **`FilterBuf` on a buffer is one step for each byte and a cut.** -/
theorem decode_readBytes (d : HttpChunkedDecoder) (buf out : List UInt8) :
    Decodes out (readBytes dropCR ⟨d, [], out⟩ buf) (d.decode buf) := by
  induction d, buf using HttpChunkedDecoder.decode.induct generalizing out with
  | case1 d buf hlen =>
    obtain rfl := List.length_eq_zero_iff.1 hlen
    rw [HttpChunkedDecoder.decode_nil]
    have hcut : (ChunkedReader.cut ⟨d, [], out⟩).decoder = d := by simp [cut, dropCR]
    have hok : Decodes out _ _ := Decodes.ok (r := ⟨d, [], out⟩) (append_nil out).symm
    rw [hcut] at hok
    exact hok
  | case2 d buf hlen hdata num ih =>
    have hnum : num ≤ buf.length := min_le_right _ _
    have htake : (buf.take num).length = num := List.length_take_of_le hnum
    have hne : buf.take num ≠ [] := by
      rw [← List.length_pos_iff, htake]
      omega
    have hread := readBytes_data dropCR (r := ⟨d, [], out⟩) hne
      (by rw [htake]; exact min_le_left _ _)
    rw [htake] at hread
    rw [HttpChunkedDecoder.decode_data hlen hdata]
    have hsplit : readBytes dropCR ⟨d, [], out⟩ buf =
        readBytes dropCR ⟨d.takeData num, [], out ++ buf.take num⟩ (buf.drop num) := by
      conv_lhs => rw [← List.take_append_drop num buf]
      rw [readBytes_append, hread]
      rfl
    rw [hsplit]
    exact (ih (out ++ buf.take num)).append
  | case3 d buf hlen hdata heof =>
    rw [HttpChunkedDecoder.decode_eof hlen (not_not.1 hdata) heof,
      readBytes_eof (by rintro rfl; exact hlen rfl) (not_not.1 hdata) heof]
    have hcut : (ChunkedReader.cut ⟨d.takeAfterEof buf.length, [], out⟩).decoder =
        d.takeAfterEof buf.length := by simp [cut, dropCR]
    have hok : Decodes out _ _ :=
      Decodes.ok (r := ⟨d.takeAfterEof buf.length, [], out⟩) (append_nil out).symm
    rw [hcut] at hok
    exact hok
  | case4 d buf hlen hdata heof scan hscan =>
    have hin : InLine ⟨d, [], out⟩ := ⟨not_not.1 hdata, heof⟩
    rw [HttpChunkedDecoder.decode_error hlen (not_not.1 hdata) heof hscan]
    by_cases hlf : 10 ∈ buf
    · obtain ⟨line, rest, rfl, hline⟩ := List.eq_append_cons_of_mem hlf
      rw [hin.readBytes_line hline, nil_append]
      obtain ⟨hread, herr⟩ | ⟨d', _, hok⟩ := scanForChunkRemaining_some d rest hline
      · rw [hread, herr]
        exact Decodes.error _
      · have : (scan.2 : ℤ) = (line.length : ℤ) + 1 := congrArg Prod.snd hok
        omega
    · have : (scan.2 : ℤ) = buf.length := congrArg Prod.snd (scanForChunkRemaining_none d hlf)
      omega
  | case5 d buf hlen hdata heof scan hscan ih =>
    have hin : InLine ⟨d, [], out⟩ := ⟨not_not.1 hdata, heof⟩
    rw [HttpChunkedDecoder.decode_scan hlen (not_not.1 hdata) heof hscan]
    have ih := ih out
    by_cases hlf : 10 ∈ buf
    · obtain ⟨line, rest, rfl, hline⟩ := List.eq_append_cons_of_mem hlf
      obtain ⟨_, herr⟩ | ⟨d', hread, hok⟩ := scanForChunkRemaining_some d rest hline
      · exact absurd (show scan.2 < 0 by rw [show scan.2 = _ from herr]; decide) hscan
      · have hscan' : scan = (d', (line.length : ℤ) + 1) := hok
        rw [hscan'] at ih
        rw [hok, hin.readBytes_line hline, nil_append, hread]
        have hdrop : (line ++ 10 :: rest).drop ((line.length : ℤ) + 1).toNat = rest := by
          rw [show ((line.length : ℤ) + 1).toNat = line.length + 1 by omega, ← List.drop_drop, drop_left]
          rfl
        rw [hdrop] at ih ⊢
        exact ih
    · have hnone := scanForChunkRemaining_none d hlf
      rw [hnone, hin.readBytes hlf, nil_append]
      have hdrop : buf.drop ((buf.length : ℤ)).toNat = [] := by
        rw [Int.toNat_natCast, List.drop_length]
      rw [hdrop, HttpChunkedDecoder.decode_nil]
      exact Decodes.ok (r := ⟨d, buf, out⟩) (append_nil out).symm

end ChunkedReader

/-! ### Successive calls -/

/-- Successive calls of `FilterBuf`: the first error, or the decoder and the bytes returned. -/
def filterBufs (d : HttpChunkedDecoder) :
    List (List UInt8) → Except ℤ (HttpChunkedDecoder × List UInt8)
  | [] => .ok (d, [])
  | buf :: bufs =>
    let r := d.filterBuf buf
    if r.2.2 < 0 then .error r.2.2
    else (filterBufs r.1 bufs).map fun p => (p.1, r.2.1.take r.2.2.toNat ++ p.2)

/-- What the calls give, when the reader of the buffers gives `r`. -/
def resultOf (out : List UInt8) : Option ChunkedReader → Except ℤ (HttpChunkedDecoder × List UInt8)
  | none => .error ERR_INVALID_CHUNKED_ENCODING
  | some r => .ok (r.decoder, r.out.drop out.length)

open ChunkedReader in
/-- **Successive calls of `FilterBuf` read the bytes of the buffers.** -/
theorem filterBufs_readBufs (d : HttpChunkedDecoder) (out : List UInt8)
    (bufs : List (List UInt8)) :
    filterBufs d bufs = resultOf out (readBufs ⟨d, [], out⟩ bufs) ∧
      ∀ r, readBufs ⟨d, [], out⟩ bufs = some r → r.line = [] ∧ out <+: r.out := by
  induction bufs generalizing d out with
  | nil =>
    refine ⟨?_, fun r hr => ?_⟩
    · show Except.ok (d, []) = Except.ok (d, out.drop out.length)
      rw [List.drop_length]
    · cases hr
      exact ⟨rfl, List.prefix_rfl⟩
  | cons buf bufs ih =>
    obtain ⟨hdecoder, herror, hok⟩ := d.filterBuf_decode buf
    have hdec := decode_readBytes d buf out
    have hcons : readBufs ⟨d, [], out⟩ (buf :: bufs) =
        ((readBytes dropCR ⟨d, [], out⟩ buf).map cut).bind (readBufs · bufs) := List.foldlM_cons
    generalize hres : d.decode buf = res at hdec hdecoder herror hok
    generalize hread : readBytes dropCR ⟨d, [], out⟩ buf = read at hdec hcons
    cases hdec with
    | error d' =>
      have hneg := herror _ rfl
      rw [hcons, filterBufs, hneg, if_pos (by decide)]
      exact ⟨rfl, fun r hr => by cases hr⟩
    | @ok r o h =>
      obtain ⟨hlen, htake⟩ := hok o rfl
      have hline : r.cut = ⟨r.cut.decoder, [], out ++ o⟩ := by rw [← h]; rfl
      obtain ⟨ih, ihout⟩ := ih r.cut.decoder (out ++ o)
      have hcons' : readBufs ⟨d, [], out⟩ (buf :: bufs) =
          readBufs ⟨r.cut.decoder, [], out ++ o⟩ bufs := by rw [hcons, ← hline]; rfl
      rw [hcons', filterBufs]
      rw [hlen, if_neg (by omega), hdecoder, Int.toNat_natCast, htake, ih]
      generalize readBufs ⟨r.cut.decoder, [], out ++ o⟩ bufs = rest at ihout ⊢
      cases rest with
      | none => exact ⟨rfl, fun r hr => by cases hr⟩
      | some r' =>
        obtain ⟨hline', out', hout'⟩ := ihout r' rfl
        refine ⟨?_, fun r'' hr => ?_⟩
        · show Except.ok (r'.decoder, o ++ r'.out.drop (out ++ o).length) =
            Except.ok (r'.decoder, r'.out.drop out.length)
          rw [← hout', drop_left, append_assoc, drop_left]
        · cases hr
          exact ⟨hline', o ++ out', by rw [← hout', append_assoc]⟩

end Chromium.Net
