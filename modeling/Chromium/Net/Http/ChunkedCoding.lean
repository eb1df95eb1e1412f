import Chromium.Base.NumberStrings
import Chromium.Net.Http.ChunkedSegmentation

/-!
# Decoding a chunked body

`encode chunks` is the chunked transfer coding of some chunks of data: for each of them the
size in hexadecimal digits, the data, and the last chunk without a trailer.

`filterBufs_encode`: **however `encode chunks` and the bytes behind it are cut, the decoder
gives the data back**, reaches the end with the last line feed, and counts the bytes behind
it as long as an `int` can.
-/

namespace Chromium.Net

open Lib Chromium.Base

/-- A chunk: its size as it is written, and its data. -/
structure Chunk where
  size : List UInt8
  data : List UInt8
  digits : ∀ c ∈ size, c ∈ hexDigits
  value : hexValue size = data.length
  ne_nil : data ≠ []
  short : data.length < 2147483648

def crlf : List UInt8 := [13, 10]

def Chunk.encode (c : Chunk) : List UInt8 := (c.size ++ crlf) ++ (c.data ++ ([] ++ crlf))

def encode (chunks : List Chunk) : List UInt8 :=
  chunks.flatMap Chunk.encode ++ (([48] ++ crlf) ++ ([] ++ crlf))

def dataOf (chunks : List Chunk) : List UInt8 := chunks.flatMap Chunk.data

namespace ChunkedReader

variable {n n' n'' : ChunkedReader} {bytes bytes' line : List UInt8}

variable {size : List UInt8} (chunks : List Chunk)

/-- The lenient reader takes the bytes, and no carriage return of their lines matters. -/
structure Reads (n : ChunkedReader) (bytes : List UInt8) (n' : ChunkedReader) : Prop where
  read : readBytes dropAllCR n bytes = some n'
  clean : Clean n bytes

theorem Reads.trans (h : Reads n bytes n') (h' : Reads n' bytes' n'') :
    Reads n (bytes ++ bytes') n'' := by
  refine ⟨?_, Clean.append.2 ⟨h.clean, fun r hr => ?_⟩⟩
  · rw [readBytes_append, h.read]
    exact h'.read
  · obtain rfl := Option.some.inj (h.read.symm.trans hr)
    exact h'.clean

theorem Reads.prefix_left (h : Reads n (bytes ++ bytes') n'') :
    ∃ n', Reads n bytes n' ∧ Reads n' bytes' n'' := by
  have hread := h.read
  rw [readBytes_append, Option.bind_eq_some_iff] at hread
  obtain ⟨n', hn', hn''⟩ := hread
  obtain ⟨hclean, hrest⟩ := Clean.append.1 h.clean
  exact ⟨n', ⟨hn', hclean⟩, ⟨hn'', hrest n' hn'⟩⟩

theorem clean_of_notMem (hlf : 10 ∉ bytes) : Clean n bytes := by
  induction bytes generalizing n with
  | nil => trivial
  | cons b bytes ih =>
    exact ⟨fun _ hb => absurd (hb ▸ List.mem_cons_self) hlf,
      fun r _ => ih fun hmem => hlf (List.mem_cons_of_mem _ hmem)⟩

theorem reads_data (hne : bytes ≠ []) (hlen : bytes.length ≤ n.decoder.chunkRemaining) : Reads n bytes
      { n with decoder := n.decoder.takeData bytes.length, out := n.out ++ bytes } := by
  refine ⟨readBytes_data dropAllCR hne hlen, ?_⟩
  clear hne
  induction bytes generalizing n with
  | nil => trivial
  | cons b bytes ih =>
    rw [List.length_cons] at hlen
    have hdata : n.decoder.chunkRemaining ≠ 0 := by omega
    refine ⟨fun hn => absurd hn.chunkRemaining hdata, fun r hr => ?_⟩
    rw [byte_data hdata] at hr
    cases hr
    exact ih (by show _ ≤ _ - 1; omega)

theorem reads_eof (hne : bytes ≠ []) (hdata : n.decoder.chunkRemaining = 0)
    (heof : n.decoder.reachedEof = true) :
    Reads n bytes { n with decoder := n.decoder.takeAfterEof bytes.length } := by
  refine ⟨readBytes_eof hne hdata heof, ?_⟩
  clear hne
  induction bytes generalizing n with
  | nil => trivial
  | cons b bytes ih =>
    refine ⟨fun hn => absurd heof hn.reachedEof, fun r hr => ?_⟩
    rw [byte_eof hdata heof] at hr
    cases hr
    exact ih hdata heof

theorem reads_line {d d' : HttpChunkedDecoder} {out : List UInt8} (hn : InLine ⟨d, [], out⟩)
    (hbuf : d.lineBuf = []) (hlf : 10 ∉ line) (hcr : 13 ∉ line)
    (hread : d.readLine line = some d') :
    Reads ⟨d, [], out⟩ (line ++ crlf) ⟨d', [], out⟩ := by
  have hraw : line ++ crlf = (line ++ [13]) ++ [10] := by
    rw [crlf, List.append_assoc, List.singleton_append]
  have hlf' : 10 ∉ line ++ [13] := by simpa using hlf
  have hdrop : dropCR (line ++ [13]) = line := by
    have hnil : dropCR [13] = [] := by decide
    rw [dropCR_concat, hnil, List.append_nil]
  have hall : dropAllCR (line ++ [13]) = line := by
    have hnil : dropAllCR [13] = [] := by decide
    rw [dropAllCR_append, dropAllCR_eq_self hcr, hnil, List.append_nil]
  rw [hraw]
  refine ⟨?_, Clean.append.2 ⟨clean_of_notMem hlf', fun r hr => ?_⟩⟩
  · rw [hn.readBytes_line hlf']
    show (d.readLine (d.lineBuf ++ dropAllCR ([] ++ (line ++ [13])))).bind _ = _
    rw [List.nil_append, hbuf, List.nil_append, hall, hread]
    rfl
  · rw [hn.readBytes hlf'] at hr
    cases hr
    refine ⟨fun _ _ hbare => ?_, fun r _ => trivial⟩
    change d.BareCR ([] ++ (line ++ [13])) at hbare
    rw [List.nil_append] at hbare
    rw [HttpChunkedDecoder.BareCR, hdrop] at hbare
    split_ifs at hbare with hlast hterm
    · obtain ⟨b, line, rfl⟩ := List.exists_cons_of_ne_nil hbare.1
      exact hcr (hbare.2 b List.mem_cons_self ▸ List.mem_cons_self)
    · exact hcr hbare
    · exact hcr ((List.takeWhile_sublist _).subset hbare)

theorem parseChunkSize_hex (hne : size ≠ [])
    (hdigits : ∀ c ∈ size, c ∈ hexDigits) (hlt : hexValue size < 2147483648) :
    parseChunkSize size = some (hexValue size) := by
  have hspace : size.rdropWhile (· = 32) = size := by
    rw [List.rdropWhile_eq_self_iff]
    intro hsize
    have hlast := hdigits _ (List.getLast_mem hsize)
    simp only [decide_eq_true_eq]
    intro he
    rw [he] at hlast
    revert hlast
    decide
  have hany : ¬ size.any (· ∉ hexDigits) = true := by
    rw [List.any_eq_true]
    rintro ⟨c, hc, hnot⟩
    exact of_decide_eq_true hnot (hdigits c hc)
  dsimp only [parseChunkSize]
  rw [hspace, if_neg hany, hexStringToInt_of_lt hne hdigits hlt, if_pos ⟨rfl, by simp⟩, Int.toNat_natCast]

theorem notMem_of_digits (hdigits : ∀ c ∈ size, c ∈ hexDigits) {b : UInt8}
    (hb : b ∉ hexDigits) : b ∉ size :=
  fun hmem => hb (hdigits b hmem)

theorem reads_size (out : List UInt8) (hne : size ≠ [])
    (hdigits : ∀ c ∈ size, c ∈ hexDigits) (hlt : hexValue size < 2147483648) :
    Reads ⟨.new, [], out⟩ (size ++ crlf)
      ⟨⟨hexValue size, [], false, if hexValue size = 0 then true else false, false, 0⟩, [], out⟩ := by
  refine reads_line ⟨rfl, Bool.false_ne_true⟩ rfl (notMem_of_digits hdigits (by decide))
    (notMem_of_digits hdigits (by decide)) ?_
  have hsemicolon : size.takeWhile (· ≠ 59) = size := by
    rw [List.takeWhile_eq_self_iff]
    intro c hc
    exact decide_eq_true fun he => notMem_of_digits hdigits (by decide) (he ▸ hc)
  rw [HttpChunkedDecoder.readLine_size (by decide) (by decide), hsemicolon, parseChunkSize_hex hne hdigits hlt]
  rfl

theorem reads_chunk (c : Chunk) (out : List UInt8) :
    Reads ⟨.new, [], out⟩ c.encode ⟨.new, [], out ++ c.data⟩ := by
  have hpos : c.data.length ≠ 0 := fun h0 => c.ne_nil (List.length_eq_zero_iff.1 h0)
  have hsize : c.size ≠ [] := by
    intro hnil
    have hvalue := c.value
    rw [hnil] at hvalue
    exact hpos hvalue.symm
  have hline := reads_size out hsize c.digits (by rw [c.value]; exact c.short)
  rw [c.value, if_neg hpos] at hline
  have hdata := reads_data (n := ⟨⟨c.data.length, [], false, false, false, 0⟩, [], out⟩)
    c.ne_nil le_rfl
  have hafter : HttpChunkedDecoder.takeData ⟨c.data.length, [], false, false, false, 0⟩
      c.data.length = ⟨0, [], true, false, false, 0⟩ := by
    unfold HttpChunkedDecoder.takeData
    simp
  rw [hafter] at hdata
  have hterm : Reads ⟨⟨0, [], true, false, false, 0⟩, [], out ++ c.data⟩ ([] ++ crlf)
      ⟨.new, [], out ++ c.data⟩ :=
    reads_line ⟨rfl, by simp⟩ rfl List.not_mem_nil List.not_mem_nil rfl
  exact hline.trans (hdata.trans hterm)

theorem reads_chunks (out : List UInt8) :
    Reads ⟨.new, [], out⟩ (chunks.flatMap Chunk.encode) ⟨.new, [], out ++ dataOf chunks⟩ := by
  induction chunks generalizing out with
  | nil =>
    show Reads _ [] ⟨_, _, out ++ []⟩
    rw [List.append_nil]
    exact ⟨rfl, trivial⟩
  | cons c chunks ih =>
    have hrest := ih (out ++ c.data)
    rw [List.append_assoc] at hrest
    exact (reads_chunk c out).trans hrest

theorem reads_untilEnd : Reads .new (chunks.flatMap Chunk.encode ++ (([48] ++ crlf) ++ [13]))
      ⟨⟨0, [], false, true, false, 0⟩, [13], dataOf chunks⟩ := by
  have hlast := reads_size (dataOf chunks) (List.cons_ne_nil 48 [])
    (by simp [hexDigits]) (by decide +kernel)
  have hcr : Reads ⟨⟨0, [], false, true, false, 0⟩, [], dataOf chunks⟩ [13]
      ⟨⟨0, [], false, true, false, 0⟩, [13], dataOf chunks⟩ := ⟨rfl, clean_of_notMem (by decide)⟩
  exact (reads_chunks chunks []).trans (hlast.trans hcr)

theorem reads_encode : Reads .new (encode chunks) ⟨⟨0, [], false, true, true, 0⟩, [], dataOf chunks⟩ := by
  have hlast := reads_size (dataOf chunks) (List.cons_ne_nil 48 [])
    (by simp [hexDigits]) (by decide +kernel)
  have hend : Reads ⟨⟨0, [], false, true, false, 0⟩, [], dataOf chunks⟩ ([] ++ crlf)
      ⟨⟨0, [], false, true, true, 0⟩, [], dataOf chunks⟩ :=
    reads_line ⟨rfl, by simp⟩ rfl List.not_mem_nil List.not_mem_nil rfl
  exact (reads_chunks chunks []).trans (hlast.trans hend)

theorem reads_encode_append (extra : List UInt8) : Reads .new (encode chunks ++ extra)
      ⟨⟨0, [], false, true, true, toInt32 extra.length⟩, [], dataOf chunks⟩ := by
  rcases extra with - | ⟨b, extra⟩
  · rw [List.append_nil]
    exact reads_encode chunks
  · have hextra := reads_eof (n := ⟨⟨0, [], false, true, true, 0⟩, [], dataOf chunks⟩)
      (List.cons_ne_nil b extra) rfl rfl
    have hcount : HttpChunkedDecoder.takeAfterEof ⟨0, [], false, true, true, 0⟩
        (b :: extra).length = ⟨0, [], false, true, true, toInt32 (b :: extra).length⟩ := by
      rw [HttpChunkedDecoder.takeAfterEof, zero_add]
    rw [hcount] at hextra
    exact (reads_encode chunks).trans hextra

theorem reachedEof_of_readBytes {strip : List UInt8 → List UInt8} {r r' : ChunkedReader}
    (heof : r.decoder.reachedEof = true) (hread : readBytes strip r bytes = some r') :
    r'.decoder.reachedEof = true := by
  induction bytes generalizing r with
  | nil =>
    cases hread
    exact heof
  | cons b bytes ih =>
    rw [readBytes_cons, Option.bind_eq_some_iff] at hread
    obtain ⟨r₁, hb, hread⟩ := hread
    refine ih ?_ hread
    rcases byte_cases hb with ⟨_, rfl⟩ | ⟨_, _, rfl⟩ | ⟨hin, _⟩ | ⟨hin, _⟩
    · exact heof
    · exact heof
    · exact absurd heof hin.reachedEof
    · exact absurd heof hin.reachedEof

theorem out_prefix_of_readBytes {strip : List UInt8 → List UInt8} {r r' : ChunkedReader}
    (hread : readBytes strip r bytes = some r') : r.out <+: r'.out := by
  induction bytes generalizing r with
  | nil =>
    cases hread
    exact List.prefix_rfl
  | cons b bytes ih =>
    rw [readBytes_cons, Option.bind_eq_some_iff] at hread
    obtain ⟨r₁, hb, hread⟩ := hread
    refine List.IsPrefix.trans ?_ (ih hread)
    rcases byte_cases hb with ⟨_, rfl⟩ | ⟨_, _, rfl⟩ | ⟨_, _, _, _, rfl⟩ | ⟨_, _, rfl⟩
    · exact List.prefix_append _ _
    · exact List.prefix_rfl
    · exact List.prefix_rfl
    · exact List.prefix_rfl

/-- **The end is reached with the last line feed of the coding**, in every prefix of a stream. -/
theorem reachedEof_iff {chunks : List Chunk} {extra rest : List UInt8}
    (hsplit : bytes ++ rest = encode chunks ++ extra) (hread : Reads .new bytes n) :
    n.decoder.reachedEof = true ↔ (encode chunks).length ≤ bytes.length := by
  constructor
  · intro heof
    by_contra hlt
    have hbefore : bytes <+: chunks.flatMap Chunk.encode ++ (([48] ++ crlf) ++ [13]) := by
      have henc : encode chunks = (chunks.flatMap Chunk.encode ++ (([48] ++ crlf) ++ [13])) ++ [10] := by
        unfold encode crlf
        simp
      have hpre : bytes <+: (chunks.flatMap Chunk.encode ++ (([48] ++ crlf) ++ [13])) ++
          ([10] ++ extra) := by
        refine ⟨rest, ?_⟩
        rw [hsplit, henc, List.append_assoc]
      refine List.prefix_of_prefix_length_le hpre (List.prefix_append _ _) ?_
      rw [henc, List.length_append, List.length_singleton] at hlt
      omega
    obtain ⟨rest', hrest⟩ := hbefore
    have huntil := reads_untilEnd chunks
    rw [← hrest] at huntil
    obtain ⟨n', hn', hrest'⟩ := huntil.prefix_left
    obtain rfl := Option.some.inj (hread.read.symm.trans hn'.read)
    have := reachedEof_of_readBytes heof hrest'.read
    cases this
  · intro hle
    have hpre : encode chunks <+: bytes := by
      have hstream : encode chunks <+: encode chunks ++ extra := List.prefix_append _ _
      exact List.prefix_of_prefix_length_le hstream ⟨rest, hsplit⟩ hle
    obtain ⟨bytes', rfl⟩ := hpre
    obtain ⟨n', hn', hrest⟩ := hread.prefix_left
    obtain rfl := Option.some.inj ((reads_encode chunks).read.symm.trans hn'.read)
    exact reachedEof_of_readBytes rfl hrest.read

/-- **Buffers that a lenient reader takes** are decoded to what it gives. -/
theorem Reads.filterBufs {bufs : List (List UInt8)} (h : Reads .new bufs.flatten n) :
    ∃ d, Chromium.Net.filterBufs .new bufs = .ok (d, n.out) ∧
      d.reachedEof = n.decoder.reachedEof ∧ d.bytesAfterEof = n.decoder.bytesAfterEof := by
  rcases verdict_of_clean h.clean with ⟨_, hnone⟩ | ⟨r, n', hr, hn', hsim⟩
  · rw [h.read] at hnone
    cases hnone
  · obtain rfl := Option.some.inj (h.read.symm.trans hn')
    refine ⟨r.decoder, ?_, ?_, ?_⟩
    · rw [(filterBufs_readBufs .new [] bufs).1]
      show resultOf [] (readBufs .new bufs) = _
      rw [hr, ← hsim.out]
      rfl
    · rw [← hsim.decoder]
    · rw [← hsim.decoder]

end ChunkedReader

open ChunkedReader

/-- What the decoder counts behind the end is stored in an `int`. -/
theorem filterBufs_encode_toInt32 {chunks : List Chunk} {extra : List UInt8}
    {bufs : List (List UInt8)} (hcut : Cutting (encode chunks ++ extra) bufs) :
    ∃ d, filterBufs .new bufs = .ok (d, dataOf chunks) ∧ d.reachedEof = true ∧
      d.bytesAfterEof = toInt32 extra.length := by
  have hread := reads_encode_append chunks extra
  rw [← hcut.flatten] at hread
  exact hread.filterBufs

/-- **However a chunked body and up to `2 ^ 31 - 1` bytes behind it are cut**, no call fails,
the calls return the data, the end is reached exactly at the final line end, and the bytes
behind it are counted. -/
theorem filterBufs_encode {chunks : List Chunk} {extra : List UInt8} {bufs : List (List UInt8)}
    (hcut : Cutting (encode chunks ++ extra) bufs) (hextra : extra.length < 2147483648) :
    (∃ d, filterBufs .new bufs = .ok (d, dataOf chunks) ∧ d.reachedEof = true ∧ d.bytesAfterEof = extra.length) ∧
      ∀ before after, bufs = before ++ after → ∃ d out, filterBufs .new before = .ok (d, out) ∧
          (d.reachedEof = true ↔ (encode chunks).length ≤ before.flatten.length) := by
  refine ⟨?_, fun before after hsplit => ?_⟩
  · obtain ⟨d, hd, heof, hbytes⟩ := filterBufs_encode_toInt32 hcut
    refine ⟨d, hd, heof, ?_⟩
    rw [hbytes, toInt32_of_mem (by omega) (by omega)]
  · have hflat : before.flatten ++ after.flatten = encode chunks ++ extra := by
      rw [← List.flatten_append, ← hsplit, hcut.flatten]
    have hread := reads_encode_append chunks extra
    rw [← hflat] at hread
    obtain ⟨n, hn, _⟩ := hread.prefix_left
    obtain ⟨d, hd, heof, _⟩ := hn.filterBufs
    refine ⟨d, n.out, hd, ?_⟩
    rw [heof]
    exact reachedEof_iff hflat hn

/-- The chunk with the one byte `a`. -/
def chunkA : Chunk := ⟨[49], [97], by simp [hexDigits], by decide +kernel, by simp, by simp⟩

theorem filterBufs_encode_chunkA :
    ∃ d, filterBufs .new [[49, 13], [10, 97, 13], [10, 48, 13, 10, 13], [10, 98]] =
        .ok (d, dataOf [chunkA]) ∧ d.reachedEof = true ∧
      d.bytesAfterEof = ([98] : List UInt8).length :=
  (filterBufs_encode (show Cutting (encode [chunkA] ++ [98]) _ from ⟨rfl, by decide⟩)
    (by decide)).1

/-- **`2 ^ 31` bytes behind the end are counted as `-2 ^ 31`.** -/
theorem bytesAfterEof_overflow :
    ¬ ∀ (chunks : List Chunk) (extra : List UInt8) (bufs : List (List UInt8)),
      Cutting (encode chunks ++ extra) bufs →
        ∃ d, filterBufs .new bufs = .ok (d, dataOf chunks) ∧ d.bytesAfterEof = extra.length := by
  intro h
  obtain ⟨n, hn⟩ : ∃ n, n = 1073741824 := ⟨_, rfl⟩
  have hcut : Cutting (encode [] ++ (List.replicate n 0 ++ List.replicate n 0))
      [encode [], List.replicate n 0, List.replicate n 0] := by
    refine ⟨by simp, fun buf hbuf => ?_⟩
    simp only [List.mem_cons, List.not_mem_nil, or_false, or_self] at hbuf
    rcases hbuf with rfl | rfl
    · exact List.cons_ne_nil _ _
    · rw [Ne, List.replicate_eq_nil_iff]
      omega
  obtain ⟨d, hd, hbytes⟩ := h _ _ _ hcut
  obtain ⟨d', hd', _, hbytes'⟩ := filterBufs_encode_toInt32 hcut
  obtain ⟨rfl, _⟩ := Prod.mk.inj (Except.ok.inj (hd.symm.trans hd'))
  rw [hbytes, List.length_append, List.length_replicate] at hbytes'
  unfold toInt32 at hbytes'
  omega

end Chromium.Net
