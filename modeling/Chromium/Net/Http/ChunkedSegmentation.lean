import Chromium.Net.Http.ChunkedReader

/-!
# How a chunked stream is cut

The end of a buffer takes a carriage return away as the end of a line does, so the way a
stream is cut decides which of the carriage returns of a line the decoder sees
(`LeavesOutCR`).  The lenient reader sees none of them.  `Sim` relates a reader to it:

* `Sim.byte_none`: what the lenient reader refuses every reader refuses;
* `Sim.byte_clean`: where no carriage return matters, both do the same.

`sameVerdict_of_clean`: **a stream that the lenient reader refuses, or no line of which has
a carriage return that matters, is decoded in one way however it is cut**; and
`clean_of_sameVerdict`: no other stream is.
-/

namespace Chromium.Net

open Lib Chromium.Base
open List (append_nil filter_cons nil_append)

/-- The line `kept` is `line` with some of its carriage returns left out. -/
inductive LeavesOutCR : List UInt8 → List UInt8 → Prop
  | nil : LeavesOutCR [] []
  | keep (b : UInt8) {line kept : List UInt8} :
      LeavesOutCR line kept → LeavesOutCR (b :: line) (b :: kept)
  | leave {line kept : List UInt8} : LeavesOutCR line kept → LeavesOutCR (13 :: line) kept

namespace LeavesOutCR

variable {line kept line' kept' : List UInt8}

theorem refl (line : List UInt8) : LeavesOutCR line line := by
  induction line with
  | nil => exact nil
  | cons b line ih => exact keep b ih

theorem append (h : LeavesOutCR line kept) (h' : LeavesOutCR line' kept') :
    LeavesOutCR (line ++ line') (kept ++ kept') := by
  induction h with
  | nil => exact h'
  | keep b _ ih => exact keep b ih
  | leave _ ih => exact leave ih

theorem dropAllCR_eq (h : LeavesOutCR line kept) : dropAllCR kept = dropAllCR line := by
  induction h with
  | nil => rfl
  | keep b _ ih =>
    unfold dropAllCR at *
    rw [filter_cons, filter_cons, ih]
  | leave _ ih =>
    unfold dropAllCR at *
    rw [filter_cons, if_neg (by decide), ih]

theorem eq_of_notMem (h : LeavesOutCR line kept) (hcr : 13 ∉ line) : kept = line := by
  induction h with
  | nil => rfl
  | keep b _ ih => rw [ih fun hm => hcr (List.mem_cons_of_mem _ hm)]
  | leave _ _ => exact absurd List.mem_cons_self hcr

theorem takeWhile (h : LeavesOutCR line kept) :
    LeavesOutCR (line.takeWhile (· ≠ 59)) (kept.takeWhile (· ≠ 59)) := by
  induction h with
  | nil => exact nil
  | keep b _ ih =>
    rw [List.takeWhile_cons, List.takeWhile_cons]
    split
    · exact keep b ih
    · exact nil
  | leave _ ih =>
    rw [List.takeWhile_cons, if_pos (by decide)]
    exact leave ih

theorem trans {first : List UInt8} (h : LeavesOutCR first line) (h' : LeavesOutCR line kept) :
    LeavesOutCR first kept := by
  induction h generalizing kept with
  | nil => exact h'
  | keep b _ ih =>
    cases h' with
    | keep _ h' => exact keep b (ih h')
    | leave h' => exact leave (ih h')
  | leave _ ih => exact leave (ih h')

theorem eq_nil (h : LeavesOutCR [] kept) : kept = [] := by
  cases h
  rfl

theorem all_of_eq_nil (h : LeavesOutCR line []) : ∀ b ∈ line, b = 13 := by
  generalize hk : ([] : List UInt8) = kept at h
  induction h with
  | nil => exact fun b hb => nomatch hb
  | keep b _ _ => cases hk
  | leave _ ih =>
    intro b hb
    rcases List.mem_cons.1 hb with rfl | hb
    · rfl
    · exact ih hk b hb

end LeavesOutCR

theorem dropAllCR_append (line line' : List UInt8) :
    dropAllCR (line ++ line') = dropAllCR line ++ dropAllCR line' := List.filter_append ..

theorem dropCR_nil : dropCR [] = [] := rfl

theorem dropCR_concat (line : List UInt8) (b : UInt8) : dropCR (line ++ [b]) = line ++ dropCR [b] := by
  unfold dropCR
  by_cases hb : b = 13
  · subst hb
    simp
  · have : ¬ some b = some (13 : UInt8) := by simpa using hb
    simp [this]

theorem dropCR_append {line line' : List UInt8} (h : line' ≠ []) :
    dropCR (line ++ line') = line ++ dropCR line' := by
  rw [← List.dropLast_concat_getLast h, ← List.append_assoc, dropCR_concat, dropCR_concat, List.append_assoc]

theorem leavesOutCR_dropCR (line : List UInt8) : LeavesOutCR line (dropCR line) := by
  rcases List.eq_nil_or_concat line with rfl | ⟨line, b, rfl⟩
  · exact .nil
  · rw [List.concat_eq_append, dropCR_concat]
    refine (LeavesOutCR.refl line).append ?_
    by_cases hb : b = 13
    · subst hb
      exact .leave .nil
    · have hdrop : dropCR [b] = [b] := if_neg (by simpa using hb)
      rw [hdrop]
      exact .refl _

theorem leavesOutCR_dropAllCR (line : List UInt8) : LeavesOutCR line (dropAllCR line) := by
  induction line with
  | nil => exact .nil
  | cons b line ih =>
    rw [dropAllCR, filter_cons]
    by_cases hb : b = 13
    · subst hb
      exact .leave ih
    · rw [if_pos (by simpa using hb)]
      exact .keep b ih

theorem dropAllCR_eq_self {line : List UInt8} (h : 13 ∉ line) : dropAllCR line = line :=
  (leavesOutCR_dropAllCR line).eq_of_notMem h

theorem notMem_dropAllCR (line : List UInt8) : 13 ∉ dropAllCR line := by
  unfold dropAllCR
  simp

theorem leavesOutCR_dropCR_dropAllCR (line : List UInt8) :
    LeavesOutCR (dropCR line) (dropAllCR line) := by
  rw [← (leavesOutCR_dropCR line).dropAllCR_eq]
  exact leavesOutCR_dropAllCR _

/-! ### Lines with carriage returns in them -/

namespace HttpChunkedDecoder

/-- A line has a carriage return where the decoder reads it: one that does not stand before
the line feed, in a chunk size before its extension, in the line behind the data of a chunk,
or in a line behind the last chunk that has nothing else. -/
def BareCR (d : HttpChunkedDecoder) (line : List UInt8) : Prop :=
  if d.reachedLastChunk then dropCR line ≠ [] ∧ ∀ b ∈ dropCR line, b = 13
  else if d.chunkTerminatorRemaining then 13 ∈ dropCR line
  else 13 ∈ (dropCR line).takeWhile (· ≠ 59)

variable {d d' : HttpChunkedDecoder} {line kept : List UInt8}

theorem parseChunkSize_of_mem (h : 13 ∈ line) : parseChunkSize line = none := by
  have hmem : 13 ∈ line.rdropWhile (· = 32) := by
    have hsplit : line.rdropWhile (· = 32) ++ line.rtakeWhile (· = 32) = line :=
      List.rdropWhile_append_rtakeWhile ..
    rw [← hsplit] at h
    refine (List.mem_append.1 h).resolve_right fun htail => ?_
    have := List.mem_rtakeWhile_imp htail
    simp at this
  have hany : (line.rdropWhile (· = 32)).any (· ∉ hexDigits) = true :=
    List.any_eq_true.2 ⟨13, hmem, by decide⟩
  dsimp only [parseChunkSize]
  rw [if_pos hany]

/-- **Where no carriage return matters, it does not matter which are left out.** -/
theorem readLine_of_leavesOutCR (h : LeavesOutCR (dropCR line) kept) (hcr : ¬ d.BareCR line) :
    d.readLine kept = d.readLine (dropCR line) := by
  unfold BareCR at hcr
  by_cases hlast : d.reachedLastChunk = true
  · rw [if_pos hlast] at hcr
    have hempty : kept.isEmpty = (dropCR line).isEmpty := by
      by_cases hline : dropCR line = []
      · rw [hline] at h ⊢
        rw [h.eq_nil]
      · have hkept : kept ≠ [] := by
          rintro rfl
          exact hcr ⟨hline, h.all_of_eq_nil⟩
        rw [List.isEmpty_eq_false_iff.2 hline, List.isEmpty_eq_false_iff.2 hkept]
    rw [readLine_trailer hlast, readLine_trailer hlast, hempty]
  · rw [if_neg hlast] at hcr
    by_cases hterm : d.chunkTerminatorRemaining = true
    · rw [if_pos hterm] at hcr
      rw [h.eq_of_notMem hcr]
    · rw [if_neg hterm] at hcr
      rw [readLine_size hlast hterm, readLine_size hlast hterm, h.takeWhile.eq_of_notMem hcr]

/-- **A chunk size or terminator that is read is also read without carriage returns.** -/
theorem readLine_dropAllCR (h : LeavesOutCR line kept) (hlast : ¬ d.reachedLastChunk = true)
    (hread : d.readLine kept = some d') : d.readLine (dropAllCR line) = some d' := by
  by_cases hterm : d.chunkTerminatorRemaining = true
  · rw [readLine_terminator hlast hterm] at hread ⊢
    by_cases hkept : kept = []
    · subst hkept
      have hall : dropAllCR line = [] := h.dropAllCR_eq.symm
      rw [hall]
      exact hread
    · rw [if_neg hkept] at hread
      cases hread
  · rw [readLine_size hlast hterm] at hread ⊢
    have hsize : (dropAllCR line).takeWhile (· ≠ 59) = kept.takeWhile (· ≠ 59) := by
      have hkept : 13 ∉ kept.takeWhile (· ≠ 59) := by
        intro hm
        rw [parseChunkSize_of_mem hm] at hread
        cases hread
      have hall : 13 ∉ (dropAllCR line).takeWhile (· ≠ 59) := fun hm =>
        notMem_dropAllCR line ((List.takeWhile_sublist _).subset hm)
      rw [← dropAllCR_eq_self hall, ← dropAllCR_eq_self hkept, h.takeWhile.dropAllCR_eq,
        (leavesOutCR_dropAllCR line).takeWhile.dropAllCR_eq]
    rw [hsize]
    exact hread

/-- **A carriage return that matters makes a chunk size or terminator malformed.** -/
theorem readLine_of_bareCR (hlast : ¬ d.reachedLastChunk = true) (hcr : d.BareCR line) :
    d.readLine (dropCR line) = none := by
  rw [BareCR, if_neg hlast] at hcr
  by_cases hterm : d.chunkTerminatorRemaining = true
  · rw [if_pos hterm] at hcr
    rw [readLine_terminator hlast hterm, if_neg (List.ne_nil_of_mem hcr)]
  · rw [if_neg hterm] at hcr
    rw [readLine_size hlast hterm, parseChunkSize_of_mem hcr]
    rfl

theorem readLine_of_bareCR_trailer (hlast : d.reachedLastChunk = true) (hcr : d.BareCR line) :
    d.readLine (dropCR line) = some { d with lineBuf := [] } ∧
      d.readLine (dropAllCR line) = some { d with reachedEof := true, lineBuf := [] } := by
  rw [BareCR, if_pos hlast] at hcr
  have hall : dropAllCR line = [] := by
    rw [← (leavesOutCR_dropCR line).dropAllCR_eq]
    rw [dropAllCR, List.filter_eq_nil_iff]
    intro b hb
    rw [hcr.2 b hb]
    decide
  rw [readLine_trailer hlast, readLine_trailer hlast, hall, List.isEmpty_eq_false_iff.2 hcr.1]
  exact ⟨rfl, rfl⟩

/-- Behind the last chunk no line is malformed, and the last chunk stays reached. -/
theorem readLine_of_reachedLastChunk (hlast : d.reachedLastChunk = true) (line : List UInt8) :
    ∃ d', d.readLine line = some d' ∧ d'.reachedLastChunk = true :=
  ⟨_, readLine_trailer hlast, hlast⟩

end HttpChunkedDecoder

/-! ### Two readers of a stream -/

namespace ChunkedReader

variable {c n : ChunkedReader} {b : UInt8} {bytes rest : List UInt8}

variable {r : ChunkedReader} {strip : List UInt8 → List UInt8}

/-- The reader `c` is where the lenient reader `n` is: of the line it has left out some
carriage returns, one at the end of the last buffer among them. -/
structure Sim (c n : ChunkedReader) : Prop where
  decoder : { c.decoder with lineBuf := [] } = n.decoder
  out : c.out = n.out
  line : ∃ front, n.line = front ++ c.line ∧ LeavesOutCR (dropCR front) c.decoder.lineBuf

theorem Sim.refl_of_lineBuf (hbuf : r.decoder.lineBuf = []) : Sim r r := by
  refine ⟨?_, rfl, [], rfl, ?_⟩
  · rw [← hbuf]
  · rw [hbuf]
    exact .nil

theorem sim_new : Sim new new := Sim.refl_of_lineBuf rfl

theorem Sim.kept (h : Sim c n) : LeavesOutCR (dropCR n.line) (c.decoder.lineBuf ++ dropCR c.line) := by
  obtain ⟨front, hline, hfront⟩ := h.line
  rw [hline]
  by_cases hnil : c.line = []
  · rw [hnil, dropCR_nil, append_nil, append_nil]
    exact hfront
  · rw [dropCR_append hnil]
    exact ((leavesOutCR_dropCR front).trans hfront).append (.refl _)

theorem Sim.cut (h : Sim c n) : Sim c.cut n := ⟨h.decoder, h.out, n.line, (append_nil _).symm, h.kept⟩

theorem Sim.inLine (h : Sim c n) (hn : n.InLine) : c.InLine := by
  have hdec := h.decoder
  constructor
  · rw [← hn.chunkRemaining, ← hdec]
  · intro heof
    exact hn.reachedEof (by rw [← hdec]; exact heof)

theorem Sim.lineBuf (h : Sim c n) : n.decoder.lineBuf = [] := by rw [← h.decoder]

theorem Sim.byte_lf (h : Sim c n) (hn : n.InLine) :
    byte dropCR c 10 = (n.decoder.readLine (c.decoder.lineBuf ++ dropCR c.line)).map (⟨·, [], n.out⟩) ∧
      byte dropAllCR n 10 = (n.decoder.readLine (dropAllCR n.line)).map (⟨·, [], n.out⟩) := by
  refine ⟨?_, ?_⟩
  · have hread : HttpChunkedDecoder.readLine { c.decoder with lineBuf := [] }
        (c.decoder.lineBuf ++ dropCR c.line) = c.decoder.readLine (c.decoder.lineBuf ++ dropCR c.line) :=
      HttpChunkedDecoder.readLine_lineBuf []
    rw [(h.inLine hn).byte_lf, ← hread, h.decoder, h.out]
  · rw [hn.byte_lf, h.lineBuf, nil_append]

theorem Sim.byte_ne (h : Sim c n) (hb : ¬ (n.InLine ∧ b = 10)) :
    ∃ c' n', byte dropCR c b = some c' ∧ byte dropAllCR n b = some n' ∧ Sim c' n' := by
  have hdec := h.decoder
  by_cases hdata : n.decoder.chunkRemaining = 0
  · have hdata' : c.decoder.chunkRemaining = 0 := by rw [← hdata, ← hdec]
    by_cases heof : n.decoder.reachedEof = true
    · have heof' : c.decoder.reachedEof = true := by rw [← heof, ← hdec]
      refine ⟨_, _, byte_eof hdata' heof', byte_eof hdata heof, ?_, h.out, h.line⟩
      rw [← hdec]
      rfl
    · have hn : n.InLine := ⟨hdata, heof⟩
      have hlf : b ≠ 10 := fun he => hb ⟨hn, he⟩
      obtain ⟨front, hline, hfront⟩ := h.line
      refine ⟨_, _, (h.inLine hn).byte_ne hlf, hn.byte_ne hlf, hdec, h.out, front, ?_, hfront⟩
      show n.line ++ [b] = front ++ (c.line ++ [b])
      rw [hline, List.append_assoc]
  · have hdata' : c.decoder.chunkRemaining ≠ 0 := by
      intro h0
      exact hdata (by rw [← hdec]; exact h0)
    refine ⟨_, _, byte_data hdata', byte_data hdata, ?_, ?_, h.line⟩
    · rw [← hdec]
      rfl
    · show c.out ++ [b] = n.out ++ [b]
      rw [h.out]

/-- **A byte before the last chunk is reached**: a reader refuses it, or it does what the
lenient reader does. -/
theorem Sim.byte_none (h : Sim c n) (hlast : ¬ n.decoder.reachedLastChunk = true) :
    byte dropCR c b = none ∨
      ∃ c' n', byte dropCR c b = some c' ∧ byte dropAllCR n b = some n' ∧ Sim c' n' := by
  by_cases hlf : n.InLine ∧ b = 10
  · obtain ⟨hn, rfl⟩ := hlf
    obtain ⟨hc, hlenient⟩ := h.byte_lf hn
    rw [hc, hlenient]
    cases hread : n.decoder.readLine (c.decoder.lineBuf ++ dropCR c.line) with
    | none => exact .inl rfl
    | some d =>
      have hall := HttpChunkedDecoder.readLine_dropAllCR h.kept hlast hread
      rw [(leavesOutCR_dropCR n.line).dropAllCR_eq] at hall
      rw [hall]
      exact .inr ⟨_, _, rfl, rfl, Sim.refl_of_lineBuf (HttpChunkedDecoder.readLine_frame hread).1⟩
  · exact .inr (h.byte_ne hlf)

/-- **Where no carriage return matters, a reader does what the lenient reader does.** -/
theorem Sim.byte_clean (h : Sim c n)
    (hcr : n.InLine → b = 10 → ¬ n.decoder.BareCR n.line) :
    Option.Rel Sim (byte dropCR c b) (byte dropAllCR n b) := by
  by_cases hlf : n.InLine ∧ b = 10
  · obtain ⟨hn, rfl⟩ := hlf
    obtain ⟨hc, hlenient⟩ := h.byte_lf hn
    rw [hc, hlenient, HttpChunkedDecoder.readLine_of_leavesOutCR h.kept (hcr hn rfl),
      HttpChunkedDecoder.readLine_of_leavesOutCR (leavesOutCR_dropCR_dropAllCR n.line)
        (hcr hn rfl)]
    cases hread : n.decoder.readLine (dropCR n.line) with
    | none => exact .none
    | some d => exact .some (Sim.refl_of_lineBuf (HttpChunkedDecoder.readLine_frame hread).1)
  · obtain ⟨c', n', hc, hn, hsim⟩ := h.byte_ne hlf
    rw [hc, hn]
    exact .some hsim

/-- **No line of the bytes has a carriage return that matters.** -/
def Clean : ChunkedReader → List UInt8 → Prop
  | _, [] => True
  | r, b :: bytes =>
    (r.InLine → b = 10 → ¬ r.decoder.BareCR r.line) ∧ ∀ r', byte dropAllCR r b = some r' → Clean r' bytes

theorem Clean.append : ∀ {bytes : List UInt8} {r : ChunkedReader}, Clean r (bytes ++ rest) ↔
      Clean r bytes ∧ ∀ r', readBytes dropAllCR r bytes = some r' → Clean r' rest := by
  intro bytes
  induction bytes with
  | nil =>
    intro r
    refine ⟨fun h => ⟨trivial, fun r' hr => ?_⟩, fun h => h.2 r rfl⟩
    cases hr
    exact h
  | cons b bytes ih =>
    intro r
    constructor
    · rintro ⟨hcr, hrest⟩
      refine ⟨⟨hcr, fun r' hr => (ih.1 (hrest r' hr)).1⟩, fun r' hr => ?_⟩
      rw [readBytes_cons, Option.bind_eq_some_iff] at hr
      obtain ⟨r₁, hr₁, hr'⟩ := hr
      exact (ih.1 (hrest r₁ hr₁)).2 r' hr'
    · rintro ⟨⟨hcr, hbytes⟩, hrest⟩
      refine ⟨hcr, fun r' hr => ih.2 ⟨hbytes r' hr, fun r'' hr' => hrest r'' ?_⟩⟩
      rw [readBytes_cons, hr]
      exact hr'

theorem Sim.readBytes_clean (h : Sim c n) (hclean : Clean n bytes) :
    Option.Rel Sim (readBytes dropCR c bytes) (readBytes dropAllCR n bytes) := by
  induction bytes generalizing c n with
  | nil => exact .some h
  | cons b bytes ih =>
    have hb := h.byte_clean hclean.1
    rw [readBytes_cons, readBytes_cons]
    generalize hcb : byte dropCR c b = cb at hb
    generalize hnb : byte dropAllCR n b = nb at hb
    cases hb with
    | none => exact .none
    | some hsim => exact ih hsim (hclean.2 _ hnb)

theorem Sim.readBufs_clean {bufs : List (List UInt8)} (h : Sim c n)
    (hclean : Clean n bufs.flatten) :
    Option.Rel Sim (readBufs c bufs) (readBytes dropAllCR n bufs.flatten) := by
  induction bufs generalizing c n with
  | nil => exact .some h
  | cons buf bufs ih =>
    rw [List.flatten_cons] at hclean ⊢
    obtain ⟨hbuf, hbufs⟩ := Clean.append.1 hclean
    have hb := h.readBytes_clean hbuf
    have hcons : readBufs c (buf :: bufs) =
        ((readBytes dropCR c buf).map ChunkedReader.cut).bind (readBufs · bufs) :=
      List.foldlM_cons
    rw [hcons, readBytes_append]
    generalize hcb : readBytes dropCR c buf = cb at hb
    generalize hnb : readBytes dropAllCR n buf = nb at hb
    cases hb with
    | none => exact .none
    | some hsim => exact ih hsim.cut (hbufs _ hnb)

theorem readBytes_of_reachedLastChunk
    (hlast : r.decoder.reachedLastChunk = true) (bytes : List UInt8) :
    readBytes strip r bytes ≠ none := by
  induction bytes generalizing r with
  | nil => exact Option.some_ne_none _
  | cons b bytes ih =>
    have hb : ∃ r', byte strip r b = some r' ∧ r'.decoder.reachedLastChunk = true := by
      by_cases hdata : r.decoder.chunkRemaining = 0
      · by_cases heof : r.decoder.reachedEof = true
        · exact ⟨_, byte_eof hdata heof, hlast⟩
        · have hin : r.InLine := ⟨hdata, heof⟩
          by_cases hlf : b = 10
          · obtain ⟨d, hd, hd'⟩ := HttpChunkedDecoder.readLine_of_reachedLastChunk hlast
              (r.decoder.lineBuf ++ strip r.line)
            refine ⟨⟨d, [], r.out⟩, ?_, hd'⟩
            rw [hlf, hin.byte_lf, hd]
            rfl
          · exact ⟨_, hin.byte_ne hlf, hlast⟩
      · exact ⟨_, byte_data hdata, hlast⟩
    obtain ⟨r', hr', hlast'⟩ := hb
    rw [readBytes_cons, hr']
    exact ih hlast'

/-- **A stream that the lenient reader refuses**: a reader of its first bytes has refused
them, or is where the lenient reader is. -/
theorem Sim.readBytes_none (h : Sim c n)
    (hnone : readBytes dropAllCR n (bytes ++ rest) = none) :
    readBytes dropCR c bytes = none ∨
      ∃ c' n', readBytes dropCR c bytes = some c' ∧ readBytes dropAllCR n bytes = some n' ∧
        Sim c' n' := by
  induction bytes generalizing c n with
  | nil => exact .inr ⟨c, n, rfl, rfl, h⟩
  | cons b bytes ih =>
    have hlast : ¬ n.decoder.reachedLastChunk = true := fun hlast =>
      readBytes_of_reachedLastChunk hlast _ hnone
    rw [List.cons_append, readBytes_cons] at hnone
    rw [readBytes_cons, readBytes_cons]
    rcases h.byte_none (b := b) hlast with hc | ⟨c', n', hc, hn, hsim⟩
    · rw [hc]
      exact .inl rfl
    · rw [hc, hn]
      rw [hn] at hnone
      exact ih hsim hnone

theorem Sim.readBufs_none {bufs : List (List UInt8)} (h : Sim c n)
    (hnone : readBytes dropAllCR n bufs.flatten = none) : readBufs c bufs = none := by
  induction bufs generalizing c n with
  | nil => cases hnone
  | cons buf bufs ih =>
    rw [List.flatten_cons] at hnone
    have hcons : readBufs c (buf :: bufs) =
        ((readBytes dropCR c buf).map ChunkedReader.cut).bind (readBufs · bufs) :=
      List.foldlM_cons
    rw [hcons]
    rcases h.readBytes_none hnone with hc | ⟨c', n', hc, hn, hsim⟩
    · rw [hc]
      rfl
    · rw [readBytes_append, hn] at hnone
      rw [hc]
      exact ih hsim.cut hnone

/-! ### Two cuttings that differ -/

/-- A reader that buffers no line from before, and has counted nothing before the end. -/
structure Fresh (r : ChunkedReader) : Prop where
  lineBuf : r.decoder.lineBuf = []
  bytesAfterEof : ¬ r.decoder.reachedEof = true → r.decoder.bytesAfterEof = 0

theorem fresh_new : Fresh new := ⟨rfl, fun _ => rfl⟩

theorem Fresh.byte {r' : ChunkedReader} (h : r.Fresh)
    (hb : byte strip r b = some r') : r'.Fresh := by
  rcases byte_cases hb with ⟨_, rfl⟩ | ⟨_, heof, rfl⟩ | ⟨hin, _, d, hd, rfl⟩ | ⟨_, _, rfl⟩
  · exact ⟨h.lineBuf, h.bytesAfterEof⟩
  · exact ⟨h.lineBuf, fun hne => absurd heof hne⟩
  · obtain ⟨hbuf, hbytes, _, _⟩ := HttpChunkedDecoder.readLine_frame hd
    exact ⟨hbuf, fun _ => hbytes.trans (h.bytesAfterEof hin.reachedEof)⟩
  · exact ⟨h.lineBuf, h.bytesAfterEof⟩

def bytewise (n : ChunkedReader) : ChunkedReader :=
  ⟨{ n.decoder with lineBuf := dropAllCR n.line }, [], n.out⟩

theorem cut_byte_bytewise (h : n.Fresh) (b : UInt8) :
    (byte dropCR n.bytewise b).map ChunkedReader.cut = (byte dropAllCR n b).map bytewise := by
  have hnil (d : HttpChunkedDecoder) : { d with lineBuf := d.lineBuf ++ [] } = d := by
    rw [append_nil]
  by_cases hdata : n.decoder.chunkRemaining = 0
  · by_cases heof : n.decoder.reachedEof = true
    · rw [byte_eof (r := n.bytewise) hdata heof, byte_eof hdata heof]
      exact congrArg (fun d => some (⟨d, [], n.out⟩ : ChunkedReader)) (hnil _)
    · have hn : n.InLine := ⟨hdata, heof⟩
      have hc : n.bytewise.InLine := ⟨hdata, heof⟩
      by_cases hlf : b = 10
      · subst hlf
        have hread : n.bytewise.decoder.readLine
            (n.bytewise.decoder.lineBuf ++ dropCR n.bytewise.line) =
              n.decoder.readLine (dropAllCR n.line) := by
          show HttpChunkedDecoder.readLine { n.decoder with lineBuf := _ }
            (dropAllCR n.line ++ []) = _
          rw [HttpChunkedDecoder.readLine_lineBuf, append_nil]
        rw [hc.byte_lf, hn.byte_lf, hread, h.lineBuf, nil_append]
        cases hd : n.decoder.readLine (dropAllCR n.line) with
        | none => rfl
        | some d =>
          have hbuf := (HttpChunkedDecoder.readLine_frame hd).1
          show some (⟨{ d with lineBuf := d.lineBuf ++ [] }, [], n.out⟩ : ChunkedReader) =
            some ⟨{ d with lineBuf := [] }, [], n.out⟩
          rw [hbuf, append_nil]
      · have hstrip : dropAllCR (n.line ++ [b]) = dropAllCR n.line ++ dropCR [b] := by
          rw [dropAllCR_append]
          congr 1
          by_cases hcr : b = 13
          · subst hcr
            rfl
          · rw [dropAllCR_eq_self (by simpa using Ne.symm hcr)]
            exact (if_neg (by simpa using hcr)).symm
        rw [hc.byte_ne hlf, hn.byte_ne hlf]
        show some (⟨{ n.decoder with lineBuf := dropAllCR n.line ++ dropCR [b] }, [], n.out⟩ :
          ChunkedReader) = some ⟨{ n.decoder with lineBuf := dropAllCR (n.line ++ [b]) }, [], n.out⟩
        rw [hstrip]
  · rw [byte_data (r := n.bytewise) hdata, byte_data hdata]
    exact congrArg (fun d => some (⟨d, [], n.out ++ [b]⟩ : ChunkedReader)) (hnil _)

theorem readBufs_bytewise (h : n.Fresh) (bytes : List UInt8) :
    readBufs n.bytewise (bytes.map ([·])) = (readBytes dropAllCR n bytes).map bytewise := by
  induction bytes generalizing n with
  | nil => rfl
  | cons b bytes ih =>
    have hcons : readBufs n.bytewise ((b :: bytes).map ([·])) =
        ((byte dropCR n.bytewise b).map ChunkedReader.cut).bind
          (readBufs · (bytes.map ([·]))) := by
      show ((readBytes dropCR n.bytewise [b]).map ChunkedReader.cut).bind _ = _
      rw [readBytes_cons]
      show (((ChunkedReader.byte dropCR n.bytewise b).bind some).map _).bind _ = _
      rw [Option.bind_fun_some]
      rfl
    rw [hcons, cut_byte_bytewise h, readBytes_cons, Option.bind_map, Option.map_bind]
    cases hb : byte dropAllCR n b with
    | none => rfl
    | some n' => exact ih (h.byte hb)

def verdictOf : Option ChunkedReader → Except ℤ (List UInt8 × Bool × ℤ)
  | none => .error ERR_INVALID_CHUNKED_ENCODING
  | some r => .ok (r.out, r.decoder.reachedEof, r.decoder.bytesAfterEof)

theorem bytesAfterEof_lt {r' : ChunkedReader} (h : r.Fresh)
    (hin : r.InLine) (hlast : r.decoder.reachedLastChunk = true)
    (hread : readBytes strip r bytes = some r') (heof : r'.decoder.reachedEof = true) :
    ∃ k < bytes.length, r'.decoder.bytesAfterEof = toInt32 (k : ℕ) := by
  induction bytes generalizing r with
  | nil =>
    cases hread
    exact absurd heof hin.reachedEof
  | cons b bytes ih =>
    rw [readBytes_cons, Option.bind_eq_some_iff] at hread
    obtain ⟨r₁, hb, hread⟩ := hread
    have hfresh := h.byte hb
    rcases byte_cases hb with ⟨hdata, _⟩ | ⟨_, heof', _⟩ | ⟨_, _, d, hd, rfl⟩ | ⟨_, _, rfl⟩
    · exact absurd hin.chunkRemaining hdata
    · exact absurd heof' hin.reachedEof
    · rw [HttpChunkedDecoder.readLine_trailer hlast] at hd
      cases hd
      by_cases hend : (if (r.decoder.lineBuf ++ strip r.line).isEmpty = true then true
          else r.decoder.reachedEof) = true
      · rcases bytes with - | ⟨b', bytes⟩
        · cases hread
          refine ⟨0, by simp, ?_⟩
          rw [toInt32_of_mem (by simp) (by simp)]
          exact h.bytesAfterEof hin.reachedEof
        · rw [readBytes_eof (r := ⟨{ r.decoder with
              reachedEof := if (r.decoder.lineBuf ++ strip r.line).isEmpty = true then true
                else r.decoder.reachedEof
              lineBuf := [] }, [], r.out⟩) (List.cons_ne_nil _ _) hin.chunkRemaining hend] at hread
          cases hread
          refine ⟨(b' :: bytes).length, by simp, ?_⟩
          show toInt32 (r.decoder.bytesAfterEof + _) = _
          rw [h.bytesAfterEof hin.reachedEof, zero_add]
      · obtain ⟨k, hk, hbytes⟩ := ih hfresh ⟨hin.chunkRemaining, hend⟩ hlast hread
        exact ⟨k, by rw [List.length_cons]; omega, hbytes⟩
    · obtain ⟨k, hk, hbytes⟩ := ih hfresh ⟨hin.chunkRemaining, hin.reachedEof⟩ hlast hread
      exact ⟨k, by rw [List.length_cons]; omega, hbytes⟩

theorem verdictOf_trailer (h : n.Fresh) (hn : n.InLine)
    (hlast : n.decoder.reachedLastChunk = true) (hcr : n.decoder.BareCR n.line)
    (hlen : bytes.length < 4294967296) :
    verdictOf (readBytes dropCR n (10 :: bytes)) ≠ verdictOf (readBytes dropAllCR n (10 :: bytes)) := by
  obtain ⟨hkeep, hleave⟩ := HttpChunkedDecoder.readLine_of_bareCR_trailer hlast hcr
  have hzero := h.bytesAfterEof hn.reachedEof
  rw [readBytes_cons, readBytes_cons, hn.byte_lf, hn.byte_lf, h.lineBuf, nil_append,
    nil_append, hkeep, hleave]
  show verdictOf (readBytes dropCR ⟨_, _, _⟩ bytes) ≠ verdictOf (readBytes dropAllCR ⟨_, _, _⟩ bytes)
  have hend : readBytes dropAllCR
      ⟨{ n.decoder with reachedEof := true, lineBuf := [] }, [], n.out⟩ bytes =
        some ⟨HttpChunkedDecoder.takeAfterEof
          { n.decoder with reachedEof := true, lineBuf := [] } bytes.length, [], n.out⟩ := by
    rcases bytes with - | ⟨b, bytes⟩
    · show some _ = some _
      rw [HttpChunkedDecoder.takeAfterEof]
      simp only [hzero]
      rfl
    · exact readBytes_eof (List.cons_ne_nil _ _) hn.chunkRemaining rfl
  rw [hend]
  cases hread : readBytes dropCR ⟨{ n.decoder with lineBuf := [] }, [], n.out⟩ bytes with
  | none => nofun
  | some r =>
    intro heq
    obtain ⟨_, hver⟩ := Prod.mk.inj (Except.ok.inj heq)
    obtain ⟨heof, hbytes⟩ := Prod.mk.inj hver
    obtain ⟨k, hk, hr⟩ := bytesAfterEof_lt
      (r := ⟨{ n.decoder with lineBuf := [] }, [], n.out⟩) ⟨rfl, fun _ => hzero⟩
      ⟨hn.chunkRemaining, hn.reachedEof⟩ hlast hread heof
    have hsum : toInt32 (k : ℕ) = toInt32 (n.decoder.bytesAfterEof + (bytes.length : ℕ)) :=
      hr.symm.trans hbytes
    rw [hzero] at hsum
    unfold toInt32 at hsum
    omega

/-- **A carriage return that matters shows** in a stream that the lenient reader takes: the
reader of the stream in one buffer reports something else. -/
theorem verdictOf_ne_of_not_clean (h : n.Fresh) (hclean : ¬ Clean n bytes)
    (hok : readBytes dropAllCR n bytes ≠ none) (hlen : bytes.length < 4294967296) :
    verdictOf (readBytes dropCR n bytes) ≠ verdictOf (readBytes dropAllCR n bytes) := by
  induction bytes generalizing n with
  | nil => exact absurd trivial hclean
  | cons b bytes ih =>
    have hlen' : bytes.length < 4294967296 := by
      rw [List.length_cons] at hlen
      omega
    by_cases hbare : n.InLine ∧ b = 10 ∧ n.decoder.BareCR n.line
    · obtain ⟨hn, rfl, hcr⟩ := hbare
      by_cases hlast : n.decoder.reachedLastChunk = true
      · exact verdictOf_trailer h hn hlast hcr hlen'
      · have hnone : readBytes dropCR n (10 :: bytes) = none := by
          rw [readBytes_cons, hn.byte_lf, h.lineBuf, nil_append, HttpChunkedDecoder.readLine_of_bareCR hlast hcr]
          rfl
        rw [hnone]
        cases hread : readBytes dropAllCR n (10 :: bytes) with
        | none => exact absurd hread hok
        | some r => nofun
    · have hcr : n.InLine → b = 10 → ¬ n.decoder.BareCR n.line :=
        fun hn hlf hcr => hbare ⟨hn, hlf, hcr⟩
      have hbyte : byte dropCR n b = byte dropAllCR n b := by
        by_cases hlf : n.InLine ∧ b = 10
        · obtain ⟨hn, rfl⟩ := hlf
          rw [hn.byte_lf, hn.byte_lf, h.lineBuf, nil_append, nil_append,
            HttpChunkedDecoder.readLine_of_leavesOutCR (leavesOutCR_dropCR_dropAllCR n.line)
              (hcr hn rfl)]
        · obtain ⟨c', n', hc, hn', hsim⟩ := (Sim.refl_of_lineBuf h.lineBuf).byte_ne hlf
          unfold byte
          split_ifs with hdata heof hb
          · rfl
          · rfl
          · exact absurd ⟨⟨not_not.1 hdata, heof⟩, hb⟩ hlf
          · rfl
      rw [readBytes_cons] at hok ⊢
      rw [readBytes_cons, hbyte]
      cases hb : byte dropAllCR n b with
      | none => exact absurd (by rw [hb]; rfl) hok
      | some n' =>
        rw [hb] at hok
        refine ih (h.byte hb) (fun hrest => hclean ⟨hcr, fun r' hr => ?_⟩) hok hlen'
        obtain rfl := Option.some.inj (hb.symm.trans hr)
        exact hrest

end ChunkedReader

/-! ### Cuttings of a stream -/

/-- What successive calls report in the end: the bytes returned, `reached_eof()` and
`bytes_after_eof()`, or the error. -/
def verdict (r : Except ℤ (HttpChunkedDecoder × List UInt8)) : Except ℤ (List UInt8 × Bool × ℤ) :=
  r.map fun p => (p.2, p.1.reachedEof, p.1.bytesAfterEof)

/-- A way of cutting a stream into buffers that are not empty. -/
structure Cutting (bytes : List UInt8) (bufs : List (List UInt8)) : Prop where
  flatten : bufs.flatten = bytes
  ne_nil : ∀ buf ∈ bufs, buf ≠ []

def SameVerdict (bytes : List UInt8) : Prop :=
  ∀ bufs bufs', Cutting bytes bufs → Cutting bytes bufs' →
    (filterBufs .new bufs = .error ERR_INVALID_CHUNKED_ENCODING ∧
        filterBufs .new bufs' = .error ERR_INVALID_CHUNKED_ENCODING) ∨
      ∃ v, verdict (filterBufs .new bufs) = .ok v ∧ verdict (filterBufs .new bufs') = .ok v

def Malformed (bytes : List UInt8) : Prop := ChunkedReader.readBytes dropAllCR .new bytes = none

open ChunkedReader

theorem verdict_filterBufs (bufs : List (List UInt8)) :
    verdict (filterBufs .new bufs) = verdictOf (readBufs .new bufs) := by
  rw [(filterBufs_readBufs .new [] bufs).1]
  show verdict (resultOf [] (readBufs .new bufs)) = _
  cases readBufs .new bufs with
  | none | some r => rfl

theorem filterBufs_eq_error {bufs : List (List UInt8)} (h : readBufs .new bufs = none) :
    filterBufs .new bufs = .error ERR_INVALID_CHUNKED_ENCODING := by
  rw [(filterBufs_readBufs .new [] bufs).1]
  show resultOf [] (readBufs .new bufs) = _
  rw [h]
  rfl

theorem verdictOf_sim {c n : ChunkedReader} (h : Sim c n) : verdictOf (some c) = verdictOf (some n) := by
  dsimp only [verdictOf]
  rw [h.out, ← h.decoder]

/-- **A clean stream however cut** reports what the lenient reader reports. -/
theorem verdict_of_clean {bufs : List (List UInt8)} (h : Clean .new bufs.flatten) :
    (readBufs .new bufs = none ∧ readBytes dropAllCR .new bufs.flatten = none) ∨
      ∃ r n, readBufs .new bufs = some r ∧ readBytes dropAllCR .new bufs.flatten = some n ∧ Sim r n := by
  have hrel := sim_new.readBufs_clean h
  generalize readBufs .new bufs = r at hrel
  generalize readBytes dropAllCR .new bufs.flatten = n at hrel
  cases hrel with
  | none => exact .inl ⟨rfl, rfl⟩
  | some hsim => exact .inr ⟨_, _, rfl, rfl, hsim⟩

/-- **A stream is decoded in one way however it is cut** if it is malformed without the
carriage returns of its lines too, or no line of it has a carriage return that matters.
A stream shorter than what the counter behind the end can count is so only then. -/
theorem sameVerdict_iff_clean (bytes : List UInt8) :
    (Malformed bytes ∨ Clean .new bytes → SameVerdict bytes) ∧
      (bytes.length < 4294967296 → SameVerdict bytes → Malformed bytes ∨ Clean .new bytes) := by
  refine ⟨?_, fun hlen hsame => ?_⟩
  · rintro (hmal | hclean) bufs bufs' ⟨rfl, _⟩ ⟨hflat, _⟩
    · exact Or.inl ⟨filterBufs_eq_error (sim_new.readBufs_none hmal),
        filterBufs_eq_error (sim_new.readBufs_none (by rw [hflat]; exact hmal))⟩
    · have hcut := verdict_of_clean hclean
      have hcut' := verdict_of_clean (show Clean .new bufs'.flatten by rw [hflat]; exact hclean)
      rw [hflat] at hcut'
      rcases hcut with ⟨hr, hn⟩ | ⟨r, n, hr, hn, hsim⟩
      · rcases hcut' with ⟨hr', _⟩ | ⟨_, _, _, hn', _⟩
        · exact Or.inl ⟨filterBufs_eq_error hr, filterBufs_eq_error hr'⟩
        · rw [hn] at hn'
          cases hn'
      · rcases hcut' with ⟨_, hn'⟩ | ⟨r', n', hr', hn', hsim'⟩
        · rw [hn] at hn'
          cases hn'
        · obtain rfl := Option.some.inj (hn.symm.trans hn')
          refine Or.inr ⟨(n.out, n.decoder.reachedEof, n.decoder.bytesAfterEof), ?_, ?_⟩
          · rw [verdict_filterBufs, hr, verdictOf_sim hsim]
            rfl
          · rw [verdict_filterBufs, hr', verdictOf_sim hsim']
            rfl
  · by_contra hne
    obtain ⟨hmal, hclean⟩ := not_or.mp hne
    have hnil : bytes ≠ [] := by
      rintro rfl
      exact hclean trivial
    have hwhole : Cutting bytes [bytes] :=
      ⟨by simp, fun buf hbuf => by rwa [List.mem_singleton.mp hbuf]⟩
    have hbytes : Cutting bytes (bytes.map ([·])) := by
      refine ⟨?_, fun buf hbuf => ?_⟩
      · rw [← List.flatMap_def]
        exact List.flatMap_singleton' bytes
      · obtain ⟨b, _, rfl⟩ := List.mem_map.mp hbuf
        exact List.cons_ne_nil _ _
    have hread : verdict (filterBufs .new [bytes]) = verdictOf (readBytes dropCR .new bytes) := by
      rw [verdict_filterBufs]
      show verdictOf (((readBytes dropCR .new bytes).map cut).bind some) = _
      rw [Option.bind_fun_some]
      cases readBytes dropCR .new bytes with
      | none => rfl
      | some r => rfl
    have hread' : verdict (filterBufs .new (bytes.map ([·]))) =
        verdictOf (readBytes dropAllCR .new bytes) := by
      have hnew : readBufs .new (bytes.map ([·])) =
          (readBytes dropAllCR .new bytes).map bytewise := readBufs_bytewise fresh_new bytes
      rw [verdict_filterBufs, hnew]
      cases readBytes dropAllCR .new bytes with
      | none => rfl
      | some r => rfl
    have hdiff := verdictOf_ne_of_not_clean fresh_new hclean hmal hlen
    rw [← hread, ← hread'] at hdiff
    refine hdiff ?_
    rcases hsame _ _ hwhole hbytes with ⟨herr, herr'⟩ | ⟨v, hv, hv'⟩
    · rw [herr, herr']
    · rw [hv, hv']

/-- **A carriage return before a cut is lost**: a chunk size with two carriage returns is
malformed in one buffer, and is read when the cut stands between them. -/
theorem not_sameVerdict_doubleCR : ¬ ∀ bytes, SameVerdict bytes := by
  intro h
  have hwhole : filterBufs .new [[49, 13, 13, 10]] = .error ERR_INVALID_CHUNKED_ENCODING :=
    filterBufs_eq_error (by decide +kernel)
  have hcut : verdict (filterBufs .new [[49, 13], [13, 10]]) = .ok ([], false, 0) := by
    rw [verdict_filterBufs]
    decide +kernel
  rcases h _ [[49, 13, 13, 10]] [[49, 13], [13, 10]] ⟨rfl, by simp⟩ ⟨rfl, by simp⟩ with
    ⟨_, herr⟩ | ⟨v, hv, _⟩
  · rw [herr] at hcut
    cases hcut
  · rw [hwhole] at hv
    cases hv

end Chromium.Net
