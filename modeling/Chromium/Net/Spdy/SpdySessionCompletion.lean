import Chromium.Net.Spdy.SpdyStreamSending

/-!
# Who is told that a frame was written

Each frame is written once, and the stream of a `SYN_STREAM` or `DATA` frame is told its length, unless it was
cancelled; frames that are queued without a stream tell nobody.  The bytes that a delegate is told are those of
its `DATA` frames, as long as no window update of the stream is written, which the session counts among them.
-/

namespace Chromium.Net.Spdy

open Lib State SpdyControlType
open Option (bind_eq_some_iff ite_some_none_eq_some map_eq_some_iff)

/-! ## What happened -/

def writtenFrames (log : List WriteEntry) : List SpdyIOBuffer :=
  log.filterMap fun
    | .written frame _ _ _ => some frame
    | _ => none

/-- The calls of `OnWriteComplete` on account of frames other than window updates: the frame, the stream and
the bytes. -/
def calls (log : List WriteEntry) : List (SpdyIOBuffer × ℕ × ℕ) :=
  log.filterMap fun
    | .completed frame stream bytes =>
      if frame.type = .control WINDOW_UPDATE then none else some (frame, stream, bytes)
    | _ => none

/-- The calls that are due: for each `SYN_STREAM` and `DATA` frame of a stream that was not cancelled. -/
def dueCalls (log : List WriteEntry) : List (SpdyIOBuffer × ℕ × ℕ) :=
  log.filterMap fun
    | .written frame payload false _ =>
      if frame.type = .data ∨ frame.type = .control SYN_STREAM then
        frame.stream.map fun stream => (frame, stream, payload)
      else none
    | _ => none

def sentTotal (i : ℕ) (log : List WriteEntry) : ℕ :=
  (log.map fun
    | .sent stream bytes => if stream = i then bytes else 0
    | _ => 0).sum

/-- The bytes of the `DATA` frames of a stream that were written while it was neither cancelled nor closed. -/
def dataTotal (i : ℕ) (log : List WriteEntry) : ℕ :=
  (log.map fun
    | .written frame payload cancelled closed =>
      if frame.type = .data ∧ frame.stream = some i ∧ cancelled = false ∧ closed = false then payload else 0
    | _ => 0).sum

def WindowUpdateWritten (i : ℕ) (log : List WriteEntry) : Prop :=
  ∃ frame ∈ writtenFrames log, frame.stream = some i ∧ frame.type = .control WINDOW_UPDATE

theorem writtenFrames_append (log log' : List WriteEntry) :
    writtenFrames (log ++ log') = writtenFrames log ++ writtenFrames log' := List.filterMap_append

theorem calls_append (log log' : List WriteEntry) : calls (log ++ log') = calls log ++ calls log' :=
  List.filterMap_append

theorem dueCalls_append (log log' : List WriteEntry) : dueCalls (log ++ log') = dueCalls log ++ dueCalls log' :=
  List.filterMap_append

theorem sentTotal_append (i : ℕ) (log log' : List WriteEntry) :
    sentTotal i (log ++ log') = sentTotal i log + sentTotal i log' := by
  simp only [sentTotal, List.map_append, List.sum_append]

theorem dataTotal_append (i : ℕ) (log log' : List WriteEntry) :
    dataTotal i (log ++ log') = dataTotal i log + dataTotal i log' := by
  simp only [dataTotal, List.map_append, List.sum_append]

theorem WindowUpdateWritten.append {i : ℕ} {log : List WriteEntry} (h : WindowUpdateWritten i log)
    (log' : List WriteEntry) : WindowUpdateWritten i (log ++ log') := by
  obtain ⟨frame, hframe, hstream⟩ := h
  refine ⟨frame, ?_, hstream⟩
  rw [writtenFrames_append]
  exact List.mem_append_left _ hframe

/-! ## The frames of a session -/

def FrameOk (streams : ℕ) (frame : SpdyIOBuffer) : Prop :=
  (frame.type = .data ∨ frame.type = .control SYN_STREAM ∨ frame.type = .control WINDOW_UPDATE) ∧
      (∃ i < streams, frame.stream = some i) ∨
    frame.type ≠ .data ∧ frame.type ≠ .control SYN_STREAM ∧ frame.stream = none

theorem FrameOk.mono {n n' : ℕ} {frame : SpdyIOBuffer} (h : FrameOk n frame) (hle : n ≤ n') :
    FrameOk n' frame := by
  rcases h with ⟨htype, i, hi, hstream⟩ | hnone
  · exact .inl ⟨htype, i, by omega, hstream⟩
  · exact .inr hnone

namespace WriterSession

variable {s s' : WriterSession}

def frames (s : WriterSession) : List SpdyIOBuffer :=
  (s.inFlightWrite.map InFlightWrite.buffer).toList ++ s.queue

/-- What the session keeps of its frames: each has its own position, and was written at most once. -/
structure FramesOk (s : WriterSession) : Prop where
  frame : ∀ frame ∈ writtenFrames s.log ++ s.frames, FrameOk s.streams.length frame ∧ frame.position ≤ s.order
  positions : ((writtenFrames s.log ++ s.frames).map SpdyIOBuffer.position).Nodup
  inFlight : ∀ w, s.inFlightWrite = some w → w.used < w.size ∧ SpdyFrame.size ≤ w.size ∧
    (w.buffer.type.isCompressible = false → w.size = w.buffer.length + SpdyFrame.size)
  called : calls s.log = dueCalls s.log
  payload : ∀ frame payload cancelled closed, .written frame payload cancelled closed ∈ s.log →
    frame.type = .data → payload = frame.length
  fresh : ∀ i, s.streams.length ≤ i → sentTotal i s.log = 0

theorem FramesOk.new : FramesOk new where
  frame _ h := (nomatch h)
  positions := List.nodup_nil
  inFlight _ h := (nomatch h)
  called := rfl
  payload _ _ _ _ h := (nomatch h)
  fresh _ _ := rfl

theorem FramesOk.congr (h : FramesOk s) (hlog : writtenFrames s'.log = writtenFrames s.log)
    (hcalls : calls s'.log = calls s.log) (hdue : dueCalls s'.log = dueCalls s.log)
    (hsent : ∀ i, s.streams.length ≤ i → sentTotal i s'.log = sentTotal i s.log)
    (hpayload : ∀ frame payload cancelled closed, .written frame payload cancelled closed ∈ s'.log →
      .written frame payload cancelled closed ∈ s.log)
    (hframes : s'.frames.Sublist s.frames) (hstreams : s.streams.length ≤ s'.streams.length)
    (horder : s.order ≤ s'.order)
    (hinFlight : ∀ w, s'.inFlightWrite = some w → w.used < w.size ∧ SpdyFrame.size ≤ w.size ∧
      (w.buffer.type.isCompressible = false → w.size = w.buffer.length + SpdyFrame.size)) : FramesOk s' := by
  have hsub : (writtenFrames s'.log ++ s'.frames).Sublist (writtenFrames s.log ++ s.frames) := by
    rw [hlog]
    exact hframes.append_left _
  refine ⟨fun frame hframe => ?_, h.positions.sublist (hsub.map _), hinFlight, ?_, fun f p c cl hmem => ?_,
    fun i hi => (hsent i (hstreams.trans hi)).trans (h.fresh i (hstreams.trans hi))⟩
  · obtain ⟨hok, hle⟩ := h.frame frame (hsub.subset hframe)
    exact ⟨hok.mono hstreams, hle.trans horder⟩
  · rw [hcalls, hdue]
    exact h.called
  · exact h.payload f p c cl (hpayload f p c cl hmem)

theorem FramesOk.queueFrame (h : FramesOk s) {type : FrameType} {length priority : ℕ} {stream : Option ℕ}
    (hok : FrameOk s.streams.length ⟨type, length, priority, s.order + 1, stream⟩) :
    FramesOk (s.queueFrame type length priority stream) := by
  have hperm : (writtenFrames s.log ++ (s.queueFrame type length priority stream).frames).Perm
      (⟨type, length, priority, s.order + 1, stream⟩ :: (writtenFrames s.log ++ s.frames)) := by
    have hqueue := List.perm_orderedInsert (fun a b : SpdyIOBuffer => a.priority < b.priority)
      ⟨type, length, priority, s.order + 1, stream⟩ s.queue
    have hframes : (s.queueFrame type length priority stream).frames.Perm
        (⟨type, length, priority, s.order + 1, stream⟩ :: s.frames) :=
      (hqueue.append_left _).trans List.perm_middle
    exact (hframes.append_left _).trans List.perm_middle
  refine ⟨fun frame hframe => ?_, ?_, h.inFlight, h.called, h.payload, h.fresh⟩
  · rcases List.mem_cons.1 (hperm.mem_iff.1 hframe) with rfl | hmem
    · exact ⟨hok, le_refl _⟩
    · obtain ⟨hok', hle⟩ := h.frame frame hmem
      exact ⟨hok', Nat.le_succ_of_le hle⟩
  · refine (hperm.map SpdyIOBuffer.position).nodup_iff.2 (List.nodup_cons.2 ⟨fun hmem => ?_, h.positions⟩)
    obtain ⟨frame, hframe, hposition⟩ := List.mem_map.1 hmem
    have hle := (h.frame frame hframe).2
    dsimp only at hposition
    omega

theorem FramesOk.setStream (h : FramesOk s) (i : ℕ) (w : WriterStream) : FramesOk (s.setStream i w) :=
  h.congr rfl rfl rfl (fun _ _ => rfl) (fun _ _ _ _ hmem => hmem) (List.Sublist.refl _) List.length_set.ge le_rfl h.inFlight

theorem FramesOk.record_sent (h : FramesOk s) {i : ℕ} (hi : i < s.streams.length) (bytes : ℕ) :
    FramesOk (s.record (.sent i bytes)) := by
  refine h.congr ?_ ?_ ?_ (fun j hj => ?_) (fun f p c cl hmem => ?_) (List.Sublist.refl _) le_rfl le_rfl h.inFlight
  · simp [record, writtenFrames]
  · simp [record, calls]
  · simp [record, dueCalls]
  · have hne : i ≠ j := by omega
    simp [record, sentTotal, hne]
  · simpa [record] using hmem

theorem FramesOk.closeSessionOnError (h : FramesOk s) : FramesOk s.closeSessionOnError := by
  unfold WriterSession.closeSessionOnError
  split
  · exact h
  · refine h.congr rfl rfl rfl (fun _ _ => rfl) (fun _ _ _ _ hmem => hmem) ?_ (List.length_map _).ge le_rfl h.inFlight
    exact List.Sublist.append_left (List.nil_sublist _) _

theorem FramesOk.queueOutFrame (h : FramesOk s) {i : ℕ} (hi : i < s.streams.length) (w : WriterStream)
    (frame : OutFrame) : FramesOk (s.queueOutFrame i w frame) := by
  cases frame with
  | syn fin => exact h.queueFrame (.inl ⟨.inr (.inl rfl), i, hi, rfl⟩)
  | data payload fin => exact h.queueFrame (.inl ⟨.inl rfl, i, hi, rfl⟩)

theorem length_queueOutFrame (s : WriterSession) (i : ℕ) (w : WriterStream) (frame : OutFrame) :
    (s.queueOutFrame i w frame).streams.length = s.streams.length := by
  cases frame <;> rfl

theorem FramesOk.takeOutFrames (h : FramesOk s) {i : ℕ} (hi : i < s.streams.length) (w : WriterStream)
    (stream : SpdyStream) : FramesOk (s.takeOutFrames i w stream) := by
  have hall : ∀ (frames : List OutFrame) (t : WriterSession), FramesOk t → i < t.streams.length →
      FramesOk (frames.foldl (fun s frame => s.queueOutFrame i w frame) t) := by
    intro frames
    induction frames with
    | nil => exact fun t ht _ => ht
    | cons frame frames ih =>
      intro t ht hlt
      exact ih _ (ht.queueOutFrame hlt w frame) (by rwa [length_queueOutFrame])
  refine hall _ _ (h.setStream i _) ?_
  rw [WriterSession.setStream, List.length_set]
  exact hi

theorem FramesOk.resetStream (h : FramesOk s) (i : ℕ) (w : WriterStream) : FramesOk (s.resetStream i w) :=
  (h.queueFrame (.inr ⟨by simp, by simp, rfl⟩)).setStream i _

theorem FramesOk.streamEvent (h : FramesOk s) {i : ℕ} (hi : i < s.streams.length) {w : WriterStream}
    {e : SpdyStream.Event} (hstep : s.streamEvent i w e = some s') : FramesOk s' := by
  have hother : ∀ stream, FramesOk (s.takeOutFrames i w stream) := fun stream => h.takeOutFrames hi w stream
  cases e with
  | frameWritten synSize => cases hstep
  | turn =>
    obtain ⟨result, -, rfl⟩ := map_eq_some_iff.1 hstep
    dsimp only
    split
    · exact (h.record_sent hi _).takeOutFrames hi w _
    · exact hother _
  | onWindowUpdate delta =>
    obtain ⟨stream, -, rfl⟩ := map_eq_some_iff.1 hstep
    split
    · exact h.resetStream i w
    · exact hother _
  | sendRequest hasUploadData | appendChunk data isLastChunk | writeStreamData data fin
  | onResponseReceived | close =>
    obtain ⟨stream, -, rfl⟩ := map_eq_some_iff.1 hstep
    exact hother _

theorem FramesOk.writeSocket (h : FramesOk s) {compressed : Option ℕ}
    (hstep : s.writeSocket compressed = some s') : FramesOk s' := by
  unfold WriterSession.writeSocket at hstep
  split at hstep
  · cases hstep
    exact h.congr rfl rfl rfl (fun _ _ => rfl) (fun _ _ _ _ hmem => hmem) (List.Sublist.refl _) le_rfl le_rfl h.inFlight
  · cases hstep
  · rename_i frame queue hinFlight hqueue
    have hframes : s.frames = frame :: queue := by
      rw [frames, hinFlight, hqueue]
      rfl
    have hbehind : FramesOk { s with queue := queue } := by
      refine h.congr rfl rfl rfl (fun _ _ => rfl) (fun _ _ _ _ hmem => hmem) ?_ le_rfl le_rfl h.inFlight
      rw [hframes, frames, hinFlight]
      exact List.sublist_cons_self _ _
    have hpicked : ∀ size, SpdyFrame.size ≤ size →
        (frame.type.isCompressible = false → size = frame.length + SpdyFrame.size) →
        FramesOk { s with queue := queue, inFlightWrite := some ⟨frame, size, 0⟩, writePending := true } := by
      intro size hsize hlength
      refine h.congr rfl rfl rfl (fun _ _ => rfl) (fun _ _ _ _ hmem => hmem) ?_ le_rfl le_rfl fun w hw => ?_
      · rw [hframes]
        exact List.Sublist.refl _
      · cases hw
        exact ⟨lt_of_lt_of_le (show 0 < SpdyFrame.size by decide) hsize, hsize, hlength⟩
    dsimp only at hstep
    split at hstep
    · rename_i hcompressible
      split at hstep
      · cases hstep
        exact hbehind.closeSessionOnError
      · cases hstep
        refine hpicked _ (Nat.le_add_left _ _) fun hnot => ?_
        rw [hcompressible] at hnot
        cases hnot
    · cases hstep
      exact hpicked _ (Nat.le_add_left _ _) fun _ => rfl

theorem FramesOk.written (h : FramesOk s) {w : InFlightWrite} (hw : s.inFlightWrite = some w)
    (entries : List WriteEntry) (hwritten : writtenFrames entries = [w.buffer])
    (hcalled : calls entries = dueCalls entries) (hsent : ∀ i, sentTotal i entries = 0)
    (hpayload : ∀ frame payload cancelled closed, .written frame payload cancelled closed ∈ entries →
      frame.type = .data → payload = frame.length)
    (hlog : s'.log = s.log ++ entries) (hnone : s'.inFlightWrite = none) (hqueue : s'.queue = s.queue)
    (hstreams : s'.streams.length = s.streams.length) (horder : s'.order = s.order) : FramesOk s' := by
  have hframes : writtenFrames s'.log ++ s'.frames = writtenFrames s.log ++ s.frames := by
    rw [hlog, writtenFrames_append, hwritten, frames, frames, hnone, hw, hqueue, List.append_assoc]
    rfl
  refine ⟨?_, ?_, fun w' hw' => ?_, ?_, fun f p c cl hmem => ?_, fun i hi => ?_⟩
  · rw [hframes, hstreams, horder]
    exact h.frame
  · rw [hframes]
    exact h.positions
  · rw [hnone] at hw'
    cases hw'
  · rw [hlog, calls_append, dueCalls_append, h.called, hcalled]
  · rw [hlog] at hmem
    rcases List.mem_append.1 hmem with hold | hnew
    · exact h.payload f p c cl hold
    · exact hpayload f p c cl hnew
  · rw [hlog, sentTotal_append, h.fresh i (hstreams.ge.trans hi), hsent i]

theorem FramesOk.onWriteComplete (h : FramesOk s) {w : InFlightWrite} (hw : s.inFlightWrite = some w)
    (result : ℤ) : FramesOk (s.onWriteComplete w result) := by
  obtain ⟨hused, hsize, hlength⟩ := h.inFlight w hw
  dsimp only [WriterSession.onWriteComplete]
  split
  · rename_i hnonneg
    split
    · rename_i hdone
      dsimp only [InFlightWrite.bytesRemaining] at hdone
      have hpos : 0 < result.toNat := by omega
      have hdata : w.buffer.type = .data → w.size - SpdyFrame.size = w.buffer.length := by
        intro htype
        rw [hlength (by rw [htype]; rfl), Nat.add_sub_cancel]
      have hframe : FrameOk s.streams.length w.buffer := by
        refine (h.frame w.buffer (List.mem_append_right _ ?_)).1
        rw [frames, hw]
        exact List.mem_cons_self
      have hone : ∀ cancelled closed frame payload cancelled' closed',
          WriteEntry.written frame payload cancelled' closed' =
            .written w.buffer (w.size - SpdyFrame.size) cancelled closed →
          frame.type = .data → payload = frame.length := by
        intro cancelled closed frame payload cancelled' closed' heq
        cases heq
        exact hdata
      dsimp only [WriterSession.notifyStream]
      split
      · rename_i hstream
        have htype : w.buffer.type ≠ .data ∧ w.buffer.type ≠ .control SYN_STREAM := by
          rcases hframe with ⟨-, i, -, hsome⟩ | ⟨hdata', hsyn, -⟩
          · rw [hstream] at hsome
            cases hsome
          · exact ⟨hdata', hsyn⟩
        refine h.written hw [.written w.buffer (w.size - SpdyFrame.size) false false] rfl ?_ (fun _ => rfl) ?_ rfl rfl
          rfl rfl rfl
        · simp [calls, dueCalls, htype.1, htype.2]
        · exact fun f p c cl hmem => hone _ _ f p c cl (List.mem_singleton.1 hmem)
      · rename_i i hstream
        have htype : (w.buffer.type = .data ∨ w.buffer.type = .control SYN_STREAM ∨
            w.buffer.type = .control WINDOW_UPDATE) ∧ i < s.streams.length := by
          rcases hframe with ⟨htype, j, hj, hsome⟩ | ⟨-, -, hnone⟩
          · rw [hstream] at hsome
            cases hsome
            exact ⟨htype, hj⟩
          · rw [hstream] at hnone
            cases hnone
        rw [List.getElem?_eq_getElem htype.2]
        dsimp only
        rw [if_pos hpos]
        split
        all_goals rename_i hcancelled
        · refine h.written hw [_] rfl ?_ (fun _ => rfl) ?_ rfl rfl rfl rfl rfl
          · rw [hcancelled]
            rfl
          · exact fun f p c cl hmem => hone _ _ f p c cl (List.mem_singleton.1 hmem)
        · have hfalse : s.streams[i].cancelled = false := by simpa using hcancelled
          refine h.written hw
            [.written w.buffer (w.size - SpdyFrame.size) s.streams[i].cancelled
              (s.streams[i].stream.ioState = STATE_DONE),
            .completed w.buffer i (w.size - SpdyFrame.size)] rfl ?_ (fun _ => rfl) ?_ ?_ rfl rfl List.length_set rfl
          · rw [hfalse]
            rcases htype.1 with hdata' | hsyn | hupdate
            · simp [calls, dueCalls, hdata', hstream]
            · simp [calls, dueCalls, hsyn, hstream]
            · simp [calls, dueCalls, hupdate]
          · intro f p c cl hmem
            rcases List.mem_cons.1 hmem with hmem | hmem
            · exact hone _ _ f p c cl hmem
            · cases List.mem_singleton.1 hmem
          · exact List.append_assoc _ _ _
    · rename_i hrest
      refine h.congr rfl rfl rfl (fun _ _ => rfl) (fun _ _ _ _ hmem => hmem) ?_ le_rfl le_rfl fun w' hw' => ?_
      · rw [frames, frames, hw]
        exact List.Sublist.refl _
      · cases hw'
        unfold InFlightWrite.bytesRemaining at hrest
        dsimp only at hrest ⊢
        exact ⟨by omega, hsize, hlength⟩
  · have hdropped : FramesOk { s with writePending := false, inFlightWrite := none } := by
      refine h.congr rfl rfl rfl (fun _ _ => rfl) (fun _ _ _ _ hmem => hmem) ?_ le_rfl le_rfl fun w' hw' => (nomatch hw')
      exact List.sublist_append_right _ _
    exact hdropped.closeSessionOnError

/-! ## The streams of a session -/

def outstanding (s : WriterSession) (i : ℕ) : List FrameType :=
  s.frames.filterMap fun frame =>
    if frame.stream = some i ∧ frame.type ≠ .control WINDOW_UPDATE then some frame.type else none

/-- What is kept of a stream until a window update of it is written. -/
structure StreamOk (log : List WriteEntry) (out : List FrameType) (i : ℕ) (w : WriterStream) : Prop where
  noFrames : w.stream.outFrames = []
  sending : ¬ WindowUpdateWritten i log →
    (Closed w.stream ∨ Sending w.stream out ∧ w.cancelled = false) ∧
      sentTotal i log + pendingBytes w.stream = dataTotal i log

def StreamsOk (s : WriterSession) : Prop :=
  ∀ i w, s.streams[i]? = some w → StreamOk s.log (s.outstanding i) i w

variable {log log' : List WriteEntry} {out : List FrameType} {i j : ℕ} {w : WriterStream}

theorem StreamOk.congr {out' : List FrameType} (h : StreamOk log out i w) (hsub : out'.Subperm out)
    (hwindow : WindowUpdateWritten i log → WindowUpdateWritten i log')
    (hsent : sentTotal i log' = sentTotal i log) (hdata : dataTotal i log' = dataTotal i log) :
    StreamOk log' out' i w := by
  refine ⟨h.noFrames, fun hnot => ?_⟩
  obtain ⟨hstream, htotal⟩ := h.sending fun hwritten => hnot (hwindow hwritten)
  refine ⟨hstream.imp_right fun ⟨hsending, hcancelled⟩ => ⟨hsending.subperm hsub, hcancelled⟩, ?_⟩
  rw [hsent, hdata]
  exact htotal

theorem outstanding_queueFrame (s : WriterSession) (type : FrameType) (length priority : ℕ) (stream : Option ℕ)
    (j : ℕ) :
    ((s.queueFrame type length priority stream).outstanding j).Perm
      (if stream = some j ∧ type ≠ .control WINDOW_UPDATE then type :: s.outstanding j else s.outstanding j) := by
  have hframes : (s.queueFrame type length priority stream).frames.Perm
      (⟨type, length, priority, s.order + 1, stream⟩ :: s.frames) :=
    ((List.perm_orderedInsert (fun a b : SpdyIOBuffer => a.priority < b.priority)
      ⟨type, length, priority, s.order + 1, stream⟩ s.queue).append_left _).trans List.perm_middle
  refine (hframes.filterMap _).trans ?_
  rw [List.filterMap_cons]
  split
  · rename_i hnone
    rw [if_neg]
    · exact List.Perm.refl _
    · intro hcond
      rw [if_pos hcond] at hnone
      cases hnone
  · rename_i t hsome
    split at hsome
    · rename_i hcond
      cases hsome
      rw [if_pos hcond]
      exact List.Perm.refl _
    · cases hsome

theorem StreamsOk.queueFrame (h : StreamsOk s) (type : FrameType) (length priority : ℕ) (stream : Option ℕ)
    (hnot : stream = none ∨ type = .control WINDOW_UPDATE) :
    StreamsOk (s.queueFrame type length priority stream) := by
  intro j w hw
  refine (h j w hw).congr (List.Perm.subperm ?_) id rfl rfl
  refine (outstanding_queueFrame s type length priority stream j).trans ?_
  rw [if_neg]
  rintro ⟨hstream, htype⟩
  rcases hnot with hnone | hupdate
  · rw [hnone] at hstream
    cases hstream
  · exact htype hupdate

theorem StreamsOk.setStream (h : StreamsOk s) (hw : StreamOk s.log (s.outstanding i) i w) :
    StreamsOk (s.setStream i w) := by
  intro j w' hw'
  have hget : (s.streams.set i w)[j]? = some w' := hw'
  by_cases hji : j = i
  · subst hji
    rw [List.getElem?_set_self'] at hget
    obtain ⟨-, -, rfl⟩ := map_eq_some_iff.1 hget
    exact hw
  · rw [List.getElem?_set_ne (Ne.symm hji)] at hget
    exact h j w' hget

theorem outstanding_queueOutFrame (s : WriterSession) (i : ℕ) (w : WriterStream) (frame : OutFrame) (j : ℕ) :
    ((s.queueOutFrame i w frame).outstanding j).Perm
      (if j = i then frame.frameType :: s.outstanding j else s.outstanding j) := by
  cases frame with
  | syn fin | data payload fin =>
    refine (outstanding_queueFrame s _ _ _ _ j).trans ?_
    simp only [OutFrame.frameType, Option.some.injEq, eq_comm (a := i)]
    simp

theorem takeOutFrames_spec (s : WriterSession) (i : ℕ) (w : WriterStream) (stream : SpdyStream) :
    (s.takeOutFrames i w stream).streams = s.streams.set i { w with stream := { stream with outFrames := [] } } ∧
      (s.takeOutFrames i w stream).log = s.log ∧
      ∀ j, ((s.takeOutFrames i w stream).outstanding j).Perm
        (if j = i then stream.outFrames.map OutFrame.frameType ++ s.outstanding j else s.outstanding j) := by
  have hall : ∀ (frames : List OutFrame) (t : WriterSession),
      (frames.foldl (fun s frame => s.queueOutFrame i w frame) t).streams = t.streams ∧
        (frames.foldl (fun s frame => s.queueOutFrame i w frame) t).log = t.log ∧
        ∀ j, ((frames.foldl (fun s frame => s.queueOutFrame i w frame) t).outstanding j).Perm
          (if j = i then frames.map OutFrame.frameType ++ t.outstanding j else t.outstanding j) := by
    intro frames
    induction frames with
    | nil =>
      intro t
      refine ⟨rfl, rfl, fun j => ?_⟩
      split <;> exact List.Perm.refl _
    | cons frame frames ih =>
      intro t
      obtain ⟨hstreams, hlog, hout⟩ := ih (t.queueOutFrame i w frame)
      have hsame : (t.queueOutFrame i w frame).streams = t.streams ∧ (t.queueOutFrame i w frame).log = t.log := by
        cases frame <;> exact ⟨rfl, rfl⟩
      refine ⟨hstreams.trans hsame.1, hlog.trans hsame.2, fun j => (hout j).trans ?_⟩
      have hone := outstanding_queueOutFrame t i w frame j
      by_cases hji : j = i
      · rw [if_pos hji] at hone ⊢
        rw [if_pos hji]
        exact (hone.append_left _).trans List.perm_middle
      · rw [if_neg hji] at hone ⊢
        rw [if_neg hji]
        exact hone
  exact hall _ _

/-- **A stream has gone on**, and its frames are taken to the queue. -/
theorem StreamsOk.takeOutFrames {stream : SpdyStream}
    (hothers : ∀ j w, j ≠ i → s.streams[j]? = some w → StreamOk s.log (s.outstanding j) j w)
    (hnew : ¬ WindowUpdateWritten i s.log → (Closed { stream with outFrames := [] } ∨
        Sending { stream with outFrames := [] } (stream.outFrames.map OutFrame.frameType ++ s.outstanding i) ∧
          w.cancelled = false) ∧
      sentTotal i s.log + pendingBytes stream = dataTotal i s.log) :
    StreamsOk (s.takeOutFrames i w stream) := by
  obtain ⟨hstreams, hlog, hout⟩ := takeOutFrames_spec s i w stream
  intro j w' hw'
  rw [hstreams] at hw'
  have hperm := hout j
  rw [hlog]
  by_cases hji : j = i
  · subst hji
    rw [List.getElem?_set_self'] at hw'
    obtain ⟨-, -, rfl⟩ := map_eq_some_iff.1 hw'
    rw [if_pos rfl] at hperm
    refine ⟨rfl, fun hnot => ?_⟩
    obtain ⟨hstream, htotal⟩ := hnew hnot
    exact ⟨hstream.imp_right fun ⟨hsending, hcancelled⟩ => ⟨hsending.subperm hperm.subperm, hcancelled⟩, htotal⟩
  · rw [List.getElem?_set_ne (Ne.symm hji)] at hw'
    rw [if_neg hji] at hperm
    exact (hothers j w' hji hw').congr hperm.subperm id rfl rfl

/-- A stream is closed: it is the same to the session whether by itself or with a frame. -/
theorem StreamsOk.close (h : StreamsOk s) (hw : s.streams[i]? = some w) (hloop : w.stream.loop = none)
    {w' : WriterStream} (hstream : w'.stream = w.stream.close) : StreamsOk (s.setStream i w') := by
  have hold := h i w hw
  refine h.setStream ⟨?_, fun hnot => ?_⟩
  · rw [hstream]
    exact hold.noFrames
  · have htotal := (hold.sending hnot).2
    rw [pendingBytes, hloop] at htotal
    rw [hstream]
    refine ⟨.inl ⟨rfl, rfl, hloop, rfl⟩, ?_⟩
    rw [pendingBytes, show w.stream.close.loop = none from hloop]
    exact htotal

theorem StreamsOk.resetStream (h : StreamsOk s) (hw : s.streams[i]? = some w) (hloop : w.stream.loop = none)
    {w' : WriterStream} (hstream : w'.stream = w.stream) : StreamsOk (s.resetStream i w') := by
  have hqueued := h.queueFrame (.control RST_STREAM) 8 w'.priority none (.inl rfl)
  refine hqueued.close hw hloop ?_
  dsimp only
  rw [hstream]

theorem StreamsOk.takeOutFrames_after (h : StreamsOk s) (hw : s.streams[i]? = some w)
    (hloop : w.stream.loop = none) {e : SpdyStream.Event} (he : ∀ synSize, e ≠ .frameWritten synSize)
    {stream : SpdyStream} (hstep : w.stream.step e = some stream) : StreamsOk (s.takeOutFrames i w stream) := by
  have hold := h i w hw
  refine StreamsOk.takeOutFrames (fun j w' _ hw' => h j w' hw') fun hnot => ?_
  obtain ⟨hstream, htotal⟩ := hold.sending hnot
  rw [Sending.pendingBytes_of_loop_eq_none hloop] at htotal
  rcases hstream with hclosed | ⟨hsending, hcancelled⟩
  · have hclosed' := hclosed.step he hstep
    rw [Sending.pendingBytes_of_loop_eq_none hclosed'.noLoop]
    exact ⟨.inl ⟨hclosed'.done, hclosed'.inactive, hclosed'.noLoop, hclosed'.noDelegate⟩, htotal⟩
  · rcases hsending.step hold.noFrames hloop he hstep with hclosed' | ⟨hsending', hpending⟩
    · have hloop' : stream.loop = none := hclosed'.noLoop
      rw [Sending.pendingBytes_of_loop_eq_none hloop']
      exact ⟨.inl hclosed', htotal⟩
    · rw [hpending]
      exact ⟨.inr ⟨hsending', hcancelled⟩, htotal⟩

/-- **A turn of `DoLoop`** hands on what is pending. -/
theorem StreamsOk.turn (h : StreamsOk s) (hw : s.streams[i]? = some w)
    (hstep : s.streamEvent i w .turn = some s') : StreamsOk s' := by
  obtain ⟨result, hloop, rfl⟩ := map_eq_some_iff.1 hstep
  have hold := h i w hw
  have hturn : ∀ bytes, (bytesSent w.stream result).getD 0 = bytes → ∀ t : WriterSession,
      t.streams = s.streams → t.frames = s.frames → sentTotal i t.log = sentTotal i s.log + bytes →
      (∀ j ≠ i, sentTotal j t.log = sentTotal j s.log) → (∀ j, dataTotal j t.log = dataTotal j s.log) →
      writtenFrames t.log = writtenFrames s.log → StreamsOk (t.takeOutFrames i w (w.stream.turn result)) := by
    intro bytes hbytes t hstreams hframes hsent hothers hdata hwritten
    have hout : ∀ j, t.outstanding j = s.outstanding j := fun j => by rw [outstanding, outstanding, hframes]
    have hwindow : ∀ j, WindowUpdateWritten j t.log ↔ WindowUpdateWritten j s.log := fun j => by
      rw [WindowUpdateWritten, WindowUpdateWritten, hwritten]
    refine StreamsOk.takeOutFrames (fun j w' hne hw' => ?_) fun hnot => ?_
    · rw [hstreams] at hw'
      rw [hout]
      exact (h j w' hw').congr (List.Subperm.refl _) (hwindow j).2 (hothers j hne) (hdata j)
    · rw [hwindow] at hnot
      obtain ⟨hstream, htotal⟩ := hold.sending hnot
      rcases hstream with hclosed | ⟨hsending, hcancelled⟩
      · rw [hclosed.noLoop] at hloop
        cases hloop
      · obtain ⟨hsending', hpending, hbytes'⟩ := hsending.turn hold.noFrames hloop
        rw [hout, hsent, hdata, hpending, ← htotal, ← hbytes', hbytes]
        exact ⟨.inr ⟨hsending', hcancelled⟩, rfl⟩
  dsimp only
  cases hbytes : bytesSent w.stream result with
  | none => exact hturn 0 (by rw [hbytes]; rfl) s rfl rfl rfl (fun _ _ => rfl) (fun _ => rfl) rfl
  | some bytes =>
    refine hturn bytes (by rw [hbytes]; rfl) (s.record (.sent i bytes)) rfl rfl ?_ (fun j hj => ?_) (fun j => ?_) ?_
    · simp [record, sentTotal]
    · simp [record, sentTotal, Ne.symm hj]
    · simp [record, dataTotal]
    · simp [record, writtenFrames]

theorem StreamsOk.streamEvent (h : StreamsOk s) (hw : s.streams[i]? = some w) {e : SpdyStream.Event}
    (hloop : w.stream.loop = none) (hstep : s.streamEvent i w e = some s') : StreamsOk s' := by
  cases e with
  | frameWritten synSize => cases hstep
  | turn => exact h.turn hw hstep
  | onWindowUpdate delta =>
    obtain ⟨stream, hstream, rfl⟩ := map_eq_some_iff.1 hstep
    split
    · exact h.resetStream hw hloop rfl
    · exact h.takeOutFrames_after hw hloop (fun _ hne => by cases hne) hstream
  | sendRequest hasUploadData | appendChunk data isLastChunk | writeStreamData data fin
  | onResponseReceived | close =>
    obtain ⟨stream, hstream, rfl⟩ := map_eq_some_iff.1 hstep
    exact h.takeOutFrames_after hw hloop (fun _ hne => by cases hne) hstream

theorem StreamsOk.cancel (h : StreamsOk s) (hw : s.streams[i]? = some w) (hloop : w.stream.loop = none) :
    StreamsOk (s.cancel i w) := by
  have hold := h i w hw
  unfold WriterSession.cancel
  split
  · exact h
  · split
    · exact h.resetStream hw hloop rfl
    · rename_i hinactive
      refine h.setStream ⟨hold.noFrames, fun hnot => ?_⟩
      obtain ⟨hstream, htotal⟩ := hold.sending hnot
      rcases hstream with hclosed | ⟨hsending, -⟩
      · exact ⟨.inl hclosed, htotal⟩
      · exact absurd hsending.active hinactive

theorem StreamsOk.onDataReceived (h : StreamsOk s) (hw : s.streams[i]? = some w) (hloop : w.stream.loop = none)
    (length : ℕ) : StreamsOk (s.onDataReceived i w length) := by
  have hold := h i w hw
  unfold WriterSession.onDataReceived
  split
  · exact h
  · split
    · exact h.close hw hloop rfl
    · dsimp only
      split
      · exact h.resetStream hw hloop rfl
      · exact h.setStream ⟨hold.noFrames, hold.sending⟩

theorem StreamsOk.readData (h : StreamsOk s) (hw : s.streams[i]? = some w) (length : ℕ) :
    StreamsOk (s.readData i w length) := by
  have hold := h i w hw
  dsimp only [WriterSession.readData]
  split
  · have hqueued := h.queueFrame (.control WINDOW_UPDATE) 8 w.priority (some i) (.inr rfl)
    have hold' := hqueued i w hw
    exact hqueued.setStream ⟨hold'.noFrames, hold'.sending⟩
  · exact h.setStream ⟨hold.noFrames, hold.sending⟩

theorem StreamsOk.closeSessionOnError (h : StreamsOk s) (hquiet : s.IsQuiet) : StreamsOk s.closeSessionOnError := by
  unfold WriterSession.closeSessionOnError
  split
  · exact h
  · intro j w' hw'
    have hget : (s.streams.map fun w => if w.stream.isActive then { w with stream := w.stream.close } else w)[j]? =
        some w' := hw'
    rw [List.getElem?_map] at hget
    obtain ⟨w, hw, rfl⟩ := map_eq_some_iff.1 hget
    have hold := h j w hw
    have hloop := hquiet w (List.mem_of_getElem? hw)
    split
    · refine ⟨hold.noFrames, fun hnot => ?_⟩
      have htotal := (hold.sending hnot).2
      rw [Sending.pendingBytes_of_loop_eq_none hloop] at htotal
      have hloop' : w.stream.close.loop = none := hloop
      dsimp only
      rw [Sending.pendingBytes_of_loop_eq_none hloop']
      exact ⟨.inl ⟨rfl, rfl, hloop, rfl⟩, htotal⟩
    · rename_i hinactive
      refine ⟨hold.noFrames, fun hnot => ?_⟩
      obtain ⟨hstream, htotal⟩ := hold.sending hnot
      rcases hstream with hclosed | ⟨hsending, -⟩
      · exact ⟨.inl hclosed, htotal⟩
      · exact absurd hsending.active hinactive

theorem StreamsOk.writeSocket (h : StreamsOk s) (hquiet : s.IsQuiet) {compressed : Option ℕ}
    (hstep : s.writeSocket compressed = some s') : StreamsOk s' := by
  unfold WriterSession.writeSocket at hstep
  split at hstep
  · cases hstep
    exact h
  · cases hstep
  · rename_i frame queue hinFlight hqueue
    have hframes : s.frames = frame :: queue := by
      rw [frames, hinFlight, hqueue]
      rfl
    have hpicked : ∀ size, StreamsOk
        { s with queue := queue, inFlightWrite := some ⟨frame, size, 0⟩, writePending := true } := by
      intro size j w hw
      refine (h j w hw).congr ?_ id rfl rfl
      rw [outstanding, outstanding, hframes]
      exact List.Subperm.refl _
    dsimp only at hstep
    split at hstep
    · split at hstep
      · -- the frame is lost, and every stream is closed
        cases hstep
        have hlost : StreamsOk { s with queue := queue } := by
          intro j w hw
          refine (h j w hw).congr (List.Sublist.subperm ?_) id rfl rfl
          rw [outstanding, outstanding, hframes, frames, hinFlight]
          exact (List.sublist_cons_self frame queue).filterMap _
        exact hlost.closeSessionOnError hquiet
      · cases hstep
        exact hpicked _
    · cases hstep
      exact hpicked _

/-! ### A frame is written -/

theorem WindowUpdateWritten.of_append {log : List WriteEntry} {frame : SpdyIOBuffer} {entries : List WriteEntry}
    (hwritten : writtenFrames entries = [frame]) (hstream : frame.stream = some i)
    (htype : frame.type = .control WINDOW_UPDATE) : WindowUpdateWritten i (log ++ entries) := by
  refine ⟨frame, ?_, hstream, htype⟩
  rw [writtenFrames_append, hwritten]
  exact List.mem_append_right _ (List.mem_singleton.2 rfl)

theorem dataTotal_written (frame : SpdyIOBuffer) (payload : ℕ) (cancelled closed : Bool) (j : ℕ) :
    dataTotal j [.written frame payload cancelled closed] =
      if frame.type = .data ∧ frame.stream = some j ∧ cancelled = false ∧ closed = false then payload else 0 :=
  Nat.add_zero _

theorem dataTotal_written_completed (frame : SpdyIOBuffer) (payload : ℕ) (cancelled closed : Bool)
    (stream bytes j : ℕ) :
    dataTotal j [.written frame payload cancelled closed, .completed frame stream bytes] =
      dataTotal j [.written frame payload cancelled closed] := rfl

theorem StreamsOk.written (h : StreamsOk s) (entries : List WriteEntry) (hsent : ∀ j, sentTotal j entries = 0)
    (hdata : ∀ j, dataTotal j entries = 0) (hlog : s'.log = s.log ++ entries) (hnone : s'.inFlightWrite = none)
    (hqueue : s'.queue = s.queue) (hstreams : s'.streams = s.streams) : StreamsOk s' := by
  intro j w hw
  rw [hstreams] at hw
  rw [hlog]
  refine (h j w hw).congr ?_ (fun hwindow => hwindow.append entries) ?_ ?_
  · refine List.Sublist.subperm (List.Sublist.filterMap _ ?_)
    rw [frames, frames, hnone, hqueue]
    exact List.sublist_append_right _ _
  · rw [sentTotal_append, hsent, Nat.add_zero]
  · rw [dataTotal_append, hdata, Nat.add_zero]

theorem StreamsOk.completed (h : StreamsOk s) {v : InFlightWrite} (hv : s.inFlightWrite = some v)
    (hstream : v.buffer.stream = some i) (hw : s.streams[i]? = some w) (hloop : w.stream.loop = none)
    {bytes : ℕ} (entries : List WriteEntry) (hwritten : writtenFrames entries = [v.buffer])
    (hsent : ∀ j, sentTotal j entries = 0)
    (hdata : ∀ j, dataTotal j entries =
      if v.buffer.type = .data ∧ v.buffer.stream = some j ∧ w.stream.ioState ≠ STATE_DONE then bytes else 0)
    (hlog : s'.log = s.log ++ entries) (hnone : s'.inFlightWrite = none) (hqueue : s'.queue = s.queue)
    (hstreams : s'.streams = s.streams.set i { w with stream := w.stream.onWriteComplete bytes }) :
    StreamsOk s' := by
  have hframes : s.frames = v.buffer :: s'.frames := by
    rw [frames, frames, hv, hnone, hqueue]
    rfl
  intro j w' hw'
  rw [hstreams] at hw'
  rw [hlog]
  by_cases hji : j = i
  · subst hji
    rw [List.getElem?_set_self'] at hw'
    obtain ⟨-, -, rfl⟩ := map_eq_some_iff.1 hw'
    have hold := h j w hw
    refine ⟨?_, fun hnot => ?_⟩
    · unfold SpdyStream.onWriteComplete
      split <;> exact hold.noFrames
    · have htype : v.buffer.type ≠ .control WINDOW_UPDATE := fun htype =>
        hnot (WindowUpdateWritten.of_append hwritten hstream htype)
      obtain ⟨hor, htotal⟩ := hold.sending fun hbefore => hnot (hbefore.append entries)
      have hout : s.outstanding j = v.buffer.type :: s'.outstanding j := by
        rw [outstanding, hframes, List.filterMap_cons, if_pos ⟨hstream, htype⟩]
        rfl
      rw [sentTotal_append, dataTotal_append, hsent, hdata, ← htotal, Sending.pendingBytes_of_loop_eq_none hloop]
      rcases hor with hclosed | ⟨hsending, hcancelled⟩
      · have hsame : w.stream.onWriteComplete bytes = w.stream := by
          rw [SpdyStream.onWriteComplete, if_pos hclosed.done]
        simp only [Function.const_apply]
        rw [if_neg fun hcond => hcond.2.2 hclosed.done]
        rw [hsame, Sending.pendingBytes_of_loop_eq_none hloop]
        exact ⟨.inl hclosed, rfl⟩
      · rw [hout] at hsending
        obtain ⟨hsending', hpending⟩ := hsending.complete hloop bytes
        refine ⟨.inr ⟨hsending', hcancelled⟩, ?_⟩
        simp only [Function.const_apply]
        rw [hpending]
        simp only [hstream, ne_eq, hsending.notDone, not_false_eq_true, and_true]
  · rw [List.getElem?_set_ne (Ne.symm hji)] at hw'
    refine (h j w' hw').congr ?_ (fun hwindow => hwindow.append entries) ?_ ?_
    · refine List.Sublist.subperm (List.Sublist.filterMap _ ?_)
      rw [hframes]
      exact List.sublist_cons_self _ _
    · rw [sentTotal_append, hsent, Nat.add_zero]
    · rw [dataTotal_append, hdata, if_neg, Nat.add_zero]
      rintro ⟨-, hother, -⟩
      rw [hstream] at hother
      exact hji (Option.some.inj hother).symm

theorem StreamsOk.onWriteComplete (h : StreamsOk s) (hframes : FramesOk s) (hquiet : s.IsQuiet)
    {v : InFlightWrite} (hv : s.inFlightWrite = some v) (result : ℤ) : StreamsOk (s.onWriteComplete v result) := by
  obtain ⟨hused, -, -⟩ := hframes.inFlight v hv
  dsimp only [WriterSession.onWriteComplete]
  split
  · rename_i hnonneg
    split
    · rename_i hdone
      dsimp only [InFlightWrite.bytesRemaining] at hdone
      have hpos : 0 < result.toNat := by omega
      dsimp only [WriterSession.notifyStream]
      split
      · rename_i hstream
        refine h.written [_] (fun _ => rfl) (fun j => ?_) rfl rfl rfl rfl
        rw [dataTotal_written, if_neg]
        rw [hstream]
        rintro ⟨-, hsome, -⟩
        cases hsome
      · rename_i i hstream
        split
        · exact h.written [] (fun _ => rfl) (fun _ => rfl) (List.append_nil _).symm rfl rfl rfl
        · rename_i w hw
          rw [if_pos hpos]
          split
          all_goals rename_i hcancelled
          · refine h.written [_] (fun _ => rfl) (fun j => ?_) rfl rfl rfl rfl
            rw [dataTotal_written, if_neg]
            rw [hcancelled]
            rintro ⟨-, -, hfalse, -⟩
            cases hfalse
          · refine h.completed hv hstream hw (hquiet w (List.mem_of_getElem? hw))
              [.written v.buffer (v.size - SpdyFrame.size) w.cancelled (w.stream.ioState = STATE_DONE),
                .completed v.buffer i (v.size - SpdyFrame.size)]
              rfl (fun _ => rfl) (fun j => ?_) ?_ rfl rfl rfl
            · rw [dataTotal_written_completed, dataTotal_written]
              simp [hcancelled]
            · exact List.append_assoc _ _ _
    · intro j w hw
      refine (h j w hw).congr ?_ id rfl rfl
      rw [outstanding, outstanding, frames, frames, hv]
      exact List.Subperm.refl _
  · have hlost : StreamsOk { s with writePending := false, inFlightWrite := none } := by
      intro j w hw
      refine (h j w hw).congr (List.Sublist.subperm (List.Sublist.filterMap _ ?_)) id rfl rfl
      exact List.sublist_append_right _ _
    exact hlost.closeSessionOnError hquiet

/-! ### Steps -/

theorem FramesOk.readData (h : FramesOk s) (hi : i < s.streams.length) (w : WriterStream) (length : ℕ) :
    FramesOk (s.readData i w length) := by
  dsimp only [WriterSession.readData]
  split
  · exact (h.queueFrame (.inl ⟨.inr (.inr rfl), i, hi, rfl⟩)).setStream i _
  · exact h.setStream i _

theorem FramesOk.cancel (h : FramesOk s) (i : ℕ) (w : WriterStream) : FramesOk (s.cancel i w) := by
  unfold WriterSession.cancel
  split
  · exact h
  · split
    · exact h.resetStream i _
    · exact h.setStream i _

theorem FramesOk.onDataReceived (h : FramesOk s) (i : ℕ) (w : WriterStream) (length : ℕ) :
    FramesOk (s.onDataReceived i w length) := by
  unfold WriterSession.onDataReceived
  split
  · exact h
  · split
    · exact h.setStream i _
    · dsimp only
      split
      · exact h.resetStream i _
      · exact h.setStream i _

theorem lt_length_of_getElem? (hw : s.streams[i]? = some w) : i < s.streams.length :=
  (List.getElem?_eq_some_iff.1 hw).1

theorem FramesOk.noStream (h : FramesOk s) (hi : s.streams.length ≤ i) :
    s.outstanding i = [] ∧ dataTotal i s.log = 0 := by
  have hother : ∀ frame ∈ writtenFrames s.log ++ s.frames, frame.stream ≠ some i := by
    intro frame hframe hstream
    rcases (h.frame frame hframe).1 with ⟨-, j, hj, hsome⟩ | ⟨-, -, hnone⟩
    · rw [hstream] at hsome
      cases hsome
      omega
    · rw [hstream] at hnone
      cases hnone
  refine ⟨List.filterMap_eq_nil_iff.2 fun frame hframe => ?_, List.sum_eq_zero_iff_forall_eq_nat.2 fun n hn => ?_⟩
  · rw [if_neg fun hcond => hother frame (List.mem_append_right _ hframe) hcond.1]
  · obtain ⟨entry, hentry, rfl⟩ := List.mem_map.1 hn
    cases entry with
    | written frame payload cancelled closed =>
      refine if_neg fun hcond => hother frame (List.mem_append_left _ ?_) hcond.2.1
      exact List.mem_filterMap.2 ⟨_, hentry, rfl⟩
    | completed frame stream bytes | sent stream bytes => rfl

theorem StreamsOk.createStream (h : StreamsOk s) (hframes : FramesOk s) {new : WriterStream}
    (hnew : Sending new.stream []) (hcancelled : new.cancelled = false) (hloop : new.stream.loop = none)
    (hnoFrames : new.stream.outFrames = []) : StreamsOk { s with streams := s.streams ++ [new] } := by
  intro i w hw
  by_cases hi : i < s.streams.length
  · have hget : (s.streams ++ [new])[i]? = some w := hw
    rw [List.getElem?_append_left hi] at hget
    exact h i w hget
  · obtain ⟨hout, hdata⟩ := hframes.noStream (Nat.le_of_not_lt hi)
    have hget : (s.streams ++ [new])[i]? = some w := hw
    rw [List.getElem?_append_right (Nat.le_of_not_lt hi)] at hget
    obtain rfl : new = w := List.mem_singleton.1 (List.mem_of_getElem? hget) |>.symm
    refine ⟨hnoFrames, fun _ => ⟨.inr ⟨?_, hcancelled⟩, ?_⟩⟩
    · change Sending new.stream (s.outstanding i)
      rw [hout]
      exact hnew
    · change sentTotal i s.log + pendingBytes new.stream = dataTotal i s.log
      rw [hframes.fresh i (Nat.le_of_not_lt hi), hdata, Sending.pendingBytes_of_loop_eq_none hloop]

theorem StreamsOk.quietStep (h : StreamsOk s) (hframes : FramesOk s) (hquiet : s.IsQuiet) {e : Event}
    (hstep : s.quietStep e = some s') : FramesOk s' ∧ StreamsOk s' := by
  have hloop : ∀ {i : ℕ} {w : WriterStream}, s.streams[i]? = some w → w.stream.loop = none := fun hw =>
    hquiet _ (List.mem_of_getElem? hw)
  cases e with
  | initializeWithSocket =>
    obtain ⟨-, rfl⟩ := ite_some_none_eq_some.1 hstep
    exact ⟨⟨hframes.frame, hframes.positions, hframes.inFlight, hframes.called, hframes.payload, hframes.fresh⟩, h⟩
  | sendSettings entries | writePingFrame =>
    cases hstep
    exact ⟨hframes.queueFrame (.inr ⟨by simp, by simp, rfl⟩), h.queueFrame _ _ _ none (.inl rfl)⟩
  | createStream priority synLength initialSendWindowSize initialRecvWindowSize delegate =>
    cases hstep
    refine ⟨?_, h.createStream hframes (Sending.of_nil rfl rfl (by simp [SpdyStream.new]) rfl) rfl rfl rfl⟩
    refine hframes.congr rfl rfl rfl (fun _ _ => rfl) (fun _ _ _ _ hmem => hmem) (List.Sublist.refl _) ?_ le_rfl
      hframes.inFlight
    dsimp only
    rw [List.length_append]
    exact Nat.le_add_right _ _
  | streamEvent i e =>
    obtain ⟨w, hw, hstep⟩ := bind_eq_some_iff.1 hstep
    exact ⟨hframes.streamEvent (lt_length_of_getElem? hw) hstep, h.streamEvent hw (hloop hw) hstep⟩
  | cancel i =>
    obtain ⟨w, hw, rfl⟩ := map_eq_some_iff.1 hstep
    exact ⟨hframes.cancel i w, h.cancel hw (hloop hw)⟩
  | resetStream i =>
    obtain ⟨w, hw, hstep⟩ := bind_eq_some_iff.1 hstep
    obtain ⟨-, rfl⟩ := ite_some_none_eq_some.1 hstep
    exact ⟨hframes.resetStream i w, h.resetStream hw (hloop hw) rfl⟩
  | onDataReceived i length =>
    obtain ⟨w, hw, rfl⟩ := map_eq_some_iff.1 hstep
    exact ⟨hframes.onDataReceived i w length, h.onDataReceived hw (hloop hw) length⟩
  | readData i length =>
    obtain ⟨w, hw, hstep⟩ := bind_eq_some_iff.1 hstep
    obtain ⟨-, rfl⟩ := ite_some_none_eq_some.1 hstep
    exact ⟨hframes.readData (lt_length_of_getElem? hw) w length, h.readData hw length⟩
  | writeSocket compressed =>
    obtain ⟨-, hstep⟩ := Option.ite_none_right_eq_some.1 hstep
    exact ⟨hframes.writeSocket hstep, h.writeSocket hquiet hstep⟩
  | onWriteComplete result =>
    obtain ⟨v, hv, hstep⟩ := bind_eq_some_iff.1 hstep
    obtain ⟨-, rfl⟩ := ite_some_none_eq_some.1 hstep
    exact ⟨hframes.onWriteComplete hv result, h.onWriteComplete hframes hquiet hv result⟩
  | closeSession =>
    cases hstep
    exact ⟨hframes.closeSessionOnError, h.closeSessionOnError hquiet⟩

/-- A step is a turn of the running `DoLoop`, or there is none. -/
theorem step_cases {e : Event} (hstep : s.step e = some s') :
    (∃ i w, s.streams[i]? = some w ∧ s.streamEvent i w .turn = some s') ∨
      s.IsQuiet ∧ s.quietStep e = some s' := by
  unfold WriterSession.step at hstep
  split at hstep
  · rename_i i
    obtain ⟨w, hw, hturn⟩ := bind_eq_some_iff.1 hstep
    exact .inl ⟨i, w, hw, hturn⟩
  · exact .inr (Option.ite_none_right_eq_some.1 hstep)

theorem ok_step (hframes : FramesOk s) (h : StreamsOk s) {e : Event} (hstep : s.step e = some s') :
    FramesOk s' ∧ StreamsOk s' := by
  rcases step_cases hstep with ⟨i, w, hw, hturn⟩ | ⟨hquiet, hstep⟩
  · exact ⟨hframes.streamEvent (lt_length_of_getElem? hw) hturn, h.turn hw hturn⟩
  · exact h.quietStep hframes hquiet hstep

theorem ok_run {es : List Event} (h : writeSystem.Run es s) : FramesOk s ∧ StreamsOk s := by
  refine h.invariant (I := fun s => FramesOk s ∧ StreamsOk s) ?_ fun s e s' ⟨hframes, hstreams⟩ hstep =>
    ok_step hframes hstreams hstep
  rintro s rfl
  exact ⟨FramesOk.new, fun _ _ hw => (nomatch hw)⟩

theorem due_of_mem_dueCalls {frame : SpdyIOBuffer} {bytes : ℕ} (h : (frame, i, bytes) ∈ dueCalls log) :
    (frame.type = .data ∨ frame.type = .control SYN_STREAM) ∧ frame.stream = some i ∧
      ∃ closed, .written frame bytes false closed ∈ log := by
  obtain ⟨entry, hentry, hdue⟩ := List.mem_filterMap.1 h
  cases entry with
  | written frame' payload cancelled closed =>
    cases cancelled with
    | true => cases hdue
    | false =>
      obtain ⟨htype, hdue⟩ := Option.ite_none_right_eq_some.1 hdue
      obtain ⟨stream, hstream, heq⟩ := map_eq_some_iff.1 hdue
      cases heq
      exact ⟨htype, hstream, closed, hentry⟩
  | completed frame' stream bytes' | sent stream bytes' => cases hdue

/-- **Who is told, in every run.**  Each frame is written once.  A stream is told of its `SYN_STREAM` and `DATA`
frames with their lengths, in the order in which they are written, unless it is cancelled then, and of no frame
that is not written as a whole, nor of an `RST_STREAM`, `SETTINGS` or `PING`.  As long as no window update of a
stream is written, its delegate is told the bytes of its `DATA` frames, those that are written when it is
cancelled or closed apart. -/
theorem completions_of_run {es : List Event} (h : writeSystem.Run es s) :
    ((writtenFrames s.log).map SpdyIOBuffer.position).Nodup ∧ calls s.log = dueCalls s.log ∧
      (∀ frame payload cancelled closed, .written frame payload cancelled closed ∈ s.log →
        (frame.type = .data ∨ frame.type = .control SYN_STREAM → ∃ i < s.streams.length, frame.stream = some i) ∧
        (frame.type = .data → payload = frame.length)) ∧
      (∀ frame i bytes, .completed frame i bytes ∈ s.log → frame.type ≠ .control WINDOW_UPDATE →
        (frame.type = .data ∨ frame.type = .control SYN_STREAM) ∧ frame.stream = some i ∧
          ∃ closed, .written frame bytes false closed ∈ s.log) ∧
      ∀ i w, s.streams[i]? = some w → w.stream.loop = none → ¬ WindowUpdateWritten i s.log →
        sentTotal i s.log = dataTotal i s.log := by
  obtain ⟨hframes, hstreams⟩ := ok_run h
  refine ⟨?_, hframes.called, fun frame payload cancelled closed hmem => ⟨fun htype => ?_, ?_⟩,
    fun frame i bytes hmem hnot => ?_, fun i w hw hloop hnot => ?_⟩
  · exact hframes.positions.sublist ((List.sublist_append_left _ _).map _)
  · have hwritten : frame ∈ writtenFrames s.log := List.mem_filterMap.mpr ⟨_, hmem, rfl⟩
    rcases (hframes.frame frame (List.mem_append_left _ hwritten)).1 with ⟨-, hstream⟩ | ⟨hdata, hsyn, -⟩
    · exact hstream
    · rcases htype with htype | htype
      · exact absurd htype hdata
      · exact absurd htype hsyn
  · exact hframes.payload frame payload cancelled closed hmem
  · have hcall : (frame, i, bytes) ∈ dueCalls s.log := by
      rw [← hframes.called]
      exact List.mem_filterMap.mpr ⟨_, hmem, if_neg hnot⟩
    exact due_of_mem_dueCalls hcall
  · obtain ⟨-, htotal⟩ := (hstreams i w hw).sending hnot
    rw [Sending.pendingBytes_of_loop_eq_none hloop, Nat.add_zero] at htotal
    exact htotal

theorem run_of_foldlM {es : List Event} (h : es.foldlM step new = some s) : writeSystem.Run es s := by
  have hnew : writeSystem.Run [] new := .init rfl
  exact hnew.foldlM (fun _ _ _ hstep => hstep) h

/-- An upload of three bytes, with settings before it.  Its `SYN_STREAM` is written in two parts, and it is
reset when its body is written. -/
theorem completions_of_run_upload :
    ∃ es s, writeSystem.Run es s ∧ (writtenFrames s.log).length = 4 ∧ (calls s.log).map (·.2) = [(0, 12), (0, 3)] ∧
      calls s.log = dueCalls s.log ∧ sentTotal 0 s.log = dataTotal 0 s.log := by
  have hrun : ([.createStream 0 20 65536 65536 (.http (some
        { elements := [.bytes [1, 2, 3]], isChunked := false, buf := [1, 2, 3], nextElement := 1,
          nextElementOffset := 0, eof := false })),
      .initializeWithSocket, .sendSettings 1, .streamEvent 0 (.sendRequest true), .streamEvent 0 .turn,
      .writeSocket none, .onWriteComplete 20, .writeSocket (some 12), .onWriteComplete 5, .writeSocket none,
      .onWriteComplete 15, .streamEvent 0 .turn, .streamEvent 0 .turn, .writeSocket none, .onWriteComplete 11,
      .streamEvent 0 .turn, .streamEvent 0 .turn, .resetStream 0, .writeSocket none,
      .onWriteComplete 16].foldlM step new).bind (fun s => s.streams[0]?.map fun w =>
        decide (w.stream.loop = none ∧ (writtenFrames s.log).length = 4 ∧ (calls s.log).map (·.2) = [(0, 12), (0, 3)] ∧
          ∀ frame ∈ writtenFrames s.log, frame.type ≠ .control WINDOW_UPDATE)) = some true := by
    decide +kernel
  obtain ⟨s, hfold, hsome⟩ := Option.bind_eq_some_iff.mp hrun
  obtain ⟨w, hw, hdecide⟩ := Option.map_eq_some_iff.mp hsome
  obtain ⟨hloop, hlength, hcalls, hnot⟩ := of_decide_eq_true hdecide
  obtain ⟨-, hdue, -, -, htotal⟩ := completions_of_run (run_of_foldlM hfold)
  refine ⟨_, s, run_of_foldlM hfold, hlength, hcalls, hdue, htotal 0 w hw hloop ?_⟩
  rintro ⟨frame, hframe, -, htype⟩
  exact hnot frame hframe htype

/-- The `SYN_STREAM` of a stream that is cancelled is written, and the stream is not told; and a stream is told
of a window update, as if its body was sent. -/
theorem not_completions_cancelled_windowUpdate :
    (¬ ∀ es s, writeSystem.Run es s → ∀ frame i payload cancelled closed,
        .written frame payload cancelled closed ∈ s.log →
        frame.type = .data ∨ frame.type = .control SYN_STREAM → frame.stream = some i →
        .completed frame i payload ∈ s.log) ∧
      ¬ ∀ es s, writeSystem.Run es s → ∀ frame i bytes, .completed frame i bytes ∈ s.log →
        frame.type = .data ∨ frame.type = .control SYN_STREAM := by
  have hsyn : ([.createStream 0 20 65536 65536 (.http none), .initializeWithSocket,
      .streamEvent 0 (.sendRequest false), .streamEvent 0 .turn, .cancel 0, .writeSocket (some 12),
      .onWriteComplete 20].foldlM step new).map WriterSession.log =
        some [.written ⟨.control SYN_STREAM, 20, 0, 1, some 0⟩ 12 true true] := by
    decide +kernel
  have hupdate : ([.createStream 0 20 65536 65536 (.http none), .initializeWithSocket,
      .streamEvent 0 (.sendRequest false), .streamEvent 0 .turn, .writeSocket (some 12), .onWriteComplete 20,
      .streamEvent 0 .turn, .streamEvent 0 .turn, .streamEvent 0 .onResponseReceived, .onDataReceived 0 100,
      .readData 0 100, .writeSocket none, .onWriteComplete 16, .streamEvent 0 .turn].foldlM step new).map
        WriterSession.log =
      some [.written ⟨.control SYN_STREAM, 20, 0, 1, some 0⟩ 12 false false,
        .completed ⟨.control SYN_STREAM, 20, 0, 1, some 0⟩ 0 12,
        .written ⟨.control WINDOW_UPDATE, 8, 0, 2, some 0⟩ 8 false false,
        .completed ⟨.control WINDOW_UPDATE, 8, 0, 2, some 0⟩ 0 8, .sent 0 8] := by
    decide +kernel
  constructor
  · intro hall
    obtain ⟨s, hfold, hlog⟩ := Option.map_eq_some_iff.mp hsyn
    have htold := hall _ s (run_of_foldlM hfold) ⟨.control SYN_STREAM, 20, 0, 1, some 0⟩ 0 12 true true
    rw [hlog] at htold
    exact absurd (htold (by simp) (.inr rfl) rfl) (by simp)
  · intro hall
    obtain ⟨s, hfold, hlog⟩ := Option.map_eq_some_iff.mp hupdate
    have htype := hall _ s (run_of_foldlM hfold) ⟨.control WINDOW_UPDATE, 8, 0, 2, some 0⟩ 0 8
    rw [hlog] at htype
    exact absurd (htype (by simp)) (by decide)

end WriterSession

end Chromium.Net.Spdy
