import Chromium.Net.Spdy.SpdyStream

/-!
# The window of a stream

A window update is credited in `STATE_SEND_BODY_COMPLETE` only.  Where all of them come there, the
window is what was received less what was queued, and an upload that waits for it goes on as soon as
it is positive (`flowOk_of_run`).  One that comes while the stream waits for a chunk, or for its
`SYN_STREAM` to be written, is lost.
-/

namespace Chromium.Net.Spdy

open Lib State
open Option (ite_some_none_eq_some)

def receivedTotal (log : List FlowEntry) : ℤ := (log.map fun | .received delta => delta | _ => 0).sum

def queuedTotal (log : List FlowEntry) : ℤ :=
  (log.map fun | .queued payload _ => (payload.length : ℤ) | _ => 0).sum

@[simp]
theorem receivedTotal_append (log log' : List FlowEntry) :
    receivedTotal (log ++ log') = receivedTotal log + receivedTotal log' := by
  simp [receivedTotal]

@[simp]
theorem queuedTotal_append (log log' : List FlowEntry) :
    queuedTotal (log ++ log') = queuedTotal log + queuedTotal log' := by
  simp [queuedTotal]

namespace SpdyStream

variable {s s' : SpdyStream} {initial : Fin (2 ^ 31)}

/-- Where a stream goes on it has a window, and the next thing is that it queues data. -/
def Resumes (log : List FlowEntry) (loop : Option ℤ) : Prop :=
  ∀ before w after, log = before ++ .resumed w :: after →
    0 < w ∧ (after = [] → loop ≠ none) ∧ ∀ e ∈ after.head?, ∃ payload w', e = .queued payload w' ∧ payload ≠ []

structure FlowOk (initial : Fin (2 ^ 31)) (s : SpdyStream) : Prop where
  /-- what was received, less what was queued -/
  window : s.isActive = true → s.sendWindowSize = initial.val + receivedTotal s.log - queuedTotal s.log
  /-- no write makes it negative -/
  nonneg : ∀ payload w, .queued payload w ∈ s.log → 0 ≤ w
  /-- the stream goes on when it is positive, and then queues data -/
  resumed : Resumes s.log s.loop
  /-- a stream that waits for it does not have it -/
  stalled : s.isActive = true → s.stalledByFlowControl = true → s.sendWindowSize ≤ 0
  /-- an upload waits for a write or for the window -/
  waits : s.isActive = true → s.loop = none → s.ioState = STATE_SEND_BODY_COMPLETE →
    s.outFrames ≠ [] ∨ s.stalledByFlowControl = true

/-- A window update that is received while the stream sends comes in `STATE_SEND_BODY_COMPLETE`. -/
def Meets (s : SpdyStream) : Event → Prop
  | .onWindowUpdate delta => s.isActive = true → 1 ≤ int32OfUInt32 delta → s.IsSending →
      s.ioState = STATE_SEND_BODY_COMPLETE
  | _ => True

/-- The delegate is a `SpdyHttpStream`. -/
def IsHttp (s : SpdyStream) : Prop := ∃ body, s.delegate = some (.http body)

def IsOpenSocket (s : SpdyStream) : Prop := s.delegate = some .socket ∧ s.ioState = STATE_OPEN

def HasBuffer (s : SpdyStream) : Prop := ∃ body, s.delegate = some (.http (some body)) ∧ body.buf ≠ []

/-- With it: an upload has one frame at most that is not written, and none while it goes on or waits
for the window; one that goes on queues data next. -/
structure FlowInv (initial : Fin (2 ^ 31)) (s : SpdyStream) : Prop extends FlowOk initial s where
  window_nonneg : 0 ≤ s.sendWindowSize
  window_lt : s.sendWindowSize < 2147483648
  loopQuiet : s.IsHttp → s.loop ≠ none → s.outFrames = []
  oneFrame : s.IsHttp → s.outFrames.length ≤ 1
  frameState : s.IsHttp → s.outFrames ≠ [] →
    s.ioState = STATE_SEND_HEADERS_COMPLETE ∨ s.ioState = STATE_SEND_BODY_COMPLETE
  stalledAt : s.stalledByFlowControl = true → s.isActive = false ∨ s.IsOpenSocket ∨
    (s.ioState = STATE_SEND_BODY_COMPLETE ∧ s.loop = none ∧ s.outFrames = [] ∧ s.HasBuffer)
  justResumed : ∀ w, s.log.getLast? = some (.resumed w) →
    s.loop ≠ none ∧ s.ioState = STATE_SEND_BODY ∧ 0 < s.sendWindowSize ∧ s.HasBuffer

theorem flowInv_new (initial : Fin (2 ^ 31)) (delegate : Delegate) :
    FlowInv initial (new initial delegate) where
  window _ := by simp [new, receivedTotal, queuedTotal]
  nonneg payload w h := by cases h
  resumed before w after h := by simp [new] at h
  stalled _ h := by cases h
  waits _ _ h := by cases h
  window_nonneg := Int.natCast_nonneg _
  window_lt := by
    have := initial.isLt
    show (initial.val : ℤ) < _
    omega
  loopQuiet _ h := absurd rfl h
  oneFrame _ := Nat.zero_le 1
  frameState _ h := absurd rfl h
  stalledAt h := by cases h
  justResumed w h := by cases h

/-! ### Steps that leave the window alone -/

variable {log : List FlowEntry} {loop loop' : Option ℤ} {e : FlowEntry}

theorem Resumes.congr (h : Resumes log loop)
    (hlast : ∀ w, log.getLast? = some (.resumed w) → loop' ≠ none) : Resumes log loop' := by
  intro before w after hsplit
  obtain ⟨hw, -, hnext⟩ := h before w after hsplit
  refine ⟨hw, fun hafter => hlast w ?_, hnext⟩
  rw [hsplit, hafter]
  simp

theorem Resumes.concat (h : Resumes log loop)
    (hself : ∀ w, e = .resumed w → 0 < w ∧ loop' ≠ none)
    (hnext : ∀ w, log.getLast? = some (.resumed w) →
      ∃ payload w', e = .queued payload w' ∧ payload ≠ []) : Resumes (log ++ [e]) loop' := by
  intro before w after hsplit
  rcases List.eq_nil_or_concat after with rfl | ⟨after, e', rfl⟩
  · obtain ⟨-, he⟩ := List.append_inj' hsplit rfl
    obtain ⟨hw, hloop⟩ := hself w (by simpa using he)
    exact ⟨hw, fun _ => hloop, fun e he => by cases he⟩
  · rw [List.concat_eq_append, ← List.cons_append, ← List.append_assoc] at hsplit
    obtain ⟨hbefore, he⟩ := List.append_inj' hsplit rfl
    obtain rfl : e = e' := by simpa using he
    obtain ⟨hw, -, hafter⟩ := h before w after hbefore
    refine ⟨hw, fun hnil => by simp at hnil, fun e'' he'' => ?_⟩
    cases after with
    | nil =>
      obtain rfl : e = e'' := by simpa using he''
      refine hnext w ?_
      rw [hbefore]
      simp
    | cons a rest =>
      refine hafter e'' ?_
      simpa using he''

/-- **A step that does not write**, and that the log does not end with a resumption before. -/
theorem FlowInv.congr (h : FlowInv initial s) (hwindow : s'.sendWindowSize = s.sendWindowSize)
    (hlog : s'.log = s.log) (hstalled : s'.stalledByFlowControl = s.stalledByFlowControl)
    (hactive : s'.isActive = true → s.isActive = true)
    (hlast : ∀ w, s.log.getLast? ≠ some (.resumed w))
    (hwaits : s'.isActive = true → s'.loop = none → s'.ioState = STATE_SEND_BODY_COMPLETE →
      s'.outFrames ≠ [] ∨ s'.stalledByFlowControl = true)
    (hquiet : s'.IsHttp → (s'.loop ≠ none → s'.outFrames = []) ∧ s'.outFrames.length ≤ 1 ∧
      (s'.outFrames ≠ [] → s'.ioState = STATE_SEND_HEADERS_COMPLETE ∨ s'.ioState = STATE_SEND_BODY_COMPLETE))
    (hat : s'.stalledByFlowControl = true → s'.isActive = false ∨ s'.IsOpenSocket ∨
      (s'.ioState = STATE_SEND_BODY_COMPLETE ∧ s'.loop = none ∧ s'.outFrames = [] ∧
        s'.HasBuffer)) : FlowInv initial s' where
  window ha := by
    rw [hwindow, hlog]
    exact h.window (hactive ha)
  nonneg := hlog ▸ h.nonneg
  resumed := hlog ▸ h.resumed.congr fun w hw => absurd hw (hlast w)
  stalled ha hs := by
    rw [hwindow]
    exact h.stalled (hactive ha) (hstalled ▸ hs)
  waits := hwaits
  window_nonneg := hwindow ▸ h.window_nonneg
  window_lt := hwindow ▸ h.window_lt
  loopQuiet hh := (hquiet hh).1
  oneFrame hh := (hquiet hh).2.1
  frameState hh := (hquiet hh).2.2
  stalledAt := hat
  justResumed w hw := absurd (hlog ▸ hw) (hlast w)

theorem FlowInv.notResumed_of_loop_eq_none (h : FlowInv initial s) (hloop : s.loop = none) (w : ℤ) :
    s.log.getLast? ≠ some (.resumed w) :=
  fun hw => (h.justResumed w hw).1 hloop

theorem FlowInv.notResumed_of_ne (h : FlowInv initial s) (hstate : s.ioState ≠ STATE_SEND_BODY)
    (w : ℤ) : s.log.getLast? ≠ some (.resumed w) :=
  fun hw => hstate (h.justResumed w hw).2.1

theorem FlowInv.outFrames_eq_nil (h : FlowInv initial s) (hh : s.IsHttp)
    (hheaders : s.ioState ≠ STATE_SEND_HEADERS_COMPLETE)
    (hbody : s.ioState ≠ STATE_SEND_BODY_COMPLETE) : s.outFrames = [] := by
  by_contra hne
  exact (h.frameState hh hne).elim hheaders hbody

theorem FlowInv.isOpenSocket_of_stalled (h : FlowInv initial s)
    (hbody : s.ioState ≠ STATE_SEND_BODY_COMPLETE) (hs : s.stalledByFlowControl = true) :
    s.isActive = false ∨ s.IsOpenSocket := by
  rcases h.stalledAt hs with hd | hd | ⟨hk, -⟩
  · exact .inl hd
  · exact .inr hd
  · exact absurd hk hbody

theorem FlowInv.isActive_of_stalled (h : FlowInv initial s)
    (hbody : s.ioState ≠ STATE_SEND_BODY_COMPLETE) (hopen : s.ioState ≠ STATE_OPEN)
    (hs : s.stalledByFlowControl = true) : s.isActive = false :=
  (h.isOpenSocket_of_stalled hbody hs).resolve_right fun hd => hopen hd.2

theorem FlowInv.close (h : FlowInv initial s) (hloop : s.loop = none) : FlowInv initial s.close := by
  refine h.congr rfl rfl rfl (fun ha => by cases ha) (h.notResumed_of_loop_eq_none hloop)
    (fun ha => by cases ha) (fun hh => ?_) fun _ => .inl rfl
  obtain ⟨body, hbody⟩ := hh
  cases hbody

theorem FlowInv.sendRequest (h : FlowInv initial s) (hloop : s.loop = none)
    (hstate : s.ioState = STATE_NONE) (hasUploadData : Bool) :
    FlowInv initial (s.sendRequest hasUploadData) := by
  refine h.congr rfl rfl rfl id (h.notResumed_of_loop_eq_none hloop) (fun _ hl => by cases hl)
    (fun hh => ?_) fun hs => ?_
  · have hnil : (s.sendRequest hasUploadData).outFrames = [] :=
      h.outFrames_eq_nil hh (by simp [hstate]) (by simp [hstate])
    simp [hnil]
  · exact .inl (h.isActive_of_stalled (by simp [hstate]) (by simp [hstate]) hs)

theorem FlowInv.onWriteComplete (h : FlowInv initial s) (hloop : s.loop = none) {frame : OutFrame}
    {outFrames : List OutFrame} (hout : s.outFrames = frame :: outFrames) (bytes : ℕ) :
    FlowInv initial ({ s with outFrames := outFrames }.onWriteComplete bytes) := by
  have hframes : s.IsHttp → outFrames = [] := by
    intro hh
    have := h.oneFrame hh
    rw [hout, List.length_cons] at this
    exact List.eq_nil_of_length_eq_zero (by omega)
  have hat : s.stalledByFlowControl = true → s.isActive = false ∨ s.IsOpenSocket := by
    intro hs
    rcases h.stalledAt hs with hd | hd | ⟨-, -, hk, -⟩
    · exact .inl hd
    · exact .inr hd
    · rw [hout] at hk
      cases hk
  unfold SpdyStream.onWriteComplete
  split
  · rename_i hstate
    refine h.congr rfl rfl rfl id (h.notResumed_of_loop_eq_none hloop) (fun _ _ hk => ?_)
      (fun hh => ?_) fun hs => (hat hs).imp_right .inl
    · exact nomatch hstate.symm.trans hk
    · simp [hframes hh]
  · refine h.congr rfl rfl rfl id (h.notResumed_of_loop_eq_none hloop) (fun _ hl => by cases hl)
      (fun hh => ?_) fun hs => (hat hs).imp_right .inl
    have hnil : outFrames = [] := hframes hh
    simp [doLoop, hnil]

theorem FlowInv.frameWritten (h : FlowInv initial s) (hloop : s.loop = none) (synSize : ℕ) :
    FlowInv initial (s.frameWritten synSize) := by
  unfold SpdyStream.frameWritten
  split
  · exact h
  · rename_i hout
    exact h.onWriteComplete hloop hout _
  · rename_i hout
    exact h.onWriteComplete hloop hout _

theorem FlowInv.appendChunk (h : FlowInv initial s) (hloop : s.loop = none) (data : List UInt8)
    (isLastChunk : Bool) : FlowInv initial (s.appendChunk data isLastChunk) := by
  unfold SpdyStream.appendChunk
  split
  · rename_i body hbody
    have hhttp : s.IsHttp := ⟨_, hbody⟩
    dsimp only [SpdyStream.onChunkAvailable]
    split
    · rename_i hstate
      have hframes := h.outFrames_eq_nil hhttp (by simp [hstate]) (by simp [hstate])
      rw [SpdyStream.onWriteComplete, if_neg (by simp [hstate])]
      refine h.congr rfl rfl rfl id (h.notResumed_of_loop_eq_none hloop) (fun _ hl => by cases hl)
        (fun _ => by simp [doLoop, hframes]) fun hs => ?_
      exact .inl (h.isActive_of_stalled (by simp [hstate]) (by simp [hstate]) hs)
    · refine h.congr rfl rfl rfl id (h.notResumed_of_loop_eq_none hloop) h.waits
        (fun _ => ⟨h.loopQuiet hhttp, h.oneFrame hhttp, h.frameState hhttp⟩) fun hs => ?_
      rcases h.stalledAt hs with hd | ⟨hd, -⟩ | ⟨hk, hl, ho, body', hbody', hbuf⟩
      · exact .inl hd
      · rw [hbody] at hd
        cases hd
      · rw [hbody] at hbody'
        cases hbody'
        exact .inr (.inr ⟨hk, hl, ho, _, rfl, hbuf⟩)
  · exact h

theorem FlowInv.onResponseReceived (h : FlowInv initial s) (hloop : s.loop = none) :
    FlowInv initial s.onResponseReceived := by
  unfold SpdyStream.onResponseReceived
  split
  · rename_i hstate
    have hbody : s.ioState ≠ STATE_SEND_BODY_COMPLETE := by simp [hstate]
    refine h.congr rfl rfl rfl id (h.notResumed_of_loop_eq_none hloop) (fun _ _ hk => by cases hk)
      (fun hh => ?_) fun hs => .inl (h.isActive_of_stalled hbody (by simp [hstate]) hs)
    simp [h.outFrames_eq_nil hh (by simp [hstate]) hbody]
  · exact h.close hloop

/-! ### Writes -/

/-- **`WriteStreamData`**: without a window the stream waits; otherwise as much is queued as the
window and the size of a frame allow. -/
theorem exists_writeStreamData (s : SpdyStream) (data : List UInt8) (fin : Bool) :
    (s.sendWindowSize ≤ 0 ∧ s.writeStreamData data fin =
      { s with stalledByFlowControl := true, log := s.log ++ [.stalled] }) ∨
    (0 < s.sendWindowSize ∧ ∃ payload fin', (payload.length : ℤ) ≤ s.sendWindowSize ∧
      (data ≠ [] → payload ≠ []) ∧ s.writeStreamData data fin = { s with
          sendWindowSize := s.sendWindowSize - payload.length
          outFrames := s.outFrames ++ [OutFrame.data payload fin']
          log := s.log ++ [.queued payload (s.sendWindowSize - payload.length)] }) := by
  dsimp only [writeStreamData]
  by_cases hwindow : s.sendWindowSize ≤ 0
  · exact .inl ⟨hwindow, if_pos hwindow⟩
  · rw [if_neg hwindow]
    generalize hlen : min (min data.length kMaxSpdyFrameChunkSize) s.sendWindowSize.toNat = newLen
    have hpayload : (data.take newLen).length = newLen := by
      rw [List.length_take]
      omega
    refine .inr ⟨by omega, data.take newLen, fin && newLen = data.length, by omega, fun hne hnil => ?_, ?_⟩
    · have hpos : 0 < data.length := List.length_pos_iff.2 hne
      have hmax : 0 < kMaxSpdyFrameChunkSize := by decide
      rw [hnil, List.length_nil] at hpayload
      omega
    · rw [hpayload]
      rfl

theorem HasBuffer.isHttp (h : s.HasBuffer) : s.IsHttp := by
  obtain ⟨body, hbody, -⟩ := h
  exact ⟨_, hbody⟩

/-- **A write**: an upload writes its buffer, in `STATE_SEND_BODY_COMPLETE` and with no frame to be
written. -/
theorem FlowInv.write (h : FlowInv initial s) (hstate : s.ioState ≠ STATE_SEND_BODY_COMPLETE)
    (ioState : State) (data : List UInt8) (fin : Bool)
    (hhttp : s.IsHttp → ioState = STATE_SEND_BODY_COMPLETE ∧ s.outFrames = [] ∧ data ≠ [] ∧ s.HasBuffer)
    (hsocket : ¬ s.IsHttp → s.delegate = some .socket ∧ ioState = STATE_OPEN) :
    FlowInv initial
      { { s with ioState := ioState }.writeStreamData data fin with loop := none } := by
  rcases exists_writeStreamData { s with ioState := ioState } data fin with
    ⟨hwindow, heq⟩ | ⟨hwindow, payload, fin', hle, hpayload, heq⟩
  · -- the stream waits
    rw [heq]
    exact {
      window := fun ha => by simpa [receivedTotal, queuedTotal] using h.window ha
      nonneg := fun payload w hw => h.nonneg payload w (by simpa using hw)
      resumed := h.resumed.concat (fun w hw => by cases hw) fun w hw =>
        absurd (h.justResumed w hw).2.2.1 (not_lt.2 hwindow)
      stalled := fun _ _ => hwindow
      waits := fun _ _ _ => .inr rfl
      window_nonneg := h.window_nonneg
      window_lt := h.window_lt
      loopQuiet := fun _ hl => absurd rfl hl
      oneFrame := h.oneFrame
      frameState := fun hh hne => absurd (hhttp hh).2.1 hne
      stalledAt := fun _ => by
        by_cases hh : s.IsHttp
        · obtain ⟨hk, hframes, -, hbuf⟩ := hhttp hh
          exact .inr (.inr ⟨hk, rfl, hframes, hbuf⟩)
        · exact .inr (.inl (hsocket hh))
      justResumed := fun w hw => by simp at hw }
  · -- a frame is queued
    rw [heq]
    exact {
      window := fun ha => by
        have hold := h.window ha
        simp only [receivedTotal_append, queuedTotal_append]
        simp only [receivedTotal, queuedTotal, List.map_cons, List.map_nil, List.sum_cons, List.sum_nil] at hold ⊢
        omega
      nonneg := fun payload' w hw => by
        rcases List.mem_append.1 hw with hw | hw
        · exact h.nonneg payload' w hw
        · cases List.mem_singleton.1 hw
          exact Int.sub_nonneg.2 hle
      resumed := h.resumed.concat (fun w hw => by cases hw) fun w hw =>
        ⟨payload, _, rfl, hpayload (hhttp (h.justResumed w hw).2.2.2.isHttp).2.2.1⟩
      stalled := fun ha hs => absurd (h.stalled ha hs) (not_le.2 hwindow)
      waits := fun _ _ _ => .inl (by simp)
      window_nonneg := Int.sub_nonneg.2 hle
      window_lt := by
        have := h.window_lt
        show s.sendWindowSize - payload.length < _
        omega
      loopQuiet := fun _ hl => absurd rfl hl
      oneFrame := fun hh => by simp [(hhttp hh).2.1]
      frameState := fun hh _ => .inr (hhttp hh).1
      stalledAt := fun hs => by
        refine (h.isOpenSocket_of_stalled hstate hs).imp_right fun hd => .inl ?_
        refine hsocket fun ⟨body, hbody⟩ => ?_
        rw [hd.1] at hbody
        cases hbody
      justResumed := fun w hw => by simp at hw }

/-! ### Turns of the loop -/

theorem FlowInv.turn_quiet (h : FlowInv initial s) (hloop : s.loop ≠ none)
    (hlast : ∀ w, s.log.getLast? ≠ some (.resumed w)) {ioState : State}
    {delegate : Option Delegate} {loop : Option ℤ}
    (hopen : s.ioState = STATE_OPEN → ioState = STATE_OPEN)
    (hwaits : loop = none → ioState ≠ STATE_SEND_BODY_COMPLETE)
    (hdelegate : delegate = s.delegate ∨ s.IsHttp ∧ ∃ body, delegate = some (.http body)) :
    FlowInv initial { s with ioState := ioState, delegate := delegate, loop := loop } := by
  refine h.congr rfl rfl rfl id hlast (fun _ hl hk => absurd hk (hwaits hl)) (fun hh => ?_)
    fun hs => ?_
  · have hframes : s.outFrames = [] := by
      refine h.loopQuiet ?_ hloop
      rcases hdelegate with hd | ⟨hd, -⟩
      · obtain ⟨body, hbody⟩ := hh
        exact ⟨body, hd.symm.trans hbody⟩
      · exact hd
    simp [hframes]
  · rcases h.stalledAt hs with hd | ⟨hd, hk⟩ | ⟨-, hl, -⟩
    · exact .inl hd
    · rcases hdelegate with hd' | ⟨⟨body, hbody⟩, -⟩
      · exact .inr (.inl ⟨hd'.trans hd, hopen hk⟩)
      · rw [hd] at hbody
        cases hbody
    · exact absurd hl hloop

theorem FlowInv.turn_sendHeaders (h : FlowInv initial s) (hloop : s.loop ≠ none)
    (hstate : s.ioState = STATE_SEND_HEADERS) (result : ℤ) : FlowInv initial (s.turn result) := by
  have hlast := h.notResumed_of_ne (by simp [hstate])
  simp only [turn, doState, hstate, doSendHeaders]
  split
  · refine h.congr rfl rfl rfl id hlast (fun _ _ hk => by cases hk) (fun hh => ?_) fun hs => ?_
    · have hframes := h.loopQuiet hh hloop
      simp [hframes, ERR_IO_PENDING]
    · exact .inl (h.isActive_of_stalled (by simp [hstate]) (by simp [hstate]) hs)
  · exact h.turn_quiet hloop hlast (by simp [hstate]) (fun _ => by simp) (.inl rfl)

theorem FlowInv.turn_sendHeadersComplete (h : FlowInv initial s) (hloop : s.loop ≠ none)
    (hstate : s.ioState = STATE_SEND_HEADERS_COMPLETE) (result : ℤ) :
    FlowInv initial (s.turn result) := by
  have hlast := h.notResumed_of_ne (by simp [hstate])
  simp only [turn, doState, hstate, doSendHeadersComplete]
  split
  · exact h.turn_quiet hloop hlast (by simp [hstate]) (fun _ => by simp) (.inl rfl)
  · split <;> exact h.turn_quiet hloop hlast (by simp [hstate]) (fun _ => by simp) (.inl rfl)

theorem FlowInv.turn_sendBody (h : FlowInv initial s) (hloop : s.loop ≠ none)
    (hstate : s.ioState = STATE_SEND_BODY) (result : ℤ) : FlowInv initial (s.turn result) := by
  simp only [turn, doState, hstate, doSendBody]
  split
  · rename_i body hbody
    unfold onSendBody
    split
    · -- no data yet: the loop goes on
      rename_i hbuf
      refine h.turn_quiet hloop (fun w hw => ?_) (by simp [hstate])
        (fun hl => by simp [OK, ERR_IO_PENDING] at hl) (.inl rfl)
      obtain ⟨body', hbody', hne⟩ := (h.justResumed w hw).2.2.2
      rw [hbody] at hbody'
      cases hbody'
      exact hne hbuf
    · rename_i hbuf
      have hwrite := h.write (by simp [hstate]) STATE_SEND_BODY_COMPLETE body.buf
        (!body.isChunked || body.isOnLastChunk)
        (fun hh => ⟨rfl, h.loopQuiet hh hloop, hbuf, body, hbody, hbuf⟩)
        fun hh => absurd ⟨_, hbody⟩ hh
      simpa using hwrite
  · rename_i hnot
    refine h.turn_quiet hloop (fun w hw => ?_) (by simp [hstate])
      (fun hl => by simp [ERR_UNEXPECTED, ERR_IO_PENDING] at hl) (.inl rfl)
    obtain ⟨body, hbody, -⟩ := (h.justResumed w hw).2.2.2
    exact hnot body hbody

theorem FlowInv.turn_sendBodyComplete (h : FlowInv initial s) (hloop : s.loop ≠ none)
    (hstate : s.ioState = STATE_SEND_BODY_COMPLETE) (result : ℤ) :
    FlowInv initial (s.turn result) := by
  have hlast := h.notResumed_of_ne (by simp [hstate])
  simp only [turn, doState, hstate, doSendBodyComplete]
  split
  · exact h.turn_quiet hloop hlast (by simp [hstate]) (fun _ => by simp) (.inl rfl)
  · split
    · rename_i body hbody
      refine h.turn_quiet hloop hlast (by simp [hstate]) (fun _ => ?_) (.inr ⟨⟨_, hbody⟩, _, rfl⟩)
      split <;> simp
    · exact h.turn_quiet hloop hlast (by simp [hstate]) (fun _ => by simp) (.inl rfl)

theorem FlowInv.turn (h : FlowInv initial s) (hloop : s.loop ≠ none) (result : ℤ) :
    FlowInv initial (s.turn result) := by
  cases hstate : s.ioState with
  | STATE_SEND_HEADERS => exact h.turn_sendHeaders hloop hstate result
  | STATE_SEND_HEADERS_COMPLETE => exact h.turn_sendHeadersComplete hloop hstate result
  | STATE_SEND_BODY => exact h.turn_sendBody hloop hstate result
  | STATE_SEND_BODY_COMPLETE => exact h.turn_sendBodyComplete hloop hstate result
  | STATE_WAITING_FOR_RESPONSE | STATE_OPEN | STATE_DONE | STATE_NONE =>
    have hlast := h.notResumed_of_ne (by simp [hstate])
    simp only [SpdyStream.turn, doState, hstate]
    exact h.turn_quiet hloop hlast (by simp [hstate]) (fun _ => by simp) (.inl rfl)

/-! ### Window updates -/

theorem isSending_of_sendBodyComplete (hstate : s.ioState = STATE_SEND_BODY_COMPLETE) : s.IsSending := by
  rw [IsSending, hstate]
  trivial

theorem toInt32_window {window delta : ℤ} (hwindow : 0 ≤ window) (hlt : window < 2147483648)
    (hdelta : 1 ≤ delta) (hdelta' : delta < 2147483648)
    (hover : ¬ (0 < window ∧ toInt32 (window + delta) < 0)) :
    toInt32 (window + delta) = window + delta ∧ window + delta < 2147483648 := by
  unfold toInt32 at hover ⊢
  omega

theorem FlowInv.credit (h : FlowInv initial s) (hactive : s.isActive = true)
    (hloop : s.loop = none) (hstate : s.ioState = STATE_SEND_BODY_COMPLETE) {delta : ℤ}
    (hdelta : 1 ≤ delta) (hdelta' : delta < 2147483648) :
    FlowInv initial ((s.record (.received delta)).increaseSendWindowSize delta) := by
  have hnot := h.notResumed_of_loop_eq_none hloop
  have hwindow := h.window hactive
  simp only [increaseSendWindowSize, record, hstate, not_true, ne_eq, if_false]
  split
  · exact {
      window := fun ha => by cases ha
      nonneg := fun payload w hw => h.nonneg payload w (by simpa [SpdyStream.close] using hw)
      resumed := h.resumed.concat (fun w hw => by cases hw) fun w hw => absurd hw (hnot w)
      stalled := fun ha => by cases ha
      waits := fun ha => by cases ha
      window_nonneg := h.window_nonneg
      window_lt := h.window_lt
      loopQuiet := fun ⟨body, hbody⟩ => by cases hbody
      oneFrame := fun ⟨body, hbody⟩ => by cases hbody
      frameState := fun ⟨body, hbody⟩ => by cases hbody
      stalledAt := fun _ => .inl rfl
      justResumed := fun w hw => by simp [SpdyStream.close] at hw }
  · rename_i hover
    obtain ⟨hnew, hlt⟩ := toInt32_window h.window_nonneg h.window_lt hdelta hdelta' hover
    rw [hnew]
    split
    · -- the stream goes on
      rename_i hstalled
      obtain ⟨hframes, hbuf⟩ : s.outFrames = [] ∧ s.HasBuffer := by
        rcases h.stalledAt hstalled with hd | ⟨-, hk⟩ | ⟨-, -, hframes, hbuf⟩
        · rw [hactive] at hd
          cases hd
        · rw [hstate] at hk
          cases hk
        · exact ⟨hframes, hbuf⟩
      exact {
        window := fun _ => by
          simp [doLoop, receivedTotal, queuedTotal] at hwindow ⊢
          omega
        nonneg := fun payload w hw => h.nonneg payload w (by simpa [doLoop] using hw)
        resumed := by
          have hreceived : Resumes (s.log ++ [.received delta]) none :=
            h.resumed.concat (fun w hw => by cases hw) fun w hw => absurd hw (hnot w)
          refine hreceived.concat (fun w hw => ?_) fun w hw => by simp at hw
          cases hw
          have := h.window_nonneg
          exact ⟨by omega, by simp [doLoop]⟩
        stalled := fun _ hs => by cases hs
        waits := fun _ hl => by cases hl
        window_nonneg := by
          have := h.window_nonneg
          show 0 ≤ s.sendWindowSize + delta
          omega
        window_lt := hlt
        loopQuiet := fun _ _ => hframes
        oneFrame := fun _ => by simp [doLoop, hframes]
        frameState := fun _ hne => absurd hframes hne
        stalledAt := fun hs => by cases hs
        justResumed := fun w hw => by
          have := h.window_nonneg
          refine ⟨by simp [doLoop], rfl, ?_, hbuf⟩
          show 0 < s.sendWindowSize + delta
          omega }
    · rename_i hstalled
      exact {
        window := fun _ => by
          simp [receivedTotal, queuedTotal] at hwindow ⊢
          omega
        nonneg := fun payload w hw => h.nonneg payload w (by simpa using hw)
        resumed := h.resumed.concat (fun w hw => by cases hw) fun w hw => absurd hw (hnot w)
        stalled := fun _ hs => absurd hs hstalled
        waits := fun ha hl _ => h.waits ha hl hstate
        window_nonneg := by
          have := h.window_nonneg
          show 0 ≤ s.sendWindowSize + delta
          omega
        window_lt := hlt
        loopQuiet := h.loopQuiet
        oneFrame := h.oneFrame
        frameState := fun _ _ => .inr rfl
        stalledAt := fun hs => absurd hs hstalled
        justResumed := fun w hw => by simp at hw }

/-- **A window update that meets the condition**; one that comes when the stream does not send is
ignored. -/
theorem FlowInv.onWindowUpdate (h : FlowInv initial s) (hloop : s.loop = none) {delta : UInt32}
    (hmet : Meets s (.onWindowUpdate delta)) : FlowInv initial (s.onWindowUpdate delta) := by
  dsimp only [SpdyStream.onWindowUpdate]
  split
  · exact h
  · rename_i hactive
    have hactive' : s.isActive = true := by simpa using hactive
    split
    · exact h.close hloop
    · rename_i hdelta
      have hdelta' : 1 ≤ int32OfUInt32 delta := by omega
      split
      · rename_i hsending
        exact h.credit hactive' hloop (hmet hactive' hdelta' hsending) hdelta' (toInt32_lt _)
      · rename_i hsending
        have hstate : s.ioState ≠ STATE_SEND_BODY_COMPLETE := fun hk =>
          hsending (isSending_of_sendBodyComplete hk)
        rw [increaseSendWindowSize, if_pos hstate]
        exact h

/-! ### Runs -/

theorem FlowInv.step (h : FlowInv initial s) {e : Event} (hmet : Meets s e)
    (hstep : s.step e = some s') : FlowInv initial s' := by
  cases e with
  | turn =>
    obtain ⟨result, hloop, rfl⟩ := Option.map_eq_some_iff.1 hstep
    exact h.turn (by simp [hloop]) result
  | sendRequest hasUploadData =>
    obtain ⟨⟨hloop, hstate⟩, rfl⟩ := ite_some_none_eq_some.1 hstep
    exact h.sendRequest hloop hstate hasUploadData
  | frameWritten synSize =>
    obtain ⟨hloop, rfl⟩ := ite_some_none_eq_some.1 hstep
    exact h.frameWritten hloop synSize
  | appendChunk data isLastChunk =>
    obtain ⟨hloop, rfl⟩ := ite_some_none_eq_some.1 hstep
    exact h.appendChunk hloop data isLastChunk
  | onWindowUpdate delta =>
    obtain ⟨hloop, rfl⟩ := ite_some_none_eq_some.1 hstep
    exact h.onWindowUpdate hloop hmet
  | writeStreamData data fin =>
    obtain ⟨⟨hloop, hstate, hsocket⟩, rfl⟩ := ite_some_none_eq_some.1 hstep
    have hwrite := h.write (by simp [hstate]) STATE_OPEN data fin
      (fun ⟨body, hbody⟩ => by simp [hsocket] at hbody) fun _ => ⟨hsocket, rfl⟩
    have heq : { { s with ioState := STATE_OPEN }.writeStreamData data fin with loop := none } =
        s.writeStreamData data fin := by
      have hopen : { s with ioState := STATE_OPEN } = s := by rw [← hstate]
      rw [hopen]
      rcases exists_writeStreamData s data fin with ⟨-, heq⟩ | ⟨-, payload, fin', -, -, heq⟩
      · rw [heq, hloop]
      · rw [heq, hloop]
    exact heq ▸ hwrite
  | onResponseReceived =>
    obtain ⟨hloop, rfl⟩ := ite_some_none_eq_some.1 hstep
    exact h.onResponseReceived hloop
  | close =>
    obtain ⟨hloop, rfl⟩ := ite_some_none_eq_some.1 hstep
    exact h.close hloop

theorem FlowOk.not_of_step (h : FlowOk initial s) {e : Event} (hmet : ¬ Meets s e)
    (hstep : s.step e = some s') : ¬ FlowOk initial s' := by
  cases e with
  | onWindowUpdate delta =>
    obtain ⟨-, rfl⟩ := ite_some_none_eq_some.1 hstep
    simp only [Meets, not_forall] at hmet
    obtain ⟨hactive, hdelta, hsending, hstate⟩ := hmet
    have hlost : s.onWindowUpdate delta = s.record (.received (int32OfUInt32 delta)) := by
      dsimp only [onWindowUpdate]
      rw [if_neg (by simp [hactive]), if_neg (by omega), if_pos hsending]
      exact if_pos hstate
    rw [hlost]
    intro hok
    have hbefore := h.window hactive
    have hafter := hok.window hactive
    simp [record, receivedTotal, queuedTotal] at hbefore hafter
    omega
  | _ => exact absurd trivial hmet

/-- **The window is kept exactly where the window updates of a stream that sends come in
`STATE_SEND_BODY_COMPLETE`.** -/
theorem flowOk_of_run (initial : Fin (2 ^ 31)) :
    (∀ tr s, ((flowSystem initial).restrict Meets).Run tr s → FlowOk initial s) ∧
      ∀ s e s', FlowOk initial s → (flowSystem initial).step s e s' → ¬ Meets s e →
        ¬ FlowOk initial s' := by
  refine ⟨fun tr s h => ?_, fun s e s' hok hstep hmet => hok.not_of_step hmet hstep⟩
  have hinv : FlowInv initial s := by
    refine h.invariant (I := FlowInv initial) ?_ ?_
    · rintro s ⟨delegate, rfl⟩
      exact flowInv_new initial delegate
    · rintro s e s' hs ⟨hmet, hstep⟩
      exact hs.step hmet hstep
  exact hinv.toFlowOk

theorem run_step_restrict {tr : List Event} {e : Event}
    (h : ((flowSystem initial).restrict Meets).Run tr s) (hstep : s.step e = some s')
    (hmet : Meets s e) : ((flowSystem initial).restrict Meets).Run (tr ++ [e]) s' :=
  .step h ⟨hmet, hstep⟩

def threeBytes : SpdyStream :=
  new 2 (.http (some
    { elements := [.bytes [1, 2, 3]], isChunked := false, buf := [1, 2, 3], nextElement := 1,
      nextElementOffset := 0, eof := false }))

/-- With a window of two bytes it waits for the window, and goes on.  A window update that comes
before the `SYN_STREAM` is written is lost. -/
theorem flowOk_of_run_threeBytes : (∃ tr s, ((flowSystem 2).restrict Meets).Run tr s ∧
        s.log = [.queued [1, 2] 0, .stalled, .received 5, .resumed 5, .queued [3] 4] ∧
        FlowOk 2 s) ∧
      ∃ s s', (flowSystem 2).step s (.onWindowUpdate 5) s' ∧ ¬ FlowOk 2 s' := by
  have h0 : ((flowSystem 2).restrict Meets).Run [] threeBytes := .init ⟨_, rfl⟩
  have h1 := run_step_restrict (e := .sendRequest true) h0 rfl trivial
  have h2 := run_step_restrict (e := .turn) h1 rfl trivial
  constructor
  · have h3 := run_step_restrict (e := .frameWritten 10) h2 rfl trivial
    have h4 := run_step_restrict (e := .turn) h3 rfl trivial
    have h5 := run_step_restrict (e := .turn) h4 rfl trivial
    have h6 := run_step_restrict (e := .frameWritten 0) h5 rfl trivial
    have h7 := run_step_restrict (e := .turn) h6 rfl trivial
    have h8 := run_step_restrict (e := .turn) h7 rfl trivial
    have h9 := run_step_restrict (e := .onWindowUpdate 5) h8 rfl fun _ _ _ => rfl
    have h10 := run_step_restrict (e := .turn) h9 rfl trivial
    exact ⟨_, _, h10, by decide +kernel, (flowOk_of_run 2).1 _ _ h10⟩
  · have hstep : (flowSystem 2).step ((threeBytes.sendRequest true).turn OK) (.onWindowUpdate 5)
        (((threeBytes.sendRequest true).turn OK).onWindowUpdate 5) :=
      (rfl : SpdyStream.step _ (.onWindowUpdate 5) = some _)
    refine ⟨_, _, hstep, (flowOk_of_run 2).2 _ _ _ ((flowOk_of_run 2).1 _ _ h2) hstep ?_⟩
    intro hmet
    exact absurd (hmet rfl (by decide) trivial) (by decide)

/-- **A window update that comes while an upload waits for its first chunk** is lost. -/
theorem not_flowOk_waitingForChunk : ¬ ∀ tr s, (flowSystem 65536).Run tr s → FlowOk 65536 s := by
  intro hall
  have run_step : ∀ {tr : List Event} {e : Event} {s s' : SpdyStream},
      (flowSystem 65536).Run tr s → s.step e = some s' → (flowSystem 65536).Run (tr ++ [e]) s' :=
    fun h hstep => .step h hstep
  have h0 : (flowSystem 65536).Run [] (new 65536 (.http (some .newChunked))) := .init ⟨_, rfl⟩
  have h1 := run_step (e := .sendRequest true) h0 rfl
  have h2 := run_step (e := .turn) h1 rfl
  have h3 := run_step (e := .frameWritten 10) h2 rfl
  have h4 := run_step (e := .turn) h3 rfl
  have h5 := run_step (e := .turn) h4 rfl
  have h6 := run_step (e := .turn) h5 rfl
  have h7 := run_step (e := .onWindowUpdate 100) h6 rfl
  exact absurd ((hall _ _ h7).window rfl) (by decide +kernel)

end SpdyStream

end Chromium.Net.Spdy
