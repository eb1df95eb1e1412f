import Chromium.Net.Spdy.SpdySessionWrite

/-!
# A stream that sends, with its frames on their way

An upload has one frame on its way at most, and its state says which (`OutOk`).  A stream is closed, or it goes
on sending (`Sending`): this is kept by every step of it (`Sending.step`, `Sending.turn`), and when it is told that
its frame was written, what it is to hand on are the bytes of a `DATA` frame (`Sending.complete`).
-/

namespace Chromium.Net.Spdy

open Lib State SpdyControlType
open List (append_nil map_nil subperm_nil)
open Option (ite_some_none_eq_some)

/-- What an `OutFrame` is in the queue. -/
def OutFrame.frameType : OutFrame → FrameType
  | .syn _ => .control SYN_STREAM
  | .data _ _ => .data

def OutOk (ioState : State) (loop : Option ℤ) (out : List FrameType) : Prop :=
  match ioState, loop with
  | STATE_SEND_HEADERS_COMPLETE, none => out = [] ∨ out = [.control SYN_STREAM]
  | STATE_SEND_BODY_COMPLETE, none => out = [] ∨ out = [.data]
  | STATE_OPEN, _ => ∀ t ∈ out, t = .data
  | _, _ => out = []

/-- The bytes that the running `DoLoop` is to hand to the delegate. -/
def pendingBytes (s : SpdyStream) : ℕ :=
  match s.loop, s.ioState with
  | some result, STATE_SEND_BODY_COMPLETE => result.toNat
  | some result, STATE_OPEN => result.toNat
  | _, _ => 0

/-- A stream that is not closed, with its frames that are on their way. -/
structure Sending (s : SpdyStream) (out : List FrameType) : Prop where
  delegate : s.delegate.isSome = true
  active : s.isActive = true
  notDone : s.ioState ≠ STATE_DONE
  outOk : OutOk s.ioState s.loop out
  stalled : s.stalledByFlowControl = true →
    s.ioState = STATE_OPEN ∨ s.ioState = STATE_SEND_BODY_COMPLETE ∧ s.loop = none ∧ out = []

structure Closed (s : SpdyStream) : Prop where
  done : s.ioState = STATE_DONE
  inactive : s.isActive = false
  noLoop : s.loop = none
  noDelegate : s.delegate = none

variable {s s' : SpdyStream} {out : List FrameType}

namespace Sending

theorem writeStreamData_cases (s : SpdyStream) (data : List UInt8) (fin : Bool) :
    (s.writeStreamData data fin).outFrames = s.outFrames ∧ (s.writeStreamData data fin).stalledByFlowControl = true ∨
      (∃ payload fin', (s.writeStreamData data fin).outFrames = s.outFrames ++ [.data payload fin']) ∧
        (s.writeStreamData data fin).stalledByFlowControl = s.stalledByFlowControl := by
  dsimp only [SpdyStream.writeStreamData]
  split
  · exact .inl ⟨rfl, rfl⟩
  · exact .inr ⟨⟨_, _, rfl⟩, rfl⟩

theorem writeStreamData_same (s : SpdyStream) (data : List UInt8) (fin : Bool) :
    (s.writeStreamData data fin).ioState = s.ioState ∧ (s.writeStreamData data fin).delegate = s.delegate ∧
      (s.writeStreamData data fin).isActive = s.isActive ∧ (s.writeStreamData data fin).loop = s.loop := by
  dsimp only [SpdyStream.writeStreamData]
  split <;> exact ⟨rfl, rfl, rfl, rfl⟩

theorem of_nil (hdelegate : s.delegate.isSome = true) (hactive : s.isActive = true)
    (hdone : s.ioState ≠ STATE_DONE) (hstalled : s.stalledByFlowControl = false) : Sending s [] := by
  refine ⟨hdelegate, hactive, hdone, ?_, fun hs => absurd hs (by rw [hstalled]; decide)⟩
  unfold OutOk
  split
  · exact .inl rfl
  · exact .inl rfl
  · exact fun t ht => (nomatch ht)
  · rfl

/-- **A turn of `DoLoop`.** -/
theorem turn {result : ℤ} (h : Sending s out) (hout : s.outFrames = []) (hloop : s.loop = some result) :
    Sending { s.turn result with outFrames := [] } ((s.turn result).outFrames.map OutFrame.frameType ++ out) ∧
      pendingBytes (s.turn result) = 0 ∧
      (WriterSession.bytesSent s result).getD 0 = pendingBytes s := by
  have hok := h.outOk
  have hdelegate := h.delegate
  have hstalled : s.ioState ≠ STATE_OPEN → s.stalledByFlowControl = false := by
    intro hopen
    by_contra hs
    rcases h.stalled (by simpa using hs) with hopen' | ⟨-, hnone, -⟩
    · exact hopen hopen'
    · rw [hloop] at hnone
      cases hnone
  rw [hloop] at hok
  cases hstate : s.ioState with
  | STATE_NONE | STATE_WAITING_FOR_RESPONSE =>
    rw [hstate] at hok
    obtain rfl : out = [] := hok
    have hturn : s.turn result = { s with loop := none } := by
      simp only [SpdyStream.turn, SpdyStream.doState, hstate]
      simp
    rw [hturn]
    refine ⟨?_, ?_, ?_⟩
    · simp only [hout, map_nil, append_nil]
      exact of_nil hdelegate h.active (by simp [hstate]) (hstalled (by simp [hstate]))
    · simp [pendingBytes]
    · simp [WriterSession.bytesSent, pendingBytes, hstate, hloop]
  | STATE_SEND_HEADERS =>
    rw [hstate] at hok
    obtain rfl : out = [] := hok
    have hturn : s.turn result = { s with
        outFrames := [.syn !s.hasUploadData]
        ioState := STATE_SEND_HEADERS_COMPLETE
        loop := none } := by
      simp only [SpdyStream.turn, SpdyStream.doState, hstate, SpdyStream.doSendHeaders, h.active, hout]
      simp
    rw [hturn]
    refine ⟨⟨hdelegate, h.active, by simp, .inr rfl, fun hs => ?_⟩, ?_, ?_⟩
    · exact absurd hs (by simp [hstalled, hstate])
    · simp [pendingBytes]
    · simp [WriterSession.bytesSent, pendingBytes, hstate, hloop]
  | STATE_SEND_HEADERS_COMPLETE =>
    rw [hstate] at hok
    obtain rfl : out = [] := hok
    have hturn : ∃ ioState loop, ioState ≠ STATE_DONE ∧ ioState ≠ STATE_SEND_BODY_COMPLETE ∧
        ioState ≠ STATE_OPEN ∧ s.turn result = { s with ioState := ioState, loop := loop } := by
      simp only [SpdyStream.turn, SpdyStream.doState, hstate, SpdyStream.doSendHeadersComplete]
      split
      · exact ⟨_, _, by simp, by simp, by simp, rfl⟩
      · split <;> exact ⟨_, _, by simp, by simp, by simp, rfl⟩
    obtain ⟨ioState, loop, hdone, hbody, hopen, hturn⟩ := hturn
    rw [hturn]
    refine ⟨?_, ?_, ?_⟩
    · simp only [hout, map_nil, append_nil]
      exact of_nil hdelegate h.active hdone (hstalled (by simp [hstate]))
    · simp [pendingBytes, hbody, hopen]
    · simp [WriterSession.bytesSent, pendingBytes, hstate, hloop]
  | STATE_SEND_BODY =>
    rw [hstate] at hok
    obtain rfl : out = [] := hok
    have hquiet : s.stalledByFlowControl = false := hstalled (by simp [hstate])
    have hturn : (∃ loop, loop ≠ none ∧ (loop = some OK ∨ loop = some ERR_UNEXPECTED) ∧
          s.turn result = { s with ioState := STATE_SEND_BODY_COMPLETE, loop := loop }) ∨
        ∃ data fin, s.turn result =
          { SpdyStream.writeStreamData { s with ioState := STATE_SEND_BODY_COMPLETE } data fin with
            loop := none } := by
      simp only [SpdyStream.turn, SpdyStream.doState, hstate, SpdyStream.doSendBody]
      split
      · rename_i body hbody
        unfold SpdyStream.onSendBody
        split
        · exact .inl ⟨_, by simp [OK, ERR_IO_PENDING], .inl (by simp [OK, ERR_IO_PENDING]), rfl⟩
        · exact .inr ⟨body.buf, !body.isChunked || body.isOnLastChunk, by simp [ERR_IO_PENDING]⟩
      · exact .inl ⟨_, by simp [ERR_UNEXPECTED, ERR_IO_PENDING], .inr (by simp [ERR_UNEXPECTED, ERR_IO_PENDING]), rfl⟩
    have hsent : (WriterSession.bytesSent s result).getD 0 = pendingBytes s := by
      simp [WriterSession.bytesSent, pendingBytes, hstate, hloop]
    rcases hturn with ⟨loop, hloop', hresult, hturn⟩ | ⟨data, fin, hturn⟩
    · rw [hturn]
      refine ⟨?_, ?_, hsent⟩
      · simp only [hout, map_nil, append_nil]
        exact of_nil hdelegate h.active (by simp) hquiet
      · rcases hresult with rfl | rfl <;> rfl
    · obtain ⟨hioState, hdelegate', hactive, -⟩ :=
        writeStreamData_same { s with ioState := STATE_SEND_BODY_COMPLETE } data fin
      rw [hturn]
      refine ⟨⟨?_, ?_, ?_, ?_, fun hs => ?_⟩, by simp [pendingBytes], hsent⟩
      · exact hdelegate'.symm ▸ hdelegate
      · exact hactive.trans h.active
      · simp [hioState]
      · dsimp only
        rw [hioState]
        rcases writeStreamData_cases { s with ioState := STATE_SEND_BODY_COMPLETE } data fin with
          ⟨hframes, -⟩ | ⟨⟨payload, fin', hframes⟩, -⟩
        all_goals rw [hframes, hout]
        · exact .inl rfl
        · exact .inr rfl
      · rcases writeStreamData_cases { s with ioState := STATE_SEND_BODY_COMPLETE } data fin with
          ⟨hframes, -⟩ | ⟨-, hsame⟩
        · refine .inr ⟨hioState, rfl, ?_⟩
          rw [hframes, hout]
          rfl
        · exact absurd (hsame.symm.trans hs) (by simp [hquiet])
  | STATE_SEND_BODY_COMPLETE =>
    rw [hstate] at hok
    obtain rfl : out = [] := hok
    have hturn : ∃ ioState delegate loop, ioState ≠ STATE_DONE ∧ ioState ≠ STATE_SEND_BODY_COMPLETE ∧
        ioState ≠ STATE_OPEN ∧ delegate.isSome = true ∧ s.turn result = { s with ioState := ioState, delegate := delegate, loop := loop } := by
      simp only [SpdyStream.turn, SpdyStream.doState, hstate, SpdyStream.doSendBodyComplete]
      split
      · exact ⟨_, _, _, by simp, by simp, by simp, hdelegate, rfl⟩
      · split
        · refine ⟨_, _, _, ?_, ?_, ?_, ?_, rfl⟩ <;> split <;> simp
        · exact ⟨_, _, _, by simp, by simp, by simp, hdelegate, rfl⟩
    obtain ⟨ioState, delegate, loop, hdone, hbody, hopen, hdelegate', hturn⟩ := hturn
    rw [hturn]
    refine ⟨?_, ?_, ?_⟩
    · simp only [hout, map_nil, append_nil]
      exact of_nil hdelegate' h.active hdone (hstalled (by simp [hstate]))
    · simp [pendingBytes, hbody, hopen]
    · simp only [WriterSession.bytesSent, pendingBytes, hstate, hloop, hdelegate, and_true]
      split
      · rfl
      · simp only [Option.getD_none]
        omega
  | STATE_OPEN =>
    rw [hstate] at hok
    have hturn : s.turn result = { s with loop := none } := by
      simp only [SpdyStream.turn, SpdyStream.doState, hstate]
      simp
    rw [hturn]
    refine ⟨⟨hdelegate, h.active, by simp [hstate], ?_, fun _ => .inl hstate⟩, ?_, ?_⟩
    · simp only [hout, hstate, map_nil, List.nil_append]
      exact hok
    · simp [pendingBytes]
    · simp [WriterSession.bytesSent, pendingBytes, hstate, hloop, hdelegate]
  | STATE_DONE => exact absurd hstate h.notDone

theorem pendingBytes_of_loop_eq_none (h : s.loop = none) : pendingBytes s = 0 := by
  rw [pendingBytes, h]

def After (s : SpdyStream) (out : List FrameType) : Prop :=
  Closed { s with outFrames := [] } ∨
    Sending { s with outFrames := [] } (s.outFrames.map OutFrame.frameType ++ out) ∧ pendingBytes s = 0

theorem after_close (s : SpdyStream) (hloop : s.loop = none) : After s.close out := .inl ⟨rfl, rfl, hloop, rfl⟩

theorem congr (h : Sending s out) (hioState : s'.ioState = s.ioState) (hloop : s'.loop = s.loop)
    (hdelegate : s'.delegate.isSome = true) (hactive : s'.isActive = s.isActive)
    (hstalled : s'.stalledByFlowControl = s.stalledByFlowControl) : Sending s' out := by
  refine ⟨hdelegate, hactive.trans h.active, ?_, ?_, ?_⟩
  · rw [hioState]
    exact h.notDone
  · rw [hioState, hloop]
    exact h.outOk
  · rw [hstalled, hioState, hloop]
    exact h.stalled

theorem after_same (h : Sending s out) (hout : s.outFrames = []) (hloop : s.loop = none) : After s out := by
  refine .inr ⟨?_, pendingBytes_of_loop_eq_none hloop⟩
  simp only [hout, map_nil, List.nil_append]
  exact h.congr rfl rfl h.delegate rfl rfl

theorem after_sendRequest (h : Sending s out) (hout : s.outFrames = []) (hloop : s.loop = none)
    (hstate : s.ioState = STATE_NONE) (hasUploadData : Bool) : After (s.sendRequest hasUploadData) out := by
  have hok := h.outOk
  rw [hloop, hstate] at hok
  obtain rfl : out = [] := hok
  refine .inr ⟨?_, rfl⟩
  simp only [SpdyStream.sendRequest, SpdyStream.doLoop, hout, map_nil, append_nil]
  refine of_nil h.delegate h.active (by simp) ?_
  by_contra hs
  rcases h.stalled (by simpa using hs) with hopen | ⟨hbody, -⟩
  · rw [hstate] at hopen
    cases hopen
  · rw [hstate] at hbody
    cases hbody

theorem after_appendChunk (h : Sending s out) (hout : s.outFrames = []) (hloop : s.loop = none)
    (data : List UInt8) (isLastChunk : Bool) : After (s.appendChunk data isLastChunk) out := by
  unfold SpdyStream.appendChunk
  split
  · unfold SpdyStream.onChunkAvailable
    split
    · rename_i hstate
      have hok := h.outOk
      change s.ioState = STATE_SEND_BODY at hstate
      rw [hloop, hstate] at hok
      obtain rfl : out = [] := hok
      rw [SpdyStream.onWriteComplete, if_neg (by rw [hstate]; decide)]
      refine .inr ⟨?_, ?_⟩
      · simp only [SpdyStream.doLoop, hout, map_nil, append_nil]
        refine of_nil rfl h.active (by simp [hstate]) ?_
        by_contra hs
        rcases h.stalled (by simpa using hs) with hopen | ⟨hbody, -⟩
        · rw [hstate] at hopen
          cases hopen
        · rw [hstate] at hbody
          cases hbody
      · simp [pendingBytes, SpdyStream.doLoop, hstate]
    · exact after_same (h.congr rfl rfl rfl rfl rfl) hout hloop
  · exact after_same h hout hloop

theorem after_onWindowUpdate (h : Sending s out) (hout : s.outFrames = []) (hloop : s.loop = none)
    (delta : UInt32) : After (s.onWindowUpdate delta) out := by
  dsimp only [SpdyStream.onWindowUpdate]
  split
  · exact after_same h hout hloop
  · split
    · exact after_close s hloop
    · have hrecorded : ∀ t : SpdyStream, t.ioState = s.ioState → t.loop = s.loop → t.delegate = s.delegate →
          t.isActive = s.isActive → t.stalledByFlowControl = s.stalledByFlowControl → t.outFrames = s.outFrames →
          After (t.increaseSendWindowSize (int32OfUInt32 delta)) out := by
        intro t ht hl hd ha hs ho
        have hsending : Sending t out := h.congr ht hl (hd.symm ▸ h.delegate) ha hs
        dsimp only [SpdyStream.increaseSendWindowSize]
        split
        · exact after_same hsending (ho.trans hout) (hl.trans hloop)
        · split
          · exact after_close t (hl.trans hloop)
          · rename_i hbody _
            split
            · rename_i hstalled
              rcases hsending.stalled hstalled with hopen | ⟨-, -, rfl⟩
              · rw [hopen] at hbody
                exact absurd (by decide) hbody
              · refine .inr ⟨?_, rfl⟩
                simp only [SpdyStream.record, SpdyStream.doLoop, ho, hout, map_nil, append_nil]
                exact of_nil hsending.delegate hsending.active (by simp) rfl
            · exact after_same (hsending.congr rfl rfl hsending.delegate rfl rfl) (ho.trans hout) (hl.trans hloop)
      split <;> exact hrecorded _ rfl rfl rfl rfl rfl rfl

theorem after_writeStreamData (h : Sending s out) (hout : s.outFrames = []) (hloop : s.loop = none)
    (hstate : s.ioState = STATE_OPEN) (data : List UInt8) (fin : Bool) : After (s.writeStreamData data fin) out := by
  obtain ⟨hioState, hdelegate, hactive, hloop'⟩ := writeStreamData_same s data fin
  have hok := h.outOk
  rw [hstate] at hok
  refine .inr ⟨⟨?_, ?_, ?_, ?_, fun _ => .inl (hioState.trans hstate)⟩,
    pendingBytes_of_loop_eq_none (hloop'.trans hloop)⟩
  · exact hdelegate.symm ▸ h.delegate
  · exact hactive.trans h.active
  · dsimp only
    rw [hioState, hstate]
    decide
  · dsimp only
    rw [hioState, hstate]
    rcases writeStreamData_cases s data fin with ⟨hframes, -⟩ | ⟨⟨payload, fin', hframes⟩, -⟩
    · rw [hframes, hout]
      exact hok
    · rw [hframes, hout]
      exact List.forall_mem_cons.2 ⟨rfl, hok⟩

theorem after_onResponseReceived (h : Sending s out) (hout : s.outFrames = []) (hloop : s.loop = none) :
    After s.onResponseReceived out := by
  unfold SpdyStream.onResponseReceived
  split
  · rename_i hstate
    have hok := h.outOk
    rw [hloop, hstate] at hok
    obtain rfl : out = [] := hok
    refine .inr ⟨⟨h.delegate, h.active, by simp, ?_, fun _ => .inl rfl⟩, pendingBytes_of_loop_eq_none hloop⟩
    simp only [hout, map_nil, append_nil]
    exact fun t ht => (nomatch ht)
  · exact after_close s hloop

theorem step (h : Sending s out) (hout : s.outFrames = []) (hloop : s.loop = none) {e : SpdyStream.Event}
    (he : ∀ synSize, e ≠ .frameWritten synSize) (hstep : s.step e = some s') : After s' out := by
  cases e with
  | turn =>
    obtain ⟨result, hsome, -⟩ := Option.map_eq_some_iff.1 hstep
    rw [hloop] at hsome
    cases hsome
  | frameWritten synSize => exact absurd rfl (he synSize)
  | sendRequest hasUploadData =>
    obtain ⟨⟨-, hstate⟩, rfl⟩ := ite_some_none_eq_some.1 hstep
    exact after_sendRequest h hout hloop hstate hasUploadData
  | appendChunk data isLastChunk =>
    obtain ⟨-, rfl⟩ := ite_some_none_eq_some.1 hstep
    exact after_appendChunk h hout hloop data isLastChunk
  | onWindowUpdate delta =>
    obtain ⟨-, rfl⟩ := ite_some_none_eq_some.1 hstep
    exact after_onWindowUpdate h hout hloop delta
  | writeStreamData data fin =>
    obtain ⟨⟨-, hstate, -⟩, rfl⟩ := ite_some_none_eq_some.1 hstep
    exact after_writeStreamData h hout hloop hstate data fin
  | onResponseReceived =>
    obtain ⟨-, rfl⟩ := ite_some_none_eq_some.1 hstep
    exact after_onResponseReceived h hout hloop
  | close =>
    obtain ⟨-, rfl⟩ := ite_some_none_eq_some.1 hstep
    exact after_close s hloop

end Sending

theorem Closed.step (h : Closed s) {e : SpdyStream.Event} (he : ∀ synSize, e ≠ .frameWritten synSize)
    (hstep : s.step e = some s') : Closed s' := by
  cases e with
  | turn =>
    obtain ⟨result, hsome, -⟩ := Option.map_eq_some_iff.1 hstep
    rw [h.noLoop] at hsome
    cases hsome
  | frameWritten synSize => exact absurd rfl (he synSize)
  | sendRequest hasUploadData =>
    obtain ⟨⟨-, hstate⟩, -⟩ := Option.ite_none_right_eq_some.1 hstep
    rw [h.done] at hstate
    cases hstate
  | appendChunk data isLastChunk =>
    obtain ⟨-, rfl⟩ := ite_some_none_eq_some.1 hstep
    rw [SpdyStream.appendChunk, h.noDelegate]
    exact h
  | onWindowUpdate delta =>
    obtain ⟨-, rfl⟩ := ite_some_none_eq_some.1 hstep
    dsimp only [SpdyStream.onWindowUpdate]
    rw [if_pos (by rw [h.inactive]; decide)]
    exact h
  | writeStreamData data fin =>
    obtain ⟨⟨-, hstate, -⟩, -⟩ := Option.ite_none_right_eq_some.1 hstep
    rw [h.done] at hstate
    cases hstate
  | onResponseReceived =>
    obtain ⟨-, rfl⟩ := ite_some_none_eq_some.1 hstep
    rw [SpdyStream.onResponseReceived, if_neg (by rw [h.done]; decide)]
    exact ⟨rfl, rfl, h.noLoop, rfl⟩
  | close =>
    obtain ⟨-, rfl⟩ := ite_some_none_eq_some.1 hstep
    exact ⟨rfl, rfl, h.noLoop, rfl⟩

/-- **A frame of the stream is written**, and the stream is told: what it is to hand on are the bytes of a
`DATA` frame. -/
theorem Sending.complete {t : FrameType} (h : Sending s (t :: out)) (hloop : s.loop = none) (bytes : ℕ) :
    Sending (s.onWriteComplete bytes) out ∧
      pendingBytes (s.onWriteComplete bytes) = if t = .data then bytes else 0 := by
  have hok := h.outOk
  rw [hloop] at hok
  have hcomplete : s.onWriteComplete bytes = s.doLoop bytes := by
    rw [SpdyStream.onWriteComplete, if_neg h.notDone]
  rw [hcomplete]
  have hquiet : s.ioState ≠ STATE_OPEN → s.stalledByFlowControl = false := by
    intro hopen
    by_contra hs
    rcases h.stalled (by simpa using hs) with hopen' | ⟨-, -, hnil⟩
    · exact hopen hopen'
    · cases hnil
  cases hstate : s.ioState with
  | STATE_SEND_HEADERS_COMPLETE =>
    rw [hstate] at hok
    rcases hok with hnil | hsyn
    · cases hnil
    · cases hsyn
      refine ⟨Sending.of_nil h.delegate h.active h.notDone (hquiet (by simp [hstate])), ?_⟩
      simp [pendingBytes, SpdyStream.doLoop, hstate]
  | STATE_SEND_BODY_COMPLETE =>
    rw [hstate] at hok
    rcases hok with hnil | hdata
    · cases hnil
    · cases hdata
      refine ⟨Sending.of_nil h.delegate h.active h.notDone (hquiet (by simp [hstate])), ?_⟩
      simp [pendingBytes, SpdyStream.doLoop, hstate]
  | STATE_OPEN =>
    rw [hstate] at hok
    have hall : ∀ t' ∈ t :: out, t' = .data := hok
    refine ⟨⟨h.delegate, h.active, h.notDone, ?_, fun _ => .inl hstate⟩, ?_⟩
    · rw [SpdyStream.doLoop, hstate]
      exact fun t' ht' => hall t' (List.mem_cons_of_mem _ ht')
    · rw [if_pos (hall t List.mem_cons_self)]
      simp [pendingBytes, SpdyStream.doLoop, hstate]
  | STATE_NONE | STATE_SEND_HEADERS | STATE_SEND_BODY | STATE_WAITING_FOR_RESPONSE =>
    rw [hstate] at hok
    cases hok
  | STATE_DONE => exact absurd hstate h.notDone

theorem Sending.subperm {out out' : List FrameType} (h : Sending s out) (hsub : out'.Subperm out) :
    Sending s out' := by
  refine ⟨h.delegate, h.active, h.notDone, ?_, fun hs => (h.stalled hs).imp_right fun ⟨hstate, hloop, hnil⟩ =>
    ⟨hstate, hloop, subperm_nil.1 (hnil ▸ hsub)⟩⟩
  have hok := h.outOk
  unfold OutOk at hok ⊢
  split at hok
  · rcases hok with rfl | rfl
    · exact .inl (subperm_nil.1 hsub)
    · exact List.subperm_singleton_iff.1 hsub
  · rcases hok with rfl | rfl
    · exact .inl (subperm_nil.1 hsub)
    · exact List.subperm_singleton_iff.1 hsub
  · exact fun t ht => hok t (hsub.subset ht)
  · exact subperm_nil.1 (hok ▸ hsub)

end Chromium.Net.Spdy
