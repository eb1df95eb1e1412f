import Chromium.Lib.TransSys
import Chromium.Net.Spdy.SpdyFramerTurns

/-!
# Errors of the framer

`set_error` calls `OnError` and leaves the framer in a state in which it reads nothing more.  For
a version or a type that is not known, `ProcessControlFrameHeader` then returns; for a control frame
of a wrong size it goes on, and enters the state for the payload, so that the frame is given out all
the same.  Where no such frame comes, errors are final (`errorIsFinal_of_run`).
-/

namespace Chromium.Net.Spdy

open Lib

namespace SpdyFramer

/-- A framer at work: the bytes that its `ProcessInput` has not read, and the calls so far. -/
structure Conn (env : FramerEnv) where
  framer : SpdyFramer env
  data : List UInt8
  calls : List Call

/-- What happens next: `ProcessInput` is called, or its loop takes a turn. -/
inductive FramerEvent
  | processInput (data : List UInt8)
  | turn

/-- The framer on a connection; nobody calls `Reset`. -/
def framerSystem (env : FramerEnv) : TransSys (Conn env) FramerEvent where
  init c := c = ⟨new env, [], []⟩
  step
    | c, .processInput data, c' =>
      (c.data = [] ∨ c.framer.turn c.data = none) ∧ c' = { c with data := data }
    | c, .turn, c' =>
      c.data ≠ [] ∧ ∃ t, c.framer.turn c.data = some t ∧ c' = ⟨t.state, t.rest, c.calls ++ t.calls⟩

def SizeRefused (env : FramerEnv) (frame : SpdyFrame) : Prop :=
  frame.version = env.spdyVersion ∧ ∃ type, frame.type = some type ∧ hasWrongSize type frame.payloadLength = true

/-- The turn is not one that reads the header of a control frame of a wrong size. -/
def SizesMet {env : FramerEnv} (c : Conn env) : FramerEvent → Prop
  | .processInput _ => True
  | .turn => c.framer.state = .SPDY_INTERPRET_CONTROL_FRAME_COMMON_HEADER →
      ¬ SizeRefused env c.framer.currentFrameBuffer

/-- A frame that is whole and passes the checks of its version, type and size. -/
structure PassesChecks (env : FramerEnv) (frame : SpdyFrame) : Prop where
  version : frame.version = env.spdyVersion
  type : ∃ type, frame.type = some type ∧ hasWrongSize type frame.payloadLength = false
  payloadLength_le : frame.payloadLength ≤ kControlFrameBufferMaxSize
  length_eq : frame.length = SpdyFrame.size + frame.payloadLength

/-- **An error that was reported is final**: it was the last call, the framer is in the state for
errors with its code, and `ProcessInput` leaves its loop at once.  Only frames that pass the checks
were given out. -/
structure ErrorIsFinal {env : FramerEnv} (c : Conn env) : Prop where
  error : ∀ e, Call.OnError e ∈ c.calls →
    c.framer.state = .SPDY_ERROR ∧ c.framer.errorCode = e ∧ e ≠ .SPDY_NO_ERROR ∧
      (∃ before, c.calls = before ++ [Call.OnError e] ∧ ∀ e', Call.OnError e' ∉ before) ∧
      ∀ data, c.framer.turn data = none
  control : ∀ frame, Call.OnControl frame ∈ c.calls → PassesChecks env frame

variable {env : FramerEnv} {s : SpdyFramer env} {c c' : Conn env} {data : List UInt8}
  {t : Processed env}

variable {calls : List Call} {tr : List FramerEvent}

/-! ### What a turn reports -/

def Quiet (calls : List Call) : Prop := ∀ e, Call.OnError e ∉ calls

def EndsWithError (s : SpdyFramer env) (calls : List Call) : Prop :=
  s.state = .SPDY_ERROR ∧ s.errorCode ≠ .SPDY_NO_ERROR ∧
    ∃ before, Quiet before ∧ calls = before ++ [.OnError s.errorCode]

def NoFrame (calls : List Call) : Prop := ∀ frame, Call.OnControl frame ∉ calls

def OnlyData (calls : List Call) : Prop := Quiet calls ∧ NoFrame calls

theorem onlyData_nil : OnlyData [] := ⟨fun _ => List.not_mem_nil, fun _ => List.not_mem_nil⟩

theorem onlyData_reset : OnlyData [.Reset] := by
  simp [OnlyData, Quiet, NoFrame]

theorem onlyData_data (streamId : ℕ) (data : List UInt8) :
    OnlyData [.OnStreamFrameData streamId data] := by
  simp [OnlyData, Quiet, NoFrame]

theorem onlyData_getStreamDecompressor (streamId : ℕ) : OnlyData [.GetStreamDecompressor streamId] := by
  simp [OnlyData, Quiet, NoFrame]

theorem OnlyData.append {calls' : List Call} (h : OnlyData calls) (h' : OnlyData calls') :
    OnlyData (calls ++ calls') :=
  ⟨fun e he => (List.mem_append.1 he).elim (h.1 e) (h'.1 e),
    fun frame hf => (List.mem_append.1 hf).elim (h.2 frame) (h'.2 frame)⟩

/-- The header of a control frame that is kept while the payload is read. -/
structure HeaderKept (s : SpdyFramer env) : Prop where
  common : s.state = .SPDY_READING_COMMON_HEADER → s.currentFrameBuffer.length ≤ SpdyFrame.size
  header : s.state = .SPDY_INTERPRET_CONTROL_FRAME_COMMON_HEADER → s.currentFrameBuffer.length = SpdyFrame.size
  payload : s.state = .SPDY_CONTROL_FRAME_PAYLOAD →
    SpdyFrame.size ≤ s.currentFrameBuffer.length ∧ s.currentFrameBuffer.version = env.spdyVersion ∧
      (∃ type, s.currentFrameBuffer.type = some type ∧ hasWrongSize type s.currentFrameBuffer.payloadLength = false) ∧
      s.currentFrameBuffer.payloadLength ≤ kControlFrameBufferMaxSize ∧
      s.currentFrameBuffer.length + s.remainingControlPayload = SpdyFrame.size + s.currentFrameBuffer.payloadLength

theorem HeaderKept.of_state (h : s.state ≠ .SPDY_READING_COMMON_HEADER)
    (h' : s.state ≠ .SPDY_INTERPRET_CONTROL_FRAME_COMMON_HEADER)
    (h'' : s.state ≠ .SPDY_CONTROL_FRAME_PAYLOAD) : HeaderKept s :=
  ⟨fun hs => absurd hs h, fun hs => absurd hs h', fun hs => absurd hs h''⟩

/-- **What a turn leaves**: no error, or one that is its last call and is the framer's; the frames
given out pass the checks. -/
structure Report (s : SpdyFramer env) (calls : List Call) : Prop where
  error : Quiet calls ∧ s.state ≠ .SPDY_ERROR ∨ EndsWithError s calls
  control : ∀ frame, Call.OnControl frame ∈ calls → PassesChecks env frame
  kept : HeaderKept s

theorem Report.of_onlyData (h : OnlyData calls) (hs : s.state ≠ .SPDY_ERROR)
    (hk : HeaderKept s) : Report s calls :=
  ⟨.inl ⟨h.1, hs⟩, fun frame hf => absurd hf (h.2 frame), hk⟩

theorem report_setError {e : SpdyError} {before : List Call} (h : OnlyData before)
    (he : e ≠ .SPDY_NO_ERROR) : Report (s.setError e).1 (before ++ (s.setError e).2) where
  error := .inr ⟨rfl, he, before, h.1, rfl⟩
  control frame hf := by
    rcases List.mem_append.1 hf with hf | hf
    · exact absurd hf (h.2 frame)
    · exact absurd hf (by simp [setError])
  kept := .of_state (by simp [setError]) (by simp [setError]) (by simp [setError])

theorem report_processControlFrameHeader (hsize : ¬ SizeRefused env s.currentFrameBuffer)
    (hlen : s.currentFrameBuffer.length = SpdyFrame.size) :
    Report s.processControlFrameHeader.1 s.processControlFrameHeader.2 := by
  unfold processControlFrameHeader
  by_cases hversion : s.currentFrameBuffer.version = env.spdyVersion
  swap
  · rw [if_pos hversion]
    exact report_setError onlyData_nil (by simp)
  rw [if_neg (not_not.2 hversion)]
  by_cases hvalid : s.currentFrameBuffer.appearsToBeAValidControlFrame = true
  swap
  · rw [if_pos hvalid]
    exact report_setError onlyData_nil (by simp)
  rw [if_neg (not_not.2 hvalid)]
  by_cases hnoop : s.currentFrameBuffer.type = some .NOOP
  · rw [if_pos hnoop]
    exact .of_onlyData onlyData_nil nofun
      (.of_state nofun nofun nofun)
  rw [if_neg hnoop]
  obtain ⟨type, htype⟩ := SpdyFrame.appearsToBeAValidControlFrame_iff.1 hvalid
  have hright : hasWrongSize type s.currentFrameBuffer.payloadLength = false :=
    Bool.eq_false_iff.2 fun h => hsize ⟨hversion, type, htype, h⟩
  have hcheck : s.checkControlFrameSize = (s, []) := by
    rw [checkControlFrameSize, htype]
    dsimp only
    rw [if_neg (by rw [hright]; exact Bool.false_ne_true)]
  rw [hcheck]
  dsimp only [startControlFramePayload]
  split
  · exact report_setError onlyData_nil (by simp)
  · rename_i hmax
    refine .of_onlyData onlyData_nil nofun ⟨nofun, nofun, fun _ => ?_⟩
    simp only [changeState, currentFrameBuffer_expandControlFrameBuffer,
      remainingControlPayload_expandControlFrameBuffer]
    exact ⟨hlen.ge, hversion, ⟨type, htype, hright⟩, Nat.le_of_not_lt hmax, by rw [hlen]⟩

theorem onlyData_forwarded {amount : ℕ} (h : OnlyData calls) :
    OnlyData (s.forwarded amount data calls).calls := by
  dsimp only [forwarded]
  split
  · exact h.append (onlyData_data _ _)
  · exact h

theorem report_processDataFramePayload
    (hs : s.state = .SPDY_FORWARD_STREAM_FRAME ∨ s.state = .SPDY_IGNORE_REMAINING_PAYLOAD) :
    Report (s.processDataFramePayload data).state (s.processDataFramePayload data).calls := by
  have hstay : ∀ {s' : SpdyFramer env} {calls : List Call}, s'.state = s.state →
      OnlyData calls → Report s' calls := by
    intro s' calls hs' hcalls
    refine .of_onlyData hcalls ?_ (.of_state ?_ ?_ ?_)
    all_goals
      rw [hs']
      rcases hs with hs | hs <;> simp [hs]
  dsimp only [processDataFramePayload]
  split
  · split
    · split
      · dsimp only [forwardCompressed]
        split
        · exact hstay (state_getStreamDecompressor _) (onlyData_getStreamDecompressor _)
        · split
          · exact report_setError (onlyData_getStreamDecompressor _) (by simp)
          · refine hstay ((state_forwarded _ _).trans (state_getStreamDecompressor _))
              (onlyData_forwarded ?_)
            split
            · exact onlyData_getStreamDecompressor _
            · exact (onlyData_getStreamDecompressor _).append (onlyData_data _ _)
      · exact hstay (state_forwarded _ _) (onlyData_forwarded (onlyData_data _ _))
    · exact hstay (state_forwarded _ _) (onlyData_forwarded onlyData_nil)
  · exact .of_onlyData onlyData_nil nofun
      (.of_state nofun nofun nofun)

theorem report_processCommonHeader (hs : s.state = .SPDY_READING_COMMON_HEADER)
    (hk : HeaderKept s) :
    Report (s.processCommonHeader data).state (s.processCommonHeader data).calls := by
  unfold processCommonHeader
  dsimp only
  split
  · rename_i hlt
    split
    · refine .of_onlyData ?_ (by simp [changeState])
        (.of_state (by simp [changeState]) (by simp [changeState]) (by simp [changeState]))
      split
      · exact onlyData_data _ _
      · exact onlyData_nil
    · refine .of_onlyData onlyData_nil (by simp [updateCurrentFrameBuffer, hs]) ⟨fun _ => ?_,
        fun h => ?_, fun h => ?_⟩
      · simp only [updateCurrentFrameBuffer, List.length_append, List.length_take]
        omega
      · simp [updateCurrentFrameBuffer, hs] at h
      · simp [updateCurrentFrameBuffer, hs] at h
  · rename_i hge
    split
    · exact .of_onlyData onlyData_nil (by simp [changeState])
        (.of_state (by simp [changeState]) (by simp [changeState]) (by simp [changeState]))
    · exact .of_onlyData onlyData_nil (by simp [changeState]) ⟨fun h => (by cases h),
        fun _ => Nat.le_antisymm (hk.common hs) (Nat.le_of_not_lt hge), fun h => by cases h⟩

theorem quiet_controlFrameCalls (frame : SpdyFrame) : Quiet (controlFrameCalls frame) := by
  unfold Quiet controlFrameCalls
  split <;> simp

theorem eq_of_mem_controlFrameCalls {frame frame' : SpdyFrame}
    (h : Call.OnControl frame' ∈ controlFrameCalls frame) : frame' = frame := by
  unfold controlFrameCalls at h
  split at h <;> simpa using h

theorem report_turn (ha : Aligned s) (hk : HeaderKept s)
    (hsize : s.state = .SPDY_INTERPRET_CONTROL_FRAME_COMMON_HEADER →
      ¬ SizeRefused env s.currentFrameBuffer) (ht : s.turn data = some t) :
    Report t.state t.calls := by
  cases hs : s.state with
  | SPDY_ERROR | SPDY_DONE => cases (turn_eq_none.2 (by simp [hs])).symm.trans ht
  | SPDY_RESET | SPDY_AUTO_RESET =>
    rw [turn_reset (by simp [hs])] at ht
    cases ht
    refine .of_onlyData onlyData_reset nofun ⟨fun _ => ?_, nofun, nofun⟩
    rw [changeState, currentFrameBuffer_reset]
    exact Nat.zero_le _
  | SPDY_READING_COMMON_HEADER =>
    rw [turn_common hs] at ht
    cases ht
    exact report_processCommonHeader hs hk
  | SPDY_INTERPRET_CONTROL_FRAME_COMMON_HEADER =>
    rw [turn_interpret hs] at ht
    cases ht
    exact report_processControlFrameHeader (hsize hs) (hk.header hs)
  | SPDY_CONTROL_FRAME_PAYLOAD =>
    rw [turn_payload _ hs (ha.payload hs)] at ht
    cases ht
    obtain ⟨hlen, hversion, ⟨type, htype, hright⟩, hmax, hsum⟩ := hk.payload hs
    split
    · refine .of_onlyData onlyData_nil (by simp [hs]) ⟨fun h => (by simp [hs] at h),
        fun h => (by simp [hs] at h), fun _ => ?_⟩
      simp only [List.length_append, SpdyFrame.version_append hlen, SpdyFrame.type_append hlen,
        SpdyFrame.payloadLength_append hlen]
      exact ⟨by omega, hversion, ⟨type, htype, hright⟩, hmax, by omega⟩
    · refine ⟨.inl ⟨quiet_controlFrameCalls _, by simp⟩, fun frame hf => ?_,
        .of_state (by simp) (by simp) (by simp)⟩
      rw [eq_of_mem_controlFrameCalls hf]
      refine ⟨?_, ⟨type, ?_, ?_⟩, ?_, ?_⟩
      · rw [SpdyFrame.version_append hlen, hversion]
      · rw [SpdyFrame.type_append hlen, htype]
      · rw [SpdyFrame.payloadLength_append hlen, hright]
      · rw [SpdyFrame.payloadLength_append hlen]
        exact hmax
      · rw [SpdyFrame.payloadLength_append hlen, List.length_append, List.length_take]
        omega
  | SPDY_IGNORE_REMAINING_PAYLOAD | SPDY_FORWARD_STREAM_FRAME =>
    rw [turn_forward (by simp [hs])] at ht
    cases ht
    exact report_processDataFramePayload (by simp [hs])

/-! ### Runs -/

theorem Report.turn (h : Report s c.calls) (ht : s.turn data = some t)
    (h' : Report t.state t.calls) : Report t.state (c.calls ++ t.calls) := by
  have hquiet : Quiet c.calls := by
    rcases h.error with ⟨hq, -⟩ | ⟨hs, -⟩
    · exact hq
    · rw [turn_eq_none.2 (.inl hs)] at ht
      cases ht
  refine ⟨?_, fun frame hf => ?_, h'.kept⟩
  · rcases h'.error with ⟨hq, hs⟩ | ⟨hs, he, before, hbefore, hcalls⟩
    · exact .inl ⟨fun e hmem => (List.mem_append.1 hmem).elim (hquiet e) (hq e), hs⟩
    · refine .inr ⟨hs, he, c.calls ++ before, fun e hmem => ?_, ?_⟩
      · exact (List.mem_append.1 hmem).elim (hquiet e) (hbefore e)
      · rw [hcalls, List.append_assoc]
  · exact (List.mem_append.1 hf).elim (h.control frame) (h'.control frame)

theorem report_new : Report (new env) [] :=
  .of_onlyData onlyData_nil (by simp [new]) (.of_state (by simp [new]) (by simp [new])
    (by simp [new]))

theorem report_of_run (h : ((framerSystem env).restrict SizesMet).Run tr c) :
    Aligned c.framer ∧ Report c.framer c.calls := by
  refine h.invariant (I := fun c => Aligned c.framer ∧ Report c.framer c.calls) ?_ ?_
  · rintro c rfl
    exact ⟨aligned_new, report_new⟩
  · rintro c e c' ⟨ha, hr⟩ ⟨hmet, hstep⟩
    cases e with
    | processInput data =>
      obtain ⟨-, rfl⟩ := hstep
      exact ⟨ha, hr⟩
    | turn =>
      obtain ⟨-, t, ht, rfl⟩ := hstep
      exact ⟨ha.turn ht, hr.turn ht (report_turn ha hr.kept hmet ht)⟩

theorem Report.errorIsFinal (h : Report c.framer c.calls) : ErrorIsFinal c where
  error e he := by
    rcases h.error with ⟨hq, -⟩ | ⟨hs, hcode, before, hbefore, hcalls⟩
    · exact absurd he (hq e)
    · obtain rfl : e = c.framer.errorCode := by
        rw [hcalls] at he
        rcases List.mem_append.1 he with he | he
        · exact absurd he (hbefore e)
        · simpa using he
      exact ⟨hs, rfl, hcode, ⟨before, hcalls, hbefore⟩, fun data => turn_eq_none.2 (.inl hs)⟩
  control := h.control

/-- **A wrong size**: the error is not the last call, or the framer has left the state for errors. -/
theorem not_errorIsFinal_of_sizeRefused
    (hs : c.framer.state = .SPDY_INTERPRET_CONTROL_FRAME_COMMON_HEADER)
    (hsize : SizeRefused env c.framer.currentFrameBuffer) (ht : c.framer.turn c.data = some t)
    (hc' : c' = ⟨t.state, t.rest, c.calls ++ t.calls⟩) : ¬ ErrorIsFinal c' := by
  obtain ⟨hversion, type, htype, hwrong⟩ := hsize
  have hvalid : c.framer.currentFrameBuffer.appearsToBeAValidControlFrame = true :=
    SpdyFrame.appearsToBeAValidControlFrame_iff.2 ⟨type, htype⟩
  have hnoop : c.framer.currentFrameBuffer.type ≠ some .NOOP := by
    rw [htype]
    rintro ⟨⟩
    cases hwrong
  have hcheck : c.framer.checkControlFrameSize = c.framer.setError .SPDY_INVALID_CONTROL_FRAME := by
    rw [checkControlFrameSize, htype]
    dsimp only
    rw [if_pos hwrong]
  rw [turn_interpret hs] at ht
  cases ht
  intro hfinal
  unfold processControlFrameHeader at hc'
  rw [if_neg (not_not.2 hversion), if_neg (not_not.2 hvalid), if_neg hnoop, hcheck] at hc'
  obtain ⟨hstate, hcode, -⟩ := hfinal.error .SPDY_INVALID_CONTROL_FRAME (by
    rw [hc']
    simp [setError])
  rw [hc'] at hstate hcode
  unfold startControlFramePayload at hstate hcode
  dsimp only at hstate hcode
  split at hstate
  · rename_i hmax
    rw [if_pos hmax] at hcode
    cases hcode
  · cases hstate

/-- **Errors are final exactly where no control frame has a wrong size**: in a run that meets none,
they are final in every state, and a turn that meets one leaves a state in which they are not. -/
theorem errorIsFinal_of_run (env : FramerEnv) :
    (∀ tr c, ((framerSystem env).restrict SizesMet).Run tr c → ErrorIsFinal c) ∧
      ∀ c c', (framerSystem env).step c .turn c' → ¬ SizesMet c .turn → ¬ ErrorIsFinal c' := by
  refine ⟨fun tr c h => (report_of_run h).2.errorIsFinal, fun c c' hstep hmet => ?_⟩
  obtain ⟨-, t, ht, hc'⟩ := hstep
  obtain ⟨hs, hsize⟩ := Classical.not_imp.1 hmet
  exact not_errorIsFinal_of_sizeRefused hs (not_not.1 hsize) ht hc'

theorem run_turn (h : ((framerSystem env).restrict SizesMet).Run tr c)
    (hdata : c.data ≠ []) (ht : c.framer.turn c.data = some t)
    (hmet : c.framer.state = .SPDY_INTERPRET_CONTROL_FRAME_COMMON_HEADER →
      ¬ SizeRefused env c.framer.currentFrameBuffer) :
    ((framerSystem env).restrict SizesMet).Run (tr ++ [.turn])
      ⟨t.state, t.rest, c.calls ++ t.calls⟩ :=
  .step h ⟨hmet, hdata, t, ht, rfl⟩

def headerRead (frame : SpdyFrame) : SpdyFramer copyEnv :=
  { (new copyEnv).reset with
    state := .SPDY_INTERPRET_CONTROL_FRAME_COMMON_HEADER
    remainingData := frame.payloadLength
    currentFrameBuffer := frame }

/-- A frame of version 1 is the end; one of a wrong size is not. -/
theorem errorIsFinal_of_run_version1 : (∃ tr c, ((framerSystem copyEnv).restrict SizesMet).Run tr c ∧
      Call.OnError .SPDY_UNSUPPORTED_VERSION ∈ c.calls ∧ ErrorIsFinal c) ∧
    ∃ c c', (framerSystem copyEnv).step c .turn c' ∧ ¬ ErrorIsFinal c' := by
  constructor
  · have h0 : ((framerSystem copyEnv).restrict SizesMet).Run
        [.processInput [0x80, 1, 0, 3, 0, 0, 0, 8, 0]]
        ⟨new copyEnv, [0x80, 1, 0, 3, 0, 0, 0, 8, 0], []⟩ :=
      .step (.init rfl) ⟨trivial, .inl rfl, rfl⟩
    have h1 := run_turn h0 (by simp) rfl (by simp [new])
    have h2 := run_turn h1 (by simp) rfl (by simp [changeState])
    have h3 := run_turn h2 (by decide +kernel) rfl fun h => absurd h (by decide +kernel)
    have h4 := run_turn h3 (by decide +kernel) rfl
      fun _ hsize => absurd hsize.1 (by decide +kernel)
    exact ⟨_, _, h4, by decide +kernel, (errorIsFinal_of_run copyEnv).1 _ _ h4⟩
  · have hstep : (framerSystem copyEnv).step
        ⟨headerRead [0x80, 2, 0, 3, 0, 0, 0, 4], [0], []⟩ .turn _ :=
      ⟨by simp, _, rfl, rfl⟩
    refine ⟨_, _, hstep, (errorIsFinal_of_run copyEnv).2 _ _ hstep fun hmet => hmet rfl ?_⟩
    exact ⟨by decide +kernel, .RST_STREAM, by decide +kernel, by decide +kernel⟩

/-! ### `ProcessInput` in a run -/

/-- **`ProcessInput` is a run of turns.** -/
theorem exists_run_loop (h : (framerSystem env).Run tr c) (n : ℕ) : ∃ tr', (framerSystem env).Run tr'
      ⟨(loop turn n c.framer c.data).state, (loop turn n c.framer c.data).rest,
        c.calls ++ (loop turn n c.framer c.data).calls⟩ := by
  induction n generalizing tr c with
  | zero => exact ⟨tr, by simpa [loop] using h⟩
  | succ n ih =>
    by_cases hdata : c.data = []
    · rw [hdata, loop_nil, ← hdata]
      exact ⟨tr, by simpa using h⟩
    · cases ht : c.framer.turn c.data with
      | none =>
        rw [loop_of_none ht]
        exact ⟨tr, by simpa using h⟩
      | some t =>
        rw [loop_of_some ht hdata]
        have hrun := TransSys.Run.step h (show (framerSystem env).step c .turn _ from
          ⟨hdata, t, ht, rfl⟩)
        obtain ⟨tr', hrun'⟩ := ih hrun
        exact ⟨tr', by simpa [Turn.after, List.append_assoc] using hrun'⟩

/-- **`RST_STREAM` without its status**: `OnError` is called, and then the frame is given out. -/
theorem not_errorIsFinal_shortRstStream :
    ¬ ∀ tr c, (framerSystem copyEnv).Run tr c → ErrorIsFinal c := by
  intro hall
  have hrun : (framerSystem copyEnv).Run [.processInput [0x80, 2, 0, 3, 0, 0, 0, 4, 0, 0, 0, 1]]
      ⟨new copyEnv, [0x80, 2, 0, 3, 0, 0, 0, 4, 0, 0, 0, 1], []⟩ :=
    .step (.init rfl) ⟨.inl rfl, rfl⟩
  obtain ⟨tr, hrun'⟩ := exists_run_loop hrun 65
  obtain ⟨hstate, -⟩ := (hall _ _ hrun').error .SPDY_INVALID_CONTROL_FRAME (by decide +kernel)
  exact absurd hstate (by decide +kernel)

end SpdyFramer

end Chromium.Net.Spdy
