import Chromium.Net.Spdy.SpdyFramer

/-!
# What a turn of `ProcessInput` does

One spec lemma for each state (`turn_reset`, `turn_common`, `turn_interpret`, `turn_payload`,
`turn_forward`), and what every turn keeps (`Aligned`): of a control frame, the count of bytes that
are left of the frame is the count of those that are left of its payload.
-/

namespace Chromium.Net.Spdy

open Lib

def Call.isPlain : Call → Prop
  | GetStreamDecompressor _ => False
  | _ => True

namespace SpdyFramer

variable {env : FramerEnv} {s : SpdyFramer env} {data bytes : List UInt8} {t : Processed env}

variable (amount size : ℕ)

/-- Of a control frame, what is left of the payload is what is left of the frame. -/
structure Aligned (s : SpdyFramer env) : Prop where
  header : s.state = .SPDY_INTERPRET_CONTROL_FRAME_COMMON_HEADER → s.remainingData = s.currentFrameBuffer.payloadLength
  payload : s.state = .SPDY_CONTROL_FRAME_PAYLOAD → s.remainingControlPayload = s.remainingData

theorem aligned_new : Aligned (new env) where
  header h := by cases h
  payload h := by cases h

theorem Aligned.of_state (h : s.state ≠ .SPDY_INTERPRET_CONTROL_FRAME_COMMON_HEADER)
    (h' : s.state ≠ .SPDY_CONTROL_FRAME_PAYLOAD) : Aligned s :=
  ⟨fun hs => absurd hs h, fun hs => absurd hs h'⟩

theorem turn_eq_none : s.turn data = none ↔ s.state = .SPDY_ERROR ∨ s.state = .SPDY_DONE := by
  unfold turn
  cases s.state <;> simp

@[simp]
theorem currentFrameBuffer_expandControlFrameBuffer :
    (s.expandControlFrameBuffer size).currentFrameBuffer = s.currentFrameBuffer := by
  dsimp only [expandControlFrameBuffer]
  split <;> rfl

@[simp]
theorem remainingData_expandControlFrameBuffer :
    (s.expandControlFrameBuffer size).remainingData = s.remainingData := by
  dsimp only [expandControlFrameBuffer]
  split <;> rfl

@[simp]
theorem remainingControlPayload_expandControlFrameBuffer :
    (s.expandControlFrameBuffer size).remainingControlPayload = s.remainingControlPayload := by
  dsimp only [expandControlFrameBuffer]
  split <;> rfl

theorem currentFrameBuffer_reset (s : SpdyFramer env) : s.reset.currentFrameBuffer = [] := by
  dsimp only [reset]
  split
  · rw [currentFrameBuffer_expandControlFrameBuffer]
  · rfl

/-- **The payload of a control frame**: the frame is given out with its last byte. -/
theorem turn_payload (data : List UInt8) (hs : s.state = .SPDY_CONTROL_FRAME_PAYLOAD)
    (hrem : s.remainingControlPayload = s.remainingData) :
    s.turn data = some (if data.length < s.remainingControlPayload then
      ⟨{ s with
        currentFrameBuffer := s.currentFrameBuffer ++ data
        remainingControlPayload := s.remainingControlPayload - data.length
        remainingData := s.remainingData - data.length }, [], []⟩
    else
      ⟨{ s with
        state := .SPDY_AUTO_RESET
        currentFrameBuffer := s.currentFrameBuffer ++ data.take s.remainingControlPayload
        remainingControlPayload := 0
        remainingData := 0 }, data.drop s.remainingControlPayload,
        controlFrameCalls (s.currentFrameBuffer ++ data.take s.remainingControlPayload)⟩) := by
  rw [turn, hs]
  simp only [processControlFramePayload, updateCurrentFrameBuffer, changeState]
  by_cases hlt : data.length < s.remainingControlPayload
  · have hmin : min s.remainingControlPayload data.length = data.length := by omega
    rw [if_pos hlt, hmin, if_pos (by omega)]
    simp only [processDataFramePayload, List.take_length, List.drop_length, List.length_nil, Nat.min_zero, ← hrem]
    rw [if_pos (by omega), if_neg (by simp)]
    simp [forwarded, Turn.after, Nat.sub_eq_zero_iff_le, Nat.not_le.2 hlt, hs]
  · have hmin : min s.remainingControlPayload data.length = s.remainingControlPayload := by omega
    rw [if_neg hlt, hmin, if_neg (by omega)]
    simp [processDataFramePayload, Turn.after, ← hrem, changeState]

theorem turn_forward
    (hs : s.state = .SPDY_FORWARD_STREAM_FRAME ∨ s.state = .SPDY_IGNORE_REMAINING_PAYLOAD) :
    s.turn data = some (s.processDataFramePayload data) := by
  unfold turn
  rcases hs with hs | hs <;> rw [hs]

theorem turn_common (hs : s.state = .SPDY_READING_COMMON_HEADER) :
    s.turn data = some (s.processCommonHeader data) := by
  rw [turn, hs]

theorem turn_interpret (hs : s.state = .SPDY_INTERPRET_CONTROL_FRAME_COMMON_HEADER) : s.turn data =
      some ⟨s.processControlFrameHeader.1, data, s.processControlFrameHeader.2⟩ := by
  rw [turn, hs]

theorem turn_reset (hs : s.state = .SPDY_RESET ∨ s.state = .SPDY_AUTO_RESET) :
    s.turn data = some ⟨s.reset.changeState .SPDY_READING_COMMON_HEADER, data, [.Reset]⟩ := by
  unfold turn
  rcases hs with hs | hs <;> rw [hs]

/-- Once the header is read, an error was found, or the frame is dropped, or its payload is next. -/
theorem processControlFrameHeader_cases :
    s.processControlFrameHeader.1.state = .SPDY_ERROR ∨ s.processControlFrameHeader.1.state = .SPDY_AUTO_RESET ∨
      s.processControlFrameHeader.1.state = .SPDY_CONTROL_FRAME_PAYLOAD ∧
        s.processControlFrameHeader.1.remainingData = s.remainingData ∧
        s.processControlFrameHeader.1.remainingControlPayload = s.currentFrameBuffer.payloadLength := by
  unfold processControlFrameHeader
  split
  · exact .inl rfl
  · split
    · exact .inl rfl
    · split
      · exact .inr (.inl rfl)
      · have hcheck : s.checkControlFrameSize.1.currentFrameBuffer = s.currentFrameBuffer ∧
            s.checkControlFrameSize.1.remainingData = s.remainingData := by
          unfold checkControlFrameSize
          split
          · split <;> exact ⟨rfl, rfl⟩
          · exact ⟨rfl, rfl⟩
        dsimp only [startControlFramePayload]
        split
        · exact .inl rfl
        · refine .inr (.inr ⟨rfl, ?_, ?_⟩)
          · exact (remainingData_expandControlFrameBuffer _).trans hcheck.2
          · refine (remainingControlPayload_expandControlFrameBuffer _).trans ?_
            rw [hcheck.1]

theorem state_forwarded (calls : List Call) : (s.forwarded amount data calls).state.state = s.state := by
  dsimp only [forwarded]
  split <;> rfl

theorem rest_forwarded (calls : List Call) : (s.forwarded amount data calls).rest = data.drop amount := by
  dsimp only [forwarded]
  split <;> rfl

theorem forwarded_of_lt {amount : ℕ} (h : amount < s.remainingData) (calls : List Call) :
    s.forwarded amount data calls =
      ⟨{ s with remainingData := s.remainingData - amount }, data.drop amount, calls⟩ :=
  if_neg fun hend => by
    have := hend.1
    dsimp only at this
    omega

/-- **Bytes in two parts** are forwarded as the second part is behind the first. -/
theorem forwarded_add (amount' : ℕ) : ∃ s' : SpdyFramer env, ∃ fin : List Call, (∀ c ∈ fin, c.isPlain) ∧
      (∀ data calls, s.forwarded (amount + amount') data calls = ⟨s', data.drop (amount + amount'), calls ++ fin⟩) ∧
      ∀ data calls, ({ s with remainingData := s.remainingData - amount } : SpdyFramer env).forwarded
        amount' data calls = ⟨s', data.drop amount', calls ++ fin⟩ := by
  dsimp only [forwarded]
  rw [Nat.sub_sub]
  by_cases hend : s.remainingData - (amount + amount') = 0 ∧ s.currentFrameBuffer.flags &&& DATA_FLAG_FIN ≠ 0
  · refine ⟨_, [.OnStreamFrameData s.currentFrameBuffer.dataStreamId []], ?_,
      fun data calls => if_pos hend, fun data calls => if_pos hend⟩
    simp [Call.isPlain]
  · refine ⟨{ s with remainingData := s.remainingData - (amount + amount') }, [], by simp,
      fun data calls => ?_, fun data calls => ?_⟩
    · rw [if_neg hend, List.append_nil]
    · rw [if_neg hend, List.append_nil]

theorem state_getStreamDecompressor (streamId : ℕ) :
    (s.getStreamDecompressor streamId).2.state = s.state := by
  unfold getStreamDecompressor
  repeat' split
  all_goals rfl

/-- Data are read in the same state, or the frame is done with, or it cannot be decompressed. -/
theorem processDataFramePayload_cases (data : List UInt8) :
    (s.processDataFramePayload data).state.state = s.state ∨
      (s.processDataFramePayload data).state.state = .SPDY_AUTO_RESET ∨
      (s.processDataFramePayload data).state.state = .SPDY_ERROR := by
  dsimp only [processDataFramePayload]
  split
  · split
    · split
      · dsimp only [forwardCompressed]
        split
        · exact .inl (state_getStreamDecompressor _)
        · split
          · exact .inr (.inr rfl)
          · exact .inl ((state_forwarded _ _).trans (state_getStreamDecompressor _))
      · exact .inl (state_forwarded _ _)
    · exact .inl (state_forwarded _ _)
  · exact .inr (.inl rfl)

theorem mem_forwardCompressed : Call.GetStreamDecompressor s.currentFrameBuffer.dataStreamId ∈
      (s.forwardCompressed amount data).calls := by
  dsimp only [forwardCompressed]
  split
  · exact List.mem_singleton_self _
  · split
    · exact List.mem_cons_self
    · dsimp only [forwarded]
      split
      · exact List.mem_append_left _ List.mem_cons_self
      · exact List.mem_cons_self

def piece (s : SpdyFramer env) (data : List UInt8) : List Call :=
  if s.state = .SPDY_IGNORE_REMAINING_PAYLOAD then []
  else [.OnStreamFrameData s.currentFrameBuffer.dataStreamId data]

theorem isPlain_of_mem_piece {c : Call} (h : c ∈ s.piece data) : c.isPlain := by
  unfold piece at h
  split at h
  · simp at h
  · obtain rfl := List.mem_singleton.1 h
    trivial

def Plain (s : SpdyFramer env) : Prop :=
  s.state = .SPDY_IGNORE_REMAINING_PAYLOAD ∨ s.currentFrameBuffer.flags &&& DATA_FLAG_COMPRESSED = 0

/-- **The bytes of a frame that is not compressed** are forwarded as they are. -/
theorem processDataFramePayload_of_plain (h : Plain s) (hrem : s.remainingData ≠ 0)
    (hdata : data ≠ []) :
    s.processDataFramePayload data = s.forwarded (min s.remainingData data.length) data
        (s.piece (data.take (min s.remainingData data.length))) := by
  have hlen : data.length ≠ 0 := fun h => hdata (List.length_eq_zero_iff.1 h)
  unfold processDataFramePayload piece
  rw [if_pos hrem]
  rcases h with h | h
  · rw [if_neg (by simp [h]), if_pos h]
  · by_cases hs : s.state = .SPDY_IGNORE_REMAINING_PAYLOAD
    · rw [if_neg (by simp [hs]), if_pos hs]
    · rw [if_pos ⟨by omega, hs⟩, if_neg (by simp [h]), if_neg hs]

theorem plain_of_isPlain (hrem : s.remainingData ≠ 0) (hdata : data ≠ [])
    (h : ∀ c ∈ (s.processDataFramePayload data).calls, c.isPlain) : Plain s := by
  have hlen : data.length ≠ 0 := fun h => hdata (List.length_eq_zero_iff.1 h)
  by_contra hplain
  obtain ⟨hs, hflags⟩ := not_or.1 hplain
  rw [processDataFramePayload, if_pos hrem, if_pos ⟨by omega, hs⟩, if_pos hflags] at h
  exact h _ (mem_forwardCompressed _)

theorem Aligned.turn (h : Aligned s) (ht : s.turn data = some t) : Aligned t.state := by
  cases hs : s.state with
  | SPDY_ERROR | SPDY_DONE => cases (turn_eq_none.2 (by simp [hs])).symm.trans ht
  | SPDY_RESET =>
    rw [turn_reset (.inl hs)] at ht
    cases ht
    exact .of_state nofun nofun
  | SPDY_AUTO_RESET =>
    rw [turn_reset (.inr hs)] at ht
    cases ht
    exact .of_state nofun nofun
  | SPDY_READING_COMMON_HEADER =>
    rw [turn_common hs] at ht
    cases ht
    dsimp only [processCommonHeader]
    split
    · split
      · exact .of_state nofun nofun
      · exact .of_state (by simp [updateCurrentFrameBuffer, hs])
          (by simp [updateCurrentFrameBuffer, hs])
    · split
      · exact .of_state nofun nofun
      · exact ⟨fun _ => rfl, nofun⟩
  | SPDY_INTERPRET_CONTROL_FRAME_COMMON_HEADER =>
    rw [turn_interpret hs] at ht
    cases ht
    rcases s.processControlFrameHeader_cases with hs' | hs' | ⟨hs', hdata, hpayload⟩
    · exact .of_state (by simp [hs']) (by simp [hs'])
    · exact .of_state (by simp [hs']) (by simp [hs'])
    · exact ⟨fun h => by simp [hs'] at h, fun _ => by rw [hdata, hpayload, h.header hs]⟩
  | SPDY_CONTROL_FRAME_PAYLOAD =>
    rw [turn_payload _ hs (h.payload hs)] at ht
    cases ht
    split
    · exact ⟨fun h => by simp [hs] at h, fun _ => by rw [h.payload hs]⟩
    · exact .of_state (by simp) (by simp)
  | SPDY_IGNORE_REMAINING_PAYLOAD =>
    rw [turn_forward (.inr hs)] at ht
    cases ht
    rcases s.processDataFramePayload_cases data with hs' | hs' | hs'
    all_goals exact .of_state (by simp [hs', hs]) (by simp [hs', hs])
  | SPDY_FORWARD_STREAM_FRAME =>
    rw [turn_forward (.inl hs)] at ht
    cases ht
    rcases s.processDataFramePayload_cases data with hs' | hs' | hs'
    all_goals exact .of_state (by simp [hs', hs]) (by simp [hs', hs])

end SpdyFramer

end Chromium.Net.Spdy
