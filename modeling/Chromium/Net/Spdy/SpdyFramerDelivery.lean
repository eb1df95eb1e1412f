import Chromium.Net.Spdy.SpdyFrameReading
import Chromium.Net.Spdy.SpdyFramerCuts

/-!
# Frames are delivered as they were built

A framer is between two frames (`Ready`) when it has done with one and has not read the next.  From
there it reads a control frame (`exits_controlFrame`) or a data frame (`exits_dataFrame`) and is between
frames again, so that the frames of a connection reach the visitor in their order, each with what was
given to the function that built it (`delivers_create`).
-/

namespace Chromium.Net.Spdy

open Lib

namespace SpdyFramer

variable {env : FramerEnv} {s : SpdyFramer env} {header payload rest : List UInt8}
  {type : SpdyControlType} {r : Processed env}

/-- The calls for a data frame: one for its payload, and one for the end of the stream.  An empty frame
that does not end the stream is not given out. -/
def dataFrameCalls (streamId flags : ℕ) (payload : List UInt8) : List Call :=
  (if payload = [] then [] else [.OnStreamFrameData streamId payload]) ++
    if flags &&& DATA_FLAG_FIN ≠ 0 then [.OnStreamFrameData streamId []] else []

def Ready (s : SpdyFramer env) : Prop :=
  s.state = .SPDY_RESET ∨ s.state = .SPDY_AUTO_RESET ∨ s.state = .SPDY_FORWARD_STREAM_FRAME ∧ s.remainingData = 0

theorem Ready.exits (h : Ready s) (hrest : rest ≠ []) :
    ∃ s' : SpdyFramer env, s'.state = .SPDY_READING_COMMON_HEADER ∧ s'.currentFrameBuffer = [] ∧
      ∀ r, Exits turn s' rest r → Exits turn s rest (r.after [.Reset]) := by
  have hreset : ∀ s : SpdyFramer env, s.state = .SPDY_RESET ∨ s.state = .SPDY_AUTO_RESET →
      ∀ r, Exits turn (s.reset.changeState .SPDY_READING_COMMON_HEADER) rest r →
        Exits turn s rest (r.after [.Reset]) :=
    fun s hs r hr => .turn hrest (turn_reset hs) hr
  rcases h with hs | hs | ⟨hs, hrem⟩
  · exact ⟨s.reset.changeState .SPDY_READING_COMMON_HEADER, rfl, currentFrameBuffer_reset s,
      hreset s (.inl hs)⟩
  · exact ⟨s.reset.changeState .SPDY_READING_COMMON_HEADER, rfl, currentFrameBuffer_reset s,
      hreset s (.inr hs)⟩
  · -- the framer finds only now that the data frame is complete
    refine ⟨(s.changeState .SPDY_AUTO_RESET).reset.changeState .SPDY_READING_COMMON_HEADER, rfl,
      currentFrameBuffer_reset _, fun r hr => ?_⟩
    have hdone : s.turn rest = some ⟨s.changeState .SPDY_AUTO_RESET, rest, []⟩ := by
      rw [turn_forward (.inl hs), processDataFramePayload, if_neg (by simpa using hrem)]
    exact .turn hrest hdone (hreset _ (.inr rfl) r hr)

theorem turn_header (hs : s.state = .SPDY_READING_COMMON_HEADER) (hbuffer : s.currentFrameBuffer = [])
    (hheader : header.length = 8)
    (hempty : SpdyFrame.isControlFrame header = true ∨ SpdyFrame.payloadLength header ≠ 0) :
    s.turn (header ++ rest) = some ⟨{ s with currentFrameBuffer := header }, rest, []⟩ := by
  have htake : (header ++ rest).take 8 = header := List.take_left' hheader
  have hdrop : (header ++ rest).drop 8 = rest := List.drop_left' hheader
  rw [turn_common hs, processCommonHeader, hbuffer, if_pos (by decide)]
  simp only [updateCurrentFrameBuffer, hbuffer, List.nil_append, List.length_nil, SpdyFrame.size,
    Nat.sub_zero, htake, hdrop]
  rw [if_neg]
  rintro ⟨-, hcontrol, hlength⟩
  rcases hempty with h | h
  · exact hcontrol h
  · exact h hlength

theorem turn_headerRead (hs : s.state = .SPDY_READING_COMMON_HEADER)
    (hheader : s.currentFrameBuffer.length = 8) :
    s.turn rest = some ⟨{ s with
      remainingData := s.currentFrameBuffer.payloadLength
      state := if s.currentFrameBuffer.isControlFrame then .SPDY_INTERPRET_CONTROL_FRAME_COMMON_HEADER
        else .SPDY_FORWARD_STREAM_FRAME }, rest, []⟩ := by
  rw [turn_common hs, processCommonHeader, if_neg (by rw [hheader, SpdyFrame.size]; omega)]
  dsimp only
  cases hcontrol : s.currentFrameBuffer.isControlFrame <;> rfl

theorem Ready.exits_header (h : Ready s) (hheader : header.length = 8)
    (hempty : SpdyFrame.isControlFrame header = true ∨ SpdyFrame.payloadLength header ≠ 0)
    (hrest : rest ≠ []) :
    ∃ s' : SpdyFramer env, s'.currentFrameBuffer = header ∧ s'.remainingData = SpdyFrame.payloadLength header ∧
      s'.state = (if SpdyFrame.isControlFrame header then
        .SPDY_INTERPRET_CONTROL_FRAME_COMMON_HEADER else .SPDY_FORWARD_STREAM_FRAME) ∧
      ∀ r, Exits turn s' rest r → Exits turn s (header ++ rest) (r.after [.Reset]) := by
  have hne : header ++ rest ≠ [] := List.append_ne_nil_of_right_ne_nil header hrest
  obtain ⟨s₁, hs₁, hbuffer, hexits⟩ := h.exits hne
  have hread : s₁.turn (header ++ rest) = some ⟨{ s₁ with currentFrameBuffer := header }, rest, []⟩ :=
    turn_header hs₁ hbuffer hheader hempty
  have hnext : ({ s₁ with currentFrameBuffer := header } : SpdyFramer env).turn rest =
      some ⟨_, rest, []⟩ := turn_headerRead hs₁ hheader
  exact ⟨_, rfl, rfl, rfl, fun r hr => hexits r (.turn hne hread (.turn hrest hnext hr))⟩

/-- What the framer checks of the header of a control frame. -/
structure AcceptedHeader (env : FramerEnv) (header : SpdyFrame) (type : SpdyControlType)
    (length : ℕ) : Prop where
  length_eq : header.length = 8
  isControlFrame : header.isControlFrame = true
  version : header.version = env.spdyVersion
  notNoop : type ≠ .NOOP
  size : hasWrongSize type length = false
  type : header.type = some type
  payloadLength : header.payloadLength = length
  le : length ≤ kControlFrameBufferMaxSize

theorem processControlFrameHeader_of_accepted {length : ℕ}
    (h : AcceptedHeader env s.currentFrameBuffer type length) :
    s.processControlFrameHeader.1.state = .SPDY_CONTROL_FRAME_PAYLOAD ∧
      s.processControlFrameHeader.1.currentFrameBuffer = s.currentFrameBuffer ∧
      s.processControlFrameHeader.1.remainingData = s.remainingData ∧
      s.processControlFrameHeader.1.remainingControlPayload = length ∧
      s.processControlFrameHeader.2 = [] := by
  have hvalid : s.currentFrameBuffer.appearsToBeAValidControlFrame = true :=
    SpdyFrame.appearsToBeAValidControlFrame_iff.2 ⟨type, h.type⟩
  have hcheck : s.checkControlFrameSize = (s, []) := by
    rw [checkControlFrameSize, h.type]
    dsimp only
    rw [h.payloadLength, h.size]
    rfl
  have hnoop : s.currentFrameBuffer.type ≠ some .NOOP := by
    rw [h.type]
    exact fun he => h.notNoop (Option.some_inj.1 he)
  have hle := h.le
  have hstart : s.processControlFrameHeader = s.startControlFramePayload := by
    rw [processControlFrameHeader, if_neg (not_not.2 h.version), if_neg (not_not.2 hvalid), if_neg hnoop, hcheck]
    rfl
  rw [hstart, startControlFramePayload]
  dsimp only
  rw [h.payloadLength, if_neg (by omega)]
  refine ⟨rfl, ?_, ?_, ?_, rfl⟩
  · exact currentFrameBuffer_expandControlFrameBuffer _
  · exact remainingData_expandControlFrameBuffer _
  · exact remainingControlPayload_expandControlFrameBuffer _

theorem exits_controlFrame (h : Ready s) (haccepted : AcceptedHeader env header type payload.length)
    (hpayload : payload ≠ []) (rest : List UInt8) :
    ∃ s' : SpdyFramer env, Ready s' ∧ ∀ r, Exits turn s' rest r →
      Exits turn s (header ++ (payload ++ rest))
        (r.after (.Reset :: controlFrameCalls (header ++ payload))) := by
  have hne : payload ++ rest ≠ [] := List.append_ne_nil_of_left_ne_nil hpayload rest
  obtain ⟨s₁, hbuffer, hrem, hstate, hexits⟩ :=
    h.exits_header haccepted.length_eq (.inl haccepted.isControlFrame) hne
  rw [if_pos haccepted.isControlFrame] at hstate
  rw [haccepted.payloadLength] at hrem
  obtain ⟨hstate₂, hbuffer₂, hrem₂, hpayload₂, hcalls⟩ :=
    processControlFrameHeader_of_accepted (hbuffer ▸ haccepted)
  have hinterpret : s₁.turn (payload ++ rest) = _ := turn_interpret hstate
  have hread := turn_payload (payload ++ rest) hstate₂ (by rw [hpayload₂, hrem₂, hrem])
  rw [hcalls] at hinterpret
  rw [hpayload₂, if_neg (by rw [List.length_append]; omega), List.take_left, List.drop_left, hbuffer₂, hbuffer] at hread
  exact ⟨_, .inr (.inl rfl), fun r hr => hexits _ (.turn hne hinterpret (.turn hne hread hr))⟩

theorem turn_emptyDataFrame (hs : s.state = .SPDY_READING_COMMON_HEADER)
    (hbuffer : s.currentFrameBuffer = []) (hheader : header.length = 8)
    (hcontrol : SpdyFrame.isControlFrame header = false)
    (hempty : SpdyFrame.payloadLength header = 0) :
    s.turn (header ++ rest) =
      some ⟨{ s with state := .SPDY_AUTO_RESET, currentFrameBuffer := header }, rest,
        dataFrameCalls (SpdyFrame.dataStreamId header) (SpdyFrame.flags header) []⟩ := by
  have htake : (header ++ rest).take 8 = header := List.take_left' hheader
  have hdrop : (header ++ rest).drop 8 = rest := List.drop_left' hheader
  rw [turn_common hs, processCommonHeader, hbuffer, if_pos (by decide)]
  simp only [updateCurrentFrameBuffer, hbuffer, List.nil_append, List.length_nil, SpdyFrame.size,
    Nat.sub_zero, htake, hdrop]
  rw [if_pos ⟨hheader, by simp [hcontrol], hempty⟩]
  rfl

theorem turn_payloadOfData (hstate : s.state = .SPDY_FORWARD_STREAM_FRAME)
    (hrem : s.remainingData = payload.length) (hpayload : payload ≠ [])
    (hflags : s.currentFrameBuffer.flags &&& DATA_FLAG_COMPRESSED = 0) :
    ∃ s', Ready s' ∧ s.turn (payload ++ rest) = some ⟨s', rest,
      dataFrameCalls s.currentFrameBuffer.dataStreamId s.currentFrameBuffer.flags payload⟩ := by
  have hlength : payload.length ≠ 0 := by simpa using hpayload
  have hmin : min s.remainingData (payload ++ rest).length = payload.length := by
    rw [hrem, List.length_append]
    omega
  have hpiece : s.piece payload = [.OnStreamFrameData s.currentFrameBuffer.dataStreamId payload] := by
    rw [piece, if_neg (by rw [hstate]; decide)]
  rw [turn_forward (.inl hstate), processDataFramePayload_of_plain (.inr hflags) (by omega)
    (List.append_ne_nil_of_left_ne_nil hpayload rest), hmin, List.take_left, hpiece, forwarded,
    List.drop_left, dataFrameCalls, if_neg hpayload]
  dsimp only
  have hdone : s.remainingData - payload.length = 0 := by omega
  by_cases hfin : s.currentFrameBuffer.flags &&& DATA_FLAG_FIN ≠ 0
  · rw [if_pos ⟨hdone, hfin⟩, if_pos hfin]
    refine ⟨_, ?_, rfl⟩
    exact .inr (.inr ⟨hstate, hdone⟩)
  · rw [if_neg (fun h => hfin h.2), if_neg hfin, List.append_nil]
    refine ⟨_, ?_, rfl⟩
    exact .inr (.inr ⟨hstate, hdone⟩)

theorem exits_dataFrame {streamId flags : ℕ} (h : Ready s) (hid : streamId < 2147483648)
    (hlength : payload.length < 65536) (hflags : flags = 0 ∨ flags = DATA_FLAG_FIN)
    (rest : List UInt8) :
    ∃ s' : SpdyFramer env, Ready s' ∧ ∀ r, Exits turn s' rest r →
      Exits turn s (dataFrame streamId flags payload ++ rest)
        (r.after (.Reset :: dataFrameCalls streamId flags payload)) := by
  have hlt : flags < 256 := by
    rcases hflags with rfl | rfl
    · exact Nat.succ_pos 255
    · decide
  have hplain : flags &&& DATA_FLAG_COMPRESSED = 0 := by rcases hflags with rfl | rfl <;> rfl
  have hlong : payload.length < 16777216 := by omega
  generalize hheader : toBe 4 streamId ++ (flagsAndLength flags payload.length ++ []) = header
  have hsize : header.length = 8 := by
    rw [← hheader]
    simp
  have hcontrol : SpdyFrame.isControlFrame header = false := hheader ▸ isControlFrame_toBe hid _
  have hstream : SpdyFrame.dataStreamId header = streamId := hheader ▸ dataStreamId_toBe hid _
  have hflagsRead : SpdyFrame.flags header = flags :=
    hheader ▸ flags_append_flagsAndLength (length_toBe 4 _) hlt
  have hlengthRead : SpdyFrame.payloadLength header = payload.length :=
    hheader ▸ payloadLength_append_flagsAndLength (length_toBe 4 _) hlt hlong
  have hframe : dataFrame streamId flags payload ++ rest = header ++ (payload ++ rest) := by
    rw [← hheader, dataFrame]
    simp only [List.append_assoc, List.nil_append]
  have hne : header ++ (payload ++ rest) ≠ [] :=
    List.append_ne_nil_of_left_ne_nil (List.ne_nil_of_length_pos (by omega)) _
  rw [hframe]
  by_cases hpayload : payload = []
  · subst hpayload
    obtain ⟨s₁, hs₁, hbuffer, hexits⟩ := h.exits hne
    have hturn : s₁.turn (header ++ ([] ++ rest)) = some ⟨_, rest, _⟩ :=
      turn_emptyDataFrame hs₁ hbuffer hsize hcontrol hlengthRead
    rw [hstream, hflagsRead] at hturn
    exact ⟨_, .inr (.inl rfl), fun r hr => hexits _ (.turn hne hturn hr)⟩
  · have hne' : payload ++ rest ≠ [] := List.append_ne_nil_of_left_ne_nil hpayload rest
    obtain ⟨s₁, hbuffer, hrem, hstate, hexits⟩ :=
      h.exits_header hsize (.inr (by rw [hlengthRead]; simpa using hpayload)) hne'
    rw [hlengthRead] at hrem
    rw [hcontrol, if_neg (by decide)] at hstate
    obtain ⟨s₂, hready, hturn⟩ : ∃ s', Ready s' ∧ s₁.turn (payload ++ rest) = some ⟨s', rest, _⟩ :=
      turn_payloadOfData hstate hrem hpayload (by rw [hbuffer, hflagsRead, hplain])
    rw [hbuffer, hstream, hflagsRead] at hturn
    exact ⟨s₂, hready, fun r hr => hexits _ (.turn hne' hturn hr)⟩

/-! ### Connections -/

end SpdyFramer

namespace BuiltFrame

variable {env : FramerEnv} {f : BuiltFrame}

def calls (version : ℕ) (f : BuiltFrame) : List Call :=
  match f with
  | data streamId bytes flags => SpdyFramer.dataFrameCalls streamId flags bytes
  | f => SpdyFramer.controlFrameCalls (f.create version)

end BuiltFrame

namespace SpdyFramer

variable {env : FramerEnv}

theorem exits_create {s : SpdyFramer env} {f : BuiltFrame} (h : Ready s) (hfits : f.Fits env.spdyVersion)
    (hversion : env.spdyVersion < 32768) (rest : List UInt8) :
    ∃ s' : SpdyFramer env, Ready s' ∧ ∀ r, Exits turn s' rest r →
      Exits turn s (f.create env.spdyVersion ++ rest)
        (r.after (.Reset :: f.calls env.spdyVersion)) := by
  cases htype : f.type? with
  | none =>
    cases f with
    | data streamId bytes flags =>
      rw [BuiltFrame.create_data hfits]
      exact exits_dataFrame h hfits.1 hfits.2.1 hfits.2.2 rest
    | synStream | synReply | headers | rstStream | settings | ping | goAway | windowUpdate =>
      cases htype
  | some type =>
    have haccepted := hfits.accepted htype
    have hcalls : f.calls env.spdyVersion = controlFrameCalls (f.create env.spdyVersion) := by
      cases f with
      | data => cases htype
      | synStream | synReply | headers | rstStream | settings | ping | goAway | windowUpdate => rfl
    rw [hcalls, BuiltFrame.create_eq hfits htype]
    generalize hheader : toBe 2 (kControlFlagMask ||| env.spdyVersion) ++ (toBe 2 type.toNat ++
      flagsAndLength f.flags f.payload.length) = header
    have hframe : controlFrame env.spdyVersion type f.flags f.payload = header ++ f.payload := by
      rw [← hheader, controlFrame]
      simp only [List.append_assoc]
    have hsize : header.length = 8 := by
      rw [← hheader]
      simp
    have hlong : f.payload.length < 16777216 := haccepted.payload_le.trans_lt (by decide)
    have hheaderAccepted : AcceptedHeader env header type f.payload.length :=
      { length_eq := hsize
        isControlFrame := by
          have hwhole : SpdyFrame.isControlFrame
              (controlFrame env.spdyVersion type f.flags f.payload) = true :=
            isControlFrame_controlFrame hversion
          rwa [hframe, SpdyFrame.isControlFrame_append hsize.ge] at hwhole
        version := by
          rw [← SpdyFrame.version_append hsize.ge, ← hframe, version_controlFrame hversion]
        notNoop := haccepted.notNoop
        size := haccepted.size
        type := by rw [← SpdyFrame.type_append hsize.ge, ← hframe, type_controlFrame]
        payloadLength := by
          rw [← SpdyFrame.payloadLength_append hsize.ge, ← hframe, payloadLength_controlFrame haccepted.flags_lt hlong]
        le := haccepted.payload_le }
    rw [hframe, List.append_assoc]
    exact exits_controlFrame h hheaderAccepted (List.ne_nil_of_length_pos haccepted.payload_pos) rest

theorem exits_frames {s : SpdyFramer env} (h : Ready s) (hversion : env.spdyVersion < 32768)
    {frames : List BuiltFrame} (hfits : ∀ f ∈ frames, f.Fits env.spdyVersion) :
    ∃ r : Processed env, Exits turn s (frames.flatMap (BuiltFrame.create env.spdyVersion)) r ∧
      r.rest = [] ∧ Ready r.state ∧
        r.calls = frames.flatMap fun f => .Reset :: f.calls env.spdyVersion := by
  induction frames generalizing s with
  | nil => exact ⟨_, .done, rfl, h, rfl⟩
  | cons f frames ih =>
    obtain ⟨s', hready, hexits⟩ := exits_create h (hfits f List.mem_cons_self) hversion
      (frames.flatMap (BuiltFrame.create env.spdyVersion))
    obtain ⟨r, hr, hrest, hreadyr, hcalls⟩ :=
      ih hready fun f' hf' => hfits f' (List.mem_cons_of_mem _ hf')
    refine ⟨_, hexits r hr, hrest, hreadyr, ?_⟩
    rw [Turn.after, hcalls, List.flatMap_cons]

/-- The calls for a frame: one for a control frame or for data, and one for the end of a stream. -/
def IsFrameCalls (calls : List Call) : Prop := ∃ first fin : List Call, calls = first ++ fin ∧
  (first = [] ∨ (∃ frame, first = [.OnControl frame]) ∨
    ∃ streamId bytes, first = [.OnStreamFrameData streamId bytes]) ∧
  (fin = [] ∨ ∃ streamId, fin = [.OnStreamFrameData streamId []])

theorem calls_cases (version : ℕ) (f : BuiltFrame) : IsFrameCalls (f.calls version) := by
  have hcontrol : ∀ frame, IsFrameCalls (controlFrameCalls frame) := by
    intro frame
    refine ⟨[.OnControl frame],
      if frame.type = some .SYN_REPLY ∧ frame.flags &&& CONTROL_FLAG_FIN ≠ 0 then
        [.OnStreamFrameData frame.streamId []] else [], rfl, .inr (.inl ⟨frame, rfl⟩), ?_⟩
    split
    · exact .inr ⟨_, rfl⟩
    · exact .inl rfl
  cases f with
  | data streamId bytes flags =>
    refine ⟨_, _, rfl, ?_, ?_⟩
    · split
      · exact .inl rfl
      · exact .inr (.inr ⟨_, _, rfl⟩)
    · split
      · exact .inr ⟨_, rfl⟩
      · exact .inl rfl
  | synStream | synReply | headers | rstStream | settings | ping | goAway | windowUpdate =>
    exact hcontrol _

theorem isVisitorCall_calls {version : ℕ} {f : BuiltFrame} {c : Call} (h : c ∈ f.calls version) :
    c.isPlain ∧ c.isVisitorCall = true := by
  obtain ⟨first, fin, hcalls, hfirst, hfin⟩ := calls_cases version f
  rw [hcalls, List.mem_append] at h
  rcases h with h | h
  · rcases hfirst with rfl | ⟨frame, rfl⟩ | ⟨streamId, bytes, rfl⟩
    · cases h
    all_goals rw [List.mem_singleton.1 h]
    · exact ⟨trivial, rfl⟩
    · exact ⟨trivial, rfl⟩
  · rcases hfin with rfl | ⟨streamId, rfl⟩
    · cases h
    · rw [List.mem_singleton.1 h]
      exact ⟨trivial, rfl⟩

theorem foldr_join_calls {version : ℕ} (f : BuiltFrame) {calls : List Call}
    (h : calls = [] ∨ ∃ calls', calls = .Reset :: calls') :
    (f.calls version).foldr Call.join calls = f.calls version ++ calls := by
  obtain ⟨first, fin, hcalls, hfirst, hfin⟩ := calls_cases version f
  rw [hcalls]
  rcases hfin with rfl | ⟨streamId, rfl⟩
  · rcases hfirst with rfl | ⟨frame, rfl⟩ | ⟨streamId, bytes, rfl⟩
    · rfl
    · rfl
    · rcases h with rfl | ⟨calls', rfl⟩ <;> cases bytes <;> rfl
  · rcases hfirst with rfl | ⟨frame, rfl⟩ | ⟨streamId', bytes, rfl⟩
    · rfl
    · rfl
    · cases bytes <;> rfl

theorem visitorView_frames {version : ℕ} (frames : List BuiltFrame) :
    visitorView (frames.flatMap fun f => .Reset :: f.calls version) =
      frames.flatMap (BuiltFrame.calls version) := by
  have hcoalesce : Call.coalesce (frames.flatMap fun f => .Reset :: f.calls version) =
      frames.flatMap fun f => .Reset :: f.calls version := by
    induction frames with
    | nil => rfl
    | cons f frames ih =>
      have hnext : (frames.flatMap fun f => Call.Reset :: f.calls version) = [] ∨
          ∃ calls', (frames.flatMap fun f => Call.Reset :: f.calls version) = .Reset :: calls' := by
        cases frames with
        | nil => exact .inl rfl
        | cons f' frames => exact .inr ⟨_, rfl⟩
      rw [List.flatMap_cons, List.cons_append, Call.coalesce, List.foldr_cons, List.foldr_append]
      rw [Call.coalesce] at ih
      rw [ih, foldr_join_calls f hnext]
      rfl
  rw [visitorView, hcoalesce, List.filter_flatMap]
  refine List.flatMap_congr fun f _ => ?_
  refine (List.filter_cons_of_neg (by decide)).trans ?_
  exact List.filter_eq_self.2 fun c hc => (isVisitorCall_calls hc).2

/-- **Frames are delivered as they were built**: however their bytes are cut into buffers, the visitor
is called for each of them in their order, and reads from each control frame what was given to the
function that built it. -/
theorem delivers_create (env : FramerEnv) (hversion : env.spdyVersion < 32768)
    (hzlib : env.inflateInit.isSome) (frames : List BuiltFrame)
    (hfits : ∀ f ∈ frames, f.Fits env.spdyVersion) (bufs : List (List UInt8))
    (hbufs : bufs.flatten = frames.flatMap (BuiltFrame.create env.spdyVersion)) :
    visitorView ((new env).processInputs bufs).calls = frames.flatMap (BuiltFrame.calls env.spdyVersion) ∧
      ((new env).processInputs bufs).rest = [] ∧
      ∀ f ∈ frames, ∀ type, f.type? = some type → ∀ headerDecompressor,
        readControlFrame env headerDecompressor (f.create env.spdyVersion) = some f ∧
        SpdyFrame.flags (f.create env.spdyVersion) = f.flags ∧
        ∀ block, f.block? = some block →
          parseHeaderBlock env headerDecompressor (f.create env.spdyVersion) ∅ = (true, block) ∧
          parseHeaderBlockInBuffer (SpdyFrame.headerBlock (f.create env.spdyVersion) type) ∅ =
            (true, block) := by
  obtain ⟨r, hr, hrest, -, hcalls⟩ := exits_frames (.inl rfl : Ready (new env)) hversion hfits
  have hplain : ∀ c ∈ r.calls, c.isPlain := by
    intro c hc
    rw [hcalls] at hc
    obtain ⟨f, -, hc⟩ := List.mem_flatMap.1 hc
    rcases List.mem_cons.1 hc with rfl | hc
    · trivial
    · exact (isVisitorCall_calls hc).1
  have hloop : (new env).processInput bufs.flatten = r := by
    rw [hbufs]
    exact ranked_turn.loop_eq hr aligned_new (rank_lt _ _) hplain
  have hnot : NotCompressed env bufs.flatten := by
    intro streamId hmem
    rw [hloop] at hmem
    exact hplain _ hmem
  obtain ⟨-, -, hparts, hseen⟩ := processInputs_flatten hnot
  refine ⟨?_, ?_, fun f hf type htype headerDecompressor => ⟨?_, ?_, fun block hblock => ?_⟩⟩
  · rw [visitorView, Call.coalesce_congr hseen, hloop, hcalls]
    exact visitorView_frames frames
  · rw [hparts, hloop, hrest]
  · exact BuiltFrame.readControlFrame_create (hfits f hf) hzlib headerDecompressor htype
  · have haccepted := (hfits f hf).accepted htype
    rw [BuiltFrame.create_eq (hfits f hf) htype, flags_controlFrame haccepted.flags_lt]
  · exact BuiltFrame.parseHeaderBlock_create (hfits f hf) hzlib headerDecompressor htype hblock

/-- A reply with a header, and two bytes of data that end the stream. -/
theorem delivers_create_replyAndData :
    let reply := BuiltFrame.synReply 1 0 ((∅ : SpdyHeaderBlock).insert [97] [98])
    let body := BuiltFrame.data 1 [104, 105] 1
    visitorView ((new copyEnv).processInputs [reply.create 2 ++ body.create 2]).calls =
        [.OnControl (reply.create 2), .OnStreamFrameData 1 [104, 105], .OnStreamFrameData 1 []] ∧
      readControlFrame copyEnv none (reply.create 2) = some reply := by
  intro reply body
  have hreply : reply.Fits copyEnv.spdyVersion := by
    refine ⟨by decide, by decide, ⟨by decide +kernel, ?_⟩, by decide +kernel⟩
    intro header hheader
    have hlist : ((∅ : SpdyHeaderBlock).insert [97] [98]).toList = [([97], [98])] := by
      decide +kernel
    rw [hlist, List.mem_singleton] at hheader
    subst hheader
    exact ⟨by decide, by decide, by decide, by decide⟩
  have hbody : body.Fits copyEnv.spdyVersion := ⟨by decide, by decide, .inr rfl⟩
  have h := delivers_create copyEnv (by decide) rfl [reply, body]
    (List.forall_mem_cons.2 ⟨hreply, List.forall_mem_singleton.2 hbody⟩)
    [reply.create 2 ++ body.create 2] (by simp [copyEnv, kSpdyProtocolVersion])
  refine ⟨h.1.trans ?_, (h.2.2 reply List.mem_cons_self .SYN_REPLY rfl none).1⟩
  decide +kernel

/-- An empty data frame that does not end a stream does not reach the visitor. -/
theorem not_delivered_emptyDataFrame : (BuiltFrame.data 1 [] 0).Fits copyEnv.spdyVersion ∧
      visitorView ((new copyEnv).processInputs [(BuiltFrame.data 1 [] 0).create 2]).calls = [] :=
  ⟨⟨by decide, by decide, .inl rfl⟩, by decide +kernel⟩

end SpdyFramer

end Chromium.Net.Spdy
