import Chromium.Net.Spdy.SpdyFrameLayout

/-!
# Frames are read as they were built

`BuiltFrame` is what a caller gives to the functions that build frames.  The accessors and the parsers give
it back (`readsBack_create`).
-/

namespace Chromium.Net.Spdy

open Lib
open List (append_assoc append_nil length_append)

def kControlFlagsMask : ℕ := 3

/-- The arguments of the functions that build frames. -/
inductive BuiltFrame
  | synStream (streamId associatedStreamId priority flags : ℕ) (block : SpdyHeaderBlock)
  | synReply (streamId flags : ℕ) (block : SpdyHeaderBlock)
  | headers (streamId flags : ℕ) (block : SpdyHeaderBlock)
  | rstStream (streamId : ℕ) (status : SpdyStatusCodes)
  | settings (values : SpdySettings)
  | ping (uniqueId : UInt32)
  | goAway (lastAcceptedStreamId : ℕ)
  | windowUpdate (streamId : ℕ) (deltaWindowSize : UInt32)
  | data (streamId : ℕ) (bytes : List UInt8) (flags : ℕ)

namespace BuiltFrame

def create (version : ℕ) : BuiltFrame → SpdyFrame
  | synStream streamId associatedStreamId priority flags block =>
    createSynStream version streamId associatedStreamId priority flags block
  | synReply streamId flags block => createSynReply version streamId flags block
  | headers streamId flags block => createHeaders streamId flags block
  | rstStream streamId status => createRstStream version streamId status
  | settings values => createSettings version values
  | ping uniqueId => createPingFrame uniqueId
  | goAway lastAcceptedStreamId => createGoAway version lastAcceptedStreamId
  | windowUpdate streamId deltaWindowSize => createWindowUpdate version streamId deltaWindowSize
  | data streamId bytes flags => createDataFrame streamId bytes flags

/-- The headers can be written and are accepted. -/
structure HeadersFit (block : SpdyHeaderBlock) : Prop where
  size_le : block.size ≤ 65535
  fits : ∀ header ∈ block.toList, HeaderFits header

/-- What is asked of the arguments: ids have 31 bits, and a control frame is not longer than a framer
accepts.  A framer of another version than that of the protocol builds no frame of headers and no ping. -/
def Fits (version : ℕ) : BuiltFrame → Prop
  | synStream streamId associatedStreamId priority flags block =>
    streamId < 2147483648 ∧ associatedStreamId < 2147483648 ∧ priority < 4 ∧
      flags ≤ kControlFlagsMask ∧ HeadersFit block ∧ 10 + (writeHeaderBlock block).length ≤ kControlFrameBufferMaxSize
  | synReply streamId flags block =>
    streamId < 2147483648 ∧ flags ≤ kControlFlagsMask ∧ HeadersFit block ∧
      6 + (writeHeaderBlock block).length ≤ kControlFrameBufferMaxSize
  | headers streamId flags block =>
    version = kSpdyProtocolVersion ∧ streamId < 2147483648 ∧ flags ≤ kControlFlagsMask ∧
      HeadersFit block ∧ 6 + (writeHeaderBlock block).length ≤ kControlFrameBufferMaxSize
  | rstStream streamId _ => streamId < 2147483648
  | settings values => 4 + 8 * values.length ≤ kControlFrameBufferMaxSize
  | ping _ => version = kSpdyProtocolVersion
  | goAway lastAcceptedStreamId => lastAcceptedStreamId < 2147483648
  | windowUpdate streamId _ => streamId < 2147483648
  | data streamId bytes flags =>
    streamId < 2147483648 ∧ bytes.length < 65536 ∧ (flags = 0 ∨ flags = DATA_FLAG_FIN)

def type? : BuiltFrame → Option SpdyControlType
  | synStream .. => some .SYN_STREAM
  | synReply .. => some .SYN_REPLY
  | headers .. => some .HEADERS
  | rstStream .. => some .RST_STREAM
  | settings .. => some .SETTINGS
  | ping .. => some .PING
  | goAway .. => some .GOAWAY
  | windowUpdate .. => some .WINDOW_UPDATE
  | data .. => none

def flags : BuiltFrame → ℕ
  | synStream _ _ _ flags _ => flags
  | synReply _ flags _ => flags
  | headers _ flags _ => flags
  | data _ _ flags => flags
  | _ => 0

def block? : BuiltFrame → Option SpdyHeaderBlock
  | synStream _ _ _ _ block => some block
  | synReply _ _ block => some block
  | headers _ _ block => some block
  | _ => none

def payload : BuiltFrame → List UInt8
  | synStream streamId associatedStreamId priority _ block =>
    writeUInt32 streamId ++ writeUInt32 associatedStreamId ++ writeUInt16 (ntohs priority <<< 6) ++
      writeHeaderBlock block
  | synReply streamId _ block => writeUInt32 streamId ++ writeUInt16 0 ++ writeHeaderBlock block
  | headers streamId _ block => writeUInt32 streamId ++ writeUInt16 0 ++ writeHeaderBlock block
  | rstStream streamId status => writeUInt32 streamId ++ writeUInt32 status.toNat
  | settings values => writeUInt32 values.length ++
      values.flatMap fun value => writeUInt32 value.1.toNat ++ writeUInt32 value.2.toNat
  | ping uniqueId => writeUInt32 uniqueId.toNat
  | goAway lastAcceptedStreamId => writeUInt32 lastAcceptedStreamId
  | windowUpdate streamId deltaWindowSize =>
    writeUInt32 streamId ++ writeUInt32 deltaWindowSize.toNat
  | data _ bytes _ => bytes

end BuiltFrame

def parsedHeaders (r : Bool × SpdyHeaderBlock) : Option SpdyHeaderBlock :=
  if r.1 then some r.2 else none

/-- What a visitor reads from a control frame, with the accessors and the parsers for its type. -/
def readControlFrame (env : FramerEnv) (headerDecompressor : Option env.Stream) (frame : SpdyFrame) :
    Option BuiltFrame :=
  let headers := parsedHeaders (parseHeaderBlock env headerDecompressor frame ∅)
  match frame.type with
  | none => none
  | some .SYN_STREAM => headers.map
      (.synStream frame.streamId frame.associatedStreamId frame.priority frame.flags)
  | some .SYN_REPLY => headers.map (.synReply frame.streamId frame.flags)
  | some .HEADERS => headers.map (.headers frame.streamId frame.flags)
  | some .RST_STREAM => some (.rstStream frame.streamId frame.status)
  | some .SETTINGS =>
    if (parseSettings frame []).1 then some (.settings (parseSettings frame []).2) else none
  | some .NOOP => none
  | some .PING => some (.ping frame.uniqueId)
  | some .GOAWAY => some (.goAway frame.lastAcceptedStreamId)
  | some .WINDOW_UPDATE => some (.windowUpdate frame.streamId frame.deltaWindowSize)

/-! ### What is built -/

@[simp]
theorem length_writeUInt16 (value : ℕ) : (writeUInt16 value).length = 2 := length_toBe 2 value

@[simp]
theorem length_writeUInt32 (value : ℕ) : (writeUInt32 value).length = 4 := length_toBe 4 value

theorem length_writeSettings (values : SpdySettings) :
    (values.flatMap fun value => writeUInt32 value.1.toNat ++ writeUInt32 value.2.toNat).length =
      8 * values.length := by
  induction values with
  | nil => rfl
  | cons value values ih =>
    rw [List.flatMap_cons, length_append, ih, length_append, length_writeUInt32,
      length_writeUInt32, List.length_cons]
    omega

namespace BuiltFrame

variable {version : ℕ} {f : BuiltFrame} {type : SpdyControlType}

theorem create_eq (h : f.Fits version) (htype : f.type? = some type) :
    f.create version = controlFrame version type f.flags f.payload := by
  cases f with
  | synStream | synReply =>
    cases htype
    exact createHeaderFrame_eq _ _
  | headers =>
    cases htype
    rw [create, createHeaders, createHeaderFrame_eq, ← h.1]
    rfl
  | rstStream =>
    cases htype
    exact createControlFrame_eq (by simp) (by decide)
  | settings values =>
    cases htype
    have hlength := length_writeSettings values
    have hle : 4 + 8 * values.length ≤ 65536 := h
    refine createControlFrame_eq ?_ ?_
    · rw [length_append, hlength, length_writeUInt32]
      rfl
    · change 4 + 8 * values.length < 16777216
      omega
  | ping =>
    cases htype
    have hversion : version = kSpdyProtocolVersion := h
    rw [create, createPingFrame, createControlFrame_eq (by simp; rfl) (by decide), hversion]
    rfl
  | goAway | windowUpdate =>
    cases htype
    exact createControlFrame_eq (by simp; rfl) (by decide)
  | data => cases htype

theorem create_data {streamId flags : ℕ} {payload : List UInt8}
    (h : (BuiltFrame.data streamId payload flags).Fits version) :
    (BuiltFrame.data streamId payload flags).create version = dataFrame streamId flags payload :=
  createDataFrame_eq h.2.1

/-- What the framer checks of a control frame. -/
structure Accepted (f : BuiltFrame) (type : SpdyControlType) : Prop where
  notNoop : type ≠ .NOOP
  flags_lt : f.flags < 256
  payload_pos : 0 < f.payload.length
  payload_le : f.payload.length ≤ kControlFrameBufferMaxSize
  size : hasWrongSize type f.payload.length = false

theorem Fits.accepted (h : f.Fits version) (htype : f.type? = some type) : f.Accepted type := by
  cases f with
  | synStream streamId associatedStreamId priority flags block =>
    cases htype
    obtain ⟨-, -, -, hflags, -, hle⟩ := h
    have hlength : (synStream streamId associatedStreamId priority flags block).payload.length =
        10 + (writeHeaderBlock block).length := by
      simp [payload]
      omega
    exact ⟨by decide, hflags.trans_lt (by decide), by omega, hlength ▸ hle, by simp [hasWrongSize, hlength, SpdyControlType.size, SpdyFrame.size]⟩
  | synReply streamId flags block =>
    cases htype
    obtain ⟨-, hflags, -, hle⟩ := h
    have hlength : (synReply streamId flags block).payload.length =
        6 + (writeHeaderBlock block).length := by
      simp [payload]
      omega
    exact ⟨by decide, hflags.trans_lt (by decide), by omega, hlength ▸ hle,
      by simp [hasWrongSize, hlength, SpdyControlType.size, SpdyFrame.size]⟩
  | headers streamId flags block =>
    cases htype
    obtain ⟨-, -, hflags, -, hle⟩ := h
    have hlength : (headers streamId flags block).payload.length =
        6 + (writeHeaderBlock block).length := by
      simp [payload]
      omega
    exact ⟨by decide, hflags.trans_lt (by decide), by omega, hlength ▸ hle,
      by simp [hasWrongSize, hlength, SpdyControlType.size, SpdyFrame.size]⟩
  | settings values =>
    cases htype
    have hle : 4 + 8 * values.length ≤ kControlFrameBufferMaxSize := h
    have hlength : (settings values).payload.length = 4 + 8 * values.length := by
      rw [payload, length_append, length_writeSettings, length_writeUInt32]
    exact ⟨by decide, Nat.succ_pos 255, by omega, hlength ▸ hle,
      by simp [hasWrongSize, hlength, SpdyControlType.size, SpdyFrame.size]⟩
  | rstStream | ping | goAway | windowUpdate =>
    cases htype
    exact ⟨by decide, Nat.succ_pos 255, by simp [payload], by simp [payload, kControlFrameBufferMaxSize],
      by simp [payload, hasWrongSize, SpdyControlType.size, SpdyFrame.size]⟩
  | data => cases htype

end BuiltFrame

/-! ### Headers -/

section Headers

variable {version flags : ℕ} {type : SpdyControlType} {fields : List UInt8} {block : SpdyHeaderBlock}

theorem headerBlock_controlFrame {bytes : List UInt8} (hflags : flags < 256)
    (hsize : type.size = 8 + fields.length) (hle : (fields ++ bytes).length < 16777216) :
    SpdyFrame.headerBlock (controlFrame version type flags (fields ++ bytes)) type = bytes := by
  rw [SpdyFrame.headerBlock, payloadLength_controlFrame hflags hle, hsize, drop_controlFrame,
    List.drop_left, SpdyFrame.size, length_append, Nat.add_sub_cancel_left,
    Nat.add_sub_cancel_left, List.take_length]

theorem duplicateFrame_controlFrame {payload : List UInt8} (hflags : flags < 256)
    (hle : payload.length < 16777216) :
    duplicateFrame (controlFrame version type flags payload) =
      controlFrame version type flags payload := by
  rw [duplicateFrame, payloadLength_controlFrame hflags hle, SpdyFrame.size]
  exact List.take_of_length_le length_controlFrame.le

theorem readUInt16_writeHeaderBlock (h : BuiltFrame.HeadersFit block) :
    readUInt16 (writeHeaderBlock block) = some (block.size, block.toList.flatMap writeHeader) := by
  have hsize := h.size_le
  exact readUInt16_writeUInt16 (by omega) _

/-- **`ParseHeaderBlockInBuffer` gives the headers.** -/
theorem parseHeaderBlockInBuffer_writeHeaderBlock (h : BuiltFrame.HeadersFit block) :
    parseHeaderBlockInBuffer (writeHeaderBlock block) ∅ = (true, block) := by
  rw [parseHeaderBlockInBuffer, readUInt16_writeHeaderBlock h]
  dsimp only
  rw [parseHeaders_writeHeaderBlock true h.fits]
  rfl

/-- **`ParseHeaderBlock` gives the headers**, where there is a decompressor. -/
theorem parseHeaderBlock_controlFrame {env : FramerEnv} (henv : env.inflateInit.isSome)
    (headerDecompressor : Option env.Stream)
    (htype : type = .SYN_STREAM ∨ type = .SYN_REPLY ∨ type = .HEADERS) (hflags : flags < 256)
    (hsize : type.size = 8 + fields.length)
    (hle : (fields ++ writeHeaderBlock block).length < 16777216) (h : BuiltFrame.HeadersFit block) :
    parseHeaderBlock env headerDecompressor
      (controlFrame version type flags (fields ++ writeHeaderBlock block)) ∅ = (true, block) := by
  have hframe : decompressFrame env headerDecompressor
      (controlFrame version type flags (fields ++ writeHeaderBlock block)) =
        some (controlFrame version type flags (fields ++ writeHeaderBlock block)) := by
    obtain ⟨stream, hstream⟩ := Option.isSome_iff_exists.1 henv
    rw [decompressFrame, hstream, duplicateFrame_controlFrame hflags hle]
    cases headerDecompressor <;> rfl
  have htype' : ¬ (type ≠ .SYN_STREAM ∧ type ≠ .SYN_REPLY ∧ type ≠ .HEADERS) := by
    rintro ⟨h1, h2, h3⟩
    rcases htype with h | h | h
    · exact h1 h
    · exact h2 h
    · exact h3 h
  rw [parseHeaderBlock, type_controlFrame]
  dsimp only
  rw [if_neg htype', hframe]
  dsimp only
  rw [headerBlock_controlFrame hflags hsize hle, readUInt16_writeHeaderBlock h]
  dsimp only
  rw [parseHeaders_writeHeaderBlock false h.fits]
  rfl

end Headers

/-! ### Settings -/

/-- **`ParseSettings` gives the settings**, behind those that were there before. -/
theorem parseSettingsFrom_writeSettings (values settings : SpdySettings) : parseSettingsFrom values.length
      (values.flatMap fun value => writeUInt32 value.1.toNat ++ writeUInt32 value.2.toNat) settings =
        (true, settings ++ values) := by
  induction values generalizing settings with
  | nil => simp [parseSettingsFrom]
  | cons value values ih =>
    have hid : value.1.toNat < 4294967296 := value.1.toNat_lt
    have hvalue : value.2.toNat < 4294967296 := value.2.toNat_lt
    rw [List.length_cons, List.flatMap_cons, append_assoc, parseSettingsFrom, readUInt32_writeUInt32 hid]
    dsimp only
    rw [readUInt32_writeUInt32 hvalue]
    dsimp only
    rw [ih, UInt32.ofNat_toNat, UInt32.ofNat_toNat, append_assoc, List.singleton_append]

/-! ### Fields -/

section Fields

variable {version flags n : ℕ} {type : SpdyControlType} {bytes : List UInt8}

theorem field_writeUInt32 (h : n < 4294967296) :
    field (controlFrame version type flags (writeUInt32 n ++ bytes)) 8 4 = n := by
  rw [field_controlFrame 0 4, writeUInt32, field_zero (length_toBe 4 n), beNat_toBe_of_lt h]

theorem field_writeUInt32_writeUInt32 {m : ℕ} (h : n < 4294967296) :
    field (controlFrame version type flags (writeUInt32 m ++ (writeUInt32 n ++ bytes))) 12 4 = n := by
  rw [field_controlFrame 4 4, field_append_right (by simp), length_writeUInt32, Nat.sub_self,
    writeUInt32, field_zero (length_toBe 4 n), beNat_toBe_of_lt h]

theorem streamId_controlFrame (h : n < 2147483648) :
    SpdyFrame.streamId (controlFrame version type flags (writeUInt32 n ++ bytes)) = n := by
  rw [SpdyFrame.streamId, field_writeUInt32 (by omega), and_kStreamIdMask h]

theorem associatedStreamId_controlFrame {streamId : ℕ} (h : n < 2147483648) :
    SpdyFrame.associatedStreamId (controlFrame version type flags
      (writeUInt32 streamId ++ (writeUInt32 n ++ bytes))) = n := by
  rw [SpdyFrame.associatedStreamId, field_writeUInt32_writeUInt32 (by omega), and_kStreamIdMask h]

theorem priority_controlFrame {streamId associatedStreamId priority : ℕ} (h : priority < 4) :
    SpdyFrame.priority (controlFrame version type flags (writeUInt32 streamId ++
      (writeUInt32 associatedStreamId ++ (writeUInt16 (ntohs priority <<< 6) ++ bytes)))) = priority := by
  have hbyte : field (writeUInt16 (ntohs priority <<< 6) ++ bytes) 0 1 = priority <<< 6 := by
    rw [field_append (by simp)]
    interval_cases priority <;> decide
  rw [SpdyFrame.priority, field_controlFrame 8 1, field_append_right (by simp), length_writeUInt32,
    field_append_right (by simp), length_writeUInt32, hbyte]
  interval_cases priority <;> decide

/-- **`ParseSettings` gives the settings of the frame.** -/
theorem parseSettings_controlFrame {values : SpdySettings} (hflags : flags < 256)
    (h : (BuiltFrame.settings values).payload.length < 16777216) :
    parseSettings (controlFrame version .SETTINGS flags (BuiltFrame.settings values).payload) [] =
      (true, values) := by
  have hcount : values.length < 4294967296 := by
    rw [BuiltFrame.payload, length_append, length_writeSettings] at h
    omega
  rw [parseSettings, SpdyFrame.numEntries, BuiltFrame.payload, field_writeUInt32 hcount,
    headerBlock_controlFrame hflags (by rw [length_writeUInt32]; rfl) h,
    parseSettingsFrom_writeSettings, List.nil_append]

end Fields

namespace BuiltFrame

variable {env : FramerEnv} {f : BuiltFrame} {type : SpdyControlType}

theorem Fits.exists_fields {version : ℕ} (h : f.Fits version) (htype : f.type? = some type)
    {block : SpdyHeaderBlock} (hblock : f.block? = some block) :
    (type = .SYN_STREAM ∨ type = .SYN_REPLY ∨ type = .HEADERS) ∧
      ∃ fields, f.payload = fields ++ writeHeaderBlock block ∧ type.size = 8 + fields.length ∧
        HeadersFit block := by
  cases f with
  | synStream =>
    cases htype
    cases hblock
    exact ⟨.inl rfl, _, rfl, by simp [SpdyControlType.size], h.2.2.2.2.1⟩
  | synReply =>
    cases htype
    cases hblock
    exact ⟨.inr (.inl rfl), _, rfl, by simp [SpdyControlType.size], h.2.2.1⟩
  | headers =>
    cases htype
    cases hblock
    exact ⟨.inr (.inr rfl), _, rfl, by simp [SpdyControlType.size], h.2.2.2.1⟩
  | rstStream | settings | ping | goAway | windowUpdate | data => cases hblock

theorem parseHeaderBlock_create (h : f.Fits env.spdyVersion) (henv : env.inflateInit.isSome)
    (headerDecompressor : Option env.Stream) (htype : f.type? = some type) {block : SpdyHeaderBlock}
    (hblock : f.block? = some block) :
    parseHeaderBlock env headerDecompressor (f.create env.spdyVersion) ∅ = (true, block) ∧
      parseHeaderBlockInBuffer (SpdyFrame.headerBlock (f.create env.spdyVersion) type) ∅ =
        (true, block) := by
  obtain ⟨hheaders, fields, hpayload, hsize, hfits⟩ := h.exists_fields htype hblock
  have haccepted := h.accepted htype
  have hle : (fields ++ writeHeaderBlock block).length < 16777216 :=
    hpayload ▸ haccepted.payload_le.trans_lt (by decide)
  rw [create_eq h htype, hpayload]
  refine ⟨parseHeaderBlock_controlFrame henv headerDecompressor hheaders haccepted.flags_lt hsize hle
    hfits, ?_⟩
  rw [headerBlock_controlFrame haccepted.flags_lt hsize hle, parseHeaderBlockInBuffer_writeHeaderBlock hfits]

theorem readControlFrame_create (h : f.Fits env.spdyVersion) (henv : env.inflateInit.isSome)
    (headerDecompressor : Option env.Stream) (htype : f.type? = some type) :
    readControlFrame env headerDecompressor (f.create env.spdyVersion) = some f := by
  have haccepted := h.accepted htype
  have hle : f.payload.length < 16777216 := haccepted.payload_le.trans_lt (by decide)
  have hparsed : ∀ block, f.block? = some block → parsedHeaders (parseHeaderBlock env
      headerDecompressor (controlFrame env.spdyVersion type f.flags f.payload) ∅) = some block := by
    intro block hblock
    rw [← create_eq h htype, (parseHeaderBlock_create h henv headerDecompressor htype hblock).1]
    rfl
  rw [create_eq h htype, readControlFrame, type_controlFrame, flags_controlFrame haccepted.flags_lt]
  cases f with
  | synStream streamId associatedStreamId priority flags block =>
    cases htype
    obtain ⟨hid, hassociated, hpriority, -⟩ := h
    rw [hparsed block rfl]
    simp only [payload, append_assoc, Option.map_some, BuiltFrame.flags]
    rw [streamId_controlFrame hid, associatedStreamId_controlFrame hassociated, priority_controlFrame hpriority]
  | synReply streamId flags block =>
    cases htype
    rw [hparsed block rfl]
    simp only [payload, append_assoc, Option.map_some, BuiltFrame.flags]
    rw [streamId_controlFrame h.1]
  | headers streamId flags block =>
    cases htype
    rw [hparsed block rfl]
    simp only [payload, append_assoc, Option.map_some, BuiltFrame.flags]
    rw [streamId_controlFrame h.2.1]
  | settings values =>
    cases htype
    dsimp only
    rw [parseSettings_controlFrame haccepted.flags_lt hle]
    rfl
  | rstStream streamId status =>
    cases htype
    have hstatus := status.toNat_lt
    simp only [payload]
    rw [← append_nil (writeUInt32 status.toNat), streamId_controlFrame h, SpdyFrame.status,
      field_writeUInt32_writeUInt32 (by omega), SpdyStatusCodes.ofNumber_toNat]
  | ping uniqueId =>
    cases htype
    simp only [payload]
    rw [← append_nil (writeUInt32 uniqueId.toNat), SpdyFrame.uniqueId,
      field_writeUInt32 uniqueId.toNat_lt, UInt32.ofNat_toNat]
  | goAway lastAcceptedStreamId =>
    cases htype
    have hid : lastAcceptedStreamId < 2147483648 := h
    simp only [payload]
    rw [← append_nil (writeUInt32 lastAcceptedStreamId), SpdyFrame.lastAcceptedStreamId,
      field_writeUInt32 (by omega), and_kStreamIdMask hid]
  | windowUpdate streamId deltaWindowSize =>
    cases htype
    simp only [payload]
    rw [← append_nil (writeUInt32 deltaWindowSize.toNat), streamId_controlFrame h,
      SpdyFrame.deltaWindowSize, field_writeUInt32_writeUInt32 deltaWindowSize.toNat_lt,
      UInt32.ofNat_toNat]
  | data => cases htype

end BuiltFrame

end Chromium.Net.Spdy
