import Chromium.Ipc.ChannelPosix

/-!
# Messages in a stream of bytes

A message as the sender has it, and its bytes.  Of the bytes that came so far, `complete` are the messages all of whose
bytes are there, and `incomplete` the bytes behind them.  The descriptors of a message come beside its first byte, or
through the second pipe, if there is one (`wireOf`, `pipeOf`).
-/

namespace Chromium.Ipc

open Lib
open List (append_assoc cons_append drop_left' length_append)

structure IpcMessage where
  routing : ℕ
  type : ℕ
  flags : ℕ
  pad : ℕ
  payload : List UInt8
  fds : List ℤ
  routing_lt : routing < 4294967296
  type_lt : type < 4294967296
  payload_lt : payload.length < kMaximumMessageSize
  fds_le : fds.length ≤ kMaxDescriptorsPerMessage

namespace IpcMessage

def header (m : IpcMessage) : List UInt8 :=
  toLe 4 m.payload.length ++ (toLe 4 m.routing ++ (toLe 4 m.type ++ (toLe 4 m.flags ++ (toLe 2 m.fds.length ++ toLe 2 m.pad))))

def encode (m : IpcMessage) : List UInt8 := m.header ++ m.payload

def isHello (m : IpcMessage) : Bool := decide (m.routing = MSG_ROUTING_NONE ∧ m.type = HELLO_MESSAGE_TYPE)

def call (m : IpcMessage) : Call :=
  if m.isHello then .onChannelConnected m.encode m.fds else .onMessageReceived m.encode m.fds

variable (m : IpcMessage)

theorem length_header : m.header.length = headerSize := by
  unfold header
  simp only [length_append, length_toLe]
  rfl

theorem length_encode : m.encode.length = headerSize + m.payload.length := by
  rw [encode, length_append, length_header]

theorem drop_take_of_eq (before field after : List UInt8) {bytes : List UInt8} {n k : ℕ}
    (h : bytes = before ++ (field ++ after)) (hn : before.length = n) (hk : field.length = k) : (bytes.drop n).take k = field := by
  rw [h, drop_left' hn, List.take_left' hk]

theorem payloadSize_encode (rest : List UInt8) : leNat ((m.encode ++ rest).take 4) = m.payload.length := by
  have hlt := m.payload_lt
  have hfield : (m.encode ++ rest).take 4 = toLe 4 m.payload.length := by
    rw [encode, header, append_assoc, append_assoc, List.take_left' (length_toLe _ _)]
  rw [hfield, leNat_toLe]
  exact lt_trans hlt (by decide)

theorem numFds_encode : numFds m.encode = m.fds.length := by
  have hle := m.fds_le
  have hfield : (m.encode.drop 16).take 2 = toLe 2 m.fds.length := by
    refine drop_take_of_eq (toLe 4 m.payload.length ++ (toLe 4 m.routing ++ (toLe 4 m.type ++ toLe 4 m.flags))) _
      (toLe 2 m.pad ++ m.payload) ?_ ?_ (length_toLe _ _)
    · simp only [encode, header, append_assoc]
    · simp only [length_append, length_toLe]
  rw [numFds, hfield, leNat_toLe]
  exact lt_of_le_of_lt hle (by decide)

theorem isHelloMessage_encode : isHelloMessage m.encode = m.isHello := by
  have hrouting : (m.encode.drop 4).take 4 = toLe 4 m.routing := by
    refine drop_take_of_eq (toLe 4 m.payload.length) _
      (toLe 4 m.type ++ (toLe 4 m.flags ++ (toLe 2 m.fds.length ++ (toLe 2 m.pad ++ m.payload)))) ?_
      (length_toLe _ _) (length_toLe _ _)
    simp only [encode, header, append_assoc]
  have htype : (m.encode.drop 8).take 4 = toLe 4 m.type := by
    refine drop_take_of_eq (toLe 4 m.payload.length ++ toLe 4 m.routing) _
      (toLe 4 m.flags ++ (toLe 2 m.fds.length ++ (toLe 2 m.pad ++ m.payload))) ?_ ?_ (length_toLe _ _)
    · simp only [encode, header, append_assoc]
    · simp only [length_append, length_toLe]
  rw [isHelloMessage, hrouting, htype, leNat_toLe m.routing_lt, leNat_toLe m.type_lt, isHello]

theorem findNext_encode_append (rest : List UInt8) : findNext (m.encode ++ rest) = some m.encode.length := by
  have hlen := m.length_encode
  have hsize : headerSize = 20 := rfl
  have hshort : ¬(m.encode ++ rest).length < 4 := by
    rw [length_append]
    omega
  have hroom : ¬(m.encode ++ rest).length < headerSize + m.payload.length := by
    rw [length_append]
    omega
  rw [findNext, if_neg hshort, payloadSize_encode]
  dsimp only
  rw [if_neg hroom, hlen]

theorem findNext_of_prefix {p : List UInt8} (hstart : p <+: m.encode) (hlt : p.length < m.encode.length) :
    findNext p = none := by
  have hlen := m.length_encode
  unfold findNext
  by_cases hshort : p.length < 4
  · rw [if_pos hshort]
  · have htake : p.take 4 = (m.encode ++ []).take 4 := by
      rw [List.append_nil]
      obtain ⟨rest, hrest⟩ := hstart
      rw [← hrest, List.take_append_of_le_length (not_lt.1 hshort)]
    rw [if_neg hshort, htake, payloadSize_encode]
    dsimp only
    rw [if_pos (by omega)]

end IpcMessage

/-! ## What came so far -/

def encodeAll (ms : List IpcMessage) : List UInt8 := ms.flatMap IpcMessage.encode

def complete : List IpcMessage → List UInt8 → List IpcMessage
  | [], _ => []
  | m :: ms, bytes =>
    if m.encode.length ≤ bytes.length then m :: complete ms (bytes.drop m.encode.length) else []

def incomplete : List IpcMessage → List UInt8 → List UInt8
  | [], bytes => bytes
  | m :: ms, bytes =>
    if m.encode.length ≤ bytes.length then incomplete ms (bytes.drop m.encode.length) else bytes

def begun : List IpcMessage → List UInt8 → List IpcMessage
  | [], _ => []
  | m :: ms, bytes =>
    if m.encode.length ≤ bytes.length then begun ms (bytes.drop m.encode.length)
    else if bytes = [] then [] else [m]

variable {m : IpcMessage} {ms : List IpcMessage} {bytes : List UInt8}

theorem encodeAll_cons (m : IpcMessage) (ms : List IpcMessage) : encodeAll (m :: ms) = m.encode ++ encodeAll ms := rfl

theorem complete_cons_of_append (m : IpcMessage) (ms : List IpcMessage) (bytes : List UInt8) :
    complete (m :: ms) (m.encode ++ bytes) = m :: complete ms bytes := by
  rw [complete, if_pos (by rw [length_append]; omega), drop_left' rfl]

theorem incomplete_cons_of_append (m : IpcMessage) (ms : List IpcMessage) (bytes : List UInt8) :
    incomplete (m :: ms) (m.encode ++ bytes) = incomplete ms bytes := by
  rw [incomplete, if_pos (by rw [length_append]; omega), drop_left' rfl]

theorem begun_cons_of_append (m : IpcMessage) (ms : List IpcMessage) (bytes : List UInt8) :
    begun (m :: ms) (m.encode ++ bytes) = begun ms bytes := by
  rw [begun, if_pos (by rw [length_append]; omega), drop_left' rfl]

theorem complete_nil (ms : List IpcMessage) : complete ms [] = [] ∧ incomplete ms [] = [] := by
  cases ms with
  | nil => exact ⟨rfl, rfl⟩
  | cons m ms =>
    have hlen := m.length_encode
    have hshort : ¬m.encode.length ≤ ([] : List UInt8).length := by
      have hsize : headerSize = 20 := rfl
      rw [List.length_nil]
      omega
    rw [complete, incomplete, if_neg hshort, if_neg hshort]
    exact ⟨rfl, rfl⟩

theorem exists_append_or_prefix (h : bytes <+: encodeAll (m :: ms)) :
    (∃ rest, bytes = m.encode ++ rest ∧ rest <+: encodeAll ms) ∨ bytes <+: m.encode ∧ bytes.length < m.encode.length := by
  rw [encodeAll_cons] at h
  rcases Nat.lt_or_ge bytes.length m.encode.length with hlt | hle
  · exact .inr ⟨List.prefix_of_prefix_length_le h (List.prefix_append _ _) hlt.le, hlt⟩
  · obtain ⟨rest, hrest⟩ := List.prefix_of_prefix_length_le (List.prefix_append m.encode (encodeAll ms)) h hle
    rw [← hrest, List.prefix_append_right_inj] at h
    exact .inl ⟨rest, hrest.symm, h⟩

theorem complete_encodeAll (ms : List IpcMessage) : complete ms (encodeAll ms) = ms ∧ incomplete ms (encodeAll ms) = [] := by
  induction ms with
  | nil => exact ⟨rfl, rfl⟩
  | cons m ms ih =>
    rw [encodeAll_cons, complete_cons_of_append, incomplete_cons_of_append, ih.1]
    exact ⟨rfl, ih.2⟩

theorem complete_encodeAll_append (done ms : List IpcMessage) (rest : List UInt8) :
    complete (done ++ ms) (encodeAll done ++ rest) = done ++ complete ms rest := by
  induction done with
  | nil => rfl
  | cons m done ih =>
    rw [encodeAll_cons, cons_append, append_assoc, complete_cons_of_append, ih]
    rfl

theorem incomplete_encodeAll_append (done ms : List IpcMessage) (rest : List UInt8) :
    incomplete (done ++ ms) (encodeAll done ++ rest) = incomplete ms rest := by
  induction done with
  | nil => rfl
  | cons m done ih => rw [encodeAll_cons, cons_append, append_assoc, incomplete_cons_of_append, ih]

theorem encodeAll_complete_append (ms : List IpcMessage) (h : bytes <+: encodeAll ms) :
    bytes = encodeAll (complete ms bytes) ++ incomplete ms bytes := by
  induction ms generalizing bytes with
  | nil => rfl
  | cons m ms ih =>
    rcases exists_append_or_prefix h with ⟨rest, rfl, hrest⟩ | ⟨hstart, hlt⟩
    · rw [complete_cons_of_append, incomplete_cons_of_append, encodeAll_cons, append_assoc, ← ih hrest]
    · rw [complete, incomplete, if_neg (not_le.2 hlt), if_neg (not_le.2 hlt)]
      rfl

theorem complete_prefix (ms : List IpcMessage) (bytes : List UInt8) : complete ms bytes <+: ms := by
  induction ms generalizing bytes with
  | nil => exact List.prefix_rfl
  | cons m ms ih =>
    rw [complete]
    split
    · exact (List.prefix_cons_inj m).2 (ih _)
    · exact List.nil_prefix

/-! ## Descriptors -/

/-- How a channel gets descriptors: whether it may have a second pipe, and is a server. -/
structure Mode where
  usesReadWrite : Bool
  isServer : Bool

namespace Mode

variable (mode : Mode)

def next (fdPipe : Bool) (m : IpcMessage) : Bool := fdPipe || (mode.usesReadWrite && mode.isServer && m.isHello)

def after (fdPipe : Bool) (ms : List IpcMessage) : Bool := ms.foldl mode.next fdPipe

def wireOf : Bool → List IpcMessage → List ℤ
  | _, [] => []
  | fdPipe, m :: ms => (if mode.usesReadWrite && fdPipe then [] else m.fds) ++ wireOf (mode.next fdPipe m) ms

def pipeOf : Bool → List IpcMessage → List (List ℤ)
  | _, [] => []
  | fdPipe, m :: ms =>
    (if (mode.usesReadWrite && fdPipe) = true ∧ m.fds ≠ [] then [m.fds] else []) ++ pipeOf (mode.next fdPipe m) ms

theorem after_append (fdPipe : Bool) (done ms : List IpcMessage) :
    mode.after fdPipe (done ++ ms) = mode.after (mode.after fdPipe done) ms := List.foldl_append

theorem wireOf_append (fdPipe : Bool) (done ms : List IpcMessage) :
    mode.wireOf fdPipe (done ++ ms) = mode.wireOf fdPipe done ++ mode.wireOf (mode.after fdPipe done) ms := by
  induction done generalizing fdPipe with
  | nil => rfl
  | cons m done ih =>
    rw [cons_append, wireOf, ih, wireOf, append_assoc]
    rfl

theorem pipeOf_append (fdPipe : Bool) (done ms : List IpcMessage) :
    mode.pipeOf fdPipe (done ++ ms) = mode.pipeOf fdPipe done ++ mode.pipeOf (mode.after fdPipe done) ms := by
  induction done generalizing fdPipe with
  | nil => rfl
  | cons m done ih =>
    rw [cons_append, pipeOf, ih, pipeOf, append_assoc]
    rfl

theorem wireOf_pipe (hmode : mode.usesReadWrite = true) (ms : List IpcMessage) : mode.wireOf true ms = [] := by
  induction ms with
  | nil => rfl
  | cons m ms ih =>
    have hnext : mode.next true m = true := by rw [next, Bool.true_or]
    rw [wireOf, hnext, ih, hmode]
    rfl

variable {mode} {fdPipe : Bool} {W : List ℤ} {P : List (List ℤ)}

/-- **What came is in order**: bytes of the messages, and at least the descriptors of those that have begun.  Where no
message is incomplete, no descriptor came beside the bytes that is for a later one. -/
structure Arrived (mode : Mode) (fdPipe : Bool) (ms : List IpcMessage) (bytes : List UInt8) (W : List ℤ)
    (P : List (List ℤ)) : Prop where
  bytes_start : bytes <+: encodeAll ms
  wire_of_begun : mode.wireOf fdPipe (complete ms bytes ++ begun ms bytes) <+: W
  wire_start : W <+: mode.wireOf fdPipe ms
  wire_of_complete : incomplete ms bytes = [] → W = mode.wireOf fdPipe (complete ms bytes)
  pipe_of_begun : mode.pipeOf fdPipe (complete ms bytes ++ begun ms bytes) <+: P
  pipe_start : P <+: mode.pipeOf fdPipe ms

theorem Arrived.tail {rest : List UInt8} (h : Arrived mode fdPipe (m :: ms) (m.encode ++ rest) W P) :
    ∃ W' P', W = (if mode.usesReadWrite && fdPipe then [] else m.fds) ++ W' ∧
      P = (if (mode.usesReadWrite && fdPipe) = true ∧ m.fds ≠ [] then [m.fds] else []) ++ P' ∧
      Arrived mode (mode.next fdPipe m) ms rest W' P' := by
  obtain ⟨hbytes, hwire, hwirePrefix, hwireComplete, hbegun, hstart⟩ := h
  rw [complete_cons_of_append, begun_cons_of_append, cons_append] at hwire hbegun
  rw [complete_cons_of_append, incomplete_cons_of_append, wireOf] at hwireComplete
  rw [encodeAll_cons, List.prefix_append_right_inj] at hbytes
  rw [wireOf] at hwire hwirePrefix
  rw [pipeOf] at hbegun hstart
  obtain ⟨V, hV⟩ := hwire
  rw [append_assoc] at hV
  rw [← hV, List.prefix_append_right_inj] at hwirePrefix
  rw [← hV, List.append_right_inj] at hwireComplete
  obtain ⟨Q, hQ⟩ := hbegun
  rw [append_assoc] at hQ
  rw [← hQ, List.prefix_append_right_inj] at hstart
  exact ⟨_, _, hV.symm, hQ.symm, hbytes, ⟨V, rfl⟩, hwirePrefix, hwireComplete, ⟨Q, rfl⟩, hstart⟩

/-- **Behind all messages that are complete the rest came in order.** -/
theorem Arrived.append {done : List IpcMessage} {rest : List UInt8}
    (h : Arrived mode fdPipe (done ++ ms) (encodeAll done ++ rest) W P) :
    ∃ W' P', W = mode.wireOf fdPipe done ++ W' ∧ P = mode.pipeOf fdPipe done ++ P' ∧
      Arrived mode (mode.after fdPipe done) ms rest W' P' := by
  induction done generalizing fdPipe W P with
  | nil => exact ⟨W, P, rfl, rfl, h⟩
  | cons m done ih =>
    rw [encodeAll_cons, append_assoc, cons_append] at h
    obtain ⟨W', P', hW, hP, htail⟩ := h.tail
    obtain ⟨W'', P'', hW', hP', harrived⟩ := ih htail
    refine ⟨W'', P'', ?_, ?_, harrived⟩
    · rw [hW, hW', wireOf, append_assoc]
    · rw [hP, hP', pipeOf, append_assoc]

theorem Arrived.wire_eq_nil (h : Arrived mode fdPipe ms bytes W P) (hmode : mode.usesReadWrite = true)
    (hpipe : fdPipe = true) : W = [] := by
  have hstart := h.wire_start
  rw [hpipe, wireOf_pipe mode hmode] at hstart
  exact List.prefix_nil.1 hstart

end Mode

end Chromium.Ipc
