import Chromium.Lib.Tiling
import Mathlib.Data.UInt

/-!
# The frames of a web socket

`ParseWebSocketFrame` of `net/websockets/websocket_frame_handler.cc`.  A frame is text up to a terminator, or a length
in base 128 and as many bytes.  A frame that the data does not hold to its end is left for later, but the loop over the
length also ends with the data: where no bit of the length has come yet, the frame counts as an empty one.
-/

namespace Chromium.Net.WebSockets

open List (append_assoc append_nil drop_drop drop_left length_append length_cons mem_cons)

/-- `WebSocketFrameHandler::FrameInfo`; a pointer is its offset in the buffer. -/
structure FrameInfo where
  frameStart : ℕ
  frameLength : ℕ
  messageStart : ℕ
  messageLength : ℕ
  deriving DecidableEq

def ERR_INSUFFICIENT_RESOURCES : ℤ := -12

namespace WebSocketFrameHandler

/-- The loop over the length of a frame: the length and what follows it, or nothing if it goes over an `int`. -/
def lengthLoop : List UInt8 → ℕ → Option (ℕ × List UInt8)
  | [], length => some (length, [])
  | c :: p, length =>
    if length > 2147483647 / 128 then none
    else if c &&& 0x80 ≠ 0x80 then some (length * 128 + (c &&& 0x7f).toNat, p)
    else lengthLoop p (length * 128 + (c &&& 0x7f).toNat)

/-- How a turn of the loop of `ParseWebSocketFrame` ends. -/
inductive Turn
  | overflow
  | ended
  | frame (messageStart messageLength : ℕ) (p : List UInt8)

/-- A turn of the loop; the message starts so many bytes behind the start of the frame. -/
def turn (frameByte : UInt8) (p : List UInt8) : Turn :=
  if frameByte &&& 0x80 = 0x80 then
    match lengthLoop p 0 with
    | none => .overflow
    | some (length, rest) =>
      if rest.length ≥ length then .frame (1 + p.length - rest.length) length (rest.drop length) else .ended
  else if 0xff ∈ p then .frame 1 (p.idxOf 0xff) (p.drop (p.idxOf 0xff + 1))
  else .ended

/-! ### Whole frames -/

def fieldValue (length : ℕ) (field : List UInt8) : ℕ :=
  field.foldl (fun length c => length * 128 + (c &&& 0x7f).toNat) length

/-- A frame with its message so many bytes from its start and so many bytes long. -/
inductive IsFrame : List UInt8 → ℕ → ℕ → Prop
  | text {b : UInt8} {message : List UInt8} : b &&& 0x80 ≠ 0x80 → (0xff : UInt8) ∉ message →
      IsFrame (b :: message ++ [0xff]) 1 message.length
  | counted {b last : UInt8} {init message : List UInt8} : b &&& 0x80 = 0x80 → (∀ c ∈ init, c &&& 0x80 = 0x80) →
      last &&& 0x80 ≠ 0x80 → fieldValue 0 (init ++ [last]) = message.length →
      IsFrame (b :: (init ++ [last]) ++ message) (1 + (init ++ [last]).length) message.length

/-- Behind whole frames the data ends inside a length, all of whose bits so far are zero. -/
def EndsInZeroLength (s : List UInt8) : Prop :=
  ∃ (frames : List (List UInt8)) (b : UInt8) (k : ℕ), (∀ f ∈ frames, ∃ m n, IsFrame f m n) ∧ b &&& 0x80 = 0x80 ∧
    s = frames.flatten ++ b :: List.replicate k 0x80

def LengthOverflows (s : List UInt8) : Prop :=
  ∃ (b c : UInt8) (init rest : List UInt8), s = b :: init ++ c :: rest ∧ b &&& 0x80 = 0x80 ∧
    (∀ c ∈ init, c &&& 0x80 = 0x80) ∧ 2147483647 / 128 < fieldValue 0 init

theorem le_fieldValue (length : ℕ) (field : List UInt8) : length ≤ fieldValue length field := by
  induction field generalizing length with
  | nil => exact le_rfl
  | cons c field ih => exact le_trans (by omega) (ih (length * 128 + (c &&& 0x7f).toNat))

theorem eq_of_bits {c : UInt8} (hhigh : c &&& 0x80 = 0x80) (hlow : (c &&& 0x7f).toNat = 0) : c = 0x80 := by
  have hall : ∀ n : Fin 256, UInt8.ofNat n.val &&& 0x80 = 0x80 → (UInt8.ofNat n.val &&& 0x7f).toNat = 0 →
      UInt8.ofNat n.val = 0x80 := by decide +kernel
  have hc := hall ⟨c.toNat, c.toNat_lt⟩
  rw [UInt8.ofNat_toNat] at hc
  exact hc hhigh hlow

theorem eq_replicate_of_fieldValue {field : List UInt8} (h : ∀ c ∈ field, c &&& 0x80 = 0x80)
    (hzero : fieldValue 0 field = 0) : field = List.replicate field.length 0x80 := by
  induction field with
  | nil => rfl
  | cons c field ih =>
    have hlow : (c &&& 0x7f).toNat = 0 := by
      have hle : 0 * 128 + (c &&& 0x7f).toNat ≤ fieldValue 0 (c :: field) := le_fieldValue _ field
      omega
    have hrest : fieldValue 0 field = 0 := by
      have hcons : fieldValue 0 (c :: field) = fieldValue (0 * 128 + (c &&& 0x7f).toNat) field := rfl
      rw [hcons, hlow] at hzero
      exact hzero
    rw [length_cons, List.replicate_succ, ← ih (fun c hc => h c (List.mem_cons_of_mem _ hc)) hrest,
      eq_of_bits (h c List.mem_cons_self) hlow]

theorem lengthLoop_cases (p : List UInt8) (length : ℕ) :
    (∃ init last rest, p = init ++ [last] ++ rest ∧ (∀ c ∈ init, c &&& 0x80 = 0x80) ∧ last &&& 0x80 ≠ 0x80 ∧
      ∀ q, lengthLoop (p ++ q) length = some (fieldValue length (init ++ [last]), rest ++ q)) ∨
    ((∀ c ∈ p, c &&& 0x80 = 0x80) ∧ lengthLoop p length = some (fieldValue length p, [])) ∨
    ∃ init c rest, p = init ++ c :: rest ∧ (∀ c ∈ init, c &&& 0x80 = 0x80) ∧
      2147483647 / 128 < fieldValue length init ∧ lengthLoop p length = none := by
  induction p generalizing length with
  | nil => exact .inr (.inl ⟨fun c hc => (nomatch hc), rfl⟩)
  | cons c p ih =>
    by_cases hlarge : length > 2147483647 / 128
    · exact .inr (.inr ⟨[], c, p, rfl, fun c hc => (nomatch hc), hlarge, if_pos hlarge⟩)
    by_cases hlast : c &&& 0x80 ≠ 0x80
    · exact .inl ⟨[], c, p, rfl, fun c hc => (nomatch hc), hlast, fun q =>
        (if_neg hlarge).trans (if_pos hlast)⟩
    have hnext : ∀ q, lengthLoop (c :: q) length = lengthLoop q (length * 128 + (c &&& 0x7f).toNat) := fun q =>
      (if_neg hlarge).trans (if_neg hlast)
    have hcons : ∀ {init : List UInt8}, (∀ c ∈ init, c &&& 0x80 = 0x80) → ∀ c' ∈ c :: init, c' &&& 0x80 = 0x80 := by
      intro init hinit c' hc'
      rcases mem_cons.1 hc' with rfl | hc'
      · exact not_not.1 hlast
      · exact hinit c' hc'
    rcases ih (length * 128 + (c &&& 0x7f).toNat) with ⟨init, last, rest, rfl, hinit, hstop, hloop⟩ |
      ⟨hp, hloop⟩ | ⟨init, c', rest, rfl, hinit, hvalue, hloop⟩
    · exact .inl ⟨c :: init, last, rest, rfl, hcons hinit, hstop, fun q => (hnext _).trans (hloop q)⟩
    · exact .inr (.inl ⟨hcons hp, (hnext p).trans hloop⟩)
    · exact .inr (.inr ⟨c :: init, c', rest, rfl, hcons hinit, hvalue, (hnext _).trans hloop⟩)

/-- **A turn reports a frame that the data holds to its end**, and the same one with more data, or an empty frame
where the data ends inside a length without a bit. -/
theorem turn_cases (b : UInt8) (p : List UInt8) :
    (∃ frame rest m n, b :: p = frame ++ rest ∧ frame ≠ [] ∧ IsFrame frame m n ∧
      ∀ q, turn b (p ++ q) = .frame m n (rest ++ q)) ∨
    (∃ m k, b &&& 0x80 = 0x80 ∧ p = List.replicate k 0x80 ∧ turn b p = .frame m 0 []) ∨
    (LengthOverflows (b :: p) ∧ turn b p = .overflow) ∨ turn b p = .ended := by
  by_cases hb : b &&& 0x80 = 0x80
  · have hturn : ∀ {p length rest}, lengthLoop p 0 = some (length, rest) → turn b p =
        if rest.length ≥ length then .frame (1 + p.length - rest.length) length (rest.drop length) else .ended := by
      intro p length rest hloop
      rw [turn, if_pos hb, hloop]
    rcases lengthLoop_cases p 0 with ⟨init, last, rest, rfl, hinit, hstop, hloop⟩ | ⟨hp, hloop⟩ |
      ⟨init, c, rest, rfl, hinit, hvalue, hloop⟩
    · by_cases hle : rest.length ≥ fieldValue 0 (init ++ [last])
      · have hlen : (rest.take (fieldValue 0 (init ++ [last]))).length = fieldValue 0 (init ++ [last]) :=
          List.length_take_of_le hle
        refine .inl ⟨_, rest.drop (fieldValue 0 (init ++ [last])), _, _, ?_, List.cons_ne_nil _ _,
          .counted hb hinit hstop hlen.symm, fun q => ?_⟩
        · show b :: (init ++ [last] ++ rest) = b :: (init ++ [last] ++ rest.take _ ++ rest.drop _)
          rw [append_assoc _ (rest.take _), List.take_append_drop]
        · rw [hturn (hloop q), if_pos (le_trans hle (by rw [length_append]; omega)),
            List.drop_append_of_le_length hle, hlen]
          congr 1
          simp only [length_append]
          omega
      · refine .inr (.inr (.inr ?_))
        have hwhole := hturn (hloop [])
        rw [append_nil, append_nil, if_neg hle] at hwhole
        exact hwhole
    · rw [hturn hloop]
      by_cases hle : ([] : List UInt8).length ≥ fieldValue 0 p
      · have hzero : fieldValue 0 p = 0 := Nat.le_zero.1 hle
        refine .inr (.inl ⟨1 + p.length, _, hb, eq_replicate_of_fieldValue hp hzero, ?_⟩)
        rw [if_pos hle, hzero]
        rfl
      · exact .inr (.inr (.inr (if_neg hle)))
    · refine .inr (.inr (.inl ⟨⟨b, c, init, rest, rfl, hb, hinit, hvalue⟩, ?_⟩))
      rw [turn, if_pos hb, hloop]
  · by_cases hmem : 0xff ∈ p
    · obtain ⟨message, rest, rfl, hnot⟩ := List.eq_append_cons_of_mem hmem
      refine .inl ⟨_, rest, _, _, ?_, List.cons_ne_nil _ _, .text hb hnot, fun q => ?_⟩
      · exact congrArg (b :: ·) (append_assoc message [0xff] rest).symm
      · rw [turn, if_neg hb, if_pos (List.mem_append_left q hmem), append_assoc, List.cons_append,
          List.idxOf_append_of_notMem hnot, List.idxOf_cons_self, Nat.add_zero, ← drop_drop, drop_left]
        rfl
    · exact .inr (.inr (.inr ((if_neg hb).trans (if_neg hmem))))

theorem length_le_of_turn {b : UInt8} {p rest : List UInt8} {m n : ℕ} (h : turn b p = .frame m n rest) :
    rest.length ≤ p.length := by
  rcases turn_cases b p with ⟨frame, rest', m', n', heq, hne, -, hturn⟩ | ⟨m', k, -, -, hturn⟩ | ⟨-, hturn⟩ | hturn
  · have hp := hturn []
    rw [append_nil, append_nil, h] at hp
    cases hp
    have hlen := congrArg List.length heq
    have hpos := List.length_pos_iff.2 hne
    rw [length_cons, length_append] at hlen
    omega
  all_goals
    rw [h] at hturn
    cases hturn
  exact Nat.zero_le _

/-! ### The loop over the frames -/

def parseLoop (offset : ℕ) (data : List UInt8) (bufferSize : ℤ) : List FrameInfo × ℤ :=
  match data with
  | [] => ([], bufferSize)
  | frameByte :: p =>
    match _h : turn frameByte p with
    | .overflow => ([], ERR_INSUFFICIENT_RESOURCES)
    | .ended => ([], bufferSize)
    | .frame messageStart messageLength rest =>
      let frameLength := p.length + 1 - rest.length
      let (frameInfo, result) := parseLoop (offset + frameLength) rest (bufferSize + frameLength)
      (⟨offset, frameLength, offset + messageStart, messageLength⟩ :: frameInfo, result)
termination_by data.length
decreasing_by exact Nat.lt_succ_of_le (length_le_of_turn _h)

def parseWebSocketFrame (buffer : List UInt8) : List FrameInfo × ℤ := parseLoop 0 buffer 0

theorem parseLoop_of_turn {offset : ℕ} {bufferSize : ℤ} {b : UInt8} {p : List UInt8} :
    parseLoop offset (b :: p) bufferSize = match turn b p with
      | .overflow => ([], ERR_INSUFFICIENT_RESOURCES)
      | .ended => ([], bufferSize)
      | .frame m n rest =>
        let frameLength := p.length + 1 - rest.length
        let (frameInfo, result) := parseLoop (offset + frameLength) rest (bufferSize + frameLength)
        (⟨offset, frameLength, offset + m, n⟩ :: frameInfo, result) := by
  rw [parseLoop]
  split <;> (rename_i heq; rw [heq])

def totalLength (frameInfo : List FrameInfo) : ℕ := (frameInfo.map FrameInfo.frameLength).sum

structure Parsed (offset : ℕ) (data : List UInt8) (bufferSize : ℤ) (frameInfo : List FrameInfo) (result : ℤ) :
    Prop where
  tiles : Lib.Tiles FrameInfo.frameStart FrameInfo.frameLength offset frameInfo (offset + totalLength frameInfo)
  result : result = bufferSize + totalLength frameInfo ∨
    result = ERR_INSUFFICIENT_RESOURCES ∧ LengthOverflows (data.drop (totalLength frameInfo))
  isPrefix : ¬ EndsInZeroLength data → ∀ q, frameInfo <+: (parseLoop offset (data ++ q) bufferSize).1
  isFrame : ¬ EndsInZeroLength data → ∀ f ∈ frameInfo, IsFrame ((data.drop (f.frameStart - offset)).take f.frameLength)
    (f.messageStart - f.frameStart) f.messageLength

theorem EndsInZeroLength.append {frame rest : List UInt8} {m n : ℕ} (hframe : IsFrame frame m n)
    (h : EndsInZeroLength rest) : EndsInZeroLength (frame ++ rest) := by
  obtain ⟨frames, b, k, hframes, hb, rfl⟩ := h
  refine ⟨frame :: frames, b, k, fun f hf => ?_, hb, (append_assoc _ _ _).symm⟩
  rcases mem_cons.1 hf with rfl | hf
  · exact ⟨m, n, hframe⟩
  · exact hframes f hf

theorem parsed_nil {offset : ℕ} {data : List UInt8} {bufferSize result : ℤ} (h : result = bufferSize ∨
    result = ERR_INSUFFICIENT_RESOURCES ∧ LengthOverflows data) : Parsed offset data bufferSize [] result where
  tiles := rfl
  result := by rwa [totalLength, List.map_nil, List.sum_nil, Nat.cast_zero, add_zero]
  isPrefix _ _ := List.nil_prefix
  isFrame _ _ hf := nomatch hf

theorem parsed_parseLoop (offset : ℕ) (data : List UInt8) (bufferSize : ℤ) :
    Parsed offset data bufferSize (parseLoop offset data bufferSize).1 (parseLoop offset data bufferSize).2 := by
  induction hn : data.length using Nat.strong_induction_on generalizing offset data bufferSize with
  | _ n ih =>
  cases data with
  | nil =>
    rw [parseLoop]
    exact parsed_nil (.inl rfl)
  | cons b p =>
  rcases turn_cases b p with ⟨frame, rest, m, k, heq, hne, hframe, hturn⟩ | ⟨m, k, hb, hp, hturn⟩ |
    ⟨hover, hturn⟩ | hturn
  · have hpos := List.length_pos_iff.2 hne
    have hlen := congrArg List.length heq
    rw [length_cons, length_append] at hlen
    have hparse : ∀ q, parseLoop offset (b :: p ++ q) bufferSize =
        (⟨offset, frame.length, offset + m, k⟩ ::
          (parseLoop (offset + frame.length) (rest ++ q) (bufferSize + frame.length)).1,
        (parseLoop (offset + frame.length) (rest ++ q) (bufferSize + frame.length)).2) := by
      intro q
      have hframeLength : (p ++ q).length + 1 - (rest ++ q).length = frame.length := by
        rw [length_append, length_append]
        omega
      rw [List.cons_append, parseLoop_of_turn, hturn q]
      dsimp only
      rw [hframeLength]
    have hrest := ih rest.length (by rw [← hn, length_cons]; omega) (offset + frame.length) rest
      (bufferSize + frame.length) rfl
    have hwhole := hparse []
    rw [append_nil, append_nil] at hwhole
    rw [hwhole]
    have htotal : totalLength (⟨offset, frame.length, offset + m, k⟩ ::
        (parseLoop (offset + frame.length) rest (bufferSize + frame.length)).1) = frame.length +
        totalLength (parseLoop (offset + frame.length) rest (bufferSize + frame.length)).1 := List.sum_cons
    constructor
    · rw [htotal, ← Nat.add_assoc]
      exact ⟨rfl, hrest.tiles⟩
    · rw [htotal, heq, ← drop_drop, drop_left, Nat.cast_add, ← add_assoc]
      exact hrest.result
    · intro hends q
      rw [hparse q]
      exact List.prefix_cons_inj _ |>.2 (hrest.isPrefix (fun h => hends (heq ▸ h.append hframe)) q)
    · intro hends f hf
      rw [heq]
      rcases mem_cons.1 hf with rfl | hf
      · dsimp only
        rw [Nat.sub_self, List.drop_zero, List.take_left, Nat.add_sub_cancel_left]
        exact hframe
      · have hstart := (hrest.tiles.mem hf).1
        have hdrop : f.frameStart - offset = frame.length + (f.frameStart - (offset + frame.length)) := by omega
        rw [hdrop, ← drop_drop, drop_left]
        exact hrest.isFrame (fun h => hends (heq ▸ h.append hframe)) f hf
  · have hends : EndsInZeroLength (b :: p) := ⟨[], b, k, fun f hf => (nomatch hf), hb, hp ▸ rfl⟩
    have hnil : ∀ offset bufferSize, parseLoop offset [] bufferSize = ([], bufferSize) := fun _ _ => by rw [parseLoop]
    rw [parseLoop_of_turn, hturn]
    dsimp only
    rw [hnil]
    exact ⟨⟨rfl, rfl⟩, .inl rfl, fun h => absurd hends h, fun h => absurd hends h⟩
  all_goals rw [parseLoop_of_turn, hturn]
  · exact parsed_nil (.inr ⟨rfl, hover⟩)
  · exact parsed_nil (.inl rfl)

/-- **The frames tile what is consumed, and their length is returned, or the error of a length that goes over.  Unless
the data ends inside a length without a bit, every frame is whole, and more data only adds frames behind them.** -/
theorem parseWebSocketFrame_spec (p : List UInt8) :
    Lib.Tiles FrameInfo.frameStart FrameInfo.frameLength 0 (parseWebSocketFrame p).1
      (totalLength (parseWebSocketFrame p).1) ∧
    ((parseWebSocketFrame p).2 = totalLength (parseWebSocketFrame p).1 ∨
      (parseWebSocketFrame p).2 = ERR_INSUFFICIENT_RESOURCES ∧
        LengthOverflows (p.drop (totalLength (parseWebSocketFrame p).1))) ∧
    (¬ EndsInZeroLength p → (∀ q, (parseWebSocketFrame p).1 <+: (parseWebSocketFrame (p ++ q)).1) ∧
      ∀ f ∈ (parseWebSocketFrame p).1, IsFrame ((p.drop f.frameStart).take f.frameLength)
        (f.messageStart - f.frameStart) f.messageLength) := by
  have h := parsed_parseLoop 0 p 0
  refine ⟨?_, ?_, fun hends => ⟨h.isPrefix hends, h.isFrame hends⟩⟩
  · have htiles := h.tiles
    rwa [Nat.zero_add] at htiles
  · have hresult := h.result
    rwa [zero_add] at hresult

/-- A length of five full bytes is an error, and a lone length byte is reported as a frame, but not with more data. -/
theorem parseWebSocketFrame_errs :
    parseWebSocketFrame [0x80, 0xff, 0xff, 0xff, 0xff, 0xff] = ([], ERR_INSUFFICIENT_RESOURCES) ∧
      parseWebSocketFrame [0x80] = ([⟨0, 1, 1, 0⟩], 1) ∧
      ¬ (parseWebSocketFrame [0x80]).1 <+: (parseWebSocketFrame ([0x80] ++ [1, 65])).1 := by
  have hlone : parseWebSocketFrame [0x80] = ([⟨0, 1, 1, 0⟩], 1) := by
    rw [parseWebSocketFrame, parseLoop_of_turn, show turn 0x80 [] = .frame 1 0 [] from rfl]
    dsimp only
    rw [parseLoop]
    rfl
  have hmore : parseWebSocketFrame ([0x80] ++ [1, 65]) = ([⟨0, 3, 2, 1⟩], 3) := by
    rw [parseWebSocketFrame, List.singleton_append, parseLoop_of_turn,
      show turn 0x80 [1, 65] = .frame 2 1 [] from rfl]
    dsimp only
    rw [parseLoop]
    rfl
  refine ⟨?_, hlone, ?_⟩
  · rw [parseWebSocketFrame, parseLoop_of_turn]
    rfl
  · rw [hlone, hmore]
    decide

end WebSocketFrameHandler

end Chromium.Net.WebSockets
