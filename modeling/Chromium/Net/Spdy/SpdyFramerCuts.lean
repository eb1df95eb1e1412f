import Chromium.Net.Spdy.SpdyFramerTurns

/-!
# A connection is read in one way however it is cut

`ProcessInput` keeps what it has of a frame from one buffer to the next.  A piece of data is given
to the visitor as it arrives, so the cuts show in the pieces; they do not show once the pieces of a
frame are put together (`coalesce`), and nowhere else.
-/

namespace Chromium.Net.Spdy

open Lib
open List (append_assoc length_append nil_append)

/-! ### Pieces of data -/

namespace Call

def perByte : Call → List Call
  | OnStreamFrameData streamId (b :: data) =>
    (b :: data).map fun c => OnStreamFrameData streamId [c]
  | c => [c]

/-- A call in front of others: data of a stream in front of data of the same stream are one piece,
unless one of them is the end of the stream. -/
def join : Call → List Call → List Call
  | OnStreamFrameData streamId (b :: data), OnStreamFrameData streamId' (b' :: data') :: calls =>
    if streamId = streamId' then OnStreamFrameData streamId (b :: data ++ b' :: data') :: calls
    else OnStreamFrameData streamId (b :: data) :: OnStreamFrameData streamId' (b' :: data') :: calls
  | c, calls => c :: calls

/-- The calls with adjacent pieces of data put together.  Pieces of different frames are not
adjacent: the framer calls `Reset` between frames. -/
def coalesce (calls : List Call) : List Call := calls.foldr join []

theorem join_singleton (streamId : ℕ) (b b' : UInt8) (data : List UInt8) (calls : List Call) :
    join (OnStreamFrameData streamId [b]) (join (OnStreamFrameData streamId (b' :: data)) calls) =
      join (OnStreamFrameData streamId (b :: b' :: data)) calls := by
  have hnew : ∀ rest : List Call,
      join (OnStreamFrameData streamId [b]) (OnStreamFrameData streamId (b' :: data) :: rest) =
        OnStreamFrameData streamId (b :: b' :: data) :: rest := fun rest => by simp [join]
  cases calls with
  | nil => exact hnew []
  | cons c rest =>
    cases c with
    | OnStreamFrameData streamId' data' =>
      cases data' with
      | nil => exact hnew _
      | cons b'' data' => by_cases h : streamId = streamId' <;> simp [join, h]
    | OnError | OnControl | Reset | GetStreamDecompressor => exact hnew _

theorem foldr_join_perByte (c : Call) (calls : List Call) :
    (perByte c).foldr join calls = join c calls := by
  cases c with
  | OnStreamFrameData streamId data =>
    cases data with
    | nil => rfl
    | cons b data =>
      induction data generalizing b with
      | nil => rfl
      | cons b' data ih =>
        rw [← join_singleton, ← ih b']
        rfl
  | OnError | OnControl | Reset | GetStreamDecompressor => rfl

theorem coalesce_perByte (calls : List Call) : coalesce (calls.flatMap perByte) = coalesce calls := by
  induction calls with
  | nil => rfl
  | cons c calls ih =>
    rw [List.flatMap_cons, coalesce, List.foldr_append, foldr_join_perByte]
    exact congrArg (join c) ih

theorem coalesce_congr {calls calls' : List Call}
    (h : calls.flatMap perByte = calls'.flatMap perByte) : coalesce calls = coalesce calls' := by
  rw [← coalesce_perByte, h, coalesce_perByte]

theorem perByte_append {streamId : ℕ} {data data' : List UInt8} (h : data ≠ []) (h' : data' ≠ []) :
    perByte (OnStreamFrameData streamId (data ++ data')) =
      perByte (OnStreamFrameData streamId data) ++ perByte (OnStreamFrameData streamId data') := by
  obtain ⟨b, data, rfl⟩ := List.exists_cons_of_ne_nil h
  obtain ⟨b', data', rfl⟩ := List.exists_cons_of_ne_nil h'
  show ((b :: data) ++ (b' :: data')).map (fun c => OnStreamFrameData streamId [c]) = _
  exact List.map_append

end Call

namespace SpdyFramer

variable {env : FramerEnv} {s : SpdyFramer env} {data bytes : List UInt8} {t : Processed env}

/-! ### The loop is left -/

def weight (s : SpdyFramer env) : ℕ :=
  match s.state with
  | .SPDY_ERROR => 0
  | .SPDY_DONE => 0
  | .SPDY_RESET => 1
  | .SPDY_AUTO_RESET => 1
  | .SPDY_READING_COMMON_HEADER =>
    if s.currentFrameBuffer.length < SpdyFrame.size then 0 else 4
  | .SPDY_INTERPRET_CONTROL_FRAME_COMMON_HEADER => 3
  | .SPDY_CONTROL_FRAME_PAYLOAD => 2
  | .SPDY_IGNORE_REMAINING_PAYLOAD => 2
  | .SPDY_FORWARD_STREAM_FRAME => 2

theorem weight_le (s : SpdyFramer env) : s.weight ≤ 4 := by
  unfold weight
  repeat' split
  all_goals omega

theorem ranked_turn :
    Ranked (@turn env) Aligned Call.isPlain fun s data => 5 * data.length + s.weight where
  keeps := Aligned.turn
  lt := by
    intro s data t h hdata ht hok
    have hlen : 0 < data.length := List.length_pos_iff.2 hdata
    have hle := weight_le t.state
    have htake : t.rest.length < data.length →
        5 * t.rest.length + t.state.weight < 5 * data.length + s.weight := by omega
    have hstay : t.rest = data → t.state.weight < s.weight →
        5 * t.rest.length + t.state.weight < 5 * data.length + s.weight := by
      rintro hrest hw
      rw [hrest]
      omega
    cases hs : s.state with
    | SPDY_ERROR | SPDY_DONE => cases (turn_eq_none.2 (by simp [hs])).symm.trans ht
    | SPDY_RESET =>
      rw [turn_reset (.inl hs)] at ht
      cases ht
      refine hstay rfl ?_
      simp [weight, changeState, currentFrameBuffer_reset, hs, SpdyFrame.size]
    | SPDY_AUTO_RESET =>
      rw [turn_reset (.inr hs)] at ht
      cases ht
      refine hstay rfl ?_
      simp [weight, changeState, currentFrameBuffer_reset, hs, SpdyFrame.size]
    | SPDY_READING_COMMON_HEADER =>
      rw [turn_common hs] at ht
      cases ht
      by_cases hsize : s.currentFrameBuffer.length < SpdyFrame.size
      · refine htake ?_
        rw [processCommonHeader, if_pos hsize]
        dsimp only
        split <;> (rw [List.length_drop]; omega)
      · refine hstay ?_ ?_
        all_goals unfold processCommonHeader
        · rw [if_neg hsize]
          dsimp only
          split <;> rfl
        · rw [if_neg hsize]
          dsimp only
          split <;> simp [weight, changeState, hs, hsize]
    | SPDY_INTERPRET_CONTROL_FRAME_COMMON_HEADER =>
      rw [turn_interpret hs] at ht
      cases ht
      refine hstay rfl ?_
      rcases s.processControlFrameHeader_cases with hs' | hs' | ⟨hs', -, -⟩
      all_goals simp [weight, hs, hs']
    | SPDY_CONTROL_FRAME_PAYLOAD =>
      rw [turn_payload _ hs (h.payload hs)] at ht
      cases ht
      split
      · rw [List.length_nil]
        simp only [weight, hs]
        omega
      · rw [List.length_drop]
        simp only [weight, hs]
        omega
    | SPDY_IGNORE_REMAINING_PAYLOAD | SPDY_FORWARD_STREAM_FRAME =>
      rw [turn_forward (by simp [hs])] at ht
      cases ht
      by_cases hrem : s.remainingData = 0
      · refine hstay ?_ ?_
        · simp [processDataFramePayload, hrem]
        · simp [processDataFramePayload, hrem, weight, changeState, hs]
      · refine htake ?_
        rw [processDataFramePayload_of_plain (plain_of_isPlain hrem hdata hok) hrem hdata,
          rest_forwarded, List.length_drop]
        omega

/-! ### Cuts -/

variable {xs ys : List UInt8}

theorem perByte_piece_append (hdata : data ≠ []) (hbytes : bytes ≠ []) :
    (s.piece (data ++ bytes)).flatMap Call.perByte =
      (s.piece data).flatMap Call.perByte ++ (s.piece bytes).flatMap Call.perByte := by
  unfold piece
  split
  · rfl
  · simp only [List.flatMap_cons, List.flatMap_nil, List.append_nil]
    exact Call.perByte_append hdata hbytes

theorem cutAt_of_eq {u : Processed env} (hu : s.turn xs = some u)
    (ht : t = { u with rest := u.rest ++ ys }) (hok : ∀ c ∈ t.calls, c.isPlain) :
    CutAt turn Call.isPlain Call.perByte s xs ys t := by
  subst ht
  exact ⟨u, hu, hok, .inl rfl⟩

theorem cutAt_common (hs : s.state = .SPDY_READING_COMMON_HEADER)
    (hok : ∀ c ∈ (s.processCommonHeader (xs ++ ys)).calls, c.isPlain) :
    CutAt turn Call.isPlain Call.perByte s xs ys (s.processCommonHeader (xs ++ ys)) := by
  by_cases hsize : s.currentFrameBuffer.length < SpdyFrame.size
  · by_cases hle : SpdyFrame.size - s.currentFrameBuffer.length ≤ xs.length
    · refine cutAt_of_eq (turn_common hs) ?_ hok
      unfold processCommonHeader
      rw [if_pos hsize, if_pos hsize]
      simp only [List.take_append_of_le_length hle, List.drop_append_of_le_length hle]
      split <;> rfl
    · -- the header goes on behind the cut
      have hxs : s.processCommonHeader xs = ⟨s.updateCurrentFrameBuffer xs, [], []⟩ := by
        unfold processCommonHeader
        rw [if_pos hsize]
        simp only [List.take_of_length_le (Nat.le_of_not_le hle), List.drop_of_length_le (Nat.le_of_not_le hle)]
        refine if_neg fun h => ?_
        have := h.1
        simp only [updateCurrentFrameBuffer, length_append] at this
        omega
      have hsize' : (s.updateCurrentFrameBuffer xs).currentFrameBuffer.length < SpdyFrame.size := by
        simp only [updateCurrentFrameBuffer, length_append]
        omega
      have hsub : SpdyFrame.size - (s.currentFrameBuffer ++ xs).length =
          SpdyFrame.size - s.currentFrameBuffer.length - xs.length := by
        rw [length_append]
        omega
      have hys : (s.updateCurrentFrameBuffer xs).processCommonHeader ys =
          s.processCommonHeader (xs ++ ys) := by
        unfold processCommonHeader
        rw [if_pos hsize, if_pos hsize']
        simp only [updateCurrentFrameBuffer, hsub, List.take_append, List.drop_append,
          List.take_of_length_le (Nat.le_of_not_le hle),
          List.drop_of_length_le (Nat.le_of_not_le hle), append_assoc, nil_append]
      refine ⟨_, turn_common hs, by simp [hxs], .inr ⟨by rw [hxs], _, ?_, hok, rfl, rfl, ?_⟩⟩
      · rw [hxs, ← hys]
        exact turn_common hs
      · rw [hxs, nil_append]
  · refine cutAt_of_eq (turn_common hs) ?_ hok
    unfold processCommonHeader
    rw [if_neg hsize, if_neg hsize]
    dsimp only
    split <;> rfl

theorem cutAt_payload (hs : s.state = .SPDY_CONTROL_FRAME_PAYLOAD)
    (hrem : s.remainingControlPayload = s.remainingData) (ht : s.turn (xs ++ ys) = some t)
    (hok : ∀ c ∈ t.calls, c.isPlain) : CutAt turn Call.isPlain Call.perByte s xs ys t := by
  rw [turn_payload _ hs hrem] at ht
  have hxs := turn_payload xs hs hrem
  by_cases hlt : xs.length < s.remainingControlPayload
  · rw [if_pos hlt] at hxs
    have hys := turn_payload ys (s := { s with
        currentFrameBuffer := s.currentFrameBuffer ++ xs
        remainingControlPayload := s.remainingControlPayload - xs.length
        remainingData := s.remainingData - xs.length }) hs (by simp only [hrem])
    refine ⟨_, hxs, by simp, .inr ⟨rfl, t, hys.trans (.trans ?_ ht), hok, rfl, rfl, rfl⟩⟩
    have hle : xs.length ≤ s.remainingControlPayload := Nat.le_of_lt hlt
    refine congrArg some ?_
    by_cases hall : (xs ++ ys).length < s.remainingControlPayload
    all_goals rw [length_append] at hall
    · rw [if_pos (by dsimp only; omega), if_pos (by rw [length_append]; exact hall)]
      simp only [append_assoc, length_append, Nat.sub_sub]
    · rw [if_neg (by dsimp only; omega), if_neg (by rw [length_append]; exact hall)]
      simp only [append_assoc, List.take_append, List.drop_append,
        List.take_of_length_le hle, List.drop_of_length_le hle, nil_append]
  · rw [if_neg hlt] at hxs
    rw [if_neg (by rw [length_append]; omega)] at ht
    cases ht
    refine cutAt_of_eq hxs ?_ hok
    simp only [List.take_append_of_le_length (Nat.le_of_not_lt hlt),
      List.drop_append_of_le_length (Nat.le_of_not_lt hlt)]

theorem cutAt_data
    (hs : s.state = .SPDY_FORWARD_STREAM_FRAME ∨ s.state = .SPDY_IGNORE_REMAINING_PAYLOAD)
    (hxs : xs ≠ []) (hys : ys ≠ [])
    (hok : ∀ c ∈ (s.processDataFramePayload (xs ++ ys)).calls, c.isPlain) :
    CutAt turn Call.isPlain Call.perByte s xs ys (s.processDataFramePayload (xs ++ ys)) := by
  have hxys : xs ++ ys ≠ [] := List.append_ne_nil_of_left_ne_nil hxs ys
  by_cases hrem : s.remainingData = 0
  · refine cutAt_of_eq (turn_forward hs) ?_ hok
    simp [processDataFramePayload, hrem]
  · have hplain := plain_of_isPlain hrem hxys hok
    have hall := processDataFramePayload_of_plain hplain hrem hxys
    have hfst := processDataFramePayload_of_plain hplain hrem hxs
    rw [hall] at hok ⊢
    by_cases hle : s.remainingData ≤ xs.length
    · have hmin : min s.remainingData (xs ++ ys).length = min s.remainingData xs.length := by
        rw [length_append]
        omega
      have hmin' : min s.remainingData xs.length = s.remainingData := by omega
      refine cutAt_of_eq ((turn_forward hs).trans (congrArg some hfst)) ?_ hok
      rw [hmin, hmin', List.take_append_of_le_length hle]
      dsimp only [forwarded]
      split <;> simp only [List.drop_append_of_le_length hle]
    · -- the data go on behind the cut
      rw [Nat.min_eq_right (Nat.le_of_not_le hle), List.take_length,
        forwarded_of_lt (Nat.lt_of_not_le hle), List.drop_length] at hfst
      obtain ⟨m, hm⟩ : ∃ m, m = min (s.remainingData - xs.length) ys.length := ⟨_, rfl⟩
      have hamount : min s.remainingData (xs ++ ys).length = xs.length + m := by
        rw [length_append]
        omega
      have htake : ys.take m ≠ [] := by
        have := List.length_pos_iff.2 hys
        rw [← List.length_pos_iff, List.length_take]
        omega
      have hsnd := processDataFramePayload_of_plain
        (s := { s with remainingData := s.remainingData - xs.length }) hplain
        (show s.remainingData - xs.length ≠ 0 by omega) hys
      obtain ⟨s', fin, hfin, hadd, hadd'⟩ := s.forwarded_add xs.length m
      rw [← hm, hadd'] at hsnd
      rw [hamount, List.take_length_add_append, hadd]
      refine ⟨_, (turn_forward hs).trans (congrArg some hfst), fun c hc => isPlain_of_mem_piece hc,
        .inr ⟨rfl, _, (turn_forward (s := { s with
          remainingData := s.remainingData - xs.length }) hs).trans (congrArg some hsnd),
          ?_, rfl, ?_, ?_⟩⟩
      · intro c hc
        exact (List.mem_append.1 hc).elim isPlain_of_mem_piece (hfin c)
      · exact (List.drop_length_add_append _).symm
      · simp only [List.flatMap_append, perByte_piece_append hxs htake, append_assoc]
        rfl

/-- **A turn on the bytes before a cut** is the turn on all bytes, or the next turn takes up where it
ended. -/
theorem cuttable_turn : Cuttable (@turn env) Aligned Call.isPlain Call.perByte where
  stop h := turn_eq_none.2 (turn_eq_none.1 h)
  cut := by
    intro s xs ys t h hxs hys ht hok
    cases hs : s.state with
    | SPDY_ERROR | SPDY_DONE => cases (turn_eq_none.2 (by simp [hs])).symm.trans ht
    | SPDY_RESET | SPDY_AUTO_RESET =>
      rw [turn_reset (by simp [hs])] at ht
      cases ht
      exact cutAt_of_eq (turn_reset (by simp [hs])) rfl hok
    | SPDY_READING_COMMON_HEADER =>
      rw [turn_common hs] at ht
      cases ht
      exact cutAt_common hs hok
    | SPDY_INTERPRET_CONTROL_FRAME_COMMON_HEADER =>
      rw [turn_interpret hs] at ht
      cases ht
      exact cutAt_of_eq (turn_interpret hs) rfl hok
    | SPDY_CONTROL_FRAME_PAYLOAD => exact cutAt_payload hs (h.payload hs) ht hok
    | SPDY_IGNORE_REMAINING_PAYLOAD | SPDY_FORWARD_STREAM_FRAME =>
      rw [turn_forward (by simp [hs])] at ht
      cases ht
      exact cutAt_data (by simp [hs]) hxs hys hok

/-! ### Streams -/

/-- `ProcessInput` on one buffer after the other. -/
def processInputs (s : SpdyFramer env) (bufs : List (List UInt8)) : Processed env :=
  feed processInput s bufs

/-- No data frame of the stream is compressed: a framer that is given the whole stream looks for no
decompressor. -/
def NotCompressed (env : FramerEnv) (bytes : List UInt8) : Prop :=
  ∀ streamId, .GetStreamDecompressor streamId ∉ ((new env).processInput bytes).calls

/-- What the visitor sees: its calls, with adjacent pieces of data of one frame put together. -/
def visitorView (calls : List Call) : List Call :=
  (Call.coalesce calls).filter Call.isVisitorCall

theorem NotCompressed.isPlain (h : NotCompressed env bytes) :
    ∀ c ∈ ((new env).processInput bytes).calls, c.isPlain := by
  intro c hc
  cases c with
  | GetStreamDecompressor streamId => exact absurd hc (h streamId)
  | OnError | OnControl | OnStreamFrameData | Reset => trivial

theorem rank_lt (s : SpdyFramer env) (data : List UInt8) :
    5 * data.length + s.weight < 5 * data.length + 5 := by
  have := s.weight_le
  omega

theorem processInputs_flatten {bufs : List (List UInt8)} (h : NotCompressed env bufs.flatten) :
    let whole := (new env).processInput bufs.flatten
    let parts := (new env).processInputs bufs
    Returns turn processInput (new env) bufs ∧ parts.state = whole.state ∧ parts.rest = whole.rest ∧
      parts.calls.flatMap Call.perByte = whole.calls.flatMap Call.perByte :=
  feed_flatten (fun _ data => 5 * data.length + 5) cuttable_turn ranked_turn
    (fun s data => s.rank_lt data) aligned_new h.isPlain

end SpdyFramer

end Chromium.Net.Spdy
