import Chromium.Net.CurveCP.Messenger

/-!
# Which messages are received

`RecvMessage` makes an error for some messages.  A range that is acknowledged may touch a block that is not in it: the
`CHECK`s fail for a block of which a part is in the range, and also for one that ends where the range begins.  And the
length of the body is compared with the length of the message, of which the header is a part.
-/

namespace Chromium.Net.CurveCP

open Lib SentBlockList

namespace Messenger

variable {env : Environment} {s : Messenger} {message : List UInt8} {l : SentBlockList}

def number (message : List UInt8) (offset size : ℕ) : ℕ := leNat ((message.drop offset).take size)

def rangesFrom (message : List UInt8) : List (ℕ × ℕ) → ℕ → List (ℤ × ℤ)
  | [], _ => []
  | (gap, acknowledge) :: fields, stopByte =>
    let startByte := (stopByte + number message gap 2) % 18446744073709551616
    let stopByte := (startByte + number message acknowledge 2) % 18446744073709551616
    (toInt64 startByte, toInt64 stopByte) :: rangesFrom message fields stopByte

def ackRanges (message : List UInt8) : List (ℤ × ℤ) :=
  (0, toInt64 (number message 8 8)) :: rangesFrom message ackFields (number message 8 8)

/-- Of the blocks that are in none of the ranges before, a range that is not empty touches only those that are in it. -/
def Acknowledges : List Block → List (ℤ × ℤ) → Prop
  | _, [] => True
  | list, (beginRange, endRange) :: ranges =>
    (beginRange = endRange ∨ Acknowledgeable beginRange endRange list) ∧
      Acknowledges (remaining beginRange endRange list) ranges

theorem unpack_eq {offset size : ℕ} (h : offset + size ≤ message.length) :
    unpack message offset size = .ok (number message offset size) := if_pos h

theorem remaining_of_eq {list : List Block} (hne : ∀ block ∈ list, block.data ≠ []) (position : ℤ) :
    remaining position position list = list := by
  refine remaining_eq_self fun block hblock hin => ?_
  have hpos := List.length_pos_of_ne_nil (hne block hblock)
  obtain ⟨hbegin, hend⟩ := hin
  rw [Block.length] at hend
  omega

/-- **A range is acknowledged without an error** when it touches only the blocks that are in it. -/
theorem acknowledgeBlocks_cases (hne : ∀ block ∈ l.list, block.data ≠ []) (beginRange endRange : ℤ) :
    (beginRange = endRange ∨ Acknowledgeable beginRange endRange l.list) ∧
        l.acknowledgeBlocks beginRange endRange = .ok { l with list := remaining beginRange endRange l.list } ∨
      ¬ (beginRange = endRange ∨ Acknowledgeable beginRange endRange l.list) ∧
        l.acknowledgeBlocks beginRange endRange = .error .checkFailed := by
  rw [acknowledgeBlocks_eq]
  by_cases heq : beginRange = endRange
  · subst heq
    rw [if_pos rfl, remaining_of_eq hne]
    exact .inl ⟨.inl rfl, rfl⟩
  · rw [if_neg heq]
    by_cases hack : Acknowledgeable beginRange endRange l.list
    · rw [if_pos hack]
      exact .inl ⟨.inr hack, rfl⟩
    · rw [if_neg hack]
      exact .inr ⟨not_or_intro heq hack, rfl⟩

theorem foldlM_acknowledgeBlocks (hne : ∀ block ∈ l.list, block.data ≠ []) (ranges : List (ℤ × ℤ)) :
    (∃ l', ranges.foldlM (fun l r => l.acknowledgeBlocks r.1 r.2) l = .ok l') ↔ Acknowledges l.list ranges := by
  induction ranges generalizing l with
  | nil => exact iff_of_true ⟨l, rfl⟩ trivial
  | cons range ranges ih =>
    rw [List.foldlM_cons, Acknowledges]
    rcases acknowledgeBlocks_cases hne range.1 range.2 with ⟨hcond, heq⟩ | ⟨hcond, heq⟩
    · have hrest := @ih { l with list := remaining range.1 range.2 l.list } fun block hblock =>
        hne block (mem_remaining.1 hblock).1
      rw [heq]
      exact hrest.trans (and_iff_right hcond).symm
    · rw [heq]
      exact iff_of_false (fun ⟨_, h⟩ => nomatch h) fun h => hcond h.1

theorem acknowledgeLoop_eq {fields : List (ℕ × ℕ)}
    (h : ∀ field ∈ fields, field.1 + 2 ≤ message.length ∧ field.2 + 2 ≤ message.length) (stopByte : ℕ) :
    acknowledgeLoop message fields stopByte l =
      (rangesFrom message fields stopByte).foldlM (fun l r => l.acknowledgeBlocks r.1 r.2) l := by
  induction fields generalizing l stopByte with
  | nil => rfl
  | cons field fields ih =>
    obtain ⟨hgap, hack⟩ := h field List.mem_cons_self
    have hrest : ∀ l stopByte, acknowledgeLoop message fields stopByte l =
        (rangesFrom message fields stopByte).foldlM (fun l r => l.acknowledgeBlocks r.1 r.2) l :=
      fun l stopByte => @ih l (fun field hfield => h field (List.mem_cons_of_mem _ hfield)) stopByte
    rw [acknowledgeLoop, unpack_eq hgap, unpack_eq hack, rangesFrom, List.foldlM_cons]
    exact bind_congr fun l => hrest l _

theorem acknowledge_eq (hlen : sizeofMessage ≤ message.length) :
    acknowledge message l = (ackRanges message).foldlM (fun l r => l.acknowledgeBlocks r.1 r.2) l := by
  have hlen : 64 ≤ message.length := hlen
  have hfields : ∀ field ∈ ackFields, field.1 + 2 ≤ message.length ∧ field.2 + 2 ≤ message.length := fun field hfield => by
    have hbound : ∀ field ∈ ackFields, field.1 + 2 ≤ 64 ∧ field.2 + 2 ≤ 64 := by decide
    have h := hbound field hfield
    omega
  rw [acknowledge, unpack_eq (by omega), ackRanges, List.foldlM_cons]
  exact bind_congr fun l => acknowledgeLoop_eq hfields _

theorem receiveBody_ok_iff (env : Environment) (s : Messenger) (hlen : sizeofMessage ≤ message.length) (bodyLength messageId : ℕ) :
    (∃ s', receiveBody env s message bodyLength messageId = .ok s') ↔
      messageId = 0 ∨ sizeofMessage + bodyLength ≤ message.length := by
  have hlen' : 40 + 8 ≤ message.length := le_trans (by decide) hlen
  unfold receiveBody
  by_cases hid : messageId = 0
  · rw [if_pos hid]
    exact iff_of_true ⟨s, rfl⟩ (.inl hid)
  · rw [if_neg hid, unpack_eq hlen']
    by_cases hbody : sizeofMessage + bodyLength ≤ message.length
    · rw [copy, if_pos hbody]
      exact iff_of_true ⟨_, rfl⟩ (.inr hbody)
    · rw [copy, if_neg hbody]
      exact iff_of_false (fun ⟨_, h⟩ => nomatch h) fun h => h.elim hid hbody

theorem exists_ok_bind {ε α β : Type} {x : Except ε α} {f : α → Except ε β} :
    (∃ b, (x >>= f) = .ok b) ↔ ∃ a, x = .ok a ∧ ∃ b, f a = .ok b := by
  cases x with
  | error e => exact iff_of_false (fun ⟨_, h⟩ => nomatch h) fun ⟨_, h, _⟩ => nomatch h
  | ok a => exact ⟨fun h => ⟨a, rfl, h⟩, fun ⟨_, h, hb⟩ => Except.ok.inj h ▸ hb⟩

theorem handleMessage_ok_iff (env : Environment) (s : Messenger) (hlen : sizeofMessage ≤ message.length)
    (hne : ∀ block ∈ s.sentList.list, block.data ≠ []) (bodyLength : ℕ) :
    (∃ s', handleMessage env s message bodyLength = .ok s') ↔
      Acknowledges s.sentList.list (ackRanges message) ∧
        (number message 0 4 = 0 ∨ sizeofMessage + bodyLength ≤ message.length) := by
  have hlen' : 64 ≤ message.length := hlen
  have hhandle : handleMessage env s message bodyLength =
      (ackRanges message).foldlM (fun l r => l.acknowledgeBlocks r.1 r.2) s.sentList >>= fun sentList =>
        receiveBody env { s with sentList } message bodyLength (number message 0 4) >>= fun s =>
          .ok s.completeRead := by
    rw [handleMessage, unpack_eq (by omega), unpack_eq (by omega), acknowledge_eq hlen]
    rfl
  rw [hhandle, ← foldlM_acknowledgeBlocks hne]
  refine exists_ok_bind.trans ⟨fun ⟨l', hl', hbody⟩ => ⟨⟨l', hl'⟩, ?_⟩, fun ⟨⟨l', hl'⟩, hbody⟩ => ⟨l', hl', ?_⟩⟩
  · obtain ⟨s', hs', -⟩ := exists_ok_bind.1 hbody
    exact (receiveBody_ok_iff env _ hlen _ _).1 ⟨s', hs'⟩
  · obtain ⟨s', hs'⟩ := (receiveBody_ok_iff env _ hlen _ _).2 hbody
    exact exists_ok_bind.2 ⟨s', hs', s'.completeRead, rfl⟩

/-- **When a message is received without an error**: its body length is refused; or its ranges touch only blocks that
are in them, and its body is in the message. -/
theorem recvMessage_ok_iff {readQueue : List (List UInt8)} (hqueue : s.readQueue = message :: readQueue)
    (hlen : sizeofMessage ≤ message.length) (hne : ∀ block ∈ s.sentList.list, block.data ≠ []) :
    (∃ s', recvMessage env s = .ok s') ↔
      kMaxMessageLength < number message 38 2 ∨ message.length < number message 38 2 ∨
        Acknowledges s.sentList.list (ackRanges message) ∧
          (number message 0 4 = 0 ∨ sizeofMessage + number message 38 2 ≤ message.length) := by
  have hlen' : 64 ≤ message.length := hlen
  have hrecv : recvMessage env s = if kMaxMessageLength < number message 38 2 then .ok { s with readQueue }
      else if message.length < number message 38 2 then .ok { s with readQueue }
      else handleMessage env { s with readQueue } message (number message 38 2) := by
    rw [recvMessage, hqueue]
    dsimp only
    rw [unpack_eq (by omega)]
    rfl
  rw [hrecv]
  by_cases hmax : kMaxMessageLength < number message 38 2
  · rw [if_pos hmax]
    exact iff_of_true ⟨_, rfl⟩ (.inl hmax)
  · rw [if_neg hmax, or_iff_right hmax]
    by_cases hshort : message.length < number message 38 2
    · rw [if_pos hshort]
      exact iff_of_true ⟨_, rfl⟩ (.inl hshort)
    · rw [if_neg hshort, or_iff_right hshort]
      exact handleMessage_ok_iff env { s with readQueue } hlen hne _

def promptEnvironment : Environment where
  sendMessage _ := some 80
  maxMessagePayload _ := 1024
  maxMessagePayload_pos _ := by decide
  now := List.length
  written _ := []

def secondByteAcknowledged : List UInt8 := ((List.replicate 64 0).set 16 1).set 20 1

def headerAsBody : List UInt8 := ((List.replicate 64 0).set 0 1).set 38 64

end Messenger

end Chromium.Net.CurveCP
