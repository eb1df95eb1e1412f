import Mathlib.Data.List.Basic
import Mathlib.Tactic.Ring

/-!
# The blocks that are sent

`net/curvecp/sent_block_list.cc`.  A time that is null is `none`.  The loop of `AcknowledgeBlocks` goes back to the start
of the list behind each block that it takes out; the blocks that it has passed and those that are left are apart.
-/

namespace Chromium.Net.CurveCP

/-- What must not happen while messages are handled. -/
inductive MessengerError
  /-- a `CHECK` fails -/
  | checkFailed
  /-- a read behind the message -/
  | outside
  /-- a null pointer is used -/
  | null
  /-- a loop that does not end -/
  | endless
  deriving DecidableEq

def kMaxBlocks : ℕ := 128

structure Block where
  position : ℤ
  transmissions : ℕ
  lastMessageId : ℤ
  lastSentTime : Option ℕ
  data : List UInt8
  deriving DecidableEq

def Block.length (block : Block) : ℤ := block.data.length

structure SentBlockList where
  currentMessageId : ℤ
  sendSequenceNumber : ℤ
  list : List Block
  deriving DecidableEq

namespace SentBlockList

/-- `SentBlockList()`. -/
def new : SentBlockList := ⟨1, 0, []⟩

variable (l : SentBlockList)

def isFull : Bool := l.list.length = kMaxBlocks

def createBlock (buffer : List UInt8) : ℤ × SentBlockList :=
  if l.isFull then (-1, l)
  else (l.sendSequenceNumber, { l with
    sendSequenceNumber := l.sendSequenceNumber + buffer.length
    list := l.list ++ [⟨l.sendSequenceNumber, 0, 0, none, buffer⟩] })

def findBlock (position : ℤ) : Option ℕ := l.list.findIdx? fun block => block.position = position

def Block.mark (messageId : ℤ) (now : ℕ) (block : Block) : Block :=
  { block with lastMessageId := messageId, transmissions := block.transmissions + 1, lastSentTime := some now }

def markBlockSent (position messageId : ℤ) (now : ℕ) : SentBlockList :=
  match l.findBlock position with
  | none => l
  | some index => { l with list := l.list.modify index (Block.mark messageId now) }

def getNewMessageId : ℤ × SentBlockList := (l.currentMessageId, { l with currentMessageId := l.currentMessageId + 1 })

def findBlockByPosition (position : ℤ) : Option (List UInt8) :=
  (l.list.find? fun block => block.position = position).map Block.data

/-- The loop of `FindPositionOfOldestSentBlock`. -/
def oldestLoop : List Block → Option ℕ → ℤ → ℤ
  | [], _, position => position
  | block :: list, oldestTime, position =>
    match block.lastSentTime, oldestTime with
    | none, _ => oldestLoop list oldestTime position
    | some time, none => oldestLoop list (some time) block.position
    | some time, some oldest =>
      if time < oldest then oldestLoop list (some time) block.position else oldestLoop list oldestTime position

def findPositionOfOldestSentBlock : ℤ := oldestLoop l.list none (-1)

def Inside (beginRange endRange : ℤ) (block : Block) : Prop :=
  beginRange ≤ block.position ∧ block.position + block.length ≤ endRange

instance (beginRange endRange : ℤ) (block : Block) : Decidable (Inside beginRange endRange block) :=
  inferInstanceAs (Decidable (_ ∧ _))

/-- What the two `CHECK`s of `AcknowledgeBlocks` ask for: neither the start of the block nor its end is in the range, the
end of the range included. -/
def Untouched (beginRange endRange : ℤ) (block : Block) : Prop :=
  (block.position < beginRange ∨ endRange ≤ block.position) ∧
    (block.position + block.length < beginRange ∨ endRange < block.position + block.length)

instance (beginRange endRange : ℤ) (block : Block) : Decidable (Untouched beginRange endRange block) :=
  inferInstanceAs (Decidable (_ ∧ _))

/-- The loop of `AcknowledgeBlocks`. -/
def acknowledgeLoop (beginRange endRange : ℤ) : ℕ → List Block → List Block → Except MessengerError (List Block)
  | 0, _, _ => .error .endless
  | _ + 1, passed, [] => .ok passed
  | n + 1, passed, block :: left =>
    if Inside beginRange endRange block then acknowledgeLoop beginRange endRange n [] (passed ++ left)
    else if ¬ Untouched beginRange endRange block then .error .checkFailed
    else acknowledgeLoop beginRange endRange n (passed ++ [block]) left

def acknowledgeBlocks (beginRange endRange : ℤ) : Except MessengerError SentBlockList :=
  if beginRange = endRange then .ok l
  else do
    let list ← acknowledgeLoop beginRange endRange ((l.list.length + 1) * (l.list.length + 1)) [] l.list
    return { l with list }

/-! ## What is acknowledged -/

variable {l} {beginRange endRange : ℤ} {passed left : List Block} {n : ℕ}

def remaining (beginRange endRange : ℤ) (list : List Block) : List Block :=
  list.filter fun block => ¬ Inside beginRange endRange block

theorem remaining_append (passed left : List Block) : remaining beginRange endRange (passed ++ left) =
      remaining beginRange endRange passed ++ remaining beginRange endRange left := List.filter_append _ _

theorem remaining_cons_inside {block : Block} (h : Inside beginRange endRange block) :
    remaining beginRange endRange (block :: left) = remaining beginRange endRange left :=
  List.filter_cons_of_neg (by rw [decide_eq_true_eq, not_not]; exact h)

theorem mem_remaining {block : Block} :
    block ∈ remaining beginRange endRange left ↔ block ∈ left ∧ ¬ Inside beginRange endRange block := by
  rw [remaining, List.mem_filter, decide_eq_true_eq]

theorem remaining_eq_self (h : ∀ block ∈ left, ¬ Inside beginRange endRange block) :
    remaining beginRange endRange left = left :=
  List.filter_eq_self.2 fun block hblock => decide_eq_true (h block hblock)

/-- No block of a list makes a `CHECK` fail. -/
def Acknowledgeable (beginRange endRange : ℤ) (list : List Block) : Prop :=
  ∀ block ∈ list, Inside beginRange endRange block ∨ Untouched beginRange endRange block

instance (beginRange endRange : ℤ) (list : List Block) : Decidable (Acknowledgeable beginRange endRange list) :=
  inferInstanceAs (Decidable (∀ block ∈ list, _))

/-- **The loop ends**: with the blocks that are not in the range, or with a `CHECK` that fails on one of them. -/
theorem acknowledgeLoop_spec
    (hpassed : ∀ block ∈ passed, ¬ Inside beginRange endRange block ∧ Untouched beginRange endRange block)
    (hn : (passed.length + left.length) * (passed.length + left.length + 1) + left.length < n) :
    acknowledgeLoop beginRange endRange n passed left =
      if Acknowledgeable beginRange endRange left then .ok (remaining beginRange endRange (passed ++ left))
      else .error .checkFailed := by
  induction n generalizing passed left with
  | zero => omega
  | succ n ih =>
    cases left with
    | nil =>
      have hnil : Acknowledgeable beginRange endRange [] := nofun
      rw [acknowledgeLoop, if_pos hnil, List.append_nil, remaining_eq_self fun block hblock => (hpassed block hblock).1]
    | cons block left =>
      rw [List.length_cons] at hn
      by_cases hin : Inside beginRange endRange block
      · -- the block is taken out, and the blocks that were passed are passed again
        have hfuel : (passed ++ left).length * ((passed ++ left).length + 1) + (passed ++ left).length < n := by
          have hmul : (passed.length + (left.length + 1)) * (passed.length + (left.length + 1) + 1) =
              (passed.length + left.length) * (passed.length + left.length + 1) +
                (2 * (passed.length + left.length) + 2) := by ring
          rw [List.length_append]
          omega
        have hagain : Acknowledgeable beginRange endRange (passed ++ left) ↔
            Acknowledgeable beginRange endRange (block :: left) := by
          refine ⟨fun h b hb => ?_, fun h b hb => ?_⟩
          · rcases List.mem_cons.1 hb with rfl | hb
            · exact .inl hin
            · exact h b (List.mem_append_right _ hb)
          · rcases List.mem_append.1 hb with hb | hb
            · exact .inr (hpassed b hb).2
            · exact h b (List.mem_cons_of_mem _ hb)
        have hrest := @ih [] (passed ++ left) nofun
          (by rw [List.length_nil, Nat.zero_add]; exact hfuel)
        rw [acknowledgeLoop, if_pos hin, hrest, List.nil_append, remaining_append, remaining_append passed,
          remaining_cons_inside hin]
        exact if_congr hagain rfl rfl
      · rw [acknowledgeLoop, if_neg hin]
        by_cases htouch : Untouched beginRange endRange block
        · have hagain : Acknowledgeable beginRange endRange left ↔
              Acknowledgeable beginRange endRange (block :: left) :=
            (List.forall_mem_cons.trans (and_iff_right (.inr htouch))).symm
          have hpassed' : ∀ b ∈ passed ++ [block],
              ¬ Inside beginRange endRange b ∧ Untouched beginRange endRange b := fun b hb => by
            rcases List.mem_append.1 hb with hb | hb
            · exact hpassed b hb
            · obtain rfl := List.mem_singleton.1 hb
              exact ⟨hin, htouch⟩
          have hrest := @ih (passed ++ [block]) left hpassed' (by
            rw [List.length_append, List.length_singleton, Nat.add_assoc, Nat.add_comm 1]
            omega)
          rw [if_neg (not_not_intro htouch), hrest, List.append_assoc, List.singleton_append]
          exact if_congr hagain rfl rfl
        · rw [if_pos htouch, if_neg fun h => (h block List.mem_cons_self).elim hin htouch]

/-- **What `AcknowledgeBlocks` does.** -/
theorem acknowledgeBlocks_eq (l : SentBlockList) (beginRange endRange : ℤ) :
    l.acknowledgeBlocks beginRange endRange = if beginRange = endRange then .ok l
      else if Acknowledgeable beginRange endRange l.list then
        .ok { l with list := remaining beginRange endRange l.list }
      else .error .checkFailed := by
  unfold acknowledgeBlocks
  split
  · rfl
  · have hloop := @acknowledgeLoop_spec beginRange endRange [] l.list ((l.list.length + 1) * (l.list.length + 1))
      nofun (by
        have hmul : (l.list.length + 1) * (l.list.length + 1) =
            l.list.length * (l.list.length + 1) + l.list.length + 1 := by ring
        rw [List.length_nil, Nat.zero_add]
        omega)
    rw [hloop, List.nil_append]
    split <;> rfl

end SentBlockList

end Chromium.Net.CurveCP
