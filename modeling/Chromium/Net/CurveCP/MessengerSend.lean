import Chromium.Net.CurveCP.MessengerReceive

/-!
# Which blocks are sent

A block is put in the list when the send timer fires, and it is handed to the packetizer then, unless a send is in
progress: in that case `SendMessage` returns, and the block is not sent later.  Without such a step (`Drops`) every
block of the list has been handed to the packetizer.  In every run the bytes of the blocks, and those in the send buffer
behind them, are what `Write` accepted.
-/

namespace Chromium.Net.CurveCP

open Lib SentBlockList
open List (append_assoc mem_append mem_singleton not_mem_nil)

namespace SentBlockList

variable {l : SentBlockList} {position : ℤ} {block : Block}

def Ordered (list : List Block) : Prop := list.Pairwise fun a b => a.position < b.position

theorem findBlockByPosition_of_mem (hordered : Ordered l.list) (hblock : block ∈ l.list) :
    l.findBlockByPosition block.position = some block.data := by
  unfold findBlockByPosition
  generalize l.list = list at hordered hblock
  induction list with
  | nil => cases hblock
  | cons b list ih =>
    obtain ⟨hb, hlist⟩ := List.pairwise_cons.1 hordered
    rcases List.mem_cons.1 hblock with rfl | hblock
    · rw [List.find?_cons_of_pos (by exact decide_eq_true rfl)]
      rfl
    · have hne : b.position ≠ block.position := Int.ne_of_lt (hb block hblock)
      rw [List.find?_cons_of_neg (by rwa [decide_eq_true_eq])]
      exact ih hlist hblock

theorem mem_of_findBlockByPosition {data : List UInt8} (h : l.findBlockByPosition position = some data) :
    ∃ block ∈ l.list, block.position = position ∧ block.data = data := by
  obtain ⟨block, hfind, rfl⟩ := Option.map_eq_some_iff.1 h
  exact ⟨block, List.mem_of_find?_eq_some hfind, by simpa using List.find?_some hfind, rfl⟩

theorem markBlockSent_list (hordered : Ordered l.list) (position messageId : ℤ) (now : ℕ) :
    (l.markBlockSent position messageId now).list =
      l.list.map fun block => if block.position = position then Block.mark messageId now block else block := by
  have hmodify : ∀ list : List Block, Ordered list →
      (list.findIdx? fun block => block.position = position).elim list
          (fun index => list.modify index (Block.mark messageId now)) =
      list.map fun block => if block.position = position then Block.mark messageId now block else block := by
    intro list hordered
    induction list with
    | nil => rfl
    | cons b list ih =>
      obtain ⟨hb, hlist⟩ := List.pairwise_cons.1 hordered
      rw [List.findIdx?_cons, List.map_cons]
      by_cases heq : b.position = position
      · have hrest : list.map (fun block => if block.position = position then Block.mark messageId now block else block) =
            list := by
          refine (List.map_congr_left fun block hblock => ?_).trans (List.map_id list)
          exact if_neg (heq ▸ Int.ne_of_gt (hb block hblock))
        rw [if_pos (decide_eq_true heq), if_pos heq, hrest]
        rfl
      · have hrest := ih hlist
        rw [if_neg (by rwa [decide_eq_true_eq]), if_neg heq, ← hrest]
        cases list.findIdx? (fun block => block.position = position) <;> rfl
  rw [← hmodify l.list hordered]
  unfold markBlockSent findBlock
  cases l.list.findIdx? (fun block => block.position = position) <;> rfl

theorem markBlockSent_sendSequenceNumber (messageId : ℤ) (now : ℕ) :
    (l.markBlockSent position messageId now).sendSequenceNumber = l.sendSequenceNumber := by
  unfold markBlockSent
  split <;> rfl

theorem oldestLoop_unsent {b : Block} (h : b.lastSentTime = none) (list : List Block) (oldestTime : Option ℕ)
    (position : ℤ) : oldestLoop (b :: list) oldestTime position = oldestLoop list oldestTime position := by
  simp only [oldestLoop, h]

theorem oldestLoop_sent {b : Block} {time : ℕ} (h : b.lastSentTime = some time) (list : List Block)
    (oldestTime : Option ℕ) (position : ℤ) :
    oldestLoop (b :: list) oldestTime position = oldestLoop list (some time) b.position ∨
      ∃ oldest, oldestTime = some oldest ∧
        oldestLoop (b :: list) oldestTime position = oldestLoop list (some oldest) position := by
  cases oldestTime with
  | none =>
    left
    simp only [oldestLoop, h]
  | some oldest =>
    simp only [oldestLoop, h]
    split
    · exact .inl rfl
    · exact .inr ⟨oldest, rfl, rfl⟩

/-- The loop finds the position of a block that was sent, or keeps what it had. -/
theorem oldestLoop_cases (list : List Block) (oldestTime : Option ℕ) (position : ℤ) :
    oldestLoop list oldestTime position = position ∧ (oldestTime = none → ∀ block ∈ list, block.lastSentTime = none) ∨
      ∃ block ∈ list, oldestLoop list oldestTime position = block.position := by
  induction list generalizing oldestTime position with
  | nil => exact .inl ⟨rfl, nofun⟩
  | cons b list ih =>
    have hlift : ∀ {o p}, (∃ block ∈ list, oldestLoop list o p = block.position) →
        ∃ block ∈ b :: list, oldestLoop list o p = block.position :=
      fun ⟨block, hblock, h⟩ => ⟨block, List.mem_cons_of_mem b hblock, h⟩
    cases htime : b.lastSentTime with
    | none =>
      rw [oldestLoop_unsent htime]
      rcases ih oldestTime position with ⟨h, hnone⟩ | h
      · refine .inl ⟨h, fun ho block hblock => ?_⟩
        rcases List.mem_cons.1 hblock with rfl | hblock
        · exact htime
        · exact hnone ho block hblock
      · exact .inr (hlift h)
    | some time =>
      rcases oldestLoop_sent htime list oldestTime position with heq | ⟨oldest, rfl, heq⟩
      · rw [heq]
        rcases ih (some time) b.position with ⟨h, -⟩ | h
        · exact .inr ⟨b, List.mem_cons_self, h⟩
        · exact .inr (hlift h)
      · rw [heq]
        rcases ih (some oldest) position with ⟨h, -⟩ | h
        · exact .inl ⟨h, nofun⟩
        · exact .inr (hlift h)

theorem findPositionOfOldestSentBlock_mem (hblock : block ∈ l.list) (hsent : block.lastSentTime ≠ none) :
    ∃ b ∈ l.list, l.findPositionOfOldestSentBlock = b.position := by
  rcases oldestLoop_cases l.list none (-1) with ⟨-, hnone⟩ | h
  · exact absurd (hnone rfl block hblock) hsent
  · exact h

structure Kept (l l' : SentBlockList) : Prop where
  list : l'.list.Sublist l.list
  sequence : l'.sendSequenceNumber = l.sendSequenceNumber

theorem Kept.refl (l : SentBlockList) : l.Kept l := ⟨List.Sublist.refl _, rfl⟩

theorem Kept.trans {l l' l'' : SentBlockList} (h : l.Kept l') (h' : l'.Kept l'') : l.Kept l'' :=
  ⟨h'.list.trans h.list, h'.sequence.trans h.sequence⟩

theorem acknowledgeBlocks_kept {l' : SentBlockList} {beginRange endRange : ℤ}
    (h : l.acknowledgeBlocks beginRange endRange = .ok l') : l.Kept l' := by
  rw [acknowledgeBlocks_eq] at h
  split at h
  · exact Except.ok.inj h ▸ .refl l
  · split at h
    · exact Except.ok.inj h ▸ ⟨List.filter_sublist, rfl⟩
    · cases h

end SentBlockList

namespace Messenger

variable {env : Environment} {s s' : Messenger} {P : Prop}

def Sent (s : Messenger) (block : Block) : Prop :=
  (∃ id, .message id block.position block.data ∈ s.sent) ∧ block.lastSentTime ≠ none

/-- A block at its place in the stream, which is cut up into `created`. -/
def Placed (created : List (List UInt8)) (position : ℤ) (data : List UInt8) : Prop :=
  ∃ before behind, created = before ++ data :: behind ∧ position = before.flatten.length

/-- No block is empty, and the messages hold blocks. -/
structure Emitted (created : List (List UInt8)) (sent : List Handed) : Prop where
  nonempty : [] ∉ created
  message : ∀ {id position data}, .message id position data ∈ sent → Placed created position data

/-- **The invariant** of a messenger; `P` says that no block was dropped. -/
structure Inv (P : Prop) (s : Messenger) : Prop where
  buffer : s.sendBuffer.Valid
  stream : s.created.flatten ++ s.sendBuffer.contents = s.accepted
  sequence : s.sentList.sendSequenceNumber = s.created.flatten.length
  ordered : Ordered s.sentList.list
  placed : ∀ block ∈ s.sentList.list, block.data ≠ [] ∧
    ∃ before behind, s.created = before ++ block.data :: behind ∧ block.position = before.flatten.length
  emitted : Emitted s.created s.sent
  sent : P → ∀ block ∈ s.sentList.list, Sent s block

theorem Inv.weaken (h : Inv P s) : Inv False s := ⟨h.buffer, h.stream, h.sequence, h.ordered, h.placed, h.emitted, False.elim⟩

theorem Inv.position_lt (h : Inv P s) {block : Block} (hblock : block ∈ s.sentList.list) :
    block.position < s.sentList.sendSequenceNumber := by
  obtain ⟨hne, before, behind, hcreated, hposition⟩ := h.placed block hblock
  have hpos := List.length_pos_of_ne_nil hne
  rw [h.sequence, hcreated, hposition, List.flatten_append, List.length_append, List.flatten_cons, List.length_append]
  omega

/-! ### Receiving -/

theorem eq_ok_of_bind {ε α β : Type} {x : Except ε α} {f : α → Except ε β} {b : β} (h : (x >>= f) = .ok b) :
    ∃ a, x = .ok a ∧ f a = .ok b := by
  cases x with
  | error e => cases h
  | ok a => exact ⟨a, rfl, h⟩

theorem acknowledgeLoop_kept {message : List UInt8} {fields : List (ℕ × ℕ)} {stopByte : ℕ} {l l' : SentBlockList}
    (h : acknowledgeLoop message fields stopByte l = .ok l') : l.Kept l' := by
  induction fields generalizing stopByte l with
  | nil => exact Except.ok.inj h ▸ .refl l
  | cons field fields ih =>
    obtain ⟨gap, -, h⟩ := eq_ok_of_bind h
    obtain ⟨acknowledge, -, h⟩ := eq_ok_of_bind h
    obtain ⟨l₁, hl₁, h⟩ := eq_ok_of_bind h
    exact (acknowledgeBlocks_kept hl₁).trans (ih h)

theorem acknowledge_kept {message : List UInt8} {l l' : SentBlockList} (h : acknowledge message l = .ok l') :
    l.Kept l' := by
  obtain ⟨stopByte, -, h⟩ := eq_ok_of_bind h
  obtain ⟨l₁, hl₁, h⟩ := eq_ok_of_bind h
  exact (acknowledgeBlocks_kept hl₁).trans (acknowledgeLoop_kept h)

theorem Inv.kept (h : Inv P s) {l : SentBlockList} (hl : s.sentList.Kept l) : Inv P { s with sentList := l } :=
  ⟨h.buffer, h.stream, hl.sequence.trans h.sequence, h.ordered.sublist hl.list,
    fun block hblock => h.placed block (hl.list.subset hblock), h.emitted, fun hp block hblock => h.sent hp block (hl.list.subset hblock)⟩

theorem Inv.hand (h : Inv P s) (handed : List Handed)
    (hplaced : ∀ {id position data}, .message id position data ∈ handed → Placed s.created position data) :
    Inv P { s with sent := s.sent ++ handed } :=
  ⟨h.buffer, h.stream, h.sequence, h.ordered, h.placed,
    ⟨h.emitted.nonempty, fun hmem => (mem_append.1 hmem).elim h.emitted.message hplaced⟩, fun hp block hblock =>
    let ⟨⟨id, hid⟩, htime⟩ := h.sent hp block hblock
    ⟨⟨id, List.mem_append_left _ hid⟩, htime⟩⟩

/-- What does not touch the send side. -/
structure SameSending (s s' : Messenger) : Prop where
  sendBuffer : s'.sendBuffer = s.sendBuffer
  accepted : s'.accepted = s.accepted
  created : s'.created = s.created
  sentList : s'.sentList = s.sentList
  sent : s'.sent = s.sent

theorem Inv.same (h : Inv P s) (heq : SameSending s s') : Inv P s' := by
  obtain ⟨hbuffer, haccepted, hcreated, hlist, hsent⟩ := heq
  refine ⟨?_, ?_, ?_, ?_, ?_, ?_, ?_⟩
  · exact hbuffer ▸ h.buffer
  · rw [hcreated, hbuffer, haccepted]
    exact h.stream
  · rw [hlist, hcreated]
    exact h.sequence
  · exact hlist ▸ h.ordered
  · rw [hlist, hcreated]
    exact h.placed
  · exact ⟨hcreated ▸ h.emitted.nonempty, fun hmem => hcreated ▸ h.emitted.message (hsent ▸ hmem)⟩
  · unfold Sent
    rw [hlist, hsent]
    exact h.sent

theorem Inv.completeRead (h : Inv P s) : Inv P s.completeRead := by
  unfold Messenger.completeRead
  split
  · exact h
  · split
    · exact h
    · exact h.same ⟨rfl, rfl, rfl, rfl, rfl⟩

theorem Inv.receiveBody (h : Inv P s) {message : List UInt8} {bodyLength messageId : ℕ}
    (heq : receiveBody env s message bodyLength messageId = .ok s') : Inv P s' := by
  unfold Messenger.receiveBody at heq
  split at heq
  · exact Except.ok.inj heq ▸ h
  · obtain ⟨position, -, heq⟩ := eq_ok_of_bind heq
    obtain ⟨buffer, -, heq⟩ := eq_ok_of_bind heq
    cases heq
    exact (h.hand _ fun hmem => by simp at hmem).same ⟨rfl, rfl, rfl, rfl, rfl⟩

theorem Inv.recvMessage (h : Inv P s) (heq : recvMessage env s = .ok s') : Inv P s' := by
  unfold Messenger.recvMessage at heq
  split at heq
  · exact Except.ok.inj heq ▸ h
  next message readQueue _ =>
    obtain ⟨bodyLength, -, heq⟩ := eq_ok_of_bind heq
    have hpop : Inv P { s with readQueue } := h.same ⟨rfl, rfl, rfl, rfl, rfl⟩
    split at heq
    · exact Except.ok.inj heq ▸ hpop
    · split at heq
      · exact Except.ok.inj heq ▸ hpop
      · obtain ⟨messageId, -, heq⟩ := eq_ok_of_bind heq
        obtain ⟨-, -, heq⟩ := eq_ok_of_bind heq
        obtain ⟨l, hl, heq⟩ := eq_ok_of_bind heq
        obtain ⟨s₁, hs₁, heq⟩ := eq_ok_of_bind heq
        cases heq
        exact ((hpop.kept (acknowledge_kept hl)).receiveBody hs₁).completeRead

/-! ### Writing -/

structure Writes (s s' : Messenger) : Prop where
  created : s'.created = s.created
  sentList : s'.sentList = s.sentList
  sent : s'.sent = s.sent
  sendMessageInProgress : s'.sendMessageInProgress = s.sendMessageInProgress
  sendTimer : s.sendTimer = true → s'.sendTimer = true

theorem Writes.refl (s : Messenger) : Writes s s := ⟨rfl, rfl, rfl, rfl, id⟩

theorem Writes.trans {s'' : Messenger} (h : Writes s s') (h' : Writes s' s'') : Writes s s'' :=
  ⟨h'.created.trans h.created, h'.sentList.trans h.sentList, h'.sent.trans h.sent,
    h'.sendMessageInProgress.trans h.sendMessageInProgress, h'.sendTimer ∘ h.sendTimer⟩

/-- Bytes that were taken out, and the send buffer behind them, are what was accepted. -/
structure Stream (taken : List UInt8) (s : Messenger) : Prop where
  buffer : s.sendBuffer.Valid
  stream : taken ++ s.sendBuffer.contents = s.accepted

variable {taken : List UInt8}

theorem Stream.put (h : Stream taken s) (data : List UInt8) : Stream taken { s with
      sendBuffer := (s.sendBuffer.write data).2
      accepted := s.accepted ++ data.take (s.sendBuffer.write data).1 } := by
  obtain ⟨-, hvalid, -, hcontents⟩ := CircularBuffer.write_spec h.buffer data
  refine ⟨hvalid, ?_⟩
  rw [hcontents, ← append_assoc, h.stream]

theorem Stream.write (h : Stream taken s) (data : List UInt8) : Stream taken (s.write data) ∧ Writes s (s.write data) := by
  obtain ⟨hvalid, hstream⟩ := h.put data
  dsimp only [Messenger.write]
  split <;> exact ⟨⟨hvalid, hstream⟩, rfl, rfl, rfl, rfl, fun _ => rfl⟩

theorem Stream.writeAll (h : Stream taken s) (writes : List (List UInt8)) :
    Stream taken (writeAll writes s) ∧ Writes s (writeAll writes s) := by
  induction writes generalizing s with
  | nil => exact ⟨h, .refl s⟩
  | cons data writes ih =>
    rw [Messenger.writeAll]
    split
    · exact ⟨h, .refl s⟩
    · obtain ⟨hwrite, hsame⟩ := h.write data
      obtain ⟨hall, hsame'⟩ := ih hwrite
      exact ⟨hall, hsame.trans hsame'⟩

theorem Stream.completeWrite (h : Stream taken s) :
    Stream taken (completeWrite env s) ∧ Writes s (completeWrite env s) := by
  unfold Messenger.completeWrite
  split
  · exact ⟨h, .refl s⟩
  next data _ =>
    obtain ⟨hvalid, hstream⟩ := h.put data
    dsimp only
    split
    · have hput : Stream taken { s with
          sendBuffer := (s.sendBuffer.write data).2
          accepted := s.accepted ++ data.take (s.sendBuffer.write data).1
          pendingSend := none } := ⟨hvalid, hstream⟩
      obtain ⟨hall, hsame⟩ := hput.writeAll (env.written (s.accepted ++ data.take (s.sendBuffer.write data).1))
      exact ⟨hall, hsame.created, hsame.sentList, hsame.sent, hsame.sendMessageInProgress, hsame.sendTimer⟩
    · exact ⟨⟨hvalid, hstream⟩, rfl, rfl, rfl, rfl, id⟩

theorem createBufferFromSendQueue_spec (h : Stream taken s) (hlength : s.sendBuffer.length ≠ 0) {buffer : List UInt8}
    (heq : createBufferFromSendQueue env s = .ok (buffer, s')) :
    buffer ≠ [] ∧ Stream (taken ++ buffer) s' ∧ Writes s s' := by
  unfold createBufferFromSendQueue at heq
  obtain ⟨b, hread, hvalid, -, hrest⟩ := CircularBuffer.read_spec h.buffer
    (min (env.maxMessagePayload s.sent) s.sendBuffer.length)
  dsimp only at heq
  rw [hread] at heq
  obtain ⟨rfl, rfl⟩ := Prod.mk.inj (Except.ok.inj heq)
  have hmax := env.maxMessagePayload_pos s.sent
  have hcontents : s.sendBuffer.contents.length = s.sendBuffer.length := CircularBuffer.length_contents
  refine ⟨List.ne_nil_of_length_pos ?_, ?_⟩
  · rw [List.length_take]
    omega
  · have hsplit : Stream (taken ++ s.sendBuffer.contents.take (min (env.maxMessagePayload s.sent) s.sendBuffer.length))
        { s with sendBuffer := b } := by
      refine ⟨hvalid, ?_⟩
      rw [hrest, append_assoc, List.take_append_drop, h.stream]
    obtain ⟨hstream, hsame⟩ := @Stream.completeWrite env _ _ hsplit
    exact ⟨hstream, hsame.created, hsame.sentList, hsame.sent, hsame.sendMessageInProgress, hsame.sendTimer⟩

/-! ### Sending -/

theorem Inv.mark (h : Inv False s) {position : ℤ} {data : List UInt8}
    (hdata : s.sentList.findBlockByPosition position = some data)
    (hothers : P → ∀ block ∈ s.sentList.list, block.position = position ∨ Sent s block) (id : ℕ) (messageId : ℤ)
    (now : ℕ) {l : SentBlockList} (hlist : l.list = s.sentList.list)
    (hsequence : l.sendSequenceNumber = s.sentList.sendSequenceNumber) :
    Inv P { s with
      sentList := l.markBlockSent position messageId now
      sent := s.sent ++ [.message id position data] } := by
  have hordered : Ordered l.list := hlist ▸ h.ordered
  have hmark := markBlockSent_list hordered position messageId now
  rw [hlist] at hmark
  have hposition : ∀ block : Block,
      (if block.position = position then Block.mark messageId now block else block).position = block.position ∧
      (if block.position = position then Block.mark messageId now block else block).data = block.data := fun block => by
    split <;> exact ⟨rfl, rfl⟩
  refine ⟨h.buffer, h.stream, ?_, ?_, ?_, ?_, ?_⟩
  · exact (markBlockSent_sendSequenceNumber messageId now).trans (hsequence.trans h.sequence)
  · dsimp only
    rw [hmark, Ordered, List.pairwise_map]
    exact h.ordered.imp fun {a b} hab => by rwa [(hposition a).1, (hposition b).1]
  · intro block' hblock'
    dsimp only at hblock'
    rw [hmark] at hblock'
    obtain ⟨block, hblock, rfl⟩ := List.mem_map.1 hblock'
    rw [(hposition block).1, (hposition block).2]
    exact h.placed block hblock
  · refine ⟨h.emitted.nonempty, fun hmem => (mem_append.1 hmem).elim h.emitted.message fun hmem => ?_⟩
    obtain ⟨block, hblock, rfl, rfl⟩ := mem_of_findBlockByPosition hdata
    cases mem_singleton.1 hmem
    exact (h.placed block hblock).2
  · intro hp block' hblock'
    dsimp only at hblock'
    rw [hmark] at hblock'
    obtain ⟨block, hblock, rfl⟩ := List.mem_map.1 hblock'
    rw [Sent, (hposition block).1, (hposition block).2]
    by_cases heq : block.position = position
    · have hfound := findBlockByPosition_of_mem h.ordered hblock
      rw [heq, hdata] at hfound
      rw [if_pos heq, heq, ← Option.some.inj hfound]
      exact ⟨⟨id, List.mem_append_right _ (List.mem_singleton_self _)⟩, Option.some_ne_none _⟩
    · obtain ⟨⟨id', hid⟩, htime⟩ := (hothers hp block hblock).resolve_left heq
      rw [if_neg heq]
      exact ⟨⟨id', List.mem_append_left _ hid⟩, htime⟩

def KeepsInv (P : Prop) (f : Messenger → Except MessengerError Messenger) : Prop :=
  ∀ s s', Inv P s → f s = .ok s' → Inv P s'

variable {onSendMessageComplete : Messenger → Except MessengerError Messenger}

/-- **A block is sent**; when a send is in progress, every block must have been sent before. -/
theorem Inv.sendMessage (h : Inv False s) (hcomplete : KeepsInv P onSendMessageComplete) {position : ℤ}
    (hothers : P → ∀ block ∈ s.sentList.list, block.position = position ∨ Sent s block)
    (hprogress : P → s.sendMessageInProgress = true → ∀ block ∈ s.sentList.list, Sent s block)
    (heq : sendMessage env s onSendMessageComplete position = .ok s') : Inv P s' := by
  unfold Messenger.sendMessage at heq
  split at heq
  next hin =>
    cases heq
    exact ⟨h.buffer, h.stream, h.sequence, h.ordered, h.placed, h.emitted, fun hp => hprogress hp hin⟩
  next =>
    split at heq
    · cases heq
    next data hdata =>
      have hmark := h.mark hdata hothers (s.sentList.currentMessageId % 4294967296).toNat s.sentList.currentMessageId
        (env.now s.sent) (l := s.sentList.getNewMessageId.2) rfl rfl
      dsimp only at heq
      split at heq
      · cases heq
        exact hmark.same ⟨rfl, rfl, rfl, rfl, rfl⟩
      · exact hcomplete _ _ hmark heq

theorem Inv.createBlock (h : Inv P s) {buffer : List UInt8} (hne : buffer ≠ []) {s₁ : Messenger}
    (hstream : Stream (s.created.flatten ++ buffer) s₁) (hsame : Writes s s₁) (hfull : s₁.sentList.isFull = false) :
    Inv False { s₁ with sentList := (s₁.sentList.createBlock buffer).2, created := s₁.created ++ [buffer] } ∧
      (P → ∀ block ∈ (s₁.sentList.createBlock buffer).2.list,
        block.position = (s₁.sentList.createBlock buffer).1 ∨ Sent s₁ block) := by
  have hcreate : s₁.sentList.createBlock buffer = (s₁.sentList.sendSequenceNumber, { s₁.sentList with
      sendSequenceNumber := s₁.sentList.sendSequenceNumber + buffer.length
      list := s₁.sentList.list ++ [⟨s₁.sentList.sendSequenceNumber, 0, 0, none, buffer⟩] }) := by
    rw [SentBlockList.createBlock, hfull]
    rfl
  rw [hcreate]
  dsimp only
  refine ⟨⟨hstream.buffer, ?_, ?_, ?_, ?_, ⟨?_, fun hmem => ?_⟩, False.elim⟩, ?_⟩
  · dsimp only
    rw [hsame.created, List.flatten_append, List.flatten_singleton]
    exact hstream.stream
  · dsimp only
    rw [hsame.sentList, h.sequence, hsame.created, List.flatten_append, List.flatten_singleton, List.length_append,
      Nat.cast_add]
  · dsimp only
    rw [hsame.sentList]
    refine List.pairwise_append.2 ⟨h.ordered, List.pairwise_singleton _ _, fun a ha b hb => ?_⟩
    obtain rfl := mem_singleton.1 hb
    exact h.position_lt ha
  · intro block hblock
    dsimp only at hblock ⊢
    rw [hsame.created]
    rw [hsame.sentList] at hblock
    rcases mem_append.1 hblock with hblock | hblock
    · obtain ⟨hdata, before, behind, hcreated, hposition⟩ := h.placed block hblock
      refine ⟨hdata, before, behind ++ [buffer], ?_, hposition⟩
      rw [hcreated, append_assoc, List.cons_append]
    · obtain rfl := mem_singleton.1 hblock
      exact ⟨hne, s.created, [], rfl, h.sequence⟩
  · dsimp only
    rw [hsame.created, mem_append, mem_singleton, not_or]
    exact ⟨h.emitted.nonempty, hne.symm⟩
  · dsimp only at hmem ⊢
    rw [hsame.sent] at hmem
    obtain ⟨before, behind, hcreated, hposition⟩ := h.emitted.message hmem
    exact ⟨before, behind ++ [buffer], by rw [hsame.created, hcreated, append_assoc, List.cons_append], hposition⟩
  · intro hp block hblock
    rcases mem_append.1 hblock with hblock | hblock
    · right
      rw [hsame.sentList] at hblock
      rw [Sent, hsame.sent]
      exact h.sent hp block hblock
    · obtain rfl := mem_singleton.1 hblock
      exact .inl rfl

/-- **A block from the send buffer is sent**, which has bytes; it is dropped if a send is in progress. -/
theorem Inv.sendNewBlock (h : Inv P s) (hcomplete : KeepsInv P onSendMessageComplete)
    (hlength : s.sendBuffer.length ≠ 0) (hkeep : P → s.sendMessageInProgress = true → s.sentList.isFull = true)
    (heq : sendNewBlock env s onSendMessageComplete = .ok s') : Inv P s' := by
  unfold Messenger.sendNewBlock at heq
  split at heq
  · exact Except.ok.inj heq ▸ h
  next hfull =>
    obtain ⟨⟨buffer, s₁⟩, hcreate, heq⟩ := eq_ok_of_bind heq
    obtain ⟨hne, hstream, hsame⟩ := createBufferFromSendQueue_spec ⟨h.buffer, h.stream⟩ hlength hcreate
    have hfull' : s₁.sentList.isFull = false := by
      rw [hsame.sentList]
      exact Bool.eq_false_iff.2 hfull
    obtain ⟨hinv, hothers⟩ := h.createBlock hne hstream hsame hfull'
    refine hinv.sendMessage hcomplete hothers (fun hp hin => ?_) heq
    exact absurd (hkeep hp (hsame.sendMessageInProgress.symm.trans hin)) hfull

theorem Inv.onSendTimer (h : Inv P s) (hcomplete : KeepsInv P onSendMessageComplete)
    (hkeep : P → s.sendMessageInProgress = true → s.sendBuffer.length = 0 ∨ s.sentList.isFull = true)
    (heq : onSendTimer env s onSendMessageComplete = .ok s') : Inv P s' := by
  unfold Messenger.onSendTimer at heq
  split at heq
  · exact Except.ok.inj heq ▸ h
  next hlength =>
    obtain ⟨s₁, hs₁, heq⟩ := eq_ok_of_bind heq
    have hstart : Inv P { s with sendTimer := true } := h.same ⟨rfl, rfl, rfl, rfl, rfl⟩
    exact (hstart.sendNewBlock hcomplete hlength (fun hp hin => (hkeep hp hin).resolve_left hlength) hs₁).recvMessage heq

theorem keepsInv_onSendMessageComplete (env : Environment) (calls : ℕ) :
    KeepsInv P (Messenger.onSendMessageComplete env calls) := by
  induction calls with
  | zero => exact fun s s' _ heq => by cases heq
  | succ calls ih =>
    intro s s' h heq
    obtain ⟨s₁, hs₁, heq⟩ := eq_ok_of_bind heq
    cases heq
    have hfree : Inv P { s with sendMessageInProgress := false } := h.same ⟨rfl, rfl, rfl, rfl, rfl⟩
    suffices hinv : Inv P s₁ from hinv.same ⟨rfl, rfl, rfl, rfl, rfl⟩
    split at hs₁
    · exact Except.ok.inj hs₁ ▸ hfree
    · exact hfree.onSendTimer ih nofun hs₁

theorem Inv.onTimeout (h : Inv P s) (heq : onTimeout env s = .ok s') : Inv P s' := by
  obtain ⟨s₁, hs₁, heq⟩ := eq_ok_of_bind heq
  refine Inv.recvMessage ?_ heq
  split at hs₁
  · exact h.weaken.sendMessage (keepsInv_onSendMessageComplete env callDepth)
      (fun hp block hblock => .inr (h.sent hp block hblock)) (fun hp _ => h.sent hp) hs₁
  · exact Except.ok.inj hs₁ ▸ h

/-! ### Runs -/

def Drops (s : Messenger) (event : Event) : Prop :=
  event = .sendTimer ∧ s.sendMessageInProgress = true ∧ s.sendBuffer.length ≠ 0 ∧ s.sentList.isFull = false

theorem inv_new (unset : ℤ → UInt8) : Inv P (new unset) :=
  ⟨CircularBuffer.valid_new (by decide) unset, rfl, rfl, List.Pairwise.nil, nofun,
    ⟨not_mem_nil, nofun⟩, nofun⟩

theorem Inv.step (h : Inv P s) {event : Event} (hdrops : P → ¬ Drops s event) (heq : s.step env event = .ok s') :
    Inv P s' := by
  cases event with
  | read bufferLength =>
    cases heq
    unfold Messenger.read
    split <;> exact h.same ⟨rfl, rfl, rfl, rfl, rfl⟩
  | write data =>
    cases heq
    obtain ⟨⟨hvalid, hstream⟩, hsame⟩ := Stream.write ⟨h.buffer, h.stream⟩ data
    have hold : Inv P { s with
        sendBuffer := (s.write data).sendBuffer
        accepted := (s.write data).accepted } := ⟨hvalid, hstream, h.sequence, h.ordered, h.placed, h.emitted, h.sent⟩
    exact hold.same ⟨rfl, rfl, hsame.created, hsame.sentList, hsame.sent⟩
  | onMessage message =>
    replace heq : s.onMessage env message = .ok s' := heq
    unfold Messenger.onMessage at heq
    split at heq
    · exact Except.ok.inj heq ▸ h
    · split at heq
      · exact Except.ok.inj heq ▸ h
      · have hqueue : Inv P { s with readQueue := s.readQueue ++ [message] } := h.same ⟨rfl, rfl, rfl, rfl, rfl⟩
        exact hqueue.recvMessage heq
  | sendTimer =>
    have hfired : Inv P { s with sendTimer := false } := h.same ⟨rfl, rfl, rfl, rfl, rfl⟩
    refine hfired.onSendTimer (keepsInv_onSendMessageComplete env callDepth) (fun hp hin => ?_) heq
    by_contra hnot
    rw [not_or, Bool.not_eq_true] at hnot
    exact hdrops hp ⟨rfl, hin, hnot⟩
  | timeout =>
    have hfired : Inv P { s with sendTimeoutTimer := false } := h.same ⟨rfl, rfl, rfl, rfl, rfl⟩
    exact hfired.onTimeout heq
  | complete =>
    have hback : Inv P { s with outstanding := s.outstanding - 1 } := h.same ⟨rfl, rfl, rfl, rfl, rfl⟩
    exact keepsInv_onSendMessageComplete env callDepth _ _ hback heq

/-- **The blocks of a messenger**: in every run the bytes of the blocks that were created, and those in the send buffer
behind them, are what `Write` accepted; and in a run in which no block is dropped, every block of the list has been
handed to the packetizer, so that the timeout finds one. -/
theorem blocks_of_run (env : Environment) :
    (∀ events s, (system env).Run events s → s.created.flatten ++ s.sendBuffer.contents = s.accepted) ∧
    ∀ events s, ((system env).restrict fun s event => ¬ Drops s event).Run events s →
      (∀ block ∈ s.sentList.list, ∃ id, .message id block.position block.data ∈ s.sent) ∧
      (s.sentList.list ≠ [] → ∃ block ∈ s.sentList.list,
        s.sentList.findPositionOfOldestSentBlock = block.position ∧ 0 ≤ block.position) := by
  constructor
  · intro events s hrun
    have hinv : Inv False s := hrun.invariant (fun s ⟨unset, heq⟩ => heq ▸ inv_new unset)
      fun s event s' h hstep => h.step False.elim hstep.2
    exact hinv.stream
  · intro events s hrun
    have hinv : Inv True s := hrun.invariant (fun s ⟨unset, heq⟩ => heq ▸ inv_new unset)
      fun s event s' h hstep => h.step (fun _ => hstep.1) hstep.2.2
    refine ⟨fun block hblock => (hinv.sent trivial block hblock).1, fun hne => ?_⟩
    obtain ⟨block, list, hlist⟩ := List.exists_cons_of_ne_nil hne
    have hblock : block ∈ s.sentList.list := hlist ▸ List.mem_cons_self
    obtain ⟨oldest, holdest, heq⟩ := findPositionOfOldestSentBlock_mem hblock (hinv.sent trivial block hblock).2
    obtain ⟨-, before, behind, -, hposition⟩ := hinv.placed oldest holdest
    exact ⟨oldest, holdest, heq, hposition ▸ Int.natCast_nonneg _⟩

def slowEnvironment : Environment := { promptEnvironment with sendMessage := fun _ => none }

instance (s : Messenger) (event : Event) : Decidable (Drops s event) := inferInstanceAs (Decidable (_ ∧ _))

def nextKept (env : Environment) (s : Messenger) (event : Event) : Option Messenger :=
  if Drops s event then none else next env s event

theorem step_of_nextKept {event : Event} (h : nextKept env s event = some s') :
    ((system env).restrict fun s event => ¬ Drops s event).step s event s' := by
  unfold nextKept at h
  split at h
  · cases h
  next hdrops => exact ⟨hdrops, step_of_next h⟩

/-- Two blocks that are sent, each when the one before is completed. -/
theorem blocks_of_run_slow : ∃ s : Messenger, s.sentList.list.length = 2 ∧
      (∀ block ∈ s.sentList.list, ∃ id, .message id block.position block.data ∈ s.sent) ∧
      (s.sentList.list ≠ [] → ∃ block ∈ s.sentList.list,
        s.sentList.findPositionOfOldestSentBlock = block.position ∧ 0 ≤ block.position) := by
  have hrun : ([.write [65], .sendTimer, .complete, .write [66], .sendTimer, .complete].foldlM
      (nextKept slowEnvironment) (new fun _ => 0)).map (fun s => s.sentList.list.length) = some 2 := by
    decide +kernel
  obtain ⟨s, hfold, hlength⟩ := Option.map_eq_some_iff.mp hrun
  have hinit : ((system slowEnvironment).restrict fun s event => ¬ Drops s event).Run [] (new fun _ => 0) :=
    .init ⟨_, rfl⟩
  have hkept := hinit.foldlM (fun s event s' h => step_of_nextKept h) hfold
  exact ⟨s, hlength, (blocks_of_run slowEnvironment).2 _ s hkept⟩

/-- A block that is created while a send is in progress is not sent, and the timeout does not find it. -/
theorem not_blocks_handed :
    ¬ ∀ env events s, (system env).Run events s → s.sendMessageInProgress = false →
      (∀ block ∈ s.sentList.list, ∃ id, .message id block.position block.data ∈ s.sent) := by
  intro hall
  have hrun : ([.write [65], .sendTimer, .write [66], .sendTimer, .complete].foldlM (next slowEnvironment)
      (new fun _ => 0)).map (fun s =>
        decide (s.sendMessageInProgress = false ∧ s.sent = [.message 1 0 [65]] ∧
          s.sentList.list.map (fun block => (block.position, block.data)) = [(0, [65]), (1, [66])])) = some true := by
    decide +kernel
  obtain ⟨s, hfold, hdecide⟩ := Option.map_eq_some_iff.mp hrun
  obtain ⟨hfree, hsent, hlist⟩ := of_decide_eq_true hdecide
  have hmem : (1, [66]) ∈ s.sentList.list.map (fun block => (block.position, block.data)) := by
    rw [hlist]
    decide
  obtain ⟨block, hblock, heq⟩ := List.mem_map.mp hmem
  obtain ⟨id, hid⟩ := hall slowEnvironment _ s (run_of_foldlM hfold) hfree block hblock
  rw [hsent, List.mem_singleton] at hid
  obtain ⟨hposition, -⟩ := Prod.mk.inj heq
  rw [hposition] at hid
  exact nomatch hid

end Messenger

end Chromium.Net.CurveCP
