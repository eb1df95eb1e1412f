import Chromium.Net.CurveCP.MessengerSend

/-!
# From one messenger to another

One messenger sends and another receives.  What is on the way may be lost, come late, again and out of
order, and the sender may be told anything of what arrived.  In every run the receiver has given its
application the first bytes of those that the sender accepted, and acknowledges none that were not sent.
-/

namespace Chromium.Net.CurveCP.Messenger

open Lib SentBlockList ReceivedBlockList

/-- The message that `SendMessage` makes of a block; it is filled up to a multiple of 16 bytes. -/
def blockMessage (messageId : ℕ) (position : ℤ) (data padding : List UInt8) : List UInt8 :=
  toLe 4 messageId ++ (List.replicate 34 0 ++ (toLe 2 data.length ++
    (toLe 8 (position % 18446744073709551616).toNat ++ (List.replicate 16 0 ++ (data ++ padding)))))

inductive Hop
  | sender (event : Event)
  | receiver (event : Event)
  /-- a message of the sender arrives, which may have arrived before -/
  | deliver (messageId : ℕ) (position : ℤ) (data padding : List UInt8)

/-- Every other message that the receiver gets is one without a block. -/
def Event.hasBlock : Event → Bool
  | .onMessage message => number message 0 4 ≠ 0
  | _ => false

def nextHop (env env' : Environment) (s : Messenger × Messenger) : Hop → Option (Messenger × Messenger)
  | .sender event => (next env s.1 event).map (·, s.2)
  | .receiver event => if event.hasBlock then none else (next env' s.2 event).map (s.1, ·)
  | .deliver messageId position data padding =>
    if .message messageId position data ∈ s.1.sent ∧ data.length + padding.length = (data.length + 15) / 16 * 16 then
      (next env' s.2 (.onMessage (blockMessage messageId position data padding))).map (s.1, ·)
    else none

/-- Two messengers, with a stream that is shorter than positions can be. -/
def transfer (env env' : Environment) : TransSys (Messenger × Messenger) Hop where
  init s := (system env).init s.1 ∧ (system env').init s.2
  step s hop s' := s.1.accepted.length < 9223372036854775808 ∧ nextHop env env' s hop = some s'

/-! ### What is received, and which blocks there are -/

/-- What is said of the blocks that were created, what is received, what is delivered and the queue. -/
abbrev Property : Type := List (List UInt8) → ReceivedBlockList → List UInt8 → List (List UInt8) → Prop

variable {env env' : Environment} {s s' : Messenger} {message : List UInt8} {R : Property}

def Holds (R : Property) (s : Messenger) : Prop := R s.created s.receivedList s.delivered s.readQueue

/-- All that a messenger may do to its blocks and to what it received, a new message apart. -/
structure Stable (R : Property) : Prop where
  create : ∀ {c l d q} data, R c l d q → R (c ++ [data]) l d q
  read : ∀ {c l d q} size, R c l d q → R c (l.readBytes size).2 (d ++ (l.readBytes size).1) q
  pop : ∀ {c l d q m}, R c l d (m :: q) → R c l d q
  add : ∀ {c l d q m}, R c l d (m :: q) → number m 0 4 ≠ 0 →
    R c (l.addBlock (toInt64 (number m 40 8)) ((m.drop sizeofMessage).take (number m 38 2))) d q

theorem ok_of_unpack {offset size n : ℕ} (h : unpack message offset size = .ok n) : number message offset size = n := by
  unfold unpack at h
  split at h
  · exact Except.ok.inj h
  · cases h

theorem Stable.recvMessage (hR : Stable R) (h : Holds R s) (heq : recvMessage env s = .ok s') : Holds R s' := by
  unfold Messenger.recvMessage at heq
  split at heq
  · exact Except.ok.inj heq ▸ h
  next m q hqueue =>
    rw [Holds, hqueue] at h
    obtain ⟨bodyLength, hbody, heq⟩ := eq_ok_of_bind heq
    obtain rfl := ok_of_unpack hbody
    split at heq
    · exact Except.ok.inj heq ▸ hR.pop h
    · split at heq
      · exact Except.ok.inj heq ▸ hR.pop h
      · obtain ⟨messageId, hid, heq⟩ := eq_ok_of_bind heq
        obtain rfl := ok_of_unpack hid
        obtain ⟨-, -, heq⟩ := eq_ok_of_bind heq
        obtain ⟨l, -, heq⟩ := eq_ok_of_bind heq
        obtain ⟨s₁, hs₁, heq⟩ := eq_ok_of_bind heq
        cases heq
        have h₁ : Holds R s₁ := by
          unfold receiveBody at hs₁
          split at hs₁
          · exact Except.ok.inj hs₁ ▸ hR.pop h
          next hne =>
            obtain ⟨position, hposition, hs₁⟩ := eq_ok_of_bind hs₁
            obtain rfl := ok_of_unpack hposition
            obtain ⟨buffer, hbuffer, hs₁⟩ := eq_ok_of_bind hs₁
            unfold copy at hbuffer
            split at hbuffer
            · cases hbuffer
              exact Except.ok.inj hs₁ ▸ hR.add h hne
            · cases hbuffer
        unfold completeRead
        split
        · exact h₁
        · split
          · exact h₁
          · exact hR.read _ h₁

theorem holds_writeAll (h : Holds R s) (writes : List (List UInt8)) : Holds R (writeAll writes s) := by
  induction writes generalizing s with
  | nil => exact h
  | cons data writes ih =>
    rw [writeAll]
    split
    · exact h
    · refine ih ?_
      dsimp only [Messenger.write]
      split <;> exact h

theorem holds_completeWrite (h : Holds R s) : Holds R (completeWrite env s) := by
  unfold completeWrite
  split
  · exact h
  · dsimp only
    split
    · exact holds_writeAll (by exact h) _
    · exact h

def KeepsHolds (R : Property) (f : Messenger → Except MessengerError Messenger) : Prop :=
  ∀ s s', Holds R s → f s = .ok s' → Holds R s'

variable {f : Messenger → Except MessengerError Messenger}

theorem KeepsHolds.sendMessage (hf : KeepsHolds R f) (position : ℤ) : KeepsHolds R (sendMessage env · f position) := by
  intro s s' h heq
  dsimp only [Messenger.sendMessage] at heq
  split at heq
  · exact Except.ok.inj heq ▸ h
  · split at heq
    · cases heq
    · split at heq
      · exact Except.ok.inj heq ▸ h
      · exact hf _ _ (by exact h) heq

theorem Stable.onSendTimer (hR : Stable R) (hf : KeepsHolds R f) : KeepsHolds R (onSendTimer env · f) := by
  intro s s' h heq
  dsimp only [Messenger.onSendTimer] at heq
  split at heq
  · exact Except.ok.inj heq ▸ h
  · obtain ⟨s₁, hs₁, heq⟩ := eq_ok_of_bind heq
    refine hR.recvMessage ?_ heq
    unfold sendNewBlock at hs₁
    split at hs₁
    · exact Except.ok.inj hs₁ ▸ h
    · obtain ⟨⟨buffer, s₂⟩, hcreate, hs₁⟩ := eq_ok_of_bind hs₁
      have h₂ : Holds R s₂ := by
        dsimp only [createBufferFromSendQueue] at hcreate
        split at hcreate
        · cases hcreate
        · cases hcreate
          exact holds_completeWrite (by exact h)
      exact hf.sendMessage _ _ _ (by exact hR.create buffer h₂) hs₁

theorem Stable.onSendMessageComplete (hR : Stable R) (calls : ℕ) : KeepsHolds R (onSendMessageComplete env calls) := by
  induction calls with
  | zero => exact fun _ _ _ heq => by cases heq
  | succ calls ih =>
    intro s s' h heq
    obtain ⟨s₁, hs₁, heq⟩ := eq_ok_of_bind heq
    cases heq
    show Holds R s₁
    split at hs₁
    · exact Except.ok.inj hs₁ ▸ h
    · exact hR.onSendTimer ih _ _ (by exact h) hs₁

/-- **A step keeps `R`**, if a message that is new to the queue does. -/
theorem Stable.step (hR : Stable R) (h : Holds R s) {event : Event}
    (hmessage : ∀ m, event = .onMessage m → m.length ≤ kMaxMessageLength → Holds R { s with readQueue := s.readQueue ++ [m] })
    (heq : s.step env event = .ok s') : Holds R s' := by
  cases event with
  | read bufferLength =>
    cases heq
    unfold Messenger.read
    split
    · exact h
    · exact hR.read _ h
  | write data =>
    cases heq
    dsimp only [Messenger.write]
    split <;> exact h
  | onMessage m =>
    dsimp only [Messenger.step, Messenger.onMessage] at heq
    split at heq
    · exact Except.ok.inj heq ▸ h
    · split at heq
      · exact Except.ok.inj heq ▸ h
      next hmax => exact hR.recvMessage (hmessage m rfl (not_lt.1 hmax)) heq
  | sendTimer => exact hR.onSendTimer (hR.onSendMessageComplete callDepth) _ _ (by exact h) heq
  | timeout =>
    obtain ⟨s₁, hs₁, heq⟩ := eq_ok_of_bind heq
    refine hR.recvMessage ?_ heq
    split at hs₁
    · exact (hR.onSendMessageComplete callDepth).sendMessage _ _ _ (by exact h) hs₁
    · exact Except.ok.inj hs₁ ▸ h
  | complete => exact hR.onSendMessageComplete callDepth _ _ (by exact h) heq

/-! ### The stream -/

variable {created c : List (List UInt8)} {S : ℕ → UInt8} {cut : ℕ → ℕ}

/-- `S` with its cuts is a stream that begins with the blocks. -/
def Fits (S : ℕ → UInt8) (cut : ℕ → ℕ) (created : List (List UInt8)) : Prop :=
  cut 0 = 0 ∧ ∀ before data behind, created = before ++ data :: behind →
    cut before.length = before.flatten.length ∧ block S cut before.length = data

/-- A message with a block holds one of these, at its place. -/
def Carries (created : List (List UInt8)) (message : List UInt8) : Prop :=
  number message 0 4 ≠ 0 →
    Placed created (toInt64 (number message 40 8)) ((message.drop sizeofMessage).take (number message 38 2))

/-- What the receiver has agrees with every stream that begins with the blocks. -/
def Agrees (created : List (List UInt8)) : Property := fun _ l d q =>
  (∀ m ∈ q, Carries created m) ∧ ∀ S cut, StrictMono cut → Fits S cut created →
    ∃ D, (∀ k, D k → k < created.length) ∧ Receives S cut D (l, d)

theorem agrees_new : Agrees [] c .new [] [] := by
  refine ⟨fun m hm => (by cases hm), fun S cut hcut hfits => ⟨fun _ => False, fun _ => False.elim, ?_⟩⟩
  refine ⟨0, 0, [], 0, ⟨.nil, by simp, by simp, .inl rfl⟩, ⟨by simp, id⟩, ?_⟩
  rw [hfits.1]
  rfl

theorem stable_agrees : Stable (Agrees created) where
  create _ h := h
  read size h := ⟨h.1, fun S cut hcut hfits =>
    let ⟨D, hD, hreceives⟩ := h.2 S cut hcut hfits
    ⟨D, hD, hreceives.readBytes hcut size⟩⟩
  pop h := ⟨fun m hm => h.1 m (List.mem_cons_of_mem _ hm), h.2⟩
  add h hid := by
    refine ⟨fun m hm => h.1 m (List.mem_cons_of_mem _ hm), fun S cut hcut hfits => ?_⟩
    obtain ⟨D, hD, hreceives⟩ := h.2 S cut hcut hfits
    obtain ⟨before, behind, hcreated, hposition⟩ := h.1 _ List.mem_cons_self hid
    obtain ⟨hbefore, hblock⟩ := hfits.2 _ _ _ hcreated
    refine ⟨fun j => D j ∨ j = before.length, ?_, ?_⟩
    · rintro k (hk | rfl)
      · exact hD k hk
      · rw [hcreated, List.length_append, List.length_cons]
        omega
    · rw [hposition, ← hblock, ← hbefore]
      exact hreceives.addBlock hcut before.length

theorem Placed.append {position : ℤ} {data : List UInt8} (h : Placed created position data) (more : List (List UInt8)) :
    Placed (created ++ more) position data := by
  obtain ⟨before, behind, rfl, hposition⟩ := h
  exact ⟨before, behind ++ more, by simp, hposition⟩

theorem Agrees.mono {c l d q} (h : Agrees created c l d q) (hgrows : created <+: s.created) : Agrees s.created c l d q := by
  obtain ⟨more, hmore⟩ := hgrows
  rw [← hmore]
  refine ⟨fun m hm hid => (h.1 m hm hid).append more, fun S cut hcut hfits => ?_⟩
  obtain ⟨D, hD, hreceives⟩ := h.2 S cut hcut ⟨hfits.1, fun before data behind heq =>
    hfits.2 before data (behind ++ more) (by simp [heq])⟩
  exact ⟨D, fun k hk => (hD k hk).trans_le (by simp), hreceives⟩

theorem holds_push (h : Holds (Agrees created) s) (hmessage : Carries created message) :
    Holds (Agrees created) { s with readQueue := s.readQueue ++ [message] } :=
  ⟨fun m hm => (List.mem_append.1 hm).elim (h.1 m) fun hm => List.mem_singleton.1 hm ▸ hmessage, h.2⟩

theorem carries_blockMessage {messageId : ℕ} {position : ℤ} {data padding : List UInt8}
    (h : Placed created position data) (hbound : created.flatten.length < 9223372036854775808)
    (hlength : (blockMessage messageId position data padding).length ≤ kMaxMessageLength) :
    Carries created (blockMessage messageId position data padding) := by
  intro _
  obtain ⟨before, behind, hcreated, rfl⟩ := h
  have hdata : data.length < 256 ^ 2 := by
    simp [blockMessage, kMaxMessageLength] at hlength
    omega
  have hposition : before.flatten.length < 9223372036854775808 := by
    rw [hcreated, List.flatten_append, List.length_append] at hbound
    omega
  have hsize : number (blockMessage messageId before.flatten.length data padding) 38 2 = data.length := by
    rw [← leNat_toLe hdata, number]
    simp [blockMessage, List.drop_append, List.drop_eq_nil_of_le]
  have hplace : number (blockMessage messageId before.flatten.length data padding) 40 8 = before.flatten.length := by
    have htake : ((blockMessage messageId before.flatten.length data padding).drop 40).take 8 =
        toLe 8 ((before.flatten.length : ℤ) % 18446744073709551616).toNat := by
      simp [blockMessage, List.drop_append, List.drop_eq_nil_of_le]
    rw [number, htake, leNat_toLe (by omega)]
    omega
  rw [hsize, hplace, toInt64_of_mem (by omega) (by omega)]
  refine ⟨before, behind, ?_, rfl⟩
  rw [hcreated]
  congr 2
  simp [blockMessage, sizeofMessage, List.drop_append, List.drop_eq_nil_of_le]

/-- The stream of the blocks, which goes on for ever with empty bytes. -/
theorem exists_fits (h : [] ∉ created) : ∃ S cut, StrictMono cut ∧ Fits S cut created ∧
    cut created.length = created.flatten.length ∧ ∀ n ≤ created.flatten.length, piece S 0 n = created.flatten.take n := by
  have hpiece (l : List UInt8) (a n : ℕ) (hn : a + n ≤ l.length) : piece (l.getD · 0) a n = (l.drop a).take n := by
    refine List.ext_getElem (by simp [piece]; omega) fun i hi _ => ?_
    simp [piece] at hi ⊢
    rw [List.getElem?_eq_getElem (by omega), Option.getD_some]
  refine ⟨(created.flatten.getD · 0), fun k => (created.take k).flatten.length + (k - created.length),
    strictMono_nat_of_lt_succ fun k => ?_, ⟨by simp, ?_⟩, by simp, fun n hn => ?_⟩
  · rcases Nat.lt_or_ge k created.length with hk | hk
    · have hpos := List.length_pos_of_ne_nil fun heq : created[k] = [] => h (heq ▸ List.getElem_mem hk)
      rw [List.take_succ_eq_append_getElem hk, List.flatten_append, List.length_append, List.flatten_singleton]
      omega
    · rw [List.take_of_length_le hk, List.take_of_length_le (by omega)]
      omega
  · rintro before data behind rfl
    have hcut : ((before ++ data :: behind).take (before.length + 1)).flatten.length =
        before.flatten.length + data.length := by
      rw [List.take_append, List.take_of_length_le (by omega), Nat.add_sub_cancel_left]
      simp
    have hk : before.length - (before ++ data :: behind).length = 0 := by simp
    have hk' : before.length + 1 - (before ++ data :: behind).length = 0 := by simp
    have hall : (before ++ data :: behind).flatten = before.flatten ++ (data ++ behind.flatten) := by simp
    dsimp only [block]
    rw [List.take_left' rfl, hcut, hk, hk', Nat.add_zero, Nat.add_zero, Nat.add_sub_cancel_left]
    refine ⟨rfl, ?_⟩
    rw [hpiece _ _ _ (by simp), hall, List.drop_left' rfl, List.take_left' rfl]
  · rw [hpiece _ _ _ (by omega), List.drop_zero]

end Chromium.Net.CurveCP.Messenger
