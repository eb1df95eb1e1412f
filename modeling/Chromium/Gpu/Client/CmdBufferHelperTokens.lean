import Chromium.Gpu.Client.FencedAllocatorRoom
import Mathlib.Data.Nat.Bits

/-!
# Tokens and the blocks that wait for them

`CommandBufferHelper::InsertToken` of `gpu/command_buffer/client/cmd_buffer_helper.cc` counts with 31 bits.  The service executes
the `SetToken` commands in order, and the client sees the token of the last state it got.  `FreeUnused` frees the blocks
whose token is at most that one.

`InsertToken` waits for the service when the counter wraps, so all the tokens that have been executed and not read are of one
lap.  But a block may wait for a token of an earlier lap, and its number is then not comparable (`freeUnused_iff`).
-/

namespace Chromium.Gpu

open Lib

namespace FencedAllocator

variable {size : ℕ} {blocks : List Block} {b c : Block} {last : ℤ}

/-! ### What `FreeUnused` leaves -/

theorem not_tokenRead_freeUnusedFrom {blocks : List Block} {index : ℕ}
    (hbefore : ∀ c ∈ blocks.take index, ¬ TokenRead last c) :
    ∀ c ∈ freeUnusedFrom last blocks index, ¬ TokenRead last c := by
  induction blocks, index using freeUnusedFrom.induct last with
  | case1 blocks index hlt hp freed ih =>
    rw [freeUnusedFrom, dif_pos hlt, dif_pos hp]
    obtain ⟨pre, b, post, rfl, rfl⟩ := exists_cut hlt
    rw [blockAt_cut] at hp
    obtain ⟨pre', f, post', heq, _, hpre, -, -⟩ := freeBlock_largestFrom pre post (b := b) (by rw [hp.1]; decide)
    have hfreed : freed = (pre' ++ f :: post', pre'.length) := heq
    rw [hfreed] at ih
    show ∀ c ∈ freeUnusedFrom last (freeBlock _ _).1 (freeBlock _ _).2, _
    rw [heq]
    refine ih fun c hc => ?_
    rw [List.take_left] at hbefore hc
    exact hbefore c (hpre.subset hc)
  | case2 blocks index hlt hp ih =>
    rw [freeUnusedFrom, dif_pos hlt, dif_neg hp]
    refine ih fun c hc => ?_
    obtain ⟨pre, b, post, rfl, rfl⟩ := exists_cut hlt
    rw [blockAt_cut] at hp
    rw [List.take_left] at hbefore
    rw [List.append_cons, List.take_left' (by simp)] at hc
    rcases List.mem_append.1 hc with hc | hc
    · exact hbefore c hc
    · rw [List.mem_singleton.1 hc]
      exact hp
  | case3 blocks index hlt =>
    rw [freeUnusedFrom, dif_neg hlt]
    rwa [List.take_of_length_le (not_lt.1 hlt)] at hbefore

/-- **The pending blocks that are left** are those whose token is greater than the one read. -/
theorem mem_freeUnused_iff (h : Consistent size blocks) (hs : b.state = .FREE_PENDING_TOKEN) :
    b ∈ freeUnused blocks last ↔ b ∈ blocks ∧ last < b.token := by
  have hk : Kept size blocks (freeUnused blocks last) (TokenRead last) := kept_freeUnusedFrom h
  have hf : b.state ≠ .FREE := by rw [hs]; decide
  constructor
  · intro hb
    have hnot : ¬ TokenRead last b := not_tokenRead_freeUnusedFrom (by simp) b hb
    exact ⟨(mem_used.1 (hk.old b (mem_used.2 ⟨hb, hf⟩))).1, not_le.1 fun hle => hnot ⟨hs, hle⟩⟩
  · rintro ⟨hb, hlt⟩
    rcases hk.kept b (mem_used.2 ⟨hb, hf⟩) with hmem | ⟨-, hle⟩
    · exact (mem_used.1 hmem).1
    · exact absurd hle (not_le.2 hlt)

/-- **The pending blocks behind `FreePendingToken`**: the new one, and those that start elsewhere. -/
theorem freePendingToken_old (h : Consistent size blocks) (hb : b ∈ blocks) (hs : b.state = .IN_USE) (token : ℤ)
    (hc : c ∈ freePendingToken blocks b.offset token) :
    c = ⟨.FREE_PENDING_TOKEN, b.offset, b.size, token⟩ ∨ c ∈ blocks ∧ c.offset ≠ b.offset := by
  have hf : b.state ≠ .FREE := by rw [hs]; decide
  obtain ⟨hafter, hnew, -⟩ := freePendingToken_spec h hb hs token
  have hpos := hafter.pos_of_used hnew (show BlockState.FREE_PENDING_TOKEN ≠ .FREE by decide)
  by_cases hne : c = ⟨.FREE_PENDING_TOKEN, b.offset, b.size, token⟩
  · exact .inl hne
  · refine .inr ⟨?_, ?_⟩
    · obtain ⟨pre, post, rfl, hidx⟩ := getBlockByOffset_spec h hb hf
      unfold freePendingToken blockAt at hc
      simp only [hidx, getD_cut, set_cut] at hc
      rcases List.mem_append.1 hc with hc | hc
      · exact List.mem_append_left _ hc
      · exact List.mem_append_right _ (List.mem_cons_of_mem _ ((List.mem_cons.1 hc).resolve_left hne))
    · have hapart := hafter.tiles.apart hc hnew hne
      have h₁ := hpos c hc
      have h₂ := hpos _ hnew
      unfold Apart at hapart
      dsimp only at hapart h₂
      omega

/-! ### The helper and the service -/

/-- `token_` after so many calls of `InsertToken`, and so the token of the last one's command. -/
def tokenAfter : ℕ → ℕ
  | 0 => 0
  | n + 1 => (tokenAfter n + 1) &&& 0x7FFFFFFF

def tokenLap : ℕ := 2147483648

theorem tokenAfter_eq (n : ℕ) : tokenAfter n = n % tokenLap := by
  induction n with
  | zero => rfl
  | succ n ih =>
    have hmask : (tokenAfter n + 1) &&& 0x7FFFFFFF = (tokenAfter n + 1) % 2 ^ 31 := Nat.and_two_pow_sub_one_eq_mod _ 31
    rw [tokenAfter, hmask, ih, tokenLap]
    omega

/-- A client with an allocator.  `SetToken` commands are counted from 1 in the order in which they are inserted. -/
structure Client where
  blocks : List Block
  /-- How many commands have been inserted, and how many the service has executed. -/
  inserted : ℕ
  executed : ℕ
  /-- How many the service had executed in the last state that the client got. -/
  read : ℕ
  /-- For which command the block that was freed at an offset waits. -/
  waitsFor : ℕ → ℕ

namespace Client

def lastTokenRead (s : Client) : ℤ := tokenAfter s.read

/-- `InsertToken`.  When the counter wraps, `Finish` waits until the service has executed everything. -/
def insertToken (s : Client) : Client :=
  if tokenAfter (s.inserted + 1) = 0 then
    { s with inserted := s.inserted + 1, executed := s.inserted + 1, read := s.inserted + 1 }
  else { s with inserted := s.inserted + 1 }

/-- `FencedAllocator::FreePendingToken` with the token of a command. -/
def freePendingToken (s : Client) (offset command : ℕ) : Client :=
  { s with
    blocks := FencedAllocator.freePendingToken s.blocks offset (tokenAfter command)
    waitsFor := Function.update s.waitsFor offset command }

def freeUnused (s : Client) : Client := { s with blocks := FencedAllocator.freeUnused s.blocks s.lastTokenRead }

def Overdue (s : Client) (b : Block) : Prop :=
  b ∈ s.blocks ∧ b.state = .FREE_PENDING_TOKEN ∧ s.waitsFor b.offset ≤ s.executed

end Client

/-- What happens: calls of the client, and the service that goes on. -/
inductive Event
  | insertToken
  | alloc (size offset : ℕ) (waited : List ℤ)
  | free (offset : ℕ)
  | freePendingToken (offset command : ℕ)
  | freeUnused
  /-- The service executes the next command. -/
  | execute
  /-- The client gets a state of the service. -/
  | update

/-- Where the service and the client's knowledge of it are later. -/
structure Progress (s s' : Client) : Prop where
  inserted : s'.inserted = s.inserted
  executed : s.executed ≤ s'.executed ∧ s'.executed ≤ s.inserted
  read : s.read ≤ s'.read ∧ s'.read ≤ s'.executed
  waitsFor : s'.waitsFor = s.waitsFor

/-- Any sequence of calls in which blocks in use are freed, pending a token that has been inserted. -/
def tokenClient (size : ℕ) : TransSys Client Event where
  init s := size < 4294967296 ∧ s = ⟨new size, 0, 0, 0, fun _ => 0⟩
  step s l s' :=
    match l with
    | .insertToken => s' = s.insertToken
    | .alloc n offset waited => n < 4294967296 ∧ alloc s.blocks n = ⟨s'.blocks, offset, waited⟩ ∧ Progress s s' ∧
        -- `WaitForToken` gives up on tokens from before a wrap.
        ∀ token ∈ waited, tokenAfter s.inserted < token ∨ token ≤ s'.lastTokenRead
    | .free offset => ∃ b ∈ s.blocks, b.state = .IN_USE ∧ b.offset = offset ∧
        s' = { s with blocks := free s.blocks offset }
    | .freePendingToken offset command => ∃ b ∈ s.blocks, b.state = .IN_USE ∧ b.offset = offset ∧
        0 < command ∧ command ≤ s.inserted ∧ s' = s.freePendingToken offset command
    | .freeUnused => s' = s.freeUnused
    | .execute => s.executed < s.inserted ∧ s' = { s with executed := s.executed + 1 }
    | .update => ∃ read, s.read ≤ read ∧ read ≤ s.executed ∧ s' = { s with read := read }

def lapOf (command : ℕ) : ℕ := command / tokenLap

/-- **What holds of a client**: all that is still on the way is of the current lap, and each block has the token it waits
for. -/
structure ClientInv (size : ℕ) (s : Client) : Prop where
  consistent : Consistent size s.blocks
  read : s.read ≤ s.executed
  executed : s.executed ≤ s.inserted
  lap : lapOf s.read = lapOf s.inserted
  token : ∀ b ∈ s.blocks, b.state = .FREE_PENDING_TOKEN →
    b.token = tokenAfter (s.waitsFor b.offset) ∧ s.waitsFor b.offset ≤ s.inserted

variable {s s' : Client} {tr : List Event}

theorem lapOf_eq {m n k : ℕ} (h : lapOf m = lapOf n) (hmk : m ≤ k) (hkn : k ≤ n) : lapOf k = lapOf n := by
  unfold lapOf at *
  have h₁ := Nat.div_le_div_right (c := tokenLap) hmk
  have h₂ := Nat.div_le_div_right (c := tokenLap) hkn
  omega

theorem ClientInv.token_of_old (h : ClientInv size s) {blocks' : List Block}
    (hold : ∀ c ∈ used blocks', c ∈ used s.blocks ∨ c.state = .IN_USE) :
    ∀ b ∈ blocks', b.state = .FREE_PENDING_TOKEN →
      b.token = tokenAfter (s.waitsFor b.offset) ∧ s.waitsFor b.offset ≤ s.inserted := by
  intro b hb hs
  rcases hold b (mem_used.2 ⟨hb, by rw [hs]; decide⟩) with hmem | huse
  · exact h.token b (mem_used.1 hmem).1 hs
  · rw [hs] at huse
    cases huse

theorem ClientInv.insertToken (h : ClientInv size s) : ClientInv size s.insertToken := by
  have hlap := h.lap
  unfold Client.insertToken
  split
  · exact ⟨h.consistent, le_rfl, le_rfl, rfl, fun b hb hs => ⟨(h.token b hb hs).1, (h.token b hb hs).2.trans (Nat.le_succ _)⟩⟩
  · next hne =>
    refine ⟨h.consistent, h.read, h.executed.trans (Nat.le_succ _), ?_,
      fun b hb hs => ⟨(h.token b hb hs).1, (h.token b hb hs).2.trans (Nat.le_succ _)⟩⟩
    show lapOf s.read = lapOf (s.inserted + 1)
    rw [tokenAfter_eq] at hne
    unfold lapOf tokenLap at *
    omega

theorem ClientInv.freePendingToken (h : ClientInv size s) {b : Block} (hb : b ∈ s.blocks) (hs : b.state = .IN_USE)
    {command : ℕ} (hle : command ≤ s.inserted) : ClientInv size (s.freePendingToken b.offset command) where
  consistent := (freePendingToken_spec h.consistent hb hs _).1
  read := h.read
  executed := h.executed
  lap := h.lap
  token c hc hcs := by
    dsimp only [Client.freePendingToken] at hc ⊢
    rcases freePendingToken_old h.consistent hb hs _ hc with rfl | ⟨hc, hne⟩
    · dsimp only
      rw [Function.update_self]
      exact ⟨rfl, hle⟩
    · rw [Function.update_of_ne hne]
      exact h.token c hc hcs

theorem ClientInv.step (h : ClientInv size s) {l : Event} (hst : (tokenClient size).step s l s') : ClientInv size s' := by
  cases l with
  | insertToken =>
    obtain rfl := hst
    exact h.insertToken
  | alloc n offset waited =>
    obtain ⟨-, heq, hprogress, -⟩ := hst
    have hspec := allocSpec_alloc h.consistent n
    rw [heq] at hspec
    have hread := hprogress.read
    have hexecuted := hprogress.executed
    refine ⟨hspec.consistent, hread.2, ?_, ?_, ?_⟩
    · rw [hprogress.inserted]
      exact hexecuted.2
    · rw [hprogress.inserted]
      exact lapOf_eq h.lap hread.1 (hread.2.trans hexecuted.2)
    · rw [hprogress.inserted, hprogress.waitsFor]
      exact h.token_of_old fun c hc => (hspec.old c hc).imp id fun hc => hc.1
  | free offset =>
    obtain ⟨b, hb, hs, rfl, rfl⟩ := hst
    have hk := kept_free h.consistent hb hs
    exact ⟨hk.consistent, h.read, h.executed, h.lap, h.token_of_old fun c hc => .inl (hk.old c hc)⟩
  | freePendingToken offset command =>
    obtain ⟨b, hb, hs, rfl, -, hle, rfl⟩ := hst
    exact h.freePendingToken hb hs hle
  | freeUnused =>
    obtain rfl := hst
    have hk : Kept size s.blocks (freeUnused s.blocks s.lastTokenRead) (TokenRead s.lastTokenRead) :=
      kept_freeUnusedFrom h.consistent
    exact ⟨hk.consistent, h.read, h.executed, h.lap, h.token_of_old fun c hc => .inl (hk.old c hc)⟩
  | execute =>
    obtain ⟨hlt, rfl⟩ := hst
    exact ⟨h.consistent, h.read.trans (Nat.le_succ _), hlt, h.lap, h.token⟩
  | update =>
    obtain ⟨read, hge, hle, rfl⟩ := hst
    exact ⟨h.consistent, hle, h.executed, lapOf_eq h.lap hge (hle.trans h.executed), h.token⟩

theorem clientInv_run (h : (tokenClient size).Run tr s) : ClientInv size s := by
  refine h.invariant (I := ClientInv size) ?_ fun _ _ _ hi hst => hi.step hst
  rintro s ⟨-, rfl⟩
  refine ⟨consistent_new size, le_rfl, le_rfl, rfl, fun b hb hs => ?_⟩
  rw [List.mem_singleton.1 hb] at hs
  cases hs

/-! ### Blocks that are not freed -/

/-- **When `FreeUnused` finds every block that it may free**: each executed command of this lap that a block waits for has
been read, and each one of an earlier lap has no greater token than the one that was read. -/
structure Comparable (s : Client) : Prop where
  read : ∀ b, s.Overdue b → lapOf (s.waitsFor b.offset) = lapOf s.read → s.waitsFor b.offset ≤ s.read
  lap : ∀ b, s.Overdue b → lapOf (s.waitsFor b.offset) ≠ lapOf s.read → tokenAfter (s.waitsFor b.offset) ≤ tokenAfter s.read

theorem tokenAfter_le_iff {m n : ℕ} (h : lapOf m = lapOf n) : tokenAfter m ≤ tokenAfter n ↔ m ≤ n := by
  rw [tokenAfter_eq, tokenAfter_eq]
  unfold lapOf tokenLap at *
  omega

theorem ClientInv.overdue_freeUnused (h : ClientInv size s) (b : Block) :
    s.freeUnused.Overdue b ↔ s.Overdue b ∧ tokenAfter s.read < tokenAfter (s.waitsFor b.offset) := by
  constructor
  · rintro ⟨hb, hs, hle⟩
    obtain ⟨hmem, hlt⟩ := (mem_freeUnused_iff h.consistent hs).1 hb
    rw [(h.token b hmem hs).1] at hlt
    exact ⟨⟨hmem, hs, hle⟩, Int.ofNat_lt.1 hlt⟩
  · rintro ⟨⟨hb, hs, hle⟩, hlt⟩
    refine ⟨(mem_freeUnused_iff h.consistent hs).2 ⟨hb, ?_⟩, hs, hle⟩
    rw [(h.token b hb hs).1]
    exact Int.ofNat_lt.2 hlt

/-- **After `FreeUnused` no block waits for a token whose command has been executed, exactly if the tokens could be
compared.** -/
theorem freeUnused_iff (hrun : (tokenClient size).Run tr s) (hst : (tokenClient size).step s .freeUnused s') :
    (∀ b, ¬ s'.Overdue b) ↔ Comparable s := by
  obtain rfl := hst
  have h := clientInv_run hrun
  constructor
  · intro hnone
    have hle : ∀ b, s.Overdue b → tokenAfter (s.waitsFor b.offset) ≤ tokenAfter s.read :=
      fun b hb => not_lt.mp fun hlt => hnone b ((h.overdue_freeUnused b).mpr ⟨hb, hlt⟩)
    exact ⟨fun b hb hlap => (tokenAfter_le_iff hlap).mp (hle b hb), fun b hb _ => hle b hb⟩
  · intro hc b hb
    obtain ⟨hover, hlt⟩ := (h.overdue_freeUnused b).mp hb
    refine absurd hlt (not_lt.mpr ?_)
    by_cases hlap : lapOf (s.waitsFor b.offset) = lapOf s.read
    · exact (tokenAfter_le_iff hlap).mpr (hc.read b hover hlap)
    · exact hc.lap b hover hlap

/-! ### A lap later -/

def waiting (inserted : ℕ) : Client :=
  ⟨[⟨.FREE_PENDING_TOKEN, 0, 4, 1⟩], inserted, inserted, inserted, Function.update (fun _ => 0) 0 1⟩

theorem waiting_one_run : ∃ tr, (tokenClient 4).Run tr (waiting 1) := by
  have h0 : (tokenClient 4).Run [] ⟨new 4, 0, 0, 0, fun _ => 0⟩ := .init ⟨by decide, rfl⟩
  have h1 : (tokenClient 4).Run [.alloc 4 0 []] ⟨[⟨.IN_USE, 0, 4, 0⟩], 0, 0, 0, fun _ => 0⟩ :=
    h0.step (l := Event.alloc 4 0 []) ⟨by decide, rfl, ⟨rfl, ⟨le_rfl, le_rfl⟩, ⟨le_rfl, le_rfl⟩, rfl⟩, by simp⟩
  have h2 : (tokenClient 4).Run [.alloc 4 0 [], .insertToken] ⟨[⟨.IN_USE, 0, 4, 0⟩], 1, 0, 0, fun _ => 0⟩ :=
    h1.step (l := Event.insertToken) rfl
  have h3 : (tokenClient 4).Run [.alloc 4 0 [], .insertToken, .freePendingToken 0 1]
      ⟨[⟨.FREE_PENDING_TOKEN, 0, 4, 1⟩], 1, 0, 0, Function.update (fun _ => 0) 0 1⟩ :=
    h2.step (l := Event.freePendingToken 0 1)
      ⟨⟨.IN_USE, 0, 4, 0⟩, List.mem_cons_self, rfl, rfl, by decide, by decide, rfl⟩
  have h4 : (tokenClient 4).Run [.alloc 4 0 [], .insertToken, .freePendingToken 0 1, .execute]
      ⟨[⟨.FREE_PENDING_TOKEN, 0, 4, 1⟩], 1, 1, 0, Function.update (fun _ => 0) 0 1⟩ :=
    h3.step (l := Event.execute) ⟨by decide, rfl⟩
  exact ⟨_, h4.step (l := Event.update) ⟨1, by decide, le_rfl, rfl⟩⟩

theorem waiting_succ_run {n : ℕ} (h : ∃ tr, (tokenClient 4).Run tr (waiting n)) :
    ∃ tr, (tokenClient 4).Run tr (waiting (n + 1)) := by
  obtain ⟨tr, h⟩ := h
  by_cases hwrap : tokenAfter (n + 1) = 0
  · refine ⟨_, h.step (l := Event.insertToken) ?_⟩
    show waiting (n + 1) = (waiting n).insertToken
    exact (if_pos hwrap).symm
  · have hinsert : (waiting n).insertToken = { waiting n with inserted := n + 1 } := if_neg hwrap
    have h1 := h.step (l := Event.insertToken) hinsert.symm
    have h2 : (tokenClient 4).Run _ { waiting n with inserted := n + 1, executed := n + 1 } :=
      h1.step (l := Event.execute) ⟨Nat.lt_succ_self n, rfl⟩
    exact ⟨_, h2.step (l := Event.update) ⟨n + 1, Nat.le_succ n, le_rfl, rfl⟩⟩

theorem waiting_run (n : ℕ) : ∃ tr, (tokenClient 4).Run tr (waiting (n + 1)) := by
  induction n with
  | zero => exact waiting_one_run
  | succ n ih => exact waiting_succ_run ih

theorem freeUnused_one : ¬ (waiting 1).freeUnused.Overdue ⟨.FREE_PENDING_TOKEN, 0, 4, 1⟩ := by
  obtain ⟨tr, hrun⟩ := waiting_one_run
  refine (freeUnused_iff hrun rfl).mpr ⟨fun b hb _ => ?_, fun b hb hlap => ?_⟩ _
  · exact hb.2.2
  · refine absurd ?_ hlap
    rw [List.mem_singleton.mp hb.1]
    rfl

/-- **A block that waits since before the counter wrapped is not freed.** -/
theorem overdue_wrapped :
    ¬ ∀ tr s s', (tokenClient 4).Run tr s → (tokenClient 4).step s .freeUnused s' → ∀ b, ¬ s'.Overdue b := by
  intro h
  obtain ⟨tr, hrun⟩ := waiting_run 2147483647
  have hread : tokenAfter (waiting 2147483648).read = 0 := tokenAfter_eq _
  refine h tr _ _ hrun rfl ⟨.FREE_PENDING_TOKEN, 0, 4, 1⟩ ?_
  refine ((clientInv_run hrun).overdue_freeUnused _).mpr ⟨⟨List.mem_cons_self, rfl, ?_⟩, ?_⟩
  · show 1 ≤ 2147483648
    decide
  · show tokenAfter (waiting 2147483648).read < tokenAfter 1
    rw [hread]
    decide

end FencedAllocator

end Chromium.Gpu
