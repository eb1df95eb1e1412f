import Chromium.Gpu.Client.CmdBufferHelper

/-!
# The client and the service agree on the ring

The invariant of the system `commandRing`.  `Layout x p q a b c d` says where
everything lies in the ring while the reader has not shut down: on one way
through the ring there are the commands `a` that the reader has executed and the
client has not noticed, `b` up to the put offset of the parser, `c` up to the put
offset of the service, and `d` up to the entry `p` where the next command goes.
The entries from `p` to `q` are reserved for it.

Each step keeps the layout (`Laid.observe`, `Laid.putChanged`, `Laid.process` and
so on), and `commandRing_run` is what follows for the commands.
-/

namespace Chromium.Gpu

open Lib
open List (append_assoc append_nil)

namespace RingState

variable {Gles : Type} {gles2 : GLES2Commands Gles} {x x' : RingState Gles} {p q : ℤ}
  {a b c d : List Item}

/-- The offsets, as every step keeps them while the reader runs. -/
structure Offsets (x : RingState Gles) : Prop where
  entryCount : x.parser.entryCount = x.commandBuffer.numEntries
  room : x.helper.usableEntryCount + 2 ≤ x.commandBuffer.numEntries
  nonneg : 0 ≤ x.commandBuffer.numEntries
  getOffset : x.commandBuffer.getOffset = x.parser.get
  view : 0 ≤ x.view ∧ (x.view = 0 ∨ x.view ≤ x.helper.usableEntryCount)

/-- **Where the commands lie in the ring**, and which of them they are. -/
structure Layout (x : RingState Gles) (p q : ℤ) (a b c d : List Item) : Prop extends Offsets x where
  done : Path x.ring x.helper.usableEntryCount x.view a x.parser.get
  reading : Path x.ring x.helper.usableEntryCount x.parser.get b x.parser.put
  arrived : Path x.ring x.helper.usableEntryCount x.parser.put c x.commandBuffer.putOffset
  unsent : Path x.ring x.helper.usableEntryCount x.commandBuffer.putOffset d p
  fits : Fits x.helper.usableEntryCount x.view (a ++ (b ++ (c ++ d))) p q
  received : x.received = x.executed ++ commands b
  sent : x.sent = x.received ++ commands c
  issued : x.issued = x.sent ++ commands d

/-- The way is laid, and the next command goes to the entries from `p` to `q`. -/
def Laid (x : RingState Gles) (p q : ℤ) : Prop := ∃ a b c d, Layout x p q a b c d

/-- What each phase of `GetSpace` has reached. -/
def PhaseInv (x : RingState Gles) : Prop :=
  match x.phase with
  | .idle => x.Laid x.helper.put x.helper.put
  | .wrap count | .wrapSync count =>
    1 ≤ count ∧ count < x.helper.usableEntryCount ∧ x.Laid x.helper.put x.helper.put
  | .wait count | .waitSync count =>
    1 ≤ count ∧ count < x.helper.usableEntryCount ∧
      x.helper.put + count ≤ x.helper.usableEntryCount ∧ x.Laid x.helper.put x.helper.put
  | .check count | .take count =>
    1 ≤ count ∧ count < x.helper.usableEntryCount ∧ x.helper.put + count ≤ x.helper.usableEntryCount ∧
      x.Laid x.helper.put (x.helper.put + count)
  | .fill space count =>
    1 ≤ count ∧ count < x.helper.usableEntryCount ∧ space + count ≤ x.helper.usableEntryCount ∧
      x.Laid space (space + count) ∧
      if space + count = x.helper.usableEntryCount then
        x.helper.put = 0 ∧ load x.ring (space + count) 2 = Jump.set 0
      else x.helper.put = space + count

/-- **The invariant**: the layout while the reader runs, and always that what was
executed is a part of what was issued. -/
structure Inv (x : RingState Gles) : Prop where
  executed : x.executed <+: x.issued
  alive : x.commandBuffer.error = .kNoError → x.PhaseInv

/-! ### The way as a whole -/

namespace Layout

theorem path (h : Layout x p q a b c d) :
    Path x.ring x.helper.usableEntryCount x.view (a ++ (b ++ (c ++ d))) p :=
  h.done.append (h.reading.append (h.arrived.append h.unsent))

theorem executed (h : Layout x p q a b c d) : x.issued = x.executed ++ commands (b ++ (c ++ d)) := by
  rw [h.issued, h.sent, h.received, commands_append, commands_append]
  simp only [append_assoc]

theorem fits_reading (h : Layout x p q a b c d) :
    Fits x.helper.usableEntryCount x.parser.get (b ++ (c ++ d)) p q :=
  h.fits.advance h.done (h.reading.append (h.arrived.append h.unsent))

theorem fits_arrived (h : Layout x p q a b c d) :
    Fits x.helper.usableEntryCount x.parser.put (c ++ d) p q :=
  h.fits_reading.advance h.reading (h.arrived.append h.unsent)

theorem fits_unsent (h : Layout x p q a b c d) :
    Fits x.helper.usableEntryCount x.commandBuffer.putOffset d p q :=
  h.fits_arrived.advance h.arrived h.unsent

theorem congr {ring' : ℤ → CommandBufferEntry} (h : Layout x p q a b c d)
    (hr : ∀ i, foot x.view (a ++ (b ++ (c ++ d))) i → ring' i = x.ring i) :
    Layout { x with ring := ring' } p q a b c d where
  toOffsets := ⟨h.entryCount, h.room, h.nonneg, h.getOffset, h.view⟩
  done := h.done.congr fun i hi => hr i (h.done.foot_append.2 (.inl hi))
  reading := h.reading.congr fun i hi =>
    hr i (h.done.foot_append.2 (.inr (h.reading.foot_append.2 (.inl hi))))
  arrived := h.arrived.congr fun i hi =>
    hr i (h.done.foot_append.2 (.inr (h.reading.foot_append.2
      (.inr (h.arrived.foot_append.2 (.inl hi))))))
  unsent := h.unsent.congr fun i hi =>
    hr i (h.done.foot_append.2 (.inr (h.reading.foot_append.2
      (.inr (h.arrived.foot_append.2 (.inr hi))))))
  fits := h.fits
  received := h.received
  sent := h.sent
  issued := h.issued

end Layout

variable {l : Label} {U numEntries : ℤ} {e : Error} {fuel ringBufferSize : ℕ}
  {cmd : List CommandBufferEntry} {s' : GpuScheduler Gles} {ring : ℤ → CommandBufferEntry}

/-! ### The steps that leave the ring alone -/

theorem Laid.observe (h : x.Laid p q) : Laid { x with view := x.commandBuffer.getOffset } p q := by
  obtain ⟨a, b, c, d, h⟩ := h
  have hview := h.done.end_mem h.view.1 h.view.2
  refine ⟨[], b, c, d, ⟨h.entryCount, h.room, h.nonneg, h.getOffset, ?_⟩, ?_, h.reading,
    h.arrived, h.unsent, ?_, h.received, h.sent, h.issued⟩
  · rw [h.getOffset]
    exact hview
  · show Path x.ring x.helper.usableEntryCount x.commandBuffer.getOffset [] x.parser.get
    rw [h.getOffset]
    exact .nil
  · show Fits x.helper.usableEntryCount x.commandBuffer.getOffset _ p q
    rw [h.getOffset]
    exact h.fits_reading

theorem Laid.putChanged (h : x.Laid p q) : Laid { x with
      scheduler := x.scheduler.setParser (x.parser.setPut x.commandBuffer.putOffset)
      received := x.sent } p q := by
  obtain ⟨a, b, c, d, h⟩ := h
  refine ⟨a, b ++ c, [], d, ⟨h.entryCount, h.room, h.nonneg, h.getOffset, h.view⟩, h.done,
    h.reading.append h.arrived, .nil, h.unsent, ?_, ?_, ?_, h.issued⟩
  · simpa using h.fits
  · show x.sent = x.executed ++ commands (b ++ c)
    rw [h.sent, h.received, commands_append, append_assoc]
  · show x.sent = x.sent ++ commands []
    simp

theorem flush_layout (h : Layout x x.helper.put q a b c d) :
    x.flush.commandBuffer.error = x.commandBuffer.error ∧
      Layout x.flush x.helper.put q a b (c ++ d) [] := by
  have hput : 0 ≤ x.helper.put ∧ x.helper.put ≤ x.commandBuffer.numEntries := by
    have h0 := h.fits.nonneg
    have h1 := h.fits.bound
    have h2 := h.room
    have h3 := h.nonneg
    omega
  have hflush : x.commandBuffer.flush x.helper.put =
      ({ x.commandBuffer with putOffset := x.helper.put }, true) := by
    rw [CommandBufferService.flush, if_neg (by omega)]
  have hcb : x.flush.commandBuffer = { x.commandBuffer with putOffset := x.helper.put } :=
    congrArg Prod.fst hflush
  refine ⟨by rw [hcb], ⟨?_, ?_, ?_, ?_, h.view⟩, h.done, h.reading, ?_, ?_, ?_, h.received, ?_, ?_⟩
  · rw [hcb]
    exact h.entryCount
  · rw [hcb]
    exact h.room
  · rw [hcb]
    exact h.nonneg
  · rw [hcb]
    exact h.getOffset
  · rw [hcb]
    exact h.arrived.append h.unsent
  · rw [hcb]
    exact .nil
  · show Fits x.helper.usableEntryCount x.view (a ++ (b ++ ((c ++ d) ++ []))) x.helper.put q
    rw [append_nil]
    exact h.fits
  · show x.issued = x.received ++ commands (c ++ d)
    rw [h.issued, h.sent, commands_append, append_assoc]
  · show x.issued = x.issued ++ commands []
    simp

theorem Laid.flush (h : x.Laid x.helper.put q) :
    x.flush.commandBuffer.error = x.commandBuffer.error ∧ x.flush.Laid x.helper.put q := by
  obtain ⟨a, b, c, d, h⟩ := h
  obtain ⟨he, hl⟩ := flush_layout h
  exact ⟨he, a, b, c ++ d, [], hl⟩

/-! ### The reader executes a command -/

/-- `ProcessCommand` moved the get pointer to `g`, and nothing else of the offsets. -/
structure Turn (s : GpuScheduler Gles) (g : ℤ) (s' : GpuScheduler Gles) : Prop where
  parser : s'.parser = { s.parser with get := g }
  putOffset : s'.commandBuffer.putOffset = s.commandBuffer.putOffset
  numEntries : s'.commandBuffer.numEntries = s.commandBuffer.numEntries
  error : s'.commandBuffer.error = s.commandBuffer.error

/-- **At a command of the client the reader executes it**, and goes behind it. -/
theorem turn_command {s : GpuScheduler Gles} (hU : U + 2 ≤ s.parser.entryCount)
    (hp : Path ring U s.parser.get [.command cmd] p) (hne : s.parser.get ≠ s.parser.put)
    (h : GpuScheduler.processCommand gles2 fuel ring ring s = some (s', e)) :
    Turn s p s' ∧ executedCommand s ring = some cmd := by
  cases hp with
  | command hw h0 hle hl hnil =>
    cases hnil
    have hpos := hw.pos
    have hhead := load_header hw hl
    have hsize : CommandHeader.size (ring s.parser.get) = cmd.length := by rw [hhead, hw.size]
    have hf : s.parser.fetch ring = .command (ring s.parser.get) :=
      CommandParser.fetch_eq_command.2 ⟨hne, rfl, by omega, by omega⟩
    obtain ⟨s₁, hd, rfl⟩ := GpuScheduler.processCommand_of_command hf h
    have hq := (GpuScheduler.doCommand_quiet (fun id hid _ => by
      rw [hhead] at hid
      exact hw.noJump id hid) hd).1
    have hparser : s₁.parser = s.parser := hq.parser
    constructor
    · refine ⟨?_, hq.putOffset, hq.numEntries, hq.error⟩
      rw [GpuScheduler.parser_setParser, hparser, CommandParser.advance_self h0, hsize,
        Int.emod_eq_of_lt (by omega) (by omega)]
    · rw [executedCommand, hf]
      dsimp only
      rw [if_neg (by rw [hhead]; exact hw.command_ne), hsize, hl]

/-- **At a jump the reader goes back to entry `0`**, and there is nothing to log. -/
theorem turn_jump {s : GpuScheduler Gles} (hU : U + 2 ≤ s.parser.entryCount)
    (hp : Path ring U s.parser.get [.jump] p) (hne : s.parser.get ≠ s.parser.put)
    (h : GpuScheduler.processCommand gles2 fuel ring ring s = some (s', e)) :
    Turn s p s' ∧ executedCommand s ring = none := by
  cases hp with
  | jump h1 hle hl hnil =>
    cases hnil
    obtain ⟨hr0, hr1⟩ := load_jump hl
    have hsize : CommandHeader.size (ring s.parser.get) = 2 := by rw [hr0, size_jumpHeader]
    have hcommand : CommandHeader.command (ring s.parser.get) = CommandId.kJump.toNat := by
      rw [hr0, command_jumpHeader]
    have hf : s.parser.fetch ring = .command (ring s.parser.get) :=
      CommandParser.fetch_eq_command.2 ⟨hne, rfl, by omega, by omega⟩
    obtain ⟨s₁, hd, rfl⟩ := GpuScheduler.processCommand_of_command hf h
    have hid : CommandId.ofNat? (CommandHeader.command (ring s.parser.get)) = some .kJump := by
      rw [hcommand]
      exact CommandId.ofNat?_toNat _
    have hm : CommandId.kJump.argCountMatches (CommandHeader.size (ring s.parser.get) - 1) := by
      rw [hsize]
      rfl
    obtain ⟨rfl, _⟩ := GpuScheduler.doCommand_of_common hid hm hd
    have hoff : int32OfUInt32 (ring (s.parser.get + (1 : ℕ))) = 0 := by
      rw [Nat.cast_one, hr1]
      rfl
    obtain ⟨ok, hmoved, _⟩ := CommonDecoder.jumpsTo_handleJump s.decoder
      (ring (s.parser.get + (1 : ℕ)))
    rw [hoff] at hmoved
    have hin : 0 < s.decoder.engine.parser.entryCount := by
      have : s.decoder.engine.parser.entryCount = s.parser.entryCount := rfl
      omega
    obtain ⟨-, hparser⟩ := hmoved.moved le_rfl hin
    constructor
    · refine ⟨?_, hmoved.putOffset, hmoved.numEntries, hmoved.error⟩
      rw [GpuScheduler.parser_setParser]
      refine Eq.trans ?_ hparser
      unfold CommandParser.advance
      refine if_neg fun hc => ?_
      have hzero : s.parser.get = 0 := hc.trans (congrArg CommandParser.get hparser)
      omega
    · rw [executedCommand, hf]
      dsimp only
      rw [if_pos hcommand]

/-- The way after a turn of the reader: an item goes from what is to be read to what is done. -/
theorem Layout.turn {item : Item} {g : ℤ} (e : Error)
    (h : Layout x p q a (item :: b) c d) (ht : Turn x.scheduler g s')
    (hitem : Path x.ring x.helper.usableEntryCount x.parser.get [item] g) :
    Layout { x with
      scheduler := s'.reportResult e
      executed := x.executed ++ commands [item] } p q (a ++ [item]) b c d := by
  obtain ⟨m, hpm, hrest⟩ := Path.split (a := [item]) h.reading
  obtain rfl := hpm.unique hitem
  have hget : s'.parser.get = m := by rw [ht.parser]
  have hput : s'.parser.put = x.parser.put := by rw [ht.parser]; rfl
  have hoffset : (s'.reportResult e).commandBuffer.putOffset = x.commandBuffer.putOffset :=
    (GpuScheduler.putOffset_reportResult _ _).trans ht.putOffset
  have hnum : (s'.reportResult e).commandBuffer.numEntries = x.commandBuffer.numEntries :=
    (GpuScheduler.numEntries_reportResult _ _).trans ht.numEntries
  have hcount : s'.parser.entryCount = x.parser.entryCount := by rw [ht.parser]; rfl
  refine ⟨⟨?_, ?_, ?_, GpuScheduler.getOffset_reportResult _ _, h.view⟩, ?_, ?_, ?_, ?_, ?_, ?_, h.sent, h.issued⟩
  · exact hcount.trans (h.entryCount.trans hnum.symm)
  · exact h.room.trans_eq hnum.symm
  · exact h.nonneg.trans_eq hnum.symm
  · show Path x.ring _ x.view _ s'.parser.get
    rw [hget]
    exact h.done.append hitem
  · show Path x.ring _ s'.parser.get b s'.parser.put
    rw [hget, hput]
    exact hrest
  · show Path x.ring _ s'.parser.put c (s'.reportResult e).commandBuffer.putOffset
    rw [hput, hoffset]
    exact h.arrived
  · show Path x.ring _ (s'.reportResult e).commandBuffer.putOffset d p
    rw [hoffset]
    exact h.unsent
  · have := h.fits
    simpa using this
  · show x.received = x.executed ++ commands [item] ++ commands b
    rw [h.received, append_assoc, ← commands_append]
    rfl

theorem Layout.process (h : Layout x p q a b c d) (hne : ¬ x.parser.isEmpty)
    (hp : GpuScheduler.processCommand gles2 fuel x.ring x.ring x.scheduler = some (s', e))
    (e' : Error) :
    ∃ item b' g, b = item :: b' ∧ Path x.ring x.helper.usableEntryCount x.parser.get [item] g ∧ Turn x.scheduler g s' ∧
      Layout { x with
        scheduler := s'.reportResult e'
        executed := x.executed ++ (executedCommand x.scheduler x.ring).toList }
        p q (a ++ [item]) b' c d := by
  have hgp : x.parser.get ≠ x.parser.put := fun hc => hne (by
    rw [CommandParser.isEmpty, hc]
    exact decide_eq_true rfl)
  have hU : x.helper.usableEntryCount + 2 ≤ x.parser.entryCount := by
    rw [h.entryCount]
    exact h.room
  cases b with
  | nil => exact absurd (h.reading.unique (Path.nil : Path x.ring _ _ [] _)).symm hgp
  | cons item b =>
    obtain ⟨g, hitem, _⟩ := Path.split (a := [item]) h.reading
    cases item with
    | command cmd =>
      obtain ⟨ht, he⟩ := turn_command hU hitem hgp hp
      rw [he]
      exact ⟨_, _, g, rfl, hitem, ht, h.turn e' ht hitem⟩
    | jump =>
      obtain ⟨ht, he⟩ := turn_jump hU hitem hgp hp
      rw [he]
      exact ⟨_, _, g, rfl, hitem, ht, h.turn e' ht hitem⟩

theorem Laid.process (h : x.Laid p q) (hne : ¬ x.parser.isEmpty)
    (hp : GpuScheduler.processCommand gles2 fuel x.ring x.ring x.scheduler = some (s', e))
    (e' : Error) :
    Laid { x with
      scheduler := s'.reportResult e'
      executed := x.executed ++ (executedCommand x.scheduler x.ring).toList } p q := by
  obtain ⟨a, b, c, d, h⟩ := h
  obtain ⟨_, _, _, _, _, _, hl⟩ := h.process hne hp e'
  exact ⟨_, _, _, _, hl⟩

/-! ### The client writes -/

/-- The fields that the layout is about are the same. -/
structure Same (x x' : RingState Gles) : Prop where
  ring : x'.ring = x.ring
  usable : x'.helper.usableEntryCount = x.helper.usableEntryCount
  view : x'.view = x.view
  scheduler : x'.scheduler = x.scheduler
  executed : x'.executed = x.executed
  received : x'.received = x.received
  sent : x'.sent = x.sent
  issued : x'.issued = x.issued

theorem Layout.of_same (h : Layout x p q a b c d) (hs : Same x x') : Layout x' p q a b c d := by
  obtain ⟨ring, helper, phase, view, scheduler, issued, executed, sent, received⟩ := x
  obtain ⟨ring', helper', phase', view', scheduler', issued', executed', sent', received'⟩ := x'
  obtain ⟨rfl, hu, rfl, rfl, rfl, rfl, rfl, rfl⟩ := hs
  dsimp only at hu
  obtain ⟨⟨h1, h2, h3, h4, h5⟩, h6, h7, h8, h9, h10, h11, h12, h13⟩ := h
  dsimp only at h2 h5 h6 h7 h8 h9 h10
  rw [← hu] at h2 h5 h6 h7 h8 h9 h10
  exact ⟨⟨h1, h2, h3, h4, h5⟩, h6, h7, h8, h9, h10, h11, h12, h13⟩

theorem Laid.of_same (h : x.Laid p q) (hs : Same x x') : x'.Laid p q := by
  obtain ⟨a, b, c, d, h⟩ := h
  exact ⟨a, b, c, d, h.of_same hs⟩

theorem Layout.extend {items : List Item} {p' q' : ℤ} (h : Layout x p q a b c d)
    (hp : Path x.ring x.helper.usableEntryCount p items p')
    (hf : Fits x.helper.usableEntryCount x.view ((a ++ (b ++ (c ++ d))) ++ items) p' q') :
    Layout { x with issued := x.issued ++ commands items } p' q' a b c (d ++ items) where
  toOffsets := ⟨h.entryCount, h.room, h.nonneg, h.getOffset, h.view⟩
  done := h.done
  reading := h.reading
  arrived := h.arrived
  unsent := h.unsent.append hp
  fits := by simpa using hf
  received := h.received
  sent := h.sent
  issued := by
    show x.issued ++ commands items = x.sent ++ commands (d ++ items)
    rw [h.issued, commands_append, append_assoc]

/-- **The jump that goes back to entry `0` is written behind the way.** -/
theorem Layout.wrap (h : Layout x x.helper.put x.helper.put a b c d)
    (hv : ¬ (x.view > x.helper.put ∨ x.view = 0)) :
    (∀ i, foot x.view (a ++ (b ++ (c ++ d))) i → (x.setJump x.helper.put).ring i = x.ring i) ∧
      Layout (x.setJump x.helper.put) 0 0 a b c (d ++ [.jump]) := by
  have hv0 := h.view.1
  have hpos : 0 < x.view := by omega
  obtain ⟨hj, hfits⟩ := h.fits.wrap hpos (by omega)
  have hkeep : ∀ i, foot x.view (a ++ (b ++ (c ++ d))) i → (x.setJump x.helper.put).ring i = x.ring i :=
    fun i hi => store_of_lt (h.path.foot_mem hj hi).2
  refine ⟨hkeep, ?_⟩
  have hbound := h.fits.bound
  have hjump : Path (x.setJump x.helper.put).ring x.helper.usableEntryCount x.helper.put
      [.jump] 0 :=
    .jump (by omega) (by omega) (load_store_self _ _ (Jump.set 0)) .nil
  refine ((h.congr hkeep).extend hjump hfits).of_same ⟨rfl, rfl, rfl, rfl, rfl, rfl, rfl, ?_⟩
  exact (append_nil _).symm

theorem Laid.reserve {count : ℤ} (h : x.Laid x.helper.put x.helper.put) (hn : 1 ≤ count)
    (hlt : count < x.helper.usableEntryCount)
    (hU : x.helper.put + count ≤ x.helper.usableEntryCount)
    (hav : ¬ x.helper.availableEntries x.view < count) :
    x.Laid x.helper.put (x.helper.put + count) := by
  obtain ⟨a, b, c, d, h⟩ := h
  have hview := h.view
  rw [CommandBufferHelper.availableEntries, Int.tmod_eq_emod_of_nonneg (by omega), not_lt] at hav
  refine ⟨a, b, c, d, { h with fits := ?_ }⟩
  exact h.fits.reserve h.path hview.1 (by omega) hn hU hav

theorem Layout.take (h : Layout x p x.helper.usableEntryCount a b c d)
    (hlt : p < x.helper.usableEntryCount) :
    (∀ i, foot x.view (a ++ (b ++ (c ++ d))) i → (x.setJump x.helper.usableEntryCount).ring i = x.ring i) ∧
      Layout (x.setJump x.helper.usableEntryCount) p x.helper.usableEntryCount a b c d ∧
      load (x.setJump x.helper.usableEntryCount).ring x.helper.usableEntryCount 2 = Jump.set 0 := by
  have hkeep : ∀ i, foot x.view (a ++ (b ++ (c ++ d))) i →
      (x.setJump x.helper.usableEntryCount).ring i = x.ring i :=
    fun i hi => store_of_lt (h.fits.foot_lt hlt h.path hi)
  exact ⟨hkeep, h.congr hkeep, load_store_self _ _ (Jump.set 0)⟩

theorem Layout.fill_keeps (h : Layout x p (p + cmd.length) a b c d) (i : ℤ)
    (hi : foot x.view (a ++ (b ++ (c ++ d))) i) : store x.ring p cmd i = x.ring i := by
  have hnot := h.fits.not_foot h.path hi
  rcases lt_or_ge i p with hlt | hge
  · exact store_of_lt hlt
  · exact store_of_le (by omega)

/-- **The caller fills the entries**, and the command is on the way. -/
theorem Layout.fill (hw : WellFormed cmd) (h : Layout x p (p + cmd.length) a b c d)
    (hle : p + cmd.length ≤ x.helper.usableEntryCount)
    (hput : if p + cmd.length = x.helper.usableEntryCount then
        x.helper.put = 0 ∧ load x.ring (p + cmd.length) 2 = Jump.set 0
      else x.helper.put = p + cmd.length) :
    ({ x with ring := store x.ring p cmd, issued := x.issued ++ [cmd] } : RingState Gles).Laid
      x.helper.put x.helper.put := by
  have h0 := h.fits.nonneg
  have hpos := hw.pos
  have hcongr := h.congr h.fill_keeps
  split_ifs at hput with hlast
  · obtain ⟨hzero, hjump⟩ := hput
    have hload : load (store x.ring p cmd) (p + cmd.length) 2 = Jump.set 0 := by
      rw [← hjump]
      exact load_congr fun i hi _ => store_of_le hi
    have hpath : Path (store x.ring p cmd) x.helper.usableEntryCount p [.command cmd, .jump] 0 :=
      .command hw h0 hle (load_store_self _ _ _)
        (.jump (by omega) (by omega) hload .nil)
    rw [hlast] at h
    have hfits := h.fits.commandJump cmd (by omega) h.path
    rw [hzero]
    exact ⟨a, b, c, _, hcongr.extend hpath hfits⟩
  · have hpath : Path (store x.ring p cmd) x.helper.usableEntryCount p [.command cmd]
        (p + cmd.length) :=
      .command hw h0 hle (load_store_self _ _ _) .nil
    rw [hput]
    exact ⟨a, b, c, _, hcongr.extend hpath (h.fits.command cmd (by omega))⟩

/-! ### Every step keeps the invariant -/

/-- A step that leaves the ring and the helper alone keeps what the phase has reached. -/
theorem PhaseInv.of_laid (h : x.PhaseInv) (hl : ∀ p q, x.Laid p q → x'.Laid p q)
    (hphase : x'.phase = x.phase) (hhelper : x'.helper = x.helper) (hring : x'.ring = x.ring) :
    x'.PhaseInv := by
  unfold PhaseInv at h ⊢
  rw [hphase, hhelper, hring]
  revert h
  cases x.phase with
  | idle => exact fun h => hl _ _ h
  | wrap count | wrapSync count => exact fun h => ⟨h.1, h.2.1, hl _ _ h.2.2⟩
  | wait count | waitSync count | check count | take count =>
    exact fun h => ⟨h.1, h.2.1, h.2.2.1, hl _ _ h.2.2.2⟩
  | fill space count => exact fun h => ⟨h.1, h.2.1, h.2.2.1, hl _ _ h.2.2.2.1, h.2.2.2.2⟩

/-- **`GetSpace` goes on in the layout.** -/
theorem PhaseInv.getSpaceStep (h : x.PhaseInv) (halive : x.commandBuffer.error = .kNoError)
    (clock : Bool) : (x.getSpaceStep clock).PhaseInv := by
  unfold RingState.getSpaceStep
  cases hp : x.phase with
  | idle | fill space count => exact h
  | wrap count =>
    simp only [PhaseInv, hp] at h
    obtain ⟨hn, hlt, hl⟩ := h
    dsimp only
    split_ifs with hend hwait
    · exact ⟨hn, hlt, hl.flush.2.of_same ⟨rfl, rfl, rfl, rfl, rfl, rfl, rfl, rfl⟩⟩
    · obtain ⟨a, b, c, d, hl⟩ := hl
      refine ⟨hn, hlt, ?_, a, b, c, _, (hl.wrap hwait).2.of_same
        ⟨rfl, rfl, rfl, rfl, rfl, rfl, rfl, rfl⟩⟩
      show 0 + count ≤ x.helper.usableEntryCount
      omega
    · exact ⟨hn, hlt, not_lt.1 hend, hl.of_same ⟨rfl, rfl, rfl, rfl, rfl, rfl, rfl, rfl⟩⟩
  | wrapSync count =>
    simp only [PhaseInv, hp] at h
    dsimp only
    rw [if_pos halive]
    exact ⟨h.1, h.2.1, h.2.2.of_same ⟨rfl, rfl, rfl, rfl, rfl, rfl, rfl, rfl⟩⟩
  | wait count =>
    simp only [PhaseInv, hp] at h
    obtain ⟨hn, hlt, hU, hl⟩ := h
    dsimp only
    split_ifs with hav
    · exact ⟨hn, hlt, hU, hl.flush.2.of_same ⟨rfl, rfl, rfl, rfl, rfl, rfl, rfl, rfl⟩⟩
    · exact ⟨hn, hlt, hU, (hl.reserve hn hlt hU hav).of_same
        ⟨rfl, rfl, rfl, rfl, rfl, rfl, rfl, rfl⟩⟩
  | waitSync count =>
    simp only [PhaseInv, hp] at h
    dsimp only
    rw [if_pos halive]
    exact ⟨h.1, h.2.1, h.2.2.1, h.2.2.2.of_same ⟨rfl, rfl, rfl, rfl, rfl, rfl, rfl, rfl⟩⟩
  | check count =>
    simp only [PhaseInv, hp] at h
    obtain ⟨hn, hlt, hU, hl⟩ := h
    dsimp only
    split_ifs with hpend hclock
    · exact ⟨hn, hlt, hU, hl.flush.2.of_same ⟨rfl, rfl, rfl, rfl, rfl, rfl, rfl, rfl⟩⟩
    · exact ⟨hn, hlt, hU, hl.flush.2.of_same ⟨rfl, rfl, rfl, rfl, rfl, rfl, rfl, rfl⟩⟩
    · exact ⟨hn, hlt, hU, hl.of_same ⟨rfl, rfl, rfl, rfl, rfl, rfl, rfl, rfl⟩⟩
  | take count =>
    simp only [PhaseInv, hp] at h
    obtain ⟨hn, hlt, hU, hl⟩ := h
    dsimp only
    split_ifs with hlast
    · rw [hlast] at hl
      obtain ⟨a, b, c, d, hl⟩ := hl
      obtain ⟨_, hlaid, hload⟩ := hl.take (by omega)
      simp only [PhaseInv]
      refine ⟨hn, hlt, hU, ?_, ?_⟩
      · rw [hlast]
        exact ⟨a, b, c, d, hlaid.of_same ⟨rfl, rfl, rfl, rfl, rfl, rfl, rfl, rfl⟩⟩
      · rw [hlast]
        exact (if_pos rfl).mpr ⟨rfl, hload⟩
    · simp only [PhaseInv]
      exact ⟨hn, hlt, hU, hl.of_same ⟨rfl, rfl, rfl, rfl, rfl, rfl, rfl, rfl⟩, (if_neg hlast).mpr rfl⟩

/-! ### After the reader has shut down -/

theorem error_flush (h : x.flush.commandBuffer.error = .kNoError) :
    x.commandBuffer.error = .kNoError := by
  have hcb : x.flush.commandBuffer = (x.commandBuffer.flush x.helper.put).1 := rfl
  rw [hcb] at h
  unfold CommandBufferService.flush at h
  split_ifs at h
  exact h

theorem error_getSpaceStep {clock : Bool}
    (h : (x.getSpaceStep clock).commandBuffer.error = .kNoError) :
    x.commandBuffer.error = .kNoError := by
  unfold RingState.getSpaceStep at h
  cases hp : x.phase with
  | idle | fill space count | wrapSync count | waitSync count => rwa [hp] at h
  | wrap count =>
    rw [hp] at h
    dsimp only at h
    split_ifs at h
    · exact error_flush h
    · exact h
    · exact h
  | wait count =>
    rw [hp] at h
    dsimp only at h
    split_ifs at h
    · exact error_flush h
    · exact h
  | check count =>
    rw [hp] at h
    dsimp only at h
    split_ifs at h
    · exact error_flush h
    · exact error_flush h
    · exact h
  | take count =>
    rw [hp] at h
    dsimp only at h
    split_ifs at h <;> exact h

/-- `GetSpace` neither issues nor executes a command. -/
theorem history_getSpaceStep (x : RingState Gles) (clock : Bool) :
    (x.getSpaceStep clock).executed = x.executed ∧ (x.getSpaceStep clock).issued = x.issued := by
  unfold RingState.getSpaceStep
  cases x.phase with
  | idle | fill space count | wrapSync count | waitSync count => exact ⟨rfl, rfl⟩
  | wrap count | wait count | check count | take count =>
    dsimp only
    split_ifs <;> exact ⟨rfl, rfl⟩

def frontier (x : RingState Gles) : ℤ :=
  match x.phase with
  | .fill space _ => space
  | _ => x.helper.put

def reserved (x : RingState Gles) : ℤ :=
  match x.phase with
  | .fill space count => space + count
  | .check count | .take count => x.helper.put + count
  | _ => x.helper.put

theorem PhaseInv.laid (h : x.PhaseInv) : x.Laid x.frontier x.reserved := by
  unfold PhaseInv at h
  unfold frontier reserved
  cases hp : x.phase with
  | idle => rw [hp] at h; exact h
  | wrap count | wrapSync count => rw [hp] at h; exact h.2.2
  | wait count | waitSync count | check count | take count => rw [hp] at h; exact h.2.2.2
  | fill space count => rw [hp] at h; exact h.2.2.2.1

theorem Laid.executed_isPrefix (h : x.Laid p q) : x.executed <+: x.issued := by
  obtain ⟨a, b, c, d, h⟩ := h
  exact ⟨_, h.executed.symm⟩

theorem inv_step (h : x.Inv) (hst : step gles2 x l x') : x'.Inv := by
  cases l with
  | getSpace count =>
    obtain ⟨hp, hn, hlt, rfl⟩ := hst
    refine ⟨h.executed, fun halive => ?_⟩
    have hi := h.alive halive
    simp only [PhaseInv, hp] at hi
    exact ⟨hn, hlt, hi.of_same ⟨rfl, rfl, rfl, rfl, rfl, rfl, rfl, rfl⟩⟩
  | client clock =>
    obtain rfl := hst
    obtain ⟨hex, his⟩ := history_getSpaceStep x clock
    refine ⟨by rw [hex, his]; exact h.executed, fun halive => ?_⟩
    have halive := error_getSpaceStep halive
    exact (h.alive halive).getSpaceStep halive clock
  | fill cmd =>
    obtain ⟨hw, space, hp, rfl⟩ := hst
    refine ⟨h.executed.trans (List.prefix_append _ _), fun halive => ?_⟩
    have hi := h.alive halive
    simp only [PhaseInv, hp] at hi
    obtain ⟨_, _, hU, ⟨a, b, c, d, hl⟩, hput⟩ := hi
    exact (hl.fill hw hU hput).of_same ⟨rfl, rfl, rfl, rfl, rfl, rfl, rfl, rfl⟩
  | flush =>
    obtain ⟨hp, rfl⟩ := hst
    refine ⟨h.executed, fun halive => ?_⟩
    have hi := h.alive (error_flush halive)
    simp only [PhaseInv, hp] at hi
    have hphase : x.flush.phase = .idle := hp
    simp only [PhaseInv, hphase]
    exact hi.flush.2
  | observe =>
    obtain rfl := hst
    exact ⟨h.executed, fun halive =>
      (h.alive halive).of_laid (fun _ _ hl => hl.observe) rfl rfl rfl⟩
  | putChanged =>
    obtain rfl := hst
    exact ⟨h.executed, fun halive =>
      (h.alive halive).of_laid (fun _ _ hl => hl.putChanged) rfl rfl rfl⟩
  | process stop =>
    obtain ⟨halive, hne, fuel, s', e, hproc, _, rfl⟩ := hst
    have hi := h.alive halive
    exact ⟨(hi.laid.process hne hproc _).executed_isPrefix, fun _ =>
      hi.of_laid (fun _ _ hl => hl.process hne hproc _) rfl rfl rfl⟩

theorem inv_init (h : (commandRing gles2 ringBufferSize numEntries).init x) : x.Inv := by
  obtain ⟨h0, _, ring, gl, helper, hinit, rfl⟩ := h
  refine ⟨List.prefix_rfl, fun _ => ?_⟩
  dsimp only [CommandBufferHelper.initializeHelper] at hinit
  split_ifs at hinit with hle
  cases hinit
  have hle : ((ringBufferSize / 4 : ℕ) : ℤ) ≤ numEntries := not_lt.1 hle
  refine ⟨[], [], [], [], ⟨rfl, ?_, h0, rfl, le_rfl, .inl rfl⟩, .nil, .nil, .nil, .nil,
    ⟨le_rfl, .inl rfl, le_rfl, .inl ⟨List.not_mem_nil, fun h => absurd h (lt_irrefl _)⟩⟩,
    rfl, rfl, rfl⟩
  show ((ringBufferSize / 4 : ℕ) : ℤ) - (1 + CommandId.kJump.argCount : ℕ) + 2 ≤ numEntries
  have : CommandId.kJump.argCount = 1 := rfl
  omega

theorem inv_run {tr : List Label}
    (h : (commandRing gles2 ringBufferSize numEntries).Run tr x) : x.Inv :=
  h.invariant (I := Inv) (fun _ h0 => inv_init h0) (fun _ _ _ hi hst => inv_step hi hst)

/-! ### The reader runs until it is shut down -/

theorem error_getSpaceStep_eq (h : x.PhaseInv) (clock : Bool) :
    (x.getSpaceStep clock).commandBuffer.error = x.commandBuffer.error := by
  unfold RingState.getSpaceStep
  cases hp : x.phase with
  | idle | fill space count | wrapSync count | waitSync count => rfl
  | wrap count =>
    simp only [PhaseInv, hp] at h
    dsimp only
    split_ifs
    · exact h.2.2.flush.1
    · rfl
    · rfl
  | wait count =>
    simp only [PhaseInv, hp] at h
    dsimp only
    split_ifs
    · exact h.2.2.2.flush.1
    · rfl
  | check count =>
    simp only [PhaseInv, hp] at h
    dsimp only
    split_ifs
    · exact h.2.2.2.flush.1
    · exact h.2.2.2.flush.1
    · rfl
  | take count =>
    dsimp only
    split_ifs <;> rfl

theorem alive_step (h : x.Inv) (halive : x.commandBuffer.error = .kNoError)
    (hl : l ≠ .process true) (hst : step gles2 x l x') : x'.commandBuffer.error = .kNoError := by
  have hi := h.alive halive
  cases l with
  | getSpace count | fill cmd =>
    obtain ⟨_, _, _, rfl⟩ := hst
    exact halive
  | client clock =>
    obtain rfl := hst
    exact (error_getSpaceStep_eq hi clock).trans halive
  | flush =>
    obtain ⟨hp, rfl⟩ := hst
    simp only [PhaseInv, hp] at hi
    exact hi.flush.1.trans halive
  | observe | putChanged =>
    obtain rfl := hst
    exact halive
  | process stop =>
    obtain ⟨_, hne, fuel, s', e, hproc, _, rfl⟩ := hst
    obtain rfl : stop = false := by
      cases stop with
      | true => exact absurd rfl hl
      | false => rfl
    obtain ⟨a, b, c, d, hlaid⟩ := hi.laid
    obtain ⟨_, _, _, _, _, ht, _⟩ := hlaid.process hne hproc .kNoError
    exact ht.error.trans halive

theorem alive_run {tr : List Label}
    (h : (commandRing gles2 ringBufferSize numEntries).Run tr x) (hstop : .process true ∉ tr) :
    x.commandBuffer.error = .kNoError := by
  have hboth : x.Inv ∧ (Label.process true ∉ tr → x.commandBuffer.error = .kNoError) := by
    refine h.traceInvariant (I := fun tr x =>
      x.Inv ∧ (Label.process true ∉ tr → x.commandBuffer.error = .kNoError)) ?_ ?_
    · intro x h0
      refine ⟨inv_init h0, fun _ => ?_⟩
      obtain ⟨_, _, _, _, _, _, rfl⟩ := h0
      rfl
    · rintro tr x l x' ⟨hi, halive⟩ hst
      refine ⟨inv_step hi hst, fun hmem => ?_⟩
      have hmem' : Label.process true ∉ tr := fun hm => hmem (List.mem_append_left _ hm)
      refine alive_step hi (halive hmem') (fun hl => hmem ?_) hst
      rw [hl]
      exact List.mem_append_right _ List.mem_cons_self
  exact hboth.2 hstop

/-! ### What the client writes -/

/-- **`GetSpace` writes only entries that are not on the way.** -/
theorem ring_getSpaceStep (hi : x.PhaseInv) (h : Layout x x.frontier x.reserved a b c d)
    (clock : Bool) {i : ℤ} (hf : foot x.view (a ++ (b ++ (c ++ d))) i) :
    (x.getSpaceStep clock).ring i = x.ring i := by
  unfold RingState.getSpaceStep
  cases hp : x.phase with
  | idle | fill space count | wrapSync count | waitSync count => rfl
  | wrap count =>
    simp only [frontier, reserved, hp] at h
    dsimp only
    split_ifs with hend hwait
    · rfl
    · exact (h.wrap hwait).1 i hf
    · rfl
  | wait count | check count =>
    dsimp only
    split_ifs <;> rfl
  | take count =>
    simp only [PhaseInv, hp] at hi
    simp only [frontier, reserved, hp] at h
    dsimp only
    split_ifs with hlast
    · rw [hlast] at h ⊢
      exact (h.take (by omega)).1 i hf
    · rfl

theorem ring_step (hi : x.PhaseInv) (h : Layout x x.frontier x.reserved a b c d)
    (hst : step gles2 x l x') {i : ℤ} (hf : foot x.view (a ++ (b ++ (c ++ d))) i) :
    x'.ring i = x.ring i := by
  cases l with
  | getSpace count =>
    obtain ⟨_, _, _, rfl⟩ := hst
    rfl
  | client clock =>
    obtain rfl := hst
    exact ring_getSpaceStep hi h clock hf
  | fill cmd =>
    obtain ⟨_, space, hp, rfl⟩ := hst
    simp only [frontier, reserved, hp] at h
    exact h.fill_keeps i hf
  | flush =>
    obtain ⟨_, rfl⟩ := hst
    rfl
  | observe | putChanged =>
    obtain rfl := hst
    rfl
  | process stop =>
    obtain ⟨_, _, _, _, _, _, _, rfl⟩ := hst
    rfl

/-! ### The commands of a run -/

/-- What holds of the two sides while the reader runs.  At the put offset it works on,
and at the last one that was sent, the reader has executed exactly what was issued
before.  `unread` are the entries from `get` to the last put offset sent, on the
way through the jumps, and `unsent` those behind them: no step writes any of
them, and each turn of the reader takes the first command off `unread`. -/
structure InStep (gles2 : GLES2Commands Gles) (x : RingState Gles) : Prop where
  received : x.parser.get = x.parser.put → x.executed = x.received
  sent : x.parser.get = x.commandBuffer.putOffset → x.executed = x.sent
  unread : ∃ unread unsent, Walk x.ring x.parser.entryCount x.commandBuffer.putOffset x.parser.get unread ∧
    Walk x.ring x.parser.entryCount x.frontier x.commandBuffer.putOffset unsent ∧
    (∀ l x', step gles2 x l x' → ∀ i, InRegions unread i ∨ InRegions unsent i → x'.ring i = x.ring i) ∧
    ∀ stop x', step gles2 x (.process stop) x' → ∃ r rest, unread = r :: rest ∧
      Walk x'.ring x'.parser.entryCount x'.commandBuffer.putOffset x'.parser.get rest

theorem regions_cons {g m : ℤ} {item : Item} (h : Path ring U g [item] m) (items : List Item) :
    ∃ r, regions g (item :: items) = r :: regions m items := by
  cases h with
  | command _ _ _ _ hnil | jump _ _ _ hnil => cases hnil; exact ⟨_, rfl⟩

theorem inStep_of_layout (hi : x.PhaseInv) (h : Layout x x.frontier x.reserved a b c d) :
    InStep gles2 x := by
  have hE : x.helper.usableEntryCount + 2 ≤ x.parser.entryCount := by
    rw [h.entryCount]
    exact h.room
  have hread : Path x.ring x.helper.usableEntryCount x.parser.get (b ++ c)
      x.commandBuffer.putOffset := h.reading.append h.arrived
  have hfits : Fits x.helper.usableEntryCount x.parser.get ((b ++ c) ++ d) x.frontier
      x.reserved := by
    rw [append_assoc]
    exact h.fits_reading
  refine ⟨fun hget => ?_, fun hget => ?_, regions x.parser.get (b ++ c),
    regions x.commandBuffer.putOffset d, walk_of_path hE hread h.unsent hfits, ?_, ?_, ?_⟩
  · have hb := h.fits_reading.eq_nil h.reading (h.arrived.append h.unsent) hget
    rw [h.received, hb, commands_nil, append_nil]
  · have hbc := hfits.eq_nil hread h.unsent hget
    obtain ⟨hb, hc⟩ := List.append_eq_nil_iff.1 hbc
    rw [h.sent, h.received, hb, hc, commands_nil, append_nil, append_nil]
  · have hunsent := h.fits_unsent
    rw [← append_nil d] at hunsent
    exact walk_of_path hE h.unsent .nil hunsent
  · intro l x' hst i hin
    rw [inRegions_regions, inRegions_regions] at hin
    refine ring_step hi h hst (h.done.foot_append.2 (.inr ?_))
    rw [← append_assoc]
    exact hread.foot_append.2 hin
  · rintro stop x' ⟨_, hne, fuel, s', e, hproc, _, rfl⟩
    obtain ⟨item, b', g, rfl, hitem, ht, hl⟩ :=
      h.process hne hproc (if stop then e else .kNoError)
    obtain ⟨r, hr⟩ := regions_cons hitem (b' ++ c)
    refine ⟨r, _, hr, ?_⟩
    have hget : s'.parser.get = g := by rw [ht.parser]
    have hE' := hl.room
    rw [← hl.entryCount] at hE'
    have hfits' := hl.fits_reading
    rw [← append_assoc] at hfits'
    have := walk_of_path hE' (hl.reading.append hl.arrived) hl.unsent hfits'
    have hget' : ((s'.reportResult (if stop then e else .kNoError)).parser).get = g := hget
    rw [← hget']
    exact this

def noop : List CommandBufferEntry := [CommandHeader.init CommandId.kNoop.toNat 2, 7]

theorem wellFormed_noop : WellFormed noop where
  size := by decide
  pos := by decide
  noJump id hid := by
    obtain rfl : CommandId.kNoop = id := Option.some.inj hid
    rfl

def start : RingState Unit where
  ring := fun _ => 0
  helper := ⟨16, 14, 0, 0, 0⟩
  phase := .idle
  view := 0
  scheduler := GpuScheduler.new 16 ()
  issued := []
  executed := []
  sent := []
  received := []

end RingState

end Chromium.Gpu
