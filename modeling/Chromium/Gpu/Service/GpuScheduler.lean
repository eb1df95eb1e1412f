import Chromium.Gpu.Service.CommonDecoder

/-!
# The scheduler: the service side of the ring

`gpu/command_buffer/service/gpu_scheduler.cc` and the `DoCommand` of
`gles2_cmd_decoder.cc`.  `processNext` is one turn of the loop in `PutChanged`:
`ProcessCommand`, then the get offset and the error are handed to the service.

`gpuScheduler` is the system of the service and its client.  The client flushes
any put offset and writes anything into the ring and the shared memory at any
time, so each turn gets the contents it reads as arguments: `ring` is what the
header is read from, and `ring'` is what the handler finds.  The turns are taken
in any order with the flushes, also after an error, where `PutChanged` stops.
-/

namespace Chromium.Gpu

open Lib CommandBufferEngine

/-- The commands of `GLES2DecoderImpl`.  Their handlers see the transfer buffers,
and they change the state of the decoder, the shared memory and the buckets.
The engine and the call stack are private to `CommonDecoder`. -/
structure GLES2Commands (Gles : Type) where
  doCommand : Gles → CommandBufferService → (ℤ → UInt8) → (UInt32 → Option Bucket) → ℕ → ℕ →
    (ℕ → CommandBufferEntry) → Gles × (ℤ → UInt8) × (UInt32 → Option Bucket) × Error

def GLES2Commands.idle : GLES2Commands Unit := ⟨fun gl _ m b _ _ _ => (gl, m, b, .kNoError)⟩

/-- The number of commands in `GLES2_COMMAND_LIST`. -/
def kNumGLES2Commands : ℕ := 201

/-- `GpuScheduler`: the decoder with its engine, and the state of the GLES2 decoder. -/
structure GpuScheduler (Gles : Type) where
  decoder : CommonDecoder
  gl : Gles

namespace GpuScheduler

variable {Gles : Type} (gles2 : GLES2Commands Gles)

/-- The constructor, over a service with `numEntries` entries. -/
def new (numEntries : ℤ) (gl : Gles) : GpuScheduler Gles := ⟨CommonDecoder.new numEntries, gl⟩

def commandBuffer (s : GpuScheduler Gles) : CommandBufferService := s.decoder.engine.commandBuffer

def parser (s : GpuScheduler Gles) : CommandParser := s.decoder.engine.parser

def setCommandBuffer (s : GpuScheduler Gles) (commandBuffer : CommandBufferService) :
    GpuScheduler Gles :=
  { s with decoder := { s.decoder with
      engine := { s.decoder.engine with commandBuffer := commandBuffer } } }

def setParser (s : GpuScheduler Gles) (parser : CommandParser) : GpuScheduler Gles :=
  { s with decoder := { s.decoder with engine := { s.decoder.engine with parser := parser } } }

def setMemory (s : GpuScheduler Gles) (memory : ℤ → UInt8) : GpuScheduler Gles :=
  { s with decoder := { s.decoder with engine := { s.decoder.engine with memory := memory } } }

def doCommand (fuel : ℕ) (s : GpuScheduler Gles) (command argCount : ℕ)
    (cmdData : ℕ → CommandBufferEntry) : Option (GpuScheduler Gles × Error) :=
  if CommandId.kLastCommonId < command ∧
      command ≤ CommandId.kLastCommonId + kNumGLES2Commands then
    let r := gles2.doCommand s.gl s.commandBuffer s.decoder.engine.memory s.decoder.buckets
      command argCount cmdData
    some (⟨{ (s.setMemory r.2.1).decoder with buckets := r.2.2.1 }, r.1⟩, r.2.2.2)
  else
    match CommonDecoder.doCommonCommand fuel s.decoder command argCount cmdData with
    | none => none
    | some r => some ({ s with decoder := r.1 }, r.2)

/-- `CommandParser::ProcessCommand`, with `doCommand` as its handler. -/
def processCommand (fuel : ℕ) (ring ring' : ℤ → CommandBufferEntry) (s : GpuScheduler Gles) :
    Option (GpuScheduler Gles × Error) :=
  match s.parser.fetch ring with
  | .empty => some (s, .kNoError)
  | .error e => some (s, e)
  | .command header =>
    match doCommand gles2 fuel s (CommandHeader.command header) (CommandHeader.size header - 1)
        (fun k => ring' (s.parser.get + k)) with
    | none => none
    | some r => some (r.1.setParser (r.1.parser.advance s.parser.get header), r.2)

/-- The rest of a turn of the loop in `PutChanged`. -/
def reportResult (s : GpuScheduler Gles) (e : Error) : GpuScheduler Gles :=
  let commandBuffer := s.commandBuffer.setGetOffset s.parser.get
  s.setCommandBuffer (if e.isError then commandBuffer.setParseError e else commandBuffer)

/-- One turn of the loop in `PutChanged`. -/
def processNext (fuel : ℕ) (ring ring' : ℤ → CommandBufferEntry) (s : GpuScheduler Gles) :
    Option (GpuScheduler Gles × Error) :=
  match processCommand gles2 fuel ring ring' s with
  | none => none
  | some r => some (r.1.reportResult r.2, r.2)

/-- The command at `get_` is the common command `c`, with the right number of arguments. -/
def IsCommand (s : GpuScheduler Gles) (ring : ℤ → CommandBufferEntry) (header : CommandBufferEntry)
    (c : CommandId) : Prop :=
  s.parser.fetch ring = .command header ∧ CommandId.ofNat? (CommandHeader.command header) = some c ∧
    c.argCountMatches (CommandHeader.size header - 1)

/-! ### One command -/

variable {gles2} {fuel : ℕ} {ring ring' : ℤ → CommandBufferEntry} {s s' : GpuScheduler Gles}
  {e : Error} {header : CommandBufferEntry}

theorem doCommand_of_common {command argCount : ℕ} {cmdData : ℕ → CommandBufferEntry}
    {c : CommandId} (hc : CommandId.ofNat? command = some c) (hm : c.argCountMatches argCount)
    (h : doCommand gles2 fuel s command argCount cmdData = some (s', e)) :
    s' = { s with
        decoder := (s.decoder.handle c (CommonDecoder.immediateDataSize c argCount) cmdData).1 } ∧
      e = (s.decoder.handle c (CommonDecoder.immediateDataSize c argCount) cmdData).2 := by
  have hlt : ¬ CommandId.kNumCommands ≤ command := by
    rw [← CommandId.ofNat?_eq_none, hc]
    exact Option.some_ne_none c
  have hno : ¬ (CommandId.kLastCommonId < command ∧
      command ≤ CommandId.kLastCommonId + kNumGLES2Commands) := by
    unfold CommandId.kNumCommands at hlt
    unfold CommandId.kLastCommonId
    omega
  rw [doCommand, if_neg hno] at h
  cases fuel with
  | zero => cases h
  | succ fuel =>
    rw [CommonDecoder.doCommonCommand_of_matches hc hm] at h
    cases h
    exact ⟨rfl, rfl⟩

/-- A command that is no jump leaves the get pointer and the call stack alone. -/
theorem doCommand_quiet {command argCount : ℕ} {cmdData : ℕ → CommandBufferEntry}
    (hj : ∀ c, CommandId.ofNat? command = some c → c.argCountMatches argCount → c.isJump = false)
    (h : doCommand gles2 fuel s command argCount cmdData = some (s', e)) :
    Quiet s.decoder.engine s'.decoder.engine ∧ s'.decoder.callStack = s.decoder.callStack := by
  rw [doCommand] at h
  split_ifs at h with hg
  · cases h
    exact ⟨⟨rfl, rfl, rfl, rfl, rfl⟩, rfl⟩
  · split at h
    · cases h
    · next r hr =>
      cases h
      rcases CommonDecoder.doCommonCommand_cases hr with ⟨c, hc, hm, rfl⟩ | rfl
      · exact ⟨CommonDecoder.quiet_handle (hj c hc hm) _ _ _,
          CommonDecoder.callStack_handle (hj c hc hm) _ _ _⟩
      · exact ⟨.refl _, rfl⟩

theorem doCommand_handled {command argCount : ℕ} {cmdData : ℕ → CommandBufferEntry}
    (h : doCommand gles2 fuel s command argCount cmdData = some (s', e)) :
    Handled s.decoder.engine s'.decoder.engine := by
  by_cases hj : ∀ c, CommandId.ofNat? command = some c → c.argCountMatches argCount → c.isJump = false
  · exact (doCommand_quiet hj h).1.handled
  · push Not at hj
    obtain ⟨c, hc, hm, _⟩ := hj
    obtain ⟨rfl, _⟩ := doCommand_of_common hc hm h
    exact CommonDecoder.handled_handle _ _ _ _

/-! ### One turn of the loop -/

/-- `ProcessCommand` hands the command to the decoder, and moves the get pointer on. -/
theorem processCommand_of_command (hf : s.parser.fetch ring = .command header)
    (h : processCommand gles2 fuel ring ring' s = some (s', e)) :
    ∃ s₁, doCommand gles2 fuel s (CommandHeader.command header) (CommandHeader.size header - 1)
        (fun k => ring' (s.parser.get + k)) = some (s₁, e) ∧
      s' = s₁.setParser (s₁.parser.advance s.parser.get header) := by
  rw [processCommand, hf] at h
  dsimp only at h
  split at h
  · cases h
  · next r hr =>
    cases h
    exact ⟨r.1, hr, rfl⟩

theorem processNext_eq_some (h : processNext gles2 fuel ring ring' s = some (s', e)) :
    ∃ s₁, processCommand gles2 fuel ring ring' s = some (s₁, e) ∧ s' = s₁.reportResult e := by
  rw [processNext] at h
  split at h
  · cases h
  · next r hr =>
    cases h
    exact ⟨r.1, hr, rfl⟩

theorem processNext_of_command (hf : s.parser.fetch ring = .command header)
    (h : processNext gles2 fuel ring ring' s = some (s', e)) :
    ∃ s₁, doCommand gles2 fuel s (CommandHeader.command header) (CommandHeader.size header - 1)
        (fun k => ring' (s.parser.get + k)) = some (s₁, e) ∧
      s' = (s₁.setParser (s₁.parser.advance s.parser.get header)).reportResult e := by
  obtain ⟨s₂, hp, rfl⟩ := processNext_eq_some h
  obtain ⟨s₁, hd, rfl⟩ := processCommand_of_command hf hp
  exact ⟨s₁, hd, rfl⟩

theorem processNext_of_no_command (hf : ∀ header, s.parser.fetch ring ≠ .command header)
    (h : processNext gles2 fuel ring ring' s = some (s', e)) : s' = s.reportResult e := by
  rw [processNext, processCommand] at h
  cases hc : s.parser.fetch ring with
  | command header => exact absurd hc (hf header)
  | empty | error e' =>
    rw [hc] at h
    cases h
    rfl

@[simp] theorem parser_reportResult (s : GpuScheduler Gles) (e : Error) :
    (s.reportResult e).parser = s.parser := rfl

@[simp] theorem parser_setParser (s : GpuScheduler Gles) (p : CommandParser) :
    (s.setParser p).parser = p := rfl

@[simp] theorem numEntries_reportResult (s : GpuScheduler Gles) (e : Error) :
    (s.reportResult e).commandBuffer.numEntries = s.commandBuffer.numEntries := by
  simp only [reportResult, commandBuffer, setCommandBuffer]
  split_ifs
  · rw [CommandBufferService.setParseError_numEntries]
    rfl
  · rfl

@[simp] theorem putOffset_reportResult (s : GpuScheduler Gles) (e : Error) :
    (s.reportResult e).commandBuffer.putOffset = s.commandBuffer.putOffset := by
  simp only [reportResult, commandBuffer, setCommandBuffer]
  split_ifs
  · rw [CommandBufferService.setParseError_putOffset]
    rfl
  · rfl

@[simp] theorem getOffset_reportResult (s : GpuScheduler Gles) (e : Error) :
    (s.reportResult e).commandBuffer.getOffset = s.parser.get := by
  simp only [reportResult, commandBuffer, setCommandBuffer]
  split_ifs
  · rw [CommandBufferService.setParseError_getOffset]
    rfl
  · rfl

theorem handled_inRing {s₁ : GpuScheduler Gles} (h : Handled s.decoder.engine s₁.decoder.engine)
    (hs : s.parser.InRing) : s₁.parser.InRing := by
  unfold parser CommandParser.InRing at hs ⊢
  rcases h.parser with hp | ⟨get, h0, h1, hp⟩
  · rw [hp]
    exact hs
  · rw [hp]
    exact ⟨h0, h1⟩

theorem handled_nonneg {s₁ : GpuScheduler Gles} (h : Handled s.decoder.engine s₁.decoder.engine)
    (hs : 0 ≤ s.parser.get) : 0 ≤ s₁.parser.get := by
  unfold parser at hs ⊢
  rcases h.parser with hp | ⟨get, h0, h1, hp⟩
  · rw [hp]
    exact hs
  · rw [hp]
    exact h0

theorem handled_entryCount {s₁ : GpuScheduler Gles}
    (h : Handled s.decoder.engine s₁.decoder.engine) :
    s₁.parser.entryCount = s.parser.entryCount ∧ s₁.parser.put = s.parser.put := by
  unfold parser
  rcases h.parser with hp | ⟨get, h0, h1, hp⟩ <;> rw [hp] <;> exact ⟨rfl, rfl⟩

/-- **A turn keeps the get pointer in the ring, and the sizes and put offsets.** -/
theorem processNext_frame (h : processNext gles2 fuel ring ring' s = some (s', e)) :
    (s.parser.InRing → s'.parser.InRing) ∧ (0 ≤ s.parser.get → 0 ≤ s'.parser.get) ∧
      s'.parser.entryCount = s.parser.entryCount ∧ s'.parser.put = s.parser.put ∧
      s'.commandBuffer.numEntries = s.commandBuffer.numEntries ∧
      s'.commandBuffer.putOffset = s.commandBuffer.putOffset := by
  by_cases hf : ∃ header, s.parser.fetch ring = .command header
  · obtain ⟨header, hf⟩ := hf
    obtain ⟨s₁, hd, rfl⟩ := processNext_of_command hf h
    have hh := doCommand_handled hd
    obtain ⟨hcount, hput⟩ := handled_entryCount hh
    refine ⟨fun hs => ?_, fun hs => ?_, ?_, ?_, ?_, ?_⟩
    · rw [parser_reportResult, parser_setParser]
      exact (handled_inRing hh hs).advance hs.1
    · rw [parser_reportResult, parser_setParser]
      exact CommandParser.nonneg_advance (handled_nonneg hh hs) hs
    · rw [parser_reportResult, parser_setParser, CommandParser.advance_entryCount, hcount]
    · rw [parser_reportResult, parser_setParser, CommandParser.advance_put, hput]
    · rw [numEntries_reportResult]
      exact hh.numEntries
    · rw [putOffset_reportResult]
      exact hh.putOffset
  · push Not at hf
    obtain rfl := processNext_of_no_command hf h
    exact ⟨id, id, rfl, rfl, numEntries_reportResult _ _, putOffset_reportResult _ _⟩

/-! ### The service and its client -/

def executed (s : GpuScheduler Gles) (ring : ℤ → CommandBufferEntry) : Option CommandId :=
  match s.parser.fetch ring with
  | .command header =>
    (CommandId.ofNat? (CommandHeader.command header)).filter
      fun c => c.argCountMatches (CommandHeader.size header - 1)
  | _ => none

theorem executed_eq_some {c : CommandId} :
    s.executed ring = some c ↔ ∃ header, s.IsCommand ring header c := by
  unfold executed IsCommand
  constructor
  · intro h
    split at h
    · next header hf =>
      obtain ⟨hc, hm⟩ := Option.filter_eq_some_iff.1 h
      exact ⟨header, hf, hc, hm⟩
    · cases h
  · rintro ⟨header, hf, hc, hm⟩
    rw [hf]
    exact Option.filter_eq_some_iff.2 ⟨hc, hm⟩

/-- The calls that wait for their return after a turn with the result `e`: where the
command of each of them starts, the last one first. -/
def callsAfter (s : GpuScheduler Gles) (ring : ℤ → CommandBufferEntry) (e : Error)
    (calls : List ℤ) : List ℤ :=
  if e = .kNoError then
    match s.executed ring with
    | some .kCall | some .kCallRelative => s.parser.get :: calls
    | some .kReturn => calls.tail
    | _ => calls
  else calls

/-- A scheduler in a run, with the calls of the run that wait for their return. -/
structure Execution (Gles : Type) where
  scheduler : GpuScheduler Gles
  calls : List ℤ

inductive Label
  | flush (putOffset : ℤ) (accepted : Bool)
  | putChanged
  | memory (memory : ℤ → UInt8)
  | process (ring ring' : ℤ → CommandBufferEntry) (e : Error)

variable (gles2) in
/-- `flush` is a `Flush` or `FlushSync`, `putChanged` the start of a `PutChanged`,
`memory` a write to the shared memory, and `process` a turn of the loop. -/
def step (x : Execution Gles) (l : Label) (x' : Execution Gles) : Prop :=
  match l with
  | .flush putOffset accepted =>
    accepted = (x.scheduler.commandBuffer.flush putOffset).2 ∧
      x' = { x with scheduler :=
        x.scheduler.setCommandBuffer (x.scheduler.commandBuffer.flush putOffset).1 }
  | .putChanged =>
    x' = { x with scheduler :=
      x.scheduler.setParser (x.scheduler.parser.setPut x.scheduler.commandBuffer.putOffset) }
  | .memory memory => x' = { x with scheduler := x.scheduler.setMemory memory }
  | .process ring ring' e =>
    ¬ x.scheduler.parser.isEmpty ∧
      ∃ fuel s', processNext gles2 fuel ring ring' x.scheduler = some (s', e) ∧
        x' = ⟨s', callsAfter x.scheduler ring e x.calls⟩

variable (gles2) in
/-- The system over a ring of `numEntries` entries.  `num_entries_` is an `int32`. -/
def gpuScheduler (numEntries : ℤ) : TransSys (Execution Gles) Label where
  init x := numEntries < 2147483648 ∧ ∃ gl, x = ⟨new numEntries gl, []⟩
  step := step gles2

/-! ### The get pointer, the commands and the put offsets -/

/-- What the steps so far and the state have to satisfy: the get pointer is in the
ring, so is every command that is handed to the decoder next, and so is every
put offset that the service accepted. -/
structure RingSafe (tr : List Label) (x : Execution Gles) : Prop where
  get : 0 ≤ x.scheduler.parser.get ∧ x.scheduler.parser.get < x.scheduler.parser.entryCount
  command : ∀ ring header, x.scheduler.parser.fetch ring = .command header →
    0 ≤ x.scheduler.parser.get ∧ x.scheduler.parser.get + CommandHeader.size header ≤ x.scheduler.parser.entryCount
  put : ∀ putOffset, Label.flush putOffset true ∈ tr → 0 ≤ putOffset ∧ putOffset < x.scheduler.parser.entryCount

structure SizesInv (numEntries : ℤ) (tr : List Label) (x : Execution Gles) : Prop where
  bound : numEntries < 2147483648
  entryCount : x.scheduler.parser.entryCount = numEntries
  service : x.scheduler.commandBuffer.numEntries = numEntries
  nonneg : 0 ≤ x.scheduler.parser.get
  inRing : 0 < numEntries → x.scheduler.parser.InRing
  flushed : ∀ putOffset accepted, Label.flush putOffset accepted ∈ tr →
    (accepted = true ↔ 0 ≤ putOffset ∧ putOffset ≤ numEntries)

theorem flush_accepted {cb : CommandBufferService} {putOffset : ℤ} :
    (cb.flush putOffset).2 = true ↔ 0 ≤ putOffset ∧ putOffset ≤ cb.numEntries := by
  unfold CommandBufferService.flush
  split_ifs with h
  · exact iff_of_false (by simp) (by omega)
  · exact iff_of_true rfl (by omega)

theorem numEntries_flush (cb : CommandBufferService) (putOffset : ℤ) :
    (cb.flush putOffset).1.numEntries = cb.numEntries := by
  unfold CommandBufferService.flush
  split_ifs <;> rfl

theorem SizesInv.flushed_append {numEntries : ℤ} {tr : List Label} {x : Execution Gles}
    (h : SizesInv numEntries tr x) {l : Label}
    (hl : ∀ putOffset accepted, l = .flush putOffset accepted →
      (accepted = true ↔ 0 ≤ putOffset ∧ putOffset ≤ numEntries)) :
    ∀ putOffset accepted, Label.flush putOffset accepted ∈ tr ++ [l] →
      (accepted = true ↔ 0 ≤ putOffset ∧ putOffset ≤ numEntries) := by
  intro putOffset accepted hmem
  rcases List.mem_append.1 hmem with hmem | hmem
  · exact h.flushed _ _ hmem
  · exact hl _ _ (List.mem_singleton.1 hmem).symm

theorem SizesInv.step {numEntries : ℤ} {tr : List Label} {x x' : Execution Gles} {l : Label}
    (h : SizesInv numEntries tr x) (hst : step gles2 x l x') :
    SizesInv numEntries (tr ++ [l]) x' := by
  cases l with
  | flush putOffset accepted =>
    obtain ⟨ha, rfl⟩ := hst
    refine ⟨h.bound, h.entryCount, ?_, h.nonneg, h.inRing, h.flushed_append ?_⟩
    · exact (numEntries_flush _ _).trans h.service
    · rintro _ _ ⟨⟩
      rw [ha, flush_accepted, h.service]
  | putChanged | memory m =>
    obtain rfl := hst
    exact ⟨h.bound, h.entryCount, h.service, h.nonneg, h.inRing, h.flushed_append (by simp)⟩
  | process ring ring' e =>
    obtain ⟨_, fuel, s', hp, rfl⟩ := hst
    obtain ⟨hring, hnonneg, hcount, _, hnum, _⟩ := processNext_frame hp
    exact ⟨h.bound, hcount.trans h.entryCount, hnum.trans h.service, hnonneg h.nonneg,
      fun hpos => hring (h.inRing hpos), h.flushed_append (by simp)⟩

theorem sizesInv_run {numEntries : ℤ} {tr : List Label} {x : Execution Gles}
    (h : (gpuScheduler gles2 numEntries).Run tr x) : SizesInv numEntries tr x := by
  refine h.traceInvariant (fun x h0 => ?_) (fun _ _ _ _ hi hst => hi.step hst)
  obtain ⟨hb, gl, rfl⟩ := h0
  exact ⟨hb, rfl, rfl, le_rfl, fun hpos => ⟨le_rfl, hpos⟩, by simp⟩

/-- **The get pointer and every command stay in the ring, in every run over a ring
with an entry.** -/
theorem SizesInv.inside {numEntries : ℤ} {tr : List Label} {x : Execution Gles}
    (h : SizesInv numEntries tr x) (hpos : 0 < numEntries) {ring : ℤ → CommandBufferEntry}
    {header : CommandBufferEntry} (hf : x.scheduler.parser.fetch ring = .command header) :
    0 ≤ x.scheduler.parser.get ∧
      x.scheduler.parser.get + CommandHeader.size header ≤ x.scheduler.parser.entryCount :=
  ⟨(h.inRing hpos).1, (CommandParser.fetch_eq_command.1 hf).2.2.2⟩

/-- **All of it is safe exactly in a run over a ring with an entry in which no flush
is for the put offset `num_entries_`.**  That offset is accepted, and the get
pointer is never equal to it. -/
theorem ringSafe_iff {numEntries : ℤ} {tr : List Label} {x : Execution Gles}
    (h : (gpuScheduler gles2 numEntries).Run tr x) :
    RingSafe tr x ↔
      0 < numEntries ∧ ∀ putOffset accepted, Label.flush putOffset accepted ∈ tr →
        putOffset ≠ numEntries := by
  have hi := sizesInv_run h
  constructor
  · intro hs
    have hpos : 0 < numEntries := by
      have := hs.get
      have := hi.entryCount
      omega
    refine ⟨hpos, ?_⟩
    rintro putOffset accepted hmem rfl
    obtain rfl := (hi.flushed _ _ hmem).mpr ⟨hpos.le, le_rfl⟩
    have := (hs.put _ hmem).2
    rw [hi.entryCount] at this
    exact lt_irrefl _ this
  · rintro ⟨hpos, hput⟩
    refine ⟨hi.inRing hpos, fun ring header hf => hi.inside hpos hf, fun putOffset hmem => ?_⟩
    have hle := (hi.flushed _ _ hmem).mp rfl
    have hne := hput _ _ hmem
    rw [hi.entryCount]
    omega

def flushed (numEntries putOffset : ℤ) (gl : Gles) : Execution Gles :=
  ⟨(new numEntries gl).setCommandBuffer ((new numEntries gl).commandBuffer.flush putOffset).1, []⟩

variable (gles2) in
theorem run_flushed (numEntries putOffset : ℤ) (gl : Gles) (hb : numEntries < 2147483648)
    (h0 : 0 ≤ putOffset) (h1 : putOffset ≤ numEntries) :
    (gpuScheduler gles2 numEntries).Run [.flush putOffset true]
      (flushed numEntries putOffset gl) := by
  have h : (gpuScheduler gles2 numEntries).Run [] ⟨new numEntries gl, []⟩ := .init ⟨hb, gl, rfl⟩
  exact h.step (l := Label.flush putOffset true) ⟨(flush_accepted.2 ⟨h0, h1⟩).symm, rfl⟩

/-- A flush for a put offset inside the ring is safe. -/
theorem ringSafe_iff_flush_four : RingSafe [.flush 4 true] (flushed 16 4 ()) :=
  (ringSafe_iff (run_flushed .idle 16 4 () (by decide) (by decide) (by decide))).mpr
    ⟨by decide, by simp⟩

/-- **A flush for the put offset 16 of a ring of 16 entries is accepted**, and the get
pointer never gets there. -/
theorem flush_numEntries_accepted :
    (gpuScheduler GLES2Commands.idle 16).Run [.flush 16 true] (flushed 16 16 ()) ∧
      ¬ RingSafe [.flush 16 true] (flushed 16 16 ()) := by
  refine ⟨run_flushed .idle 16 16 () (by decide) (by decide) (by decide), fun h => ?_⟩
  exact absurd (h.put 16 List.mem_cons_self).2 (by decide)

/-! ### Jumps, calls and returns -/

/-- The call stack holds the calls of the run. -/
structure CallsInv (numEntries : ℤ) (x : Execution Gles) : Prop where
  callStack : x.scheduler.decoder.callStack = x.calls.map uint32OfInt
  inRing : ∀ a ∈ x.calls, 0 ≤ a ∧ a + 2 ≤ numEntries

/-- A jump to an address in the ring, from the command `header`, goes there, or
past the command if it is the command's own address. -/
theorem get_of_jumpsTo {offset : ℤ} {r : CommonDecoder × Error}
    (hj : s.decoder.JumpsTo offset r) (hring : s.parser.InRing) (h0 : 0 ≤ offset)
    (h1 : offset < s.parser.entryCount) (header : CommandBufferEntry) :
    r.2 = .kNoError ∧ (r.1.engine.parser.advance s.parser.get header).get = if offset = s.parser.get then
          (s.parser.get + CommandHeader.size header) % s.parser.entryCount
        else offset := by
  obtain ⟨ok, hm, he⟩ := hj
  obtain ⟨rfl, hp⟩ := hm.moved h0 h1
  refine ⟨he, ?_⟩
  rw [hp]
  split_ifs with hc
  · subst hc
    exact CommandParser.advance_get hring.1
  · rw [CommandParser.advance, if_neg]
    exact fun h => hc h.symm

theorem not_ok_of_jumpsTo {offset : ℤ} {r : CommonDecoder × Error}
    (hj : s.decoder.JumpsTo offset r) (h : ¬ (0 ≤ offset ∧ offset < s.parser.entryCount)) :
    r.2 ≠ .kNoError := by
  obtain ⟨ok, hm, he⟩ := hj
  rw [he, (hm.refused h).1]
  decide

/-- **What a turn does with a common command**: the handler's result, and the get
pointer advanced if the handler left it where it was. -/
theorem processNext_of_isCommand {c : CommandId} (hc : s.IsCommand ring header c)
    (h : processNext gles2 fuel ring ring' s = some (s', e)) :
    ∃ n, ∃ args : ℕ → CommandBufferEntry, (∀ k, args k = ring' (s.parser.get + k)) ∧ e = (s.decoder.handle c n args).2 ∧
      s'.parser = (s.decoder.handle c n args).1.engine.parser.advance s.parser.get header ∧
      s'.decoder.callStack = (s.decoder.handle c n args).1.callStack := by
  obtain ⟨hf, hid, hm⟩ := hc
  obtain ⟨s₁, hd, rfl⟩ := processNext_of_command hf h
  obtain ⟨rfl, he⟩ := doCommand_of_common hid hm hd
  exact ⟨_, _, fun _ => rfl, he, rfl, rfl⟩

/-- A turn without a jump changes neither the call stack nor the calls of the run. -/
theorem callStack_of_not_jump (hj : ∀ header c, s.IsCommand ring header c → c.isJump = false)
    (h : processNext gles2 fuel ring ring' s = some (s', e)) (calls : List ℤ) :
    s'.decoder.callStack = s.decoder.callStack ∧ callsAfter s ring e calls = calls := by
  constructor
  · by_cases hf : ∃ header, s.parser.fetch ring = .command header
    · obtain ⟨header, hf⟩ := hf
      obtain ⟨s₁, hd, rfl⟩ := processNext_of_command hf h
      exact (doCommand_quiet (fun c hc hm => hj header c ⟨hf, hc, hm⟩) hd).2
    · push Not at hf
      obtain rfl := processNext_of_no_command hf h
      rfl
  · unfold callsAfter
    cases hx : s.executed ring with
    | none => exact ite_self _
    | some c =>
      obtain ⟨header, hc⟩ := executed_eq_some.1 hx
      have := hj header c hc
      cases c with
      | kCall | kCallRelative | kReturn => cases this
      | _ => exact ite_self _

theorem IsCommand.size_two {c : CommandId} (hc : s.IsCommand ring header c)
    (h1 : c.argCount = 1) (hk : c.argFlags = .kFixed) :
    CommandHeader.size header = 2 ∧ s.parser.get + 2 ≤ s.parser.entryCount := by
  obtain ⟨hf, _, hm⟩ := hc
  obtain ⟨_, _, hpos, hle⟩ := CommandParser.fetch_eq_command.1 hf
  rw [CommandId.argCountMatches, hk, h1] at hm
  have : CommandHeader.size header - 1 = 1 := of_decide_eq_true hm
  have hsize : CommandHeader.size header = 2 := by omega
  rw [hsize] at hle
  exact ⟨hsize, hle⟩

theorem int32OfUInt32_call {numEntries a : ℤ} (hb : numEntries < 2147483648) (h0 : 0 ≤ a)
    (h1 : a + 2 ≤ numEntries) : int32OfUInt32 (uint32OfInt a) = a := by
  rw [int32OfUInt32_uint32OfInt]
  exact toInt32_of_mem (by omega) (by omega)

theorem CallsInv.call {numEntries : ℤ} {calls : List ℤ}
    (h : CallsInv numEntries ⟨s, calls⟩) (h0 : 0 ≤ s.parser.get)
    (hcount : s.parser.entryCount = numEntries) {c : CommandId}
    (hc : s.IsCommand ring header c) (hcc : c = .kCall ∨ c = .kCallRelative)
    {offset : UInt32} (hs : s'.decoder.callStack = (CommonDecoder.orInvalid (s.decoder.pushAddress offset)).1.callStack)
    (he : e = (CommonDecoder.orInvalid (s.decoder.pushAddress offset)).2) :
    CallsInv numEntries ⟨s', callsAfter s ring e calls⟩ := by
  have hx := executed_eq_some.2 ⟨header, hc⟩
  have hafter : callsAfter s ring e calls = if e = .kNoError then s.parser.get :: calls else calls := by
    rw [callsAfter, hx]
    rcases hcc with rfl | rfl <;> rfl
  have hroom : s.parser.get + 2 ≤ numEntries := by
    rw [← hcount]
    rcases hcc with rfl | rfl <;> exact (hc.size_two rfl rfl).2
  rw [CommonDecoder.callStack_pushAddress, ← he] at hs
  rw [hafter]
  split_ifs at hs ⊢ with hok
  · refine ⟨?_, fun a ha => ?_⟩
    · rw [hs, List.map_cons]
      exact congrArg _ h.callStack
    · rcases List.mem_cons.1 ha with rfl | ha
      · exact ⟨h0, hroom⟩
      · exact h.inRing a ha
  · exact ⟨hs.trans h.callStack, h.inRing⟩

theorem CallsInv.jumpsTo_return {numEntries : ℤ} {calls : List ℤ} {a : ℤ}
    (h : CallsInv numEntries ⟨s, a :: calls⟩) (hb : numEntries < 2147483648) :
    s.decoder.JumpsTo a s.decoder.handleReturn ∧
      s.decoder.handleReturn.1.callStack = calls.map uint32OfInt := by
  obtain ⟨h0, h1⟩ := h.inRing a List.mem_cons_self
  have hj := CommonDecoder.jumpsTo_handleReturn (h.callStack.trans (List.map_cons ..))
  rw [int32OfUInt32_call hb h0 h1] at hj
  exact hj

theorem CallsInv.return {numEntries : ℤ} {calls : List ℤ}
    (h : CallsInv numEntries ⟨s, calls⟩) (hb : numEntries < 2147483648)
    (hcount : s.parser.entryCount = numEntries) (hc : s.IsCommand ring header .kReturn)
    (hs : s'.decoder.callStack = s.decoder.handleReturn.1.callStack)
    (he : e = s.decoder.handleReturn.2) :
    CallsInv numEntries ⟨s', callsAfter s ring e calls⟩ := by
  have hx := executed_eq_some.2 ⟨header, hc⟩
  have hafter : callsAfter s ring e calls = if e = .kNoError then calls.tail else calls := by
    rw [callsAfter, hx]
  rw [hafter]
  cases calls with
  | nil =>
    have hnil : s.decoder.callStack = [] := h.callStack
    rw [CommonDecoder.handleReturn, hnil] at hs
    rw [List.tail_nil, ite_self]
    exact ⟨hs.trans hnil, h.inRing⟩
  | cons a calls =>
    obtain ⟨hj, hstack⟩ := h.jumpsTo_return hb
    obtain ⟨h0, h1⟩ := h.inRing a List.mem_cons_self
    obtain ⟨ok, hm, hr⟩ := hj
    have hlt : a < s.decoder.engine.parser.entryCount := by
      have : s.decoder.engine.parser.entryCount = numEntries := hcount
      omega
    obtain ⟨rfl, _⟩ := hm.moved h0 hlt
    rw [if_pos (show e = .kNoError from he.trans hr)]
    exact ⟨hs.trans hstack, fun b hb => h.inRing b (List.mem_cons_of_mem a hb)⟩

theorem CallsInv.process {numEntries : ℤ} {calls : List ℤ} (h : CallsInv numEntries ⟨s, calls⟩)
    (hb : numEntries < 2147483648) (h0 : 0 ≤ s.parser.get)
    (hcount : s.parser.entryCount = numEntries)
    (hp : processNext gles2 fuel ring ring' s = some (s', e)) :
    CallsInv numEntries ⟨s', callsAfter s ring e calls⟩ := by
  by_cases hj : ∀ header c, s.IsCommand ring header c → c.isJump = false
  · obtain ⟨hs, hcalls⟩ := callStack_of_not_jump hj hp calls
    rw [hcalls]
    exact ⟨hs.trans h.callStack, h.inRing⟩
  · push Not at hj
    obtain ⟨header, c, hc, hjump⟩ := hj
    obtain ⟨n, args, _, he, _, hs⟩ := processNext_of_isCommand hc hp
    have hx := executed_eq_some.2 ⟨header, hc⟩
    cases c with
    | kJump | kJumpRelative =>
      have : callsAfter s ring e calls = calls := by
        rw [callsAfter, hx]
        exact ite_self _
      rw [this]
      exact ⟨hs.trans h.callStack, h.inRing⟩
    | kCall => exact h.call h0 hcount hc (.inl rfl) hs he
    | kCallRelative => exact h.call h0 hcount hc (.inr rfl) hs he
    | kReturn => exact h.return hb hcount hc hs he
    | _ => exact absurd rfl hjump

theorem CallsInv.step {numEntries : ℤ} {tr : List Label} {x x' : Execution Gles} {l : Label}
    (hi : SizesInv numEntries tr x) (h : CallsInv numEntries x) (hst : step gles2 x l x') :
    CallsInv numEntries x' := by
  cases l with
  | flush putOffset accepted =>
    obtain ⟨_, rfl⟩ := hst
    exact ⟨h.callStack, h.inRing⟩
  | putChanged | memory m =>
    obtain rfl := hst
    exact ⟨h.callStack, h.inRing⟩
  | process ring ring' e =>
    obtain ⟨_, fuel, s', hp, rfl⟩ := hst
    exact h.process hi.bound hi.nonneg hi.entryCount hp

theorem callsInv_run {numEntries : ℤ} {tr : List Label} {x : Execution Gles}
    (h : (gpuScheduler gles2 numEntries).Run tr x) : CallsInv numEntries x := by
  have hboth : SizesInv numEntries tr x ∧ CallsInv numEntries x := by
    refine h.traceInvariant (I := fun tr x => SizesInv numEntries tr x ∧ CallsInv numEntries x)
      (fun x h0 => ?_) (fun _ _ _ _ hi hst => ⟨hi.1.step hst, hi.2.step hi.1 hst⟩)
    refine ⟨sizesInv_run (show (gpuScheduler gles2 numEntries).Run [] x from .init h0), ?_⟩
    obtain ⟨_, gl, rfl⟩ := h0
    exact ⟨rfl, by simp⟩
  exact hboth.2

/-- Where a relative jump with the argument in `ring'` should go: the offset counts
from the end of the command, which has two entries. -/
def relativeTarget (s : GpuScheduler Gles) (ring' : ℤ → CommandBufferEntry) : ℤ :=
  s.parser.get + 2 + int32OfUInt32 (ring' (s.parser.get + 1))

/-- The target of a relative jump is in the ring, or right behind its last entry. -/
def TargetInRing (s : GpuScheduler Gles) (ring' : ℤ → CommandBufferEntry) : Prop :=
  0 ≤ s.relativeTarget ring' ∧ s.relativeTarget ring' ≤ s.parser.entryCount

instance (s : GpuScheduler Gles) (ring' : ℤ → CommandBufferEntry) : Decidable (s.TargetInRing ring') :=
  inferInstanceAs (Decidable (_ ∧ _))

/-- What the format says about the command of a turn: a relative jump or call
continues at its target, counted from its end, and a return at the command that
follows the matching call. -/
structure ContinuesRight (x : Execution Gles) (ring ring' : ℤ → CommandBufferEntry) (e : Error)
    (x' : Execution Gles) : Prop where
  jumpRelative : ∀ header, x.scheduler.IsCommand ring header .kJumpRelative →
    x.scheduler.TargetInRing ring' →
      e = .kNoError ∧ x'.scheduler.parser.get = x.scheduler.relativeTarget ring' % x.scheduler.parser.entryCount
  callRelative : ∀ header, x.scheduler.IsCommand ring header .kCallRelative →
    x.scheduler.decoder.callStack.length < CommonDecoder.kMaxStackDepth →
    x.scheduler.TargetInRing ring' →
      e = .kNoError ∧ x'.scheduler.parser.get = x.scheduler.relativeTarget ring' % x.scheduler.parser.entryCount
  ret : ∀ header, x.scheduler.IsCommand ring header .kReturn →
    ∀ a calls, x.calls = a :: calls → e = .kNoError ∧ x'.scheduler.parser.get = (a + 2) % x.scheduler.parser.entryCount

/-- When the code does that: the offset of the relative jump is zero, and the return
is in a ring of two entries and not where its call was. -/
structure ContinuesRightWhen (x : Execution Gles) (ring ring' : ℤ → CommandBufferEntry) :
    Prop where
  jumpRelative : ∀ header, x.scheduler.IsCommand ring header .kJumpRelative →
    x.scheduler.TargetInRing ring' → int32OfUInt32 (ring' (x.scheduler.parser.get + 1)) = 0
  callRelative : ∀ header, x.scheduler.IsCommand ring header .kCallRelative →
    x.scheduler.decoder.callStack.length < CommonDecoder.kMaxStackDepth →
    x.scheduler.TargetInRing ring' → int32OfUInt32 (ring' (x.scheduler.parser.get + 1)) = 0
  ret : ∀ header, x.scheduler.IsCommand ring header .kReturn →
    ∀ a calls, x.calls = a :: calls → x.scheduler.parser.entryCount = 2 ∧ x.scheduler.parser.get ≠ a

/-- **A relative jump or call goes to its target only with offset zero.**  The code
adds the offset to the start of the command, since `get_` is advanced only after
the handler. -/
theorem relative_iff {r : CommonDecoder × Error} {ring' : ℤ → CommandBufferEntry}
    (hj : s.decoder.JumpsTo
      (s.decoder.relativeOffset (ring' (s.parser.get + 1))) r)
    (h0 : 0 ≤ s.parser.get) (hsize : CommandHeader.size header = 2)
    (hroom : s.parser.get + 2 ≤ s.parser.entryCount) (hb : s.parser.entryCount < 2147483648)
    (ht : s.TargetInRing ring') :
    (r.2 = .kNoError ∧ (r.1.engine.parser.advance s.parser.get header).get =
        s.relativeTarget ring' % s.parser.entryCount) ↔
      int32OfUInt32 (ring' (s.parser.get + 1)) = 0 := by
  obtain ⟨ht0, ht1⟩ := ht
  have hring : s.parser.InRing := ⟨h0, by omega⟩
  unfold relativeTarget at ht0 ht1 ⊢
  have ho : s.decoder.relativeOffset (ring' (s.parser.get + 1)) =
      s.parser.get + int32OfUInt32 (ring' (s.parser.get + 1)) :=
    toInt32_of_mem (show -2147483648 ≤ s.parser.get + _ by omega)
      (show s.parser.get + _ < 2147483648 by omega)
  rw [ho] at hj
  generalize int32OfUInt32 (ring' (s.parser.get + 1)) = d at hj ht0 ht1 ⊢
  by_cases hin : 0 ≤ s.parser.get + d ∧ s.parser.get + d < s.parser.entryCount
  · obtain ⟨hok, hget⟩ := get_of_jumpsTo hj hring hin.1 hin.2 header
    rw [hget, hsize]
    constructor
    · rintro ⟨_, heq⟩
      by_contra hd
      rw [if_neg (by omega)] at heq
      by_cases hlast : s.parser.get + 2 + d = s.parser.entryCount
      · rw [hlast, Int.emod_self] at heq
        omega
      · rw [Int.emod_eq_of_lt ht0 (by omega)] at heq
        omega
    · rintro rfl
      refine ⟨hok, ?_⟩
      rw [if_pos (by omega), add_zero]
      rfl
  · refine iff_of_false (fun h => not_ok_of_jumpsTo hj hin h.1) ?_
    rintro rfl
    exact hin ⟨by omega, by omega⟩

/-- **A return goes back to the call itself**, or past its own place. -/
theorem return_iff {r : CommonDecoder × Error} {a : ℤ} (hj : s.decoder.JumpsTo a r)
    (h0 : 0 ≤ s.parser.get) (hsize : CommandHeader.size header = 1) (ha0 : 0 ≤ a)
    (ha : a + 2 ≤ s.parser.entryCount)
    (hroom : s.parser.get + 1 ≤ s.parser.entryCount) :
    (r.2 = .kNoError ∧ (r.1.engine.parser.advance s.parser.get header).get = (a + 2) % s.parser.entryCount) ↔
      s.parser.entryCount = 2 ∧ s.parser.get ≠ a := by
  have hring : s.parser.InRing := ⟨h0, by omega⟩
  obtain ⟨hok, hget⟩ := get_of_jumpsTo hj hring ha0 (by omega) header
  rw [hget, hsize]
  have hmod : (a + 2) % s.parser.entryCount = if a + 2 = s.parser.entryCount then 0 else a + 2 := by
    split_ifs with hlast
    · rw [hlast, Int.emod_self]
    · exact Int.emod_eq_of_lt (by omega) (by omega)
  rw [hmod]
  by_cases hown : a = s.parser.get
  · -- the return stands where its call was, and is stepped over
    have hmod1 : (s.parser.get + 1) % s.parser.entryCount = s.parser.get + 1 :=
      Int.emod_eq_of_lt (by omega) (by omega)
    rw [if_pos hown, Nat.cast_one, hmod1]
    refine iff_of_false (fun h => ?_) (fun h => h.2 hown.symm)
    have h2 := h.2
    split_ifs at h2 <;> omega
  · rw [if_neg hown]
    constructor
    · rintro ⟨_, h2⟩
      split_ifs at h2 <;> exact ⟨by omega, fun h => hown h.symm⟩
    · rintro ⟨hcount, _⟩
      refine ⟨hok, ?_⟩
      rw [if_pos (by omega)]
      omega

theorem IsCommand.size_return (hc : s.IsCommand ring header .kReturn) :
    CommandHeader.size header = 1 ∧ s.parser.get + 1 ≤ s.parser.entryCount := by
  obtain ⟨hf, _, hm⟩ := hc
  obtain ⟨_, _, hpos, hle⟩ := CommandParser.fetch_eq_command.1 hf
  have : CommandHeader.size header - 1 = 0 := of_decide_eq_true hm
  have hsize : CommandHeader.size header = 1 := by omega
  rw [hsize] at hle
  exact ⟨hsize, hle⟩

/-- **In every run, a turn continues where the format says exactly under
`ContinuesRightWhen`.** -/
theorem continuesRight_iff {numEntries : ℤ} {tr : List Label} {x x' : Execution Gles}
    {ring ring' : ℤ → CommandBufferEntry} {e : Error}
    (h : (gpuScheduler gles2 numEntries).Run tr x)
    (hst : (gpuScheduler gles2 numEntries).step x (.process ring ring' e) x') :
    ContinuesRight x ring ring' e x' ↔ ContinuesRightWhen x ring ring' := by
  have hi := sizesInv_run h
  have hcalls := callsInv_run h
  have hb : x.scheduler.parser.entryCount < 2147483648 := hi.entryCount.trans_lt hi.bound
  obtain ⟨_, fuel, s', hp, rfl⟩ := hst
  have hjump : ∀ header, x.scheduler.IsCommand ring header .kJumpRelative → x.scheduler.TargetInRing ring' →
      ((e = .kNoError ∧ s'.parser.get = x.scheduler.relativeTarget ring' % x.scheduler.parser.entryCount) ↔
        int32OfUInt32 (ring' (x.scheduler.parser.get + 1)) = 0) := by
    intro header hc ht
    obtain ⟨n, args, hargs, rfl, hparser, _⟩ := processNext_of_isCommand hc hp
    obtain ⟨hsize, hroom⟩ := hc.size_two rfl rfl
    rw [hparser]
    refine relative_iff ?_ hi.nonneg hsize hroom hb ht
    rw [← Nat.cast_one, ← hargs]
    exact CommonDecoder.jumpsTo_handleJumpRelative _ _
  have hcall : ∀ header, x.scheduler.IsCommand ring header .kCallRelative →
      x.scheduler.decoder.callStack.length < CommonDecoder.kMaxStackDepth →
      x.scheduler.TargetInRing ring' →
      ((e = .kNoError ∧ s'.parser.get = x.scheduler.relativeTarget ring' % x.scheduler.parser.entryCount) ↔
        int32OfUInt32 (ring' (x.scheduler.parser.get + 1)) = 0) := by
    intro header hc hd ht
    obtain ⟨n, args, hargs, rfl, hparser, _⟩ := processNext_of_isCommand hc hp
    obtain ⟨hsize, hroom⟩ := hc.size_two rfl rfl
    rw [hparser]
    refine relative_iff ?_ hi.nonneg hsize hroom hb ht
    rw [← Nat.cast_one, ← hargs]
    exact CommonDecoder.jumpsTo_handleCallRelative hd _
  have hret : ∀ header, x.scheduler.IsCommand ring header .kReturn → ∀ a calls, x.calls = a :: calls →
      ((e = .kNoError ∧ s'.parser.get = (a + 2) % x.scheduler.parser.entryCount) ↔
        x.scheduler.parser.entryCount = 2 ∧ x.scheduler.parser.get ≠ a) := by
    intro header hc a calls hx
    obtain ⟨n, args, _, rfl, hparser, _⟩ := processNext_of_isCommand hc hp
    obtain ⟨hsize, hroom⟩ := hc.size_return
    have hcalls' : CallsInv numEntries ⟨x.scheduler, a :: calls⟩ := by
      rw [← hx]
      exact hcalls
    obtain ⟨ha0, ha⟩ := hcalls'.inRing a List.mem_cons_self
    rw [hparser]
    refine return_iff (hcalls'.jumpsTo_return hi.bound).1 hi.nonneg hsize ha0 ?_ hroom
    rw [hi.entryCount]
    exact ha
  constructor
  · intro hr
    exact ⟨fun header hc ht => (hjump header hc ht).mp (hr.jumpRelative header hc ht),
      fun header hc hd ht => (hcall header hc hd ht).mp (hr.callRelative header hc hd ht),
      fun header hc a calls hx => (hret header hc a calls hx).mp (hr.ret header hc a calls hx)⟩
  · intro hr
    exact ⟨fun header hc ht => (hjump header hc ht).mpr (hr.jumpRelative header hc ht),
      fun header hc hd ht => (hcall header hc hd ht).mpr (hr.callRelative header hc hd ht),
      fun header hc a calls hx => (hret header hc a calls hx).mpr (hr.ret header hc a calls hx)⟩

/-- The state after the first flush and the start of `PutChanged`. -/
def started (numEntries putOffset : ℤ) (gl : Gles) : Execution Gles :=
  ⟨(flushed numEntries putOffset gl).scheduler.setParser
    ((CommandParser.new numEntries).setPut
      (flushed numEntries putOffset gl).scheduler.commandBuffer.putOffset), []⟩

variable (gles2) in
theorem run_started (numEntries putOffset : ℤ) (gl : Gles) (hb : numEntries < 2147483648)
    (h0 : 0 ≤ putOffset) (h1 : putOffset ≤ numEntries) :
    (gpuScheduler gles2 numEntries).Run ([.flush putOffset true] ++ [.putChanged])
      (started numEntries putOffset gl) :=
  (run_flushed gles2 numEntries putOffset gl hb h0 h1).step (l := Label.putChanged) rfl

theorem exists_processNext {get : ℤ}
    (h : (processNext gles2 fuel ring ring' s).map (fun r => (r.1.parser.get, r.2)) = some (get, e)) :
    ∃ s', processNext gles2 fuel ring ring' s = some (s', e) ∧ s'.parser.get = get := by
  obtain ⟨⟨s', e'⟩, hs, heq⟩ := Option.map_eq_some_iff.1 h
  obtain ⟨hget, rfl⟩ := Prod.mk.inj heq
  exact ⟨s', hs, hget⟩

def ringOf (c : CommandId) (offset : UInt32) : ℤ → CommandBufferEntry := fun i =>
  if i = 0 then CommandHeader.init c.toNat 2 else if i = 1 then offset else 0

/-- A relative jump with offset zero is the noop that the format says. -/
theorem continuesRight_iff_noop :
    ∃ e x', ContinuesRight (started 16 2 ()) (ringOf .kJumpRelative 0)
      (ringOf .kJumpRelative 0) e x' := by
  have hrun := run_started .idle 16 2 () (by decide) (by decide) (by decide)
  obtain ⟨s', hs, _⟩ :=
    (exists_processNext (by decide +kernel) : ∃ s', processNext .idle 1 (ringOf .kJumpRelative 0)
      (ringOf .kJumpRelative 0) (started 16 2 ()).scheduler = some (s', .kNoError) ∧ s'.parser.get = 2)
  refine ⟨.kNoError, _, (continuesRight_iff hrun ⟨by decide, 1, s', hs, rfl⟩).mpr ?_⟩
  exact ⟨fun _ _ _ => rfl, fun _ _ _ _ => rfl, fun header hc a calls h => by cases h⟩

/-- A ring with a call at its start and the subroutine, a return, at entry `4`. -/
def callReturn : ℤ → CommandBufferEntry := fun i =>
  if i = 0 then CommandHeader.init CommandId.kCall.toNat 2
  else if i = 1 then 4
  else if i = 4 then CommandHeader.init CommandId.kReturn.toNat 1 else 0

/-- **The subroutine returns to its own call**, and a relative jump by one entry goes
into the middle of its own command. -/
theorem callReturn_loops :
    (∃ tr x e x', (gpuScheduler GLES2Commands.idle 16).Run tr x ∧
      (gpuScheduler GLES2Commands.idle 16).step x (.process callReturn callReturn e) x' ∧
      x.calls = [0] ∧ x.scheduler.parser.get = 4 ∧ x'.scheduler.parser.get = 0 ∧
      ¬ ContinuesRight x callReturn callReturn e x') ∧
    ∃ tr x e x', (gpuScheduler GLES2Commands.idle 16).Run tr x ∧
      (gpuScheduler GLES2Commands.idle 16).step x
        (.process (ringOf .kJumpRelative 1) (ringOf .kJumpRelative 1) e) x' ∧
      x'.scheduler.parser.get = 1 ∧
      ¬ ContinuesRight x (ringOf .kJumpRelative 1) (ringOf .kJumpRelative 1) e x' := by
  constructor
  · have hcall := (run_started .idle 16 5 () (by decide) (by decide) (by decide)).step
      (l := Label.process callReturn callReturn .kNoError) ⟨by decide, 1, _, rfl, rfl⟩
    refine ⟨_, _, .kNoError, _, hcall, ⟨by decide, 1, _, rfl, rfl⟩, rfl, rfl, rfl, fun h => ?_⟩
    exact absurd (h.ret _ ⟨rfl, rfl, rfl⟩ 0 [] rfl).2 (by decide)
  · have hrun := run_started .idle 16 2 () (by decide) (by decide) (by decide)
    obtain ⟨s', hs, hget⟩ :=
      (exists_processNext (by decide +kernel) : ∃ s', processNext .idle 1 (ringOf .kJumpRelative 1)
        (ringOf .kJumpRelative 1) (started 16 2 ()).scheduler = some (s', .kNoError) ∧ s'.parser.get = 1)
    refine ⟨_, _, .kNoError, _, hrun, ⟨by decide, 1, s', hs, rfl⟩, hget, fun h => ?_⟩
    have hcont := (h.jumpRelative _ ⟨rfl, rfl, rfl⟩ (by decide +kernel)).2
    rw [hget] at hcont
    revert hcont
    decide +kernel

end GpuScheduler

end Chromium.Gpu
