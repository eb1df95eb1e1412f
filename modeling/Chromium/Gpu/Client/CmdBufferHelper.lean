import Chromium.Gpu.Common.RingLayout
import Chromium.Gpu.Service.GpuScheduler

/-!
# The command buffer helper: the client side of the ring

`gpu/command_buffer/client/cmd_buffer_helper.cc`.  `GetSpace` is a small machine
whose phases are the places where it waits for the service or for the caller:
`WaitForAvailableEntries` first waits until it may go back to entry `0`, then
until there are enough entries, then it flushes if the buffer gets full, and
`GetSpace` hands out the entries, which the caller fills.

`commandRing` is the system of the helper and the service, which share the ring
and the two offsets.  The steps of both come in any order; the client sees the
get offset as it was at some earlier time (`view`).  The reader is
`ProcessCommand`, which is called until `get` is `put`; a `process` step with
`stop` is one after whose error the service shuts the reader down.
-/

namespace Chromium.Gpu

open Lib

/-- `CommandBufferHelper`, without the tokens and the time of the last flush. -/
structure CommandBufferHelper where
  totalEntryCount : ℤ
  usableEntryCount : ℤ
  put : ℤ
  lastPutSent : ℤ
  commandsIssued : ℕ

namespace CommandBufferHelper

def kCommandsPerFlushCheck : ℕ := 100

/-- `CommandBufferHelper::Initialize`, for a command buffer with a ring. -/
def initializeHelper (ringBufferSize : ℕ) (state : CommandBufferService) : Option CommandBufferHelper :=
  let numRingBufferEntries : ℤ := (ringBufferSize / 4 : ℕ)
  if numRingBufferEntries > state.numEntries then none
  else some
    { totalEntryCount := numRingBufferEntries
      usableEntryCount := numRingBufferEntries - (1 + CommandId.kJump.argCount : ℕ)
      put := state.putOffset
      lastPutSent := 0
      commandsIssued := 0 }

/-- `CommandBufferHelper::AvailableEntries`, with the get offset the client sees. -/
def availableEntries (h : CommandBufferHelper) (getOffset : ℤ) : ℤ :=
  (getOffset - h.put - 1 + h.usableEntryCount).tmod h.usableEntryCount

/-- `pending`: the entries that were not sent. -/
def pending (h : CommandBufferHelper) : ℤ :=
  (h.put + h.usableEntryCount - h.lastPutSent).tmod h.usableEntryCount

def limit (h : CommandBufferHelper) (getOffset : ℤ) : ℤ :=
  h.usableEntryCount.tdiv (if getOffset = h.lastPutSent then 16 else 2)

end CommandBufferHelper

/-- Where `GetSpace(count)` is. -/
inductive Phase
  /-- no `GetSpace` is going on -/
  | idle
  /-- at the condition of the first loop of `WaitForAvailableEntries` -/
  | wrap (count : ℤ)
  /-- in the `FlushSync` of that loop -/
  | wrapSync (count : ℤ)
  /-- at the condition of the second loop -/
  | wait (count : ℤ)
  /-- in the `FlushSync` of that loop -/
  | waitSync (count : ℤ)
  /-- behind the loops, where the flush is forced -/
  | check (count : ℤ)
  /-- behind `WaitForAvailableEntries` -/
  | take (count : ℤ)
  /-- `GetSpace` has returned `space`, which the caller fills -/
  | fill (space count : ℤ)

/-- The helper, the service and the ring between them.  The last four fields are
the history: the commands issued and executed so far, those issued before the
last flush, and those issued before the flush the parser works on. -/
structure RingState (Gles : Type) where
  ring : ℤ → CommandBufferEntry
  helper : CommandBufferHelper
  phase : Phase
  view : ℤ
  scheduler : GpuScheduler Gles
  issued : List (List CommandBufferEntry)
  executed : List (List CommandBufferEntry)
  sent : List (List CommandBufferEntry)
  received : List (List CommandBufferEntry)

namespace RingState

variable {Gles : Type}

def commandBuffer (x : RingState Gles) : CommandBufferService := x.scheduler.commandBuffer

def parser (x : RingState Gles) : CommandParser := x.scheduler.parser

/-- `CommandBufferHelper::Flush`, and what `FlushSync` does before it waits. -/
def flush (x : RingState Gles) : RingState Gles :=
  { x with
      helper := { x.helper with lastPutSent := x.helper.put }
      scheduler := x.scheduler.setCommandBuffer (x.commandBuffer.flush x.helper.put).1
      sent := x.issued }

/-- `cmd::Jump::Set(&entries_[put], 0)`. -/
def setJump (x : RingState Gles) (put : ℤ) : RingState Gles :=
  { x with ring := store x.ring put (Jump.set 0) }

/-- A new value of `put_`. -/
def setPut (x : RingState Gles) (put : ℤ) : RingState Gles :=
  { x with helper := { x.helper with put := put } }

/-- The next step of `GetSpace`.  `clock` tells whether the last flush is long ago. -/
def getSpaceStep (x : RingState Gles) (clock : Bool) : RingState Gles :=
  match x.phase with
  | .idle => x
  | .wrap count =>
    if x.helper.put + count > x.helper.usableEntryCount then
      if x.view > x.helper.put ∨ x.view = 0 then { x.flush with phase := .wrapSync count }
      else { (x.setJump x.helper.put).setPut 0 with phase := .wait count }
    else { x with phase := .wait count }
  | .wrapSync count =>
    -- `FlushSync` fails if the reader has shut down
    { x with phase := if x.commandBuffer.error = .kNoError then .wrap count else .take count }
  | .wait count =>
    if x.helper.availableEntries x.view < count then { x.flush with phase := .waitSync count }
    else { x with phase := .check count }
  | .waitSync count =>
    { x with phase := if x.commandBuffer.error = .kNoError then .wait count else .take count }
  | .check count =>
    if x.helper.pending > x.helper.limit x.view then { x.flush with phase := .take count }
    else if x.helper.commandsIssued % CommandBufferHelper.kCommandsPerFlushCheck = 0 ∧ clock then
      { x.flush with phase := .take count }
    else { x with phase := .take count }
  | .take count =>
    let put := x.helper.put + count
    if put = x.helper.usableEntryCount then
      { (x.setJump put).setPut 0 with phase := .fill x.helper.put count }
    else { x.setPut put with phase := .fill x.helper.put count }
  | .fill _ _ => x

/-- The command that `ProcessCommand` executes, unless it is a `Jump`. -/
def executedCommand (s : GpuScheduler Gles) (ring : ℤ → CommandBufferEntry) :
    Option (List CommandBufferEntry) :=
  match s.parser.fetch ring with
  | .command header =>
    if CommandHeader.command header = CommandId.kJump.toNat then none
    else some (load ring s.parser.get (CommandHeader.size header))
  | _ => none

inductive Label
  | getSpace (count : ℤ)
  | client (clock : Bool)
  | fill (command : List CommandBufferEntry)
  | flush
  | observe
  | putChanged
  | process (stop : Bool)

/-- One step.  The caller asks for entries (`getSpace`), `GetSpace` goes on (`client`),
the caller fills the entries with a command (`fill`) or flushes, the client gets a
new state of the command buffer (`observe`), and the service takes the put offset
(`putChanged`) and executes a command (`process`). -/
def step (gles2 : GLES2Commands Gles) (x : RingState Gles) (l : Label) (x' : RingState Gles) : Prop :=
  match l with
  | .getSpace count =>
    x.phase = .idle ∧ 1 ≤ count ∧ count < x.helper.usableEntryCount ∧ x' = { x with
        helper := { x.helper with commandsIssued := x.helper.commandsIssued + 1 }
        phase := .wrap count }
  | .client clock => x' = x.getSpaceStep clock
  | .fill command =>
    WellFormed command ∧ ∃ space, x.phase = .fill space command.length ∧ x' = { x with
        ring := store x.ring space command
        phase := .idle
        issued := x.issued ++ [command] }
  | .flush => x.phase = .idle ∧ x' = x.flush
  | .observe => x' = { x with view := x.commandBuffer.getOffset }
  | .putChanged =>
    x' = { x with
      scheduler := x.scheduler.setParser (x.parser.setPut x.commandBuffer.putOffset)
      received := x.sent }
  | .process stop =>
    x.commandBuffer.error = .kNoError ∧ ¬ x.parser.isEmpty ∧
      ∃ fuel s' e, GpuScheduler.processCommand gles2 fuel x.ring x.ring x.scheduler =
          some (s', e) ∧ (stop = true → e.isError) ∧
        x' = { x with
          scheduler := s'.reportResult (if stop then e else .kNoError)
          executed := x.executed ++ (executedCommand x.scheduler x.ring).toList }

/-- The system of a helper that was initialised over a new service.  `num_entries_`
is the number of entries in a buffer whose size is an `int32`, so nothing that the
helper computes overflows. -/
def commandRing (gles2 : GLES2Commands Gles) (ringBufferSize : ℕ) (numEntries : ℤ) :
    TransSys (RingState Gles) Label where
  init x := 0 ≤ numEntries ∧ numEntries < 536870912 ∧ ∃ ring gl helper,
    CommandBufferHelper.initializeHelper ringBufferSize (CommandBufferService.new numEntries) = some helper ∧
    x = ⟨ring, helper, .idle, 0, GpuScheduler.new numEntries gl, [], [], [], []⟩
  step := step gles2

end RingState

end Chromium.Gpu
