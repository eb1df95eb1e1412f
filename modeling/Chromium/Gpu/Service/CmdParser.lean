import Chromium.Lib.Memory
import Chromium.Gpu.Service.CommandBufferService

/-!
# The command parser and the engine

`gpu/command_buffer/service/cmd_parser.cc`, and the `CommandBufferEngine` as
`GpuScheduler` implements it over the parser and the command buffer service.

The ring buffer is memory that the client writes at any time, so it is not a
part of any state here: what a step reads of it is an argument of the step.
`ProcessCommand` is cut in three: `fetch` reads and checks the header, the
handler runs, and `advance` moves `get_` if the handler did not.
-/

namespace Chromium.Gpu

open Lib

/-- `CommandParser`, without the address of the ring and the handler. -/
structure CommandParser where
  get : ℤ
  put : ℤ
  entryCount : ℤ
  deriving DecidableEq, Repr

/-- What `ProcessCommand` finds at `get_`. -/
inductive Fetch
  | empty
  | error (e : Error)
  | command (header : CommandBufferEntry)
  deriving DecidableEq

namespace CommandParser

variable {get : ℤ} {header : CommandBufferEntry} {p : CommandParser}

/-- The constructor, over a ring of `entryCount` entries and with `start_get` 0. -/
def new (entryCount : ℤ) : CommandParser := ⟨0, 0, entryCount⟩

def setGet (p : CommandParser) (get : ℤ) : CommandParser × Bool :=
  if 0 ≤ get ∧ get < p.entryCount then ({ p with get := get }, true) else (p, false)

def setPut (p : CommandParser) (put : ℤ) : CommandParser := { p with put := put }

def isEmpty (p : CommandParser) : Bool := p.put = p.get

/-- The checks of `ProcessCommand` on its copy of the header. -/
def checkHeader (p : CommandParser) (header : CommandBufferEntry) : Fetch :=
  if CommandHeader.size header = 0 then .error .kInvalidSize
  else if CommandHeader.size header + p.get > p.entryCount then .error .kOutOfBounds
  else .command header

/-- The part of `ProcessCommand` before the handler is called. -/
def fetch (p : CommandParser) (buffer : ℤ → CommandBufferEntry) : Fetch :=
  if p.get = p.put then .empty else p.checkHeader (buffer p.get)

/-- The part after it: if `get_` was not set somewhere else advance it. -/
def advance (p : CommandParser) (get : ℤ) (header : CommandBufferEntry) : CommandParser :=
  if get = p.get then
    { p with get := (get + CommandHeader.size header).tmod p.entryCount }
  else p

def InRing (p : CommandParser) : Prop := 0 ≤ p.get ∧ p.get < p.entryCount

/-! ### What each part does -/

theorem setGet_of_mem (h0 : 0 ≤ get) (h1 : get < p.entryCount) :
    p.setGet get = ({ p with get := get }, true) := if_pos ⟨h0, h1⟩

theorem setGet_of_not_mem (h : ¬ (0 ≤ get ∧ get < p.entryCount)) : p.setGet get = (p, false) := if_neg h

theorem fetch_eq_command {buffer : ℤ → CommandBufferEntry} : p.fetch buffer = .command header ↔
      p.get ≠ p.put ∧ buffer p.get = header ∧ 0 < CommandHeader.size header ∧
        p.get + CommandHeader.size header ≤ p.entryCount := by
  unfold fetch checkHeader
  constructor
  · intro h
    split_ifs at h with hput hsize hbound
    obtain rfl := Fetch.command.inj h
    exact ⟨hput, rfl, by omega, by omega⟩
  · rintro ⟨hput, rfl, hsize, hbound⟩
    rw [if_neg hput, if_neg (by omega), if_neg (by omega)]

/-- **`ProcessCommand` leaves `get_` in the ring.** -/
theorem InRing.advance (h : p.InRing) (h0 : 0 ≤ get) : (p.advance get header).InRing := by
  unfold CommandParser.advance
  split_ifs
  · have hpos : 0 < p.entryCount := by
      have := h.1
      have := h.2
      omega
    exact ⟨Int.tmod_nonneg _ (by omega), Int.tmod_lt_of_pos _ hpos⟩
  · exact h

/-- It leaves `get_` not negative, over a ring of any size. -/
theorem nonneg_advance (h : 0 ≤ p.get) (h0 : 0 ≤ get) : 0 ≤ (p.advance get header).get := by
  unfold advance
  split_ifs
  · exact Int.tmod_nonneg _ (Int.add_nonneg h0 (Int.natCast_nonneg _))
  · exact h

@[simp] theorem advance_entryCount (p : CommandParser) (get : ℤ) (header : CommandBufferEntry) :
    (p.advance get header).entryCount = p.entryCount := by
  unfold advance
  split_ifs <;> rfl

@[simp] theorem advance_put (p : CommandParser) (get : ℤ) (header : CommandBufferEntry) :
    (p.advance get header).put = p.put := by
  unfold advance
  split_ifs <;> rfl

theorem advance_self (h0 : 0 ≤ p.get) : p.advance p.get header =
      { p with get := (p.get + CommandHeader.size header) % p.entryCount } := by
  rw [advance, if_pos rfl, Int.tmod_eq_emod_of_nonneg (by omega)]

theorem advance_get (h0 : 0 ≤ p.get) :
    (p.advance p.get header).get = (p.get + CommandHeader.size header) % p.entryCount := by
  rw [advance_self h0]

end CommandParser

/-! ### The engine -/

/-- What the decoder works on: the command buffer service, the parser, and the
memory that the transfer buffers point into. -/
structure CommandBufferEngine where
  commandBuffer : CommandBufferService
  parser : CommandParser
  memory : ℤ → UInt8

namespace CommandBufferEngine

def getSharedMemoryBuffer (e : CommandBufferEngine) (shmId : ℤ) : Buffer :=
  e.commandBuffer.getTransferBuffer shmId

def setToken (e : CommandBufferEngine) (token : ℤ) : CommandBufferEngine :=
  { e with commandBuffer := e.commandBuffer.setToken token }

def setGetOffset (e : CommandBufferEngine) (offset : ℤ) : CommandBufferEngine × Bool :=
  if (e.parser.setGet offset).2 then
    ({ e with
        parser := (e.parser.setGet offset).1
        commandBuffer := e.commandBuffer.setGetOffset (e.parser.setGet offset).1.get }, true)
  else (e, false)

def getGetOffset (e : CommandBufferEngine) : ℤ := e.parser.get

theorem setGetOffset_of_mem {e : CommandBufferEngine} {offset : ℤ} (h0 : 0 ≤ offset)
    (h1 : offset < e.parser.entryCount) :
    e.setGetOffset offset = ({ e with
          parser := { e.parser with get := offset }
          commandBuffer := e.commandBuffer.setGetOffset offset }, true) := by
  rw [setGetOffset, CommandParser.setGet_of_mem h0 h1, if_pos rfl]

theorem setGetOffset_of_not_mem {e : CommandBufferEngine} {offset : ℤ}
    (h : ¬ (0 ≤ offset ∧ offset < e.parser.entryCount)) : e.setGetOffset offset = (e, false) := by
  rw [setGetOffset, CommandParser.setGet_of_not_mem h, if_neg Bool.false_ne_true]

end CommandBufferEngine

end Chromium.Gpu
