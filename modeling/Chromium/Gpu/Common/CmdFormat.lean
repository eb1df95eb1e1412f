import Mathlib.Data.UInt
import Mathlib.Tactic.IntervalCases

/-!
# The command buffer format

`gpu/command_buffer/common/cmd_buffer_common.h` and `constants.h`.  A ring
buffer holds 32-bit entries.  A command is a header entry, with the number of
entries in its low 21 bits and the command id in its high 11 bits, followed by
its arguments.  The common commands, their ids and what each of them takes are
the macro table `COMMON_COMMAND_BUFFER_CMDS`, here the type `CommandId` and the
functions on it.
-/

namespace Chromium.Gpu

inductive Error
  | kNoError
  | kInvalidSize
  | kOutOfBounds
  | kUnknownCommand
  | kInvalidArguments
  | kLostContext
  | kGenericError
  deriving DecidableEq, Repr

def Error.isError (e : Error) : Bool := e ≠ .kNoError

/-- `CommandBufferEntry`, read as `value_uint32`. -/
abbrev CommandBufferEntry := UInt32

namespace CommandHeader

def size (e : CommandBufferEntry) : ℕ := e.toNat % 2097152

def command (e : CommandBufferEntry) : ℕ := e.toNat / 2097152

/-- `CommandHeader::Init`.  Both fields are cut to their bits. -/
def init (command size : ℕ) : CommandBufferEntry :=
  UInt32.ofNat (command % 2048 * 2097152 + size % 2097152)

theorem toNat_init (c n : ℕ) : (init c n).toNat = c % 2048 * 2097152 + n % 2097152 := by
  rw [init, UInt32.toNat_ofNat', Nat.mod_eq_of_lt]
  omega

theorem size_init {c n : ℕ} (h : n < 2097152) : size (init c n) = n := by
  rw [size, toNat_init]
  omega

theorem command_init {c n : ℕ} (h : c < 2048) : command (init c n) = c := by
  rw [command, toNat_init]
  omega

end CommandHeader

inductive ArgFlags
  | kFixed
  | kAtLeastN
  deriving DecidableEq, Repr

/-- `cmd::CommandId`, in the order of `COMMON_COMMAND_BUFFER_CMDS`. -/
inductive CommandId
  | kNoop
  | kSetToken
  | kJump
  | kJumpRelative
  | kCall
  | kCallRelative
  | kReturn
  | kSetBucketSize
  | kSetBucketData
  | kSetBucketDataImmediate
  | kGetBucketSize
  | kGetBucketData
  deriving DecidableEq, Repr

namespace CommandId

def all : List CommandId :=
  [kNoop, kSetToken, kJump, kJumpRelative, kCall, kCallRelative, kReturn, kSetBucketSize,
    kSetBucketData, kSetBucketDataImmediate, kGetBucketSize, kGetBucketData]

def kNumCommands : ℕ := 12

/-- `kLastCommonId`: the ids up to it are reserved for common commands. -/
def kLastCommonId : ℕ := 255

def toNat : CommandId → ℕ
  | kNoop => 0
  | kSetToken => 1
  | kJump => 2
  | kJumpRelative => 3
  | kCall => 4
  | kCallRelative => 5
  | kReturn => 6
  | kSetBucketSize => 7
  | kSetBucketData => 8
  | kSetBucketDataImmediate => 9
  | kGetBucketSize => 10
  | kGetBucketData => 11

/-- The command with a given id, as `g_command_info[command]` and the switch find it. -/
def ofNat? (n : ℕ) : Option CommandId := all[n]?

theorem ofNat?_toNat (c : CommandId) : ofNat? c.toNat = some c := by cases c <;> rfl

theorem ofNat?_eq_none {n : ℕ} : ofNat? n = none ↔ kNumCommands ≤ n := List.getElem?_eq_none_iff

/-- `kArgFlags` of the command's struct. -/
def argFlags : CommandId → ArgFlags
  | kNoop | kSetBucketDataImmediate => .kAtLeastN
  | _ => .kFixed

/-- `sizeof(cmd::name) / sizeof(CommandBufferEntry) - 1`: the entries after the header. -/
def argCount : CommandId → ℕ
  | kNoop => 0
  | kSetToken => 1
  | kJump => 1
  | kJumpRelative => 1
  | kCall => 1
  | kCallRelative => 1
  | kReturn => 0
  | kSetBucketSize => 2
  | kSetBucketData => 5
  | kSetBucketDataImmediate => 3
  | kGetBucketSize => 3
  | kGetBucketData => 5

def argCountMatches (c : CommandId) (argCount : ℕ) : Bool :=
  match c.argFlags with
  | .kFixed => argCount = c.argCount
  | .kAtLeastN => c.argCount ≤ argCount

def isJump : CommandId → Bool
  | kJump | kJumpRelative | kCall | kCallRelative | kReturn => true
  | _ => false

end CommandId

def Jump.set (offset : UInt32) : List CommandBufferEntry :=
  [CommandHeader.init CommandId.kJump.toNat 2, offset]

end Chromium.Gpu
