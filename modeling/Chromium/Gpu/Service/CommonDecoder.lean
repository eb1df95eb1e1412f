import Chromium.Gpu.Service.CmdParser

/-!
# The decoder of the common commands

`gpu/command_buffer/service/common_decoder.cc`.  A handler gets the decoder, the
size of the immediate data, and the command as it lies in the ring: entry `0` is
the header and the arguments follow.

`DoCommonCommand` looks the id up in the table and, for an id that is not
there, calls itself with the same arguments (the `return kUnknownCommand` below
that call is never reached).  Here it gets fuel, one unit for each call, and
`none` is what it has when the fuel runs out.  It has a result exactly for the
ids of the table (`dispatchSpec_iff`).
-/

namespace Chromium.Gpu

open Lib

/-- `CommonDecoder::Bucket`.  A bucket of size zero has no data. -/
abbrev Bucket := List UInt8

namespace Bucket

def offsetSizeValid (b : Bucket) (offset size : ℕ) : Bool := offset + size ≤ b.length

/-- `Bucket::GetData`, as the bytes at the pointer it returns. -/
def getData (b : Bucket) (offset size : ℕ) : Option (List UInt8) :=
  if b.offsetSizeValid offset size ∧ b ≠ [] then some ((b.drop offset).take size) else none

/-- `Bucket::SetSize`.  The data is zeroed, unless the size is what it was. -/
def setSize (b : Bucket) (size : ℕ) : Bucket :=
  if size ≠ b.length then List.replicate size 0 else b

def setData (b : Bucket) (src : List UInt8) (offset : ℕ) : Option Bucket :=
  if b.offsetSizeValid offset src.length then
    some (b.take offset ++ src ++ b.drop (offset + src.length))
  else none

end Bucket

/-- The bytes of a `uint32` in memory. -/
def uint32Bytes (v : ℕ) : List UInt8 :=
  (List.range 4).map fun k : ℕ => UInt8.ofNat (v / 256 ^ k % 256)

/-- `GetImmediateDataAs`: the bytes after a struct of `first` entries. -/
def immediateData (args : ℕ → CommandBufferEntry) (first size : ℕ) : List UInt8 :=
  (List.range size).map fun k : ℕ =>
    UInt8.ofNat ((args (first + k / 4)).toNat / 256 ^ (k % 4) % 256)

def CommandBufferEngine.getAddressAndCheckSize (e : CommandBufferEngine)
    (shmId offset size : UInt32) : Option ℤ :=
  let buffer := e.getSharedMemoryBuffer (int32OfUInt32 shmId)
  match buffer.ptr with
  | none => none
  | some ptr =>
    if (offset + size).toNat > buffer.size ∨ offset + size < offset then none
    else some (ptr + offset.toNat)

structure CommonDecoder where
  engine : CommandBufferEngine
  buckets : UInt32 → Option Bucket
  callStack : List UInt32

namespace CommonDecoder

variable {n command : ℕ} {size sharedMemoryId sharedMemoryOffset bucketId offset : UInt32}
  {c : CommandId} {d : CommonDecoder}

def kMaxStackDepth : ℕ := 32

def pushAddress (d : CommonDecoder) (offset : UInt32) : CommonDecoder × Bool :=
  if d.callStack.length < kMaxStackDepth then
    let returnAddress := uint32OfInt d.engine.getGetOffset
    if (d.engine.setGetOffset (int32OfUInt32 offset)).2 then
      ({ d with
          engine := (d.engine.setGetOffset (int32OfUInt32 offset)).1
          callStack := returnAddress :: d.callStack }, true)
    else (d, false)
  else (d, false)

/-- `CreateBucket`, then `f` on the bucket. -/
def updateBucket (d : CommonDecoder) (bucketId : UInt32) (bucket : Bucket) : CommonDecoder :=
  { d with buckets := fun i => if i = bucketId then some bucket else d.buckets i }

/-! ### The handlers -/

/-- `return cond ? kNoError : kInvalidArguments`, as the jumps have it. -/
def orInvalid (r : CommonDecoder × Bool) : CommonDecoder × Error :=
  (r.1, if r.2 then .kNoError else .kInvalidArguments)

def setGetOffset (d : CommonDecoder) (offset : ℤ) : CommonDecoder × Bool :=
  ({ d with engine := (d.engine.setGetOffset offset).1 }, (d.engine.setGetOffset offset).2)

def handleNoop (d : CommonDecoder) : CommonDecoder × Error := (d, .kNoError)

def handleSetToken (d : CommonDecoder) (token : UInt32) : CommonDecoder × Error :=
  ({ d with engine := d.engine.setToken (int32OfUInt32 token) }, .kNoError)

def handleJump (d : CommonDecoder) (offset : UInt32) : CommonDecoder × Error :=
  orInvalid (d.setGetOffset (int32OfUInt32 offset))

/-- `GetGetOffset() + args.offset`, with a signed offset. -/
def relativeOffset (d : CommonDecoder) (offset : UInt32) : ℤ :=
  toInt32 (d.engine.getGetOffset + int32OfUInt32 offset)

def handleJumpRelative (d : CommonDecoder) (offset : UInt32) : CommonDecoder × Error :=
  orInvalid (d.setGetOffset (d.relativeOffset offset))

def handleCall (d : CommonDecoder) (offset : UInt32) : CommonDecoder × Error :=
  orInvalid (d.pushAddress offset)

def handleCallRelative (d : CommonDecoder) (offset : UInt32) : CommonDecoder × Error :=
  orInvalid (d.pushAddress (uint32OfInt (d.relativeOffset offset)))

def handleReturn (d : CommonDecoder) : CommonDecoder × Error :=
  match d.callStack with
  | [] => (d, .kInvalidArguments)
  | returnAddress :: callStack =>
    orInvalid ({ d with callStack := callStack }.setGetOffset (int32OfUInt32 returnAddress))

def handleSetBucketSize (d : CommonDecoder) (bucketId size : UInt32) : CommonDecoder × Error :=
  (d.updateBucket bucketId (((d.buckets bucketId).getD []).setSize size.toNat), .kNoError)

/-- The end of `HandleSetBucketData` and `HandleSetBucketDataImmediate`. -/
def setBucketData (d : CommonDecoder) (bucketId offset : UInt32) (data : List UInt8) :
    CommonDecoder × Error :=
  match d.buckets bucketId with
  | none => (d, .kInvalidArguments)
  | some bucket =>
    match bucket.setData data offset.toNat with
    | none => (d, .kInvalidArguments)
    | some bucket => (d.updateBucket bucketId bucket, .kNoError)

def handleSetBucketData (d : CommonDecoder)
    (bucketId offset size sharedMemoryId sharedMemoryOffset : UInt32) : CommonDecoder × Error :=
  match d.engine.getAddressAndCheckSize sharedMemoryId sharedMemoryOffset size with
  | none => (d, .kInvalidArguments)
  | some data => d.setBucketData bucketId offset (load d.engine.memory data size.toNat)

/-- `CommonDecoder::HandleSetBucketDataImmediate`.  The data is behind the four
entries of the struct. -/
def handleSetBucketDataImmediate (d : CommonDecoder) (immediateDataSize : ℕ)
    (args : ℕ → CommandBufferEntry) (bucketId offset size : UInt32) : CommonDecoder × Error :=
  if size.toNat > immediateDataSize then (d, .kInvalidArguments)
  else d.setBucketData bucketId offset (immediateData args 4 size.toNat)

/-- A write of `bytes` to the shared memory. -/
def writeMemory (d : CommonDecoder) (data : ℤ) (bytes : List UInt8) : CommonDecoder :=
  { d with engine := { d.engine with memory := store d.engine.memory data bytes } }

/-- `CommonDecoder::HandleGetBucketSize`.  The client has to have set the result to zero. -/
def handleGetBucketSize (d : CommonDecoder) (bucketId sharedMemoryId sharedMemoryOffset : UInt32) :
    CommonDecoder × Error :=
  match d.engine.getAddressAndCheckSize sharedMemoryId sharedMemoryOffset 4 with
  | none => (d, .kInvalidArguments)
  | some data =>
    if load d.engine.memory data 4 ≠ uint32Bytes 0 then (d, .kInvalidArguments)
    else
      match d.buckets bucketId with
      | none => (d, .kInvalidArguments)
      | some bucket => (d.writeMemory data (uint32Bytes bucket.length), .kNoError)

def handleGetBucketData (d : CommonDecoder)
    (bucketId offset size sharedMemoryId sharedMemoryOffset : UInt32) : CommonDecoder × Error :=
  match d.engine.getAddressAndCheckSize sharedMemoryId sharedMemoryOffset size with
  | none => (d, .kInvalidArguments)
  | some data =>
    match d.buckets bucketId with
    | none => (d, .kInvalidArguments)
    | some bucket =>
      match bucket.getData offset.toNat size.toNat with
      | none => (d, .kInvalidArguments)
      | some src => (d.writeMemory data src, .kNoError)

/-- The cases of the switch in `DoCommonCommand`, with the fields of each struct. -/
def handle (d : CommonDecoder) (c : CommandId) (immediateDataSize : ℕ)
    (args : ℕ → CommandBufferEntry) : CommonDecoder × Error :=
  match c with
  | .kNoop => d.handleNoop
  | .kSetToken => d.handleSetToken (args 1)
  | .kJump => d.handleJump (args 1)
  | .kJumpRelative => d.handleJumpRelative (args 1)
  | .kCall => d.handleCall (args 1)
  | .kCallRelative => d.handleCallRelative (args 1)
  | .kReturn => d.handleReturn
  | .kSetBucketSize => d.handleSetBucketSize (args 1) (args 2)
  | .kSetBucketData => d.handleSetBucketData (args 1) (args 2) (args 3) (args 4) (args 5)
  | .kSetBucketDataImmediate =>
    d.handleSetBucketDataImmediate immediateDataSize args (args 1) (args 2) (args 3)
  | .kGetBucketSize => d.handleGetBucketSize (args 1) (args 2) (args 3)
  | .kGetBucketData => d.handleGetBucketData (args 1) (args 2) (args 3) (args 4) (args 5)

/-! ### The dispatch -/

/-- How `DoCommonCommand` ends: it calls a handler, or it returns an error itself. -/
inductive Dispatch
  | handler (c : CommandId) (immediateDataSize : ℕ)
  | error (e : Error)
  deriving DecidableEq

def immediateDataSize (c : CommandId) (argCount : ℕ) : ℕ := (argCount - c.argCount) * 4 % 4294967296

/-- The way through `DoCommonCommand` to a handler or an error. -/
def dispatch : ℕ → ℕ → ℕ → Option Dispatch
  | 0, _, _ => none
  | fuel + 1, command, argCount =>
    match CommandId.ofNat? command with
    | some info =>
      if info.argCountMatches argCount then
        some (.handler info (immediateDataSize info argCount))
      else some (.error .kInvalidArguments)
    | none =>
      -- the source calls `DoCommonCommand` again, with the same arguments
      dispatch fuel command argCount

def doCommonCommand (fuel : ℕ) (d : CommonDecoder) (command argCount : ℕ)
    (cmdData : ℕ → CommandBufferEntry) : Option (CommonDecoder × Error) :=
  match dispatch fuel command argCount with
  | none => none
  | some (.handler c immediateDataSize) => some (d.handle c immediateDataSize cmdData)
  | some (.error e) => some (d, e)

theorem dispatch_of_some (h : CommandId.ofNat? command = some c) (fuel argCount : ℕ) :
    dispatch (fuel + 1) command argCount =
      if c.argCountMatches argCount then some (.handler c (immediateDataSize c argCount))
      else some (.error .kInvalidArguments) := by
  rw [dispatch, h]

theorem dispatch_of_none (h : CommandId.ofNat? command = none)
    (fuel argCount : ℕ) : dispatch fuel command argCount = none := by
  induction fuel with
  | zero => rfl
  | succ fuel ih =>
    rw [dispatch, h]
    exact ih

/-- A handler is only called for its own id and with the arguments its table entry asks for. -/
theorem of_dispatch_eq_handler {fuel argCount : ℕ}
    (h : dispatch fuel command argCount = some (.handler c n)) :
    CommandId.ofNat? command = some c ∧ c.argCountMatches argCount ∧
      n = immediateDataSize c argCount := by
  cases hc : CommandId.ofNat? command with
  | none => rw [dispatch_of_none hc] at h; cases h
  | some c' =>
    cases fuel with
    | zero => cases h
    | succ fuel =>
      rw [dispatch_of_some hc] at h
      split_ifs at h with hm
      · cases h
        exact ⟨rfl, hm, rfl⟩
      · cases h

/-! ### Errors change nothing -/

theorem orInvalid_error {r : CommonDecoder × Bool}
    (hr : r.2 = false → r.1.engine = d.engine ∧ r.1.buckets = d.buckets)
    (h : (orInvalid r).2 ≠ .kNoError) :
    (orInvalid r).1.engine = d.engine ∧ (orInvalid r).1.buckets = d.buckets := by
  unfold orInvalid at h ⊢
  cases hb : r.2 with
  | true => rw [hb] at h; exact (h rfl).elim
  | false => exact hr hb

theorem setGetOffset_false {offset : ℤ} (h : (d.setGetOffset offset).2 = false) :
    (d.setGetOffset offset).1 = d := by
  unfold setGetOffset CommandBufferEngine.setGetOffset at h ⊢
  split_ifs at h ⊢
  rfl

theorem pushAddress_false
    (h : (d.pushAddress offset).2 = false) : (d.pushAddress offset).1 = d := by
  unfold pushAddress at h ⊢
  dsimp only at h ⊢
  split_ifs at h ⊢ <;> rfl

theorem setBucketData_error {data : List UInt8}
    (h : (d.setBucketData bucketId offset data).2 ≠ .kNoError) :
    (d.setBucketData bucketId offset data).1 = d := by
  unfold setBucketData at h ⊢
  cases hb : d.buckets bucketId with
  | none => rfl
  | some bucket =>
    rw [hb] at h
    dsimp only at h ⊢
    cases hs : bucket.setData data offset.toNat with
    | none => rfl
    | some b => rw [hs] at h; exact (h rfl).elim

theorem handleSetBucketData_error
    (h : (d.handleSetBucketData bucketId offset size sharedMemoryId sharedMemoryOffset).2 ≠ .kNoError) :
    (d.handleSetBucketData bucketId offset size sharedMemoryId sharedMemoryOffset).1 = d := by
  unfold handleSetBucketData at h ⊢
  split
  · rfl
  · next data hd =>
    rw [hd] at h
    exact setBucketData_error h

theorem handleSetBucketDataImmediate_error {args : ℕ → CommandBufferEntry}
    (h : (d.handleSetBucketDataImmediate n args bucketId offset size).2 ≠ .kNoError) :
    (d.handleSetBucketDataImmediate n args bucketId offset size).1 = d := by
  unfold handleSetBucketDataImmediate at h ⊢
  split_ifs at h ⊢
  · rfl
  · exact setBucketData_error h

theorem handleGetBucketSize_error
    (h : (d.handleGetBucketSize bucketId sharedMemoryId sharedMemoryOffset).2 ≠ .kNoError) :
    (d.handleGetBucketSize bucketId sharedMemoryId sharedMemoryOffset).1 = d := by
  unfold handleGetBucketSize at h ⊢
  split
  · rfl
  · next data hd =>
    rw [hd] at h
    dsimp only at h
    split_ifs at h ⊢
    · rfl
    · split
      · rfl
      · next bucket hb =>
        rw [hb] at h
        exact (h rfl).elim

theorem handleGetBucketData_error
    (h : (d.handleGetBucketData bucketId offset size sharedMemoryId sharedMemoryOffset).2 ≠ .kNoError) :
    (d.handleGetBucketData bucketId offset size sharedMemoryId sharedMemoryOffset).1 = d := by
  unfold handleGetBucketData at h ⊢
  split
  · rfl
  · next data hd =>
    rw [hd] at h
    dsimp only at h
    split
    · rfl
    · next bucket hb =>
      rw [hb] at h
      dsimp only at h
      split
      · rfl
      · next src hs =>
        rw [hs] at h
        exact (h rfl).elim

/-- **A handler that returns an error leaves the engine and the buckets as they were.**
`HandleReturn` pops the call stack also when the address is not in the ring. -/
theorem handle_error {args : ℕ → CommandBufferEntry} (h : (d.handle c n args).2 ≠ .kNoError) :
    (d.handle c n args).1.engine = d.engine ∧ (d.handle c n args).1.buckets = d.buckets := by
  have of_eq : ∀ d' : CommonDecoder, d' = d → d'.engine = d.engine ∧ d'.buckets = d.buckets := by
    rintro _ rfl
    exact ⟨rfl, rfl⟩
  cases c with
  | kNoop | kSetToken | kSetBucketSize => exact (h rfl).elim
  | kJump | kJumpRelative => exact orInvalid_error (fun hr => of_eq _ (setGetOffset_false hr)) h
  | kCall | kCallRelative => exact orInvalid_error (fun hr => of_eq _ (pushAddress_false hr)) h
  | kReturn =>
    simp only [handle, handleReturn] at h ⊢
    cases hs : d.callStack with
    | nil => exact ⟨rfl, rfl⟩
    | cons a l =>
      rw [hs] at h
      refine orInvalid_error (fun hr => ?_) h
      rw [setGetOffset_false hr]
      exact ⟨rfl, rfl⟩
  | kSetBucketData => exact of_eq _ (handleSetBucketData_error h)
  | kSetBucketDataImmediate => exact of_eq _ (handleSetBucketDataImmediate_error h)
  | kGetBucketSize => exact of_eq _ (handleGetBucketSize_error h)
  | kGetBucketData => exact of_eq _ (handleGetBucketData_error h)

/-! ### What the handlers leave alone -/

end CommonDecoder

namespace CommandBufferEngine

/-- A handler changed the engine, and neither offset nor the error. -/
structure Quiet (e e' : CommandBufferEngine) : Prop where
  parser : e'.parser = e.parser
  getOffset : e'.commandBuffer.getOffset = e.commandBuffer.getOffset
  putOffset : e'.commandBuffer.putOffset = e.commandBuffer.putOffset
  numEntries : e'.commandBuffer.numEntries = e.commandBuffer.numEntries
  error : e'.commandBuffer.error = e.commandBuffer.error

theorem Quiet.refl (e : CommandBufferEngine) : Quiet e e := ⟨rfl, rfl, rfl, rfl, rfl⟩

theorem Quiet.of_eq {e e' : CommandBufferEngine} (h : e' = e) : Quiet e e' := h ▸ Quiet.refl e

/-- `SetGetOffset` was called with `offset`: it moved the get pointer there, or it
changed nothing since `offset` is not in the ring. -/
structure Moved (e : CommandBufferEngine) (offset : ℤ) (e' : CommandBufferEngine) (ok : Bool) :
    Prop where
  moved : 0 ≤ offset → offset < e.parser.entryCount → ok = true ∧ e'.parser = { e.parser with get := offset }
  refused : ¬ (0 ≤ offset ∧ offset < e.parser.entryCount) → ok = false ∧ e'.parser = e.parser
  putOffset : e'.commandBuffer.putOffset = e.commandBuffer.putOffset
  numEntries : e'.commandBuffer.numEntries = e.commandBuffer.numEntries
  error : e'.commandBuffer.error = e.commandBuffer.error

theorem moved_setGetOffset (e : CommandBufferEngine) (offset : ℤ) :
    Moved e offset (e.setGetOffset offset).1 (e.setGetOffset offset).2 := by
  by_cases h : 0 ≤ offset ∧ offset < e.parser.entryCount
  · rw [setGetOffset_of_mem h.1 h.2]
    exact ⟨fun _ _ => ⟨rfl, rfl⟩, fun hc => absurd h hc, rfl, rfl, rfl⟩
  · rw [setGetOffset_of_not_mem h]
    exact ⟨fun h0 h1 => absurd ⟨h0, h1⟩ h, fun _ => ⟨rfl, rfl⟩, rfl, rfl, rfl⟩

/-- What any handler does to the engine. -/
structure Handled (e e' : CommandBufferEngine) : Prop where
  parser : e'.parser = e.parser ∨ ∃ get, 0 ≤ get ∧ get < e.parser.entryCount ∧ e'.parser = { e.parser with get := get }
  putOffset : e'.commandBuffer.putOffset = e.commandBuffer.putOffset
  numEntries : e'.commandBuffer.numEntries = e.commandBuffer.numEntries
  error : e'.commandBuffer.error = e.commandBuffer.error

theorem Quiet.handled {e e' : CommandBufferEngine} (h : Quiet e e') : Handled e e' :=
  ⟨.inl h.parser, h.putOffset, h.numEntries, h.error⟩

theorem Moved.handled {e e' : CommandBufferEngine} {offset : ℤ} {ok : Bool}
    (h : Moved e offset e' ok) : Handled e e' := by
  refine ⟨?_, h.putOffset, h.numEntries, h.error⟩
  by_cases hc : 0 ≤ offset ∧ offset < e.parser.entryCount
  · exact .inr ⟨offset, hc.1, hc.2, (h.moved hc.1 hc.2).2⟩
  · exact .inl (h.refused hc).2

end CommandBufferEngine

namespace CommonDecoder

open CommandBufferEngine

variable {argCount command : ℕ} {c : CommandId} (d : CommonDecoder) (offset : UInt32)

theorem setBucketData_engine (bucketId offset : UInt32) (data : List UInt8) :
    (d.setBucketData bucketId offset data).1.engine = d.engine := by
  unfold setBucketData
  split
  · rfl
  · split <;> rfl

theorem quiet_writeMemory (data : ℤ) (bytes : List UInt8) :
    Quiet d.engine (d.writeMemory data bytes).engine := ⟨rfl, rfl, rfl, rfl, rfl⟩

/-- **Every handler but those of the jumps leaves the get pointer alone.** -/
theorem quiet_handle (hc : c.isJump = false) (d : CommonDecoder) (n : ℕ)
    (args : ℕ → CommandBufferEntry) : Quiet d.engine (d.handle c n args).1.engine := by
  cases c with
  | kNoop | kSetBucketSize => exact .refl _
  | kSetToken => exact ⟨rfl, rfl, rfl, rfl, rfl⟩
  | kJump | kJumpRelative | kCall | kCallRelative | kReturn => cases hc
  | kSetBucketData =>
    simp only [handle, handleSetBucketData]
    split
    · exact .refl _
    · exact .of_eq (setBucketData_engine _ _ _ _)
  | kSetBucketDataImmediate =>
    simp only [handle, handleSetBucketDataImmediate]
    split
    · exact .refl _
    · exact .of_eq (setBucketData_engine _ _ _ _)
  | kGetBucketSize =>
    simp only [handle, handleGetBucketSize]
    split
    · exact .refl _
    · split
      · exact .refl _
      · split
        · exact .refl _
        · exact quiet_writeMemory _ _ _
  | kGetBucketData =>
    simp only [handle, handleGetBucketData]
    split
    · exact .refl _
    · split
      · exact .refl _
      · split
        · exact .refl _
        · exact quiet_writeMemory _ _ _

theorem callStack_setBucketData (bucketId offset : UInt32)
    (data : List UInt8) : (d.setBucketData bucketId offset data).1.callStack = d.callStack := by
  unfold setBucketData
  split
  · rfl
  · split <;> rfl

theorem callStack_handle (hc : c.isJump = false) (d : CommonDecoder) (n : ℕ)
    (args : ℕ → CommandBufferEntry) : (d.handle c n args).1.callStack = d.callStack := by
  cases c with
  | kNoop | kSetToken | kSetBucketSize => rfl
  | kJump | kJumpRelative | kCall | kCallRelative | kReturn => cases hc
  | kSetBucketData =>
    simp only [handle, handleSetBucketData]
    split
    · rfl
    · exact callStack_setBucketData _ _ _ _
  | kSetBucketDataImmediate =>
    simp only [handle, handleSetBucketDataImmediate]
    split
    · rfl
    · exact callStack_setBucketData _ _ _ _
  | kGetBucketSize =>
    simp only [handle, handleGetBucketSize]
    split
    · rfl
    · split
      · rfl
      · split <;> rfl
  | kGetBucketData =>
    simp only [handle, handleGetBucketData]
    split
    · rfl
    · split
      · rfl
      · split <;> rfl

/-- A jump that goes to `offset`, as the result of its handler. -/
def JumpsTo (d : CommonDecoder) (offset : ℤ) (r : CommonDecoder × Error) : Prop :=
  ∃ ok, Moved d.engine offset r.1.engine ok ∧ r.2 = if ok then .kNoError else .kInvalidArguments

theorem jumpsTo_setGetOffset (offset : ℤ) : d.JumpsTo offset (orInvalid (d.setGetOffset offset)) :=
  ⟨_, moved_setGetOffset d.engine offset, rfl⟩

theorem jumpsTo_handleJump :
    d.JumpsTo (int32OfUInt32 offset) (d.handleJump offset) := jumpsTo_setGetOffset _ _

theorem jumpsTo_handleJumpRelative :
    d.JumpsTo (d.relativeOffset offset) (d.handleJumpRelative offset) := jumpsTo_setGetOffset _ _

/-- With room on the call stack `PushAddress` goes to the address, and pushes the old one. -/
theorem jumpsTo_pushAddress {d : CommonDecoder} (hd : d.callStack.length < kMaxStackDepth)
    (offset : UInt32) :
    d.JumpsTo (int32OfUInt32 offset) (orInvalid (d.pushAddress offset)) ∧
      (d.pushAddress offset).1.callStack =
        if (d.pushAddress offset).2 then uint32OfInt d.engine.parser.get :: d.callStack
        else d.callStack := by
  have hm := moved_setGetOffset d.engine (int32OfUInt32 offset)
  rw [pushAddress, if_pos hd]
  dsimp only
  cases hok : (d.engine.setGetOffset (int32OfUInt32 offset)).2 with
  | true =>
    rw [hok] at hm
    exact ⟨⟨true, hm, rfl⟩, rfl⟩
  | false =>
    rw [hok] at hm
    refine ⟨⟨false, ⟨fun h0 h1 => ?_, fun _ => ⟨rfl, rfl⟩, rfl, rfl, rfl⟩, rfl⟩, rfl⟩
    exact absurd (hm.moved h0 h1).1 (by decide)

theorem pushAddress_of_full {d : CommonDecoder} (hd : ¬ d.callStack.length < kMaxStackDepth)
    (offset : UInt32) : d.pushAddress offset = (d, false) := by
  rw [pushAddress, if_neg hd]

/-- With room on the call stack a relative call goes where a relative jump goes. -/
theorem jumpsTo_handleCallRelative {d : CommonDecoder}
    (hd : d.callStack.length < kMaxStackDepth) (offset : UInt32) :
    d.JumpsTo (d.relativeOffset offset) (d.handleCallRelative offset) := by
  have hj := (jumpsTo_pushAddress hd (uint32OfInt (d.relativeOffset offset))).1
  have hid : toInt32 (d.relativeOffset offset) = d.relativeOffset offset :=
    toInt32_of_mem (le_toInt32 _) (toInt32_lt _)
  rw [int32OfUInt32_uint32OfInt, hid] at hj
  exact hj

/-- A call pushes the address of its command exactly when it returns no error. -/
theorem callStack_pushAddress : (orInvalid (d.pushAddress offset)).1.callStack =
      if (orInvalid (d.pushAddress offset)).2 = .kNoError then
        uint32OfInt d.engine.parser.get :: d.callStack
      else d.callStack := by
  by_cases hd : d.callStack.length < kMaxStackDepth
  · have hs := (jumpsTo_pushAddress hd offset).2
    unfold orInvalid
    dsimp only
    rw [hs]
    cases (d.pushAddress offset).2 <;> rfl
  · rw [pushAddress_of_full hd]
    rfl

/-- `HandleReturn` goes to the address on top of the call stack. -/
theorem jumpsTo_handleReturn {d : CommonDecoder} {a : UInt32} {callStack : List UInt32}
    (h : d.callStack = a :: callStack) :
    d.JumpsTo (int32OfUInt32 a) d.handleReturn ∧ d.handleReturn.1.callStack = callStack := by
  rw [handleReturn, h]
  exact ⟨⟨_, moved_setGetOffset d.engine (int32OfUInt32 a), rfl⟩, rfl⟩

theorem JumpsTo.handled {d : CommonDecoder} {offset : ℤ} {r : CommonDecoder × Error}
    (h : d.JumpsTo offset r) : Handled d.engine r.1.engine := by
  obtain ⟨_, hm, _⟩ := h
  exact hm.handled

theorem handled_pushAddress : Handled d.engine (d.pushAddress offset).1.engine := by
  by_cases hd : d.callStack.length < kMaxStackDepth
  · exact (jumpsTo_pushAddress hd offset).1.handled
  · rw [pushAddress_of_full hd]
    exact (Quiet.refl _).handled

theorem handled_handle (c : CommandId) (n : ℕ)
    (args : ℕ → CommandBufferEntry) : Handled d.engine (d.handle c n args).1.engine := by
  by_cases hc : c.isJump = false
  · exact (quiet_handle hc d n args).handled
  · cases c with
    | kJump => exact (jumpsTo_handleJump d _).handled
    | kJumpRelative => exact (jumpsTo_handleJumpRelative d _).handled
    | kCall | kCallRelative => exact handled_pushAddress d _
    | kReturn =>
      cases hs : d.callStack with
      | nil =>
        simp only [handle, handleReturn]
        rw [hs]
        exact (Quiet.refl _).handled
      | cons a l => exact (jumpsTo_handleReturn hs).1.handled
    | _ => exact absurd rfl hc

/-! ### What the dispatch should do -/

/-- What `DoCommonCommand` has to do with a command: end, call the handler exactly
when the id is in the table and the count matches, answer the other commands
with the right error, and change nothing when it answers with an error. -/
structure DispatchSpec (d : CommonDecoder) (command argCount : ℕ)
    (cmdData : ℕ → CommandBufferEntry) : Prop where
  terminates : ∃ fuel r, doCommonCommand fuel d command argCount cmdData = some r
  handler_iff : ∀ c, (∃ fuel n, dispatch fuel command argCount = some (.handler c n)) ↔
    CommandId.ofNat? command = some c ∧ c.argCountMatches argCount
  handled : ∀ c, CommandId.ofNat? command = some c → c.argCountMatches argCount →
    ∃ fuel, doCommonCommand fuel d command argCount cmdData = some (d.handle c (immediateDataSize c argCount) cmdData)
  mismatch : ∀ c, CommandId.ofNat? command = some c → ¬ c.argCountMatches argCount →
    ∃ fuel, doCommonCommand fuel d command argCount cmdData = some (d, .kInvalidArguments)
  unknown : CommandId.ofNat? command = none →
    ∃ fuel, doCommonCommand fuel d command argCount cmdData = some (d, .kUnknownCommand)
  unchanged : ∀ fuel r, doCommonCommand fuel d command argCount cmdData = some r →
    r.2 ≠ .kNoError → r.1.engine = d.engine ∧ r.1.buckets = d.buckets

theorem doCommonCommand_of_none (h : CommandId.ofNat? command = none) (fuel : ℕ)
    (d : CommonDecoder) (argCount : ℕ) (cmdData : ℕ → CommandBufferEntry) :
    doCommonCommand fuel d command argCount cmdData = none := by
  rw [doCommonCommand, dispatch_of_none h]

theorem doCommonCommand_of_matches
    (h : CommandId.ofNat? command = some c) (hm : c.argCountMatches argCount) (fuel : ℕ)
    (d : CommonDecoder) (cmdData : ℕ → CommandBufferEntry) :
    doCommonCommand (fuel + 1) d command argCount cmdData =
      some (d.handle c (immediateDataSize c argCount) cmdData) := by
  rw [doCommonCommand, dispatch_of_some h, if_pos hm]

theorem doCommonCommand_of_mismatch
    (h : CommandId.ofNat? command = some c) (hm : ¬ c.argCountMatches argCount) (fuel : ℕ)
    (d : CommonDecoder) (cmdData : ℕ → CommandBufferEntry) :
    doCommonCommand (fuel + 1) d command argCount cmdData = some (d, .kInvalidArguments) := by
  rw [doCommonCommand, dispatch_of_some h, if_neg hm]

/-- A result of `DoCommonCommand` comes from the handler of the id, or is the error
for a wrong number of arguments. -/
theorem doCommonCommand_cases {fuel : ℕ} {d : CommonDecoder}
    {cmdData : ℕ → CommandBufferEntry} {r : CommonDecoder × Error}
    (h : doCommonCommand fuel d command argCount cmdData = some r) :
    (∃ c, CommandId.ofNat? command = some c ∧ c.argCountMatches argCount ∧
      r = d.handle c (immediateDataSize c argCount) cmdData) ∨ r = (d, .kInvalidArguments) := by
  cases hc : CommandId.ofNat? command with
  | none => rw [doCommonCommand_of_none hc] at h; cases h
  | some c =>
    cases fuel with
    | zero => cases h
    | succ fuel =>
      by_cases hm : c.argCountMatches argCount
      · rw [doCommonCommand_of_matches hc hm] at h
        exact .inl ⟨c, rfl, hm, (Option.some.inj h).symm⟩
      · rw [doCommonCommand_of_mismatch hc hm] at h
        exact .inr (Option.some.inj h).symm

theorem dispatchSpec_of_some (hc : CommandId.ofNat? command = some c) (d : CommonDecoder)
    (cmdData : ℕ → CommandBufferEntry) : DispatchSpec d command argCount cmdData where
  terminates := by
    by_cases hm : c.argCountMatches argCount
    · exact ⟨1, _, doCommonCommand_of_matches hc hm 0 d cmdData⟩
    · exact ⟨1, _, doCommonCommand_of_mismatch hc hm 0 d cmdData⟩
  handler_iff c' := by
    constructor
    · rintro ⟨fuel, n, h⟩
      exact ⟨(of_dispatch_eq_handler h).1, (of_dispatch_eq_handler h).2.1⟩
    · rintro ⟨hc', hm⟩
      exact ⟨1, _, (dispatch_of_some hc' 0 argCount).trans (if_pos hm)⟩
  handled c' hc' hm := ⟨1, doCommonCommand_of_matches hc' hm 0 d cmdData⟩
  mismatch c' hc' hm := ⟨1, doCommonCommand_of_mismatch hc' hm 0 d cmdData⟩
  unknown h := by
    rw [hc] at h
    cases h
  unchanged fuel r h he := by
    rcases doCommonCommand_cases h with ⟨c', _, _, rfl⟩ | rfl
    · exact handle_error he
    · exact ⟨rfl, rfl⟩

/-- **`DoCommonCommand` does what it should exactly for the ids of the table.**
For every other id it never returns. -/
theorem dispatchSpec_iff (d : CommonDecoder) (command argCount : ℕ)
    (cmdData : ℕ → CommandBufferEntry) :
    DispatchSpec d command argCount cmdData ↔ command < CommandId.kNumCommands := by
  constructor
  · intro h
    by_contra hge
    obtain ⟨fuel, r, hr⟩ := h.terminates
    rw [doCommonCommand_of_none (CommandId.ofNat?_eq_none.mpr (by omega))] at hr
    cases hr
  · intro hlt
    cases hc : CommandId.ofNat? command with
    | none =>
      have := CommandId.ofNat?_eq_none.mp hc
      omega
    | some c => exact dispatchSpec_of_some hc d cmdData

/-- A decoder over a service with a ring of `numEntries` entries. -/
def new (numEntries : ℤ) : CommonDecoder where
  engine := ⟨CommandBufferService.new numEntries, CommandParser.new numEntries, fun _ => 0⟩
  buckets := fun _ => none
  callStack := []

/-- **The first id behind the table has no result**, with any fuel. -/
theorem dispatchSpec_unknownCommand :
    ¬ DispatchSpec (new 16) 12 0 (fun _ => CommandHeader.init 12 1) ∧
      ∀ fuel, doCommonCommand fuel (new 16) 12 0 (fun _ => CommandHeader.init 12 1) = none := by
  have hnone : CommandId.ofNat? 12 = none := CommandId.ofNat?_eq_none.mpr le_rfl
  refine ⟨fun h => ?_, fun fuel => doCommonCommand_of_none hnone fuel _ _ _⟩
  obtain ⟨fuel, r, hr⟩ := h.terminates
  rw [doCommonCommand_of_none hnone] at hr
  cases hr

end CommonDecoder

end Chromium.Gpu
