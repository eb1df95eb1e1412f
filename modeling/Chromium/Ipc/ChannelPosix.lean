import Chromium.Lib.LittleEndian

/-!
# Incoming messages

`ProcessIncomingMessages` of `ipc/ipc_channel_posix.cc`.  A read gives bytes, and the descriptors that came with them.
With `IPC_USES_READWRITE` a channel may have a second pipe for descriptors (`fd_pipe_`), from which a set of them is taken
when a message needs it; a client has it from the start, and a server gets it with the hello message.
-/

namespace Chromium.Ipc

open Lib

def kMaximumMessageSize : ℕ := 128 * 1024 * 1024

def kReadBufferSize : ℕ := 4 * 1024

def kMaxDescriptorsPerMessage : ℕ := 5

/-- `sizeof(Message::Header)`. -/
def headerSize : ℕ := 20

/-- `MSG_ROUTING_NONE`, as the 32 bits it has in a header. -/
def MSG_ROUTING_NONE : ℕ := 4294967294

def HELLO_MESSAGE_TYPE : ℕ := 65535

/-- `Message::FindNext`: how long the message is, if all of it is there. -/
def findNext (p : List UInt8) : Option ℕ :=
  if p.length < 4 then none
  else
    let payloadEnd := headerSize + leNat (p.take 4)
    if p.length < payloadEnd then none else some payloadEnd

def numFds (message : List UInt8) : ℕ := leNat ((message.drop 16).take 2)

def isHelloMessage (message : List UInt8) : Bool :=
  decide (leNat ((message.drop 4).take 4) = MSG_ROUTING_NONE ∧ leNat ((message.drop 8).take 4) = HELLO_MESSAGE_TYPE)

/-- A call of the listener, with the message and its descriptors.  `OnChannelConnected` gets the process id that the
message starts with. -/
inductive Call
  | onChannelConnected (message : List UInt8) (descriptors : List ℤ)
  | onMessageReceived (message : List UInt8) (descriptors : List ℤ)
  deriving DecidableEq, Repr

structure Channel where
  /-- `IPC_USES_READWRITE`. -/
  usesReadWrite : Bool
  /-- `MODE_SERVER_FLAG`. -/
  isServer : Bool
  /-- There is a `fd_pipe_`. -/
  fdPipe : Bool
  /-- The sets of descriptors that wait in it. -/
  fdPipeSets : List (List ℤ)
  inputOverflowBuf : List UInt8
  inputOverflowFds : List ℤ
  deriving DecidableEq, Repr

/-- What a read gives: bytes, descriptors beside them, and whether there was no room for all of these.  Before it, sets of
descriptors came to the second pipe. -/
structure Read where
  bytes : List UInt8
  wireFds : List ℤ
  isTruncated : Bool
  pipedFds : List (List ℤ)

namespace Channel

variable (c : Channel)

def readsOnlyBytes : Bool := c.usesReadWrite && c.fdPipe

def receiveFds (fds : List ℤ) : Channel × List ℤ :=
  match c.readsOnlyBytes, c.fdPipeSets with
  | true, wireFds :: sets =>
    if wireFds = [] then ({ c with fdPipeSets := sets }, fds)
    else if c.inputOverflowFds = [] then ({ c with fdPipeSets := sets }, wireFds)
    else ({ c with fdPipeSets := sets, inputOverflowFds := c.inputOverflowFds ++ wireFds }, c.inputOverflowFds ++ wireFds)
  | _, _ => (c, fds)

/-- The message is passed on.  A hello message to a server brings the second pipe. -/
def dispatch (message : List UInt8) (descriptors : List ℤ) : Channel × Call :=
  if isHelloMessage message then
    (if c.usesReadWrite && c.isServer then { c with fdPipe := descriptors ≠ [] } else c,
      .onChannelConnected message descriptors)
  else (c, .onMessageReceived message descriptors)

/-- The loop over the messages: what is left of the bytes and of the descriptors, and the calls; none for an error. -/
def dispatchMessages : (turns : ℕ) → Channel → (p : List UInt8) → (fds : List ℤ) → (calls : List Call) →
    Option (Channel × List UInt8 × List ℤ × List Call)
  | 0, c, p, fds, calls => some (c, p, fds, calls)
  | turns + 1, c, p, fds, calls =>
    match findNext p with
    | none => some (c, p, fds, calls)
    | some len =>
      let m := p.take len
      let headerFds := numFds m
      let (c, fds) := if fds.length < headerFds then c.receiveFds fds else (c, fds)
      if fds.length < headerFds ∨ kMaxDescriptorsPerMessage < headerFds then none
      else
        let (c, call) := c.dispatch m (fds.take headerFds)
        dispatchMessages turns { c with inputOverflowFds := fds.drop headerFds } (p.drop len) (fds.drop headerFds)
          (calls ++ [call])

/-- A turn of the outer loop with what a read gave; none for an error, which ends the connection. -/
def processRead (r : Read) : Option (Channel × List Call) :=
  let c := { c with fdPipeSets := c.fdPipeSets ++ r.pipedFds }
  let wireFds := if c.readsOnlyBytes then [] else r.wireFds
  if r.isTruncated ∧ wireFds ≠ [] then none
  else if c.inputOverflowBuf ≠ [] ∧ kMaximumMessageSize - r.bytes.length < c.inputOverflowBuf.length then none
  else
    let p := c.inputOverflowBuf ++ r.bytes
    (dispatchMessages p.length c p (c.inputOverflowFds ++ wireFds) []).bind fun (c, p, fds, calls) =>
      if p = [] ∧ fds ≠ [] then none
      else some ({ c with inputOverflowBuf := p, inputOverflowFds := fds }, calls)

/-- `ProcessIncomingMessages`, as long as there is something to read. -/
def processIncomingMessages : Channel → List Read → Option (Channel × List Call)
  | c, [] => some (c, [])
  | c, r :: reads =>
    (c.processRead r).bind fun (c, calls) =>
      (c.processIncomingMessages reads).map fun (c, calls') => (c, calls ++ calls')

end Channel

end Chromium.Ipc
