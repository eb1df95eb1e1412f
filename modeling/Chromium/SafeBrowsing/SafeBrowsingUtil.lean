import Chromium.Lib.BigEndian
import Chromium.SafeBrowsing.SafeBrowsingStore

/-!
# Chunks and their entries

`chrome/browser/safe_browsing/safe_browsing_util.cc`: a chunk has hosts, and each host an entry with
prefixes or full hashes; in a sub chunk each of them comes with the number of an add chunk.

The list ids of entries and chunks are left out: the parser does not set them.
-/

namespace Chromium.SafeBrowsing

open Lib

/-- What goes wrong when bytes are read that are not there, when a block, a string or an `int` is too
small for what is done with it, and when a loop does not come to its end. -/
inductive Fault
  | readOutside
  | outOfRange
  | endless
  deriving DecidableEq

@[simp]
theorem ok_bind {α β : Type} (a : α) (f : α → Except Fault β) : (Except.ok a >>= f) = f a := rfl

/-- `SBEntry::Type`. -/
inductive SBEntryType
  | ADD_PREFIX
  | SUB_PREFIX
  | ADD_FULL_HASH
  | SUB_FULL_HASH
  deriving DecidableEq

namespace SBEntryType

def isPrefix : SBEntryType → Bool
  | ADD_PREFIX => true
  | SUB_PREFIX => true
  | _ => false

def isSub : SBEntryType → Bool
  | SUB_PREFIX => true
  | SUB_FULL_HASH => true
  | _ => false

def hashLen (type : SBEntryType) : ℕ := if type.isPrefix then 4 else 32

def prefixSize (type : SBEntryType) : ℕ := if type.isSub then 4 + type.hashLen else type.hashLen

end SBEntryType

inductive SBHash
  | sbPrefix (p : SBPrefix)
  | fullHash (h : SBFullHash)
  deriving DecidableEq

/-- The prefix that four bytes are, on a machine that keeps the lowest byte first. -/
def loadPrefix (bytes : List UInt8) : SBPrefix := (UInt32.ofNat (beNat bytes.reverse)).toInt32

def loadFullHash (bytes : List UInt8) : SBFullHash := ⟨Vector.ofFn fun i => bytes.getD i 0⟩

/-- What `SetPrefixAt` or `SetFullHashAt` takes from the bytes. -/
def loadHash (type : SBEntryType) (bytes : List UInt8) : SBHash :=
  if type.isPrefix then .sbPrefix (loadPrefix bytes) else .fullHash (loadFullHash bytes)

/-- One of the prefixes of an entry; the chunk id is that of a sub. -/
structure EntryItem where
  addChunk : Int32
  hash : SBHash
  deriving DecidableEq

structure SBEntry where
  type : SBEntryType
  chunkId : Int32
  items : List EntryItem
  deriving DecidableEq

namespace SBEntry

def create (type : SBEntryType) (prefixCount : ℤ) : Except Fault SBEntry :=
  if 0 ≤ prefixCount ∧ 16 + prefixCount * type.prefixSize < 2147483648 then
    .ok ⟨type, 0, List.replicate prefixCount.toNat ⟨0, loadHash type []⟩⟩
  else .error .outOfRange

variable (entry : SBEntry)

def setChunkIdAtPrefix (index : ℕ) (chunkId : Int32) : SBEntry :=
  { entry with items := entry.items.modify index fun item => { item with addChunk := chunkId } }

/-- `SetPrefixAt` and `SetFullHashAt`. -/
def setHashAt (index : ℕ) (hash : SBHash) : SBEntry :=
  { entry with items := entry.items.modify index fun item => { item with hash := hash } }

end SBEntry

structure SBChunkHost where
  host : SBPrefix
  entry : SBEntry
  deriving DecidableEq

structure SBChunk where
  chunkNumber : ℤ
  isAdd : Bool
  hosts : List SBChunkHost
  deriving DecidableEq

def word (s : String) : List UInt8 := s.toList.map fun c => UInt8.ofNat c.toNat

def kBinHashList : List UInt8 := word "goog-badbin-digestvar"

end Chromium.SafeBrowsing
