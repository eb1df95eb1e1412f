import Chromium.Base.StringSplit
import Chromium.SafeBrowsing.SafeBrowsingUtil

/-!
# Reading the chunks of the server

`chrome/browser/safe_browsing/protocol_parser.cc`: `ParseChunk` reads the chunks of a list, each behind a line that has its
type, its number, the length of its hashes and the number of its bytes.

A pointer into the buffer is what is left of the buffer; with it goes the counter that the source keeps of the bytes that
are left.
-/

namespace Chromium.SafeBrowsing

open Base Lib

/-- A pointer into the buffer, and the bytes that the code takes to be left. -/
structure Cursor where
  data : List UInt8
  remaining : ℤ
  deriving DecidableEq

/-- `GetLine`, which looks at `inputLen` bytes. -/
def getLine : List UInt8 → ℤ → Except Fault (Option (List UInt8))
  | input, inputLen =>
    if inputLen ≤ 0 then .ok none
    else
      match input with
      | [] => .error .readOutside
      | c :: input =>
        if c = 10 then .ok (some [])
        else (getLine input (inputLen - 1)).map (Option.map (c :: ·))

namespace Cursor

variable (c : Cursor)

/-- The next bytes are read, and the pointer moves behind them.  The counter is an `int`. -/
def read (n : ℕ) : Except Fault (List UInt8 × Cursor) :=
  if c.data.length < n then .error .readOutside
  else if c.remaining - n < -2147483648 then .error .outOfRange
  else .ok (c.data.take n, ⟨c.data.drop n, c.remaining - n⟩)

def readHostAndPrefixCount : Except Fault ((SBPrefix × ℕ) × Cursor) := do
  let (host, c₁) ← c.read 4
  let (count, c₂) ← c₁.read 1
  return ((loadPrefix host, beNat count), c₂)

def readChunkId : Except Fault (Int32 × Cursor) := do
  let (chunkNumber, c₁) ← c.read 4
  return ((UInt32.ofNat (beNat chunkNumber)).toInt32, c₁)

end Cursor

/-- The body of the loop of `ReadPrefixes`, and whether it goes on. -/
def readPrefixAt (entry : SBEntry) (index : ℕ) (c : Cursor) :
    Except Fault (Bool × SBEntry × Cursor) := do
  let (entry, c) ←
    if entry.type.isSub then do
      let (chunkId, c₁) ← c.readChunkId
      pure (entry.setChunkIdAtPrefix index chunkId, c₁)
    else pure (entry, c)
  if entry.type.isSub ∧ c.remaining ≤ 0 then return (false, entry, c)
  let (bytes, c₁) ← c.read entry.type.hashLen
  let entry := entry.setHashAt index (loadHash entry.type bytes)
  return (0 ≤ c₁.remaining, entry, c₁)

/-- The loop of `ReadPrefixes` from `index` on, for `count` more prefixes. -/
def readPrefixesFrom (index : ℕ) : ℕ → SBEntry → Cursor → Except Fault (Bool × SBEntry × Cursor)
  | 0, entry, c => .ok (true, entry, c)
  | count + 1, entry, c => do
    let (ok, entry, c) ← readPrefixAt entry index c
    if ok then readPrefixesFrom (index + 1) count entry c else return (false, entry, c)

def readPrefixes (entry : SBEntry) (count : ℕ) (c : Cursor) :
    Except Fault (Bool × SBEntry × Cursor) :=
  readPrefixesFrom 0 count entry c

/-- The body of the loop over the hosts of a chunk, and whether it goes on.  A host of a sub chunk
without prefixes has the number of an add chunk. -/
def parseHost (type : SBEntryType) (hosts : List SBChunkHost) (c : Cursor) :
    Except Fault (Bool × List SBChunkHost × Cursor) := do
  let ((host, prefixCount), c₁) ← c.readHostAndPrefixCount
  let entry ← SBEntry.create type prefixCount
  if type.isSub ∧ prefixCount = 0 then
    let (chunkId, c₂) ← c₁.readChunkId
    return (true, hosts ++ [⟨host, { entry with chunkId := chunkId }⟩], c₂)
  let (ok, entry, c₂) ← readPrefixes entry prefixCount c₁
  return (ok, hosts ++ [⟨host, entry⟩], c₂)

/-- `min_size` of `ParseAddChunk` and of `ParseSubChunk`. -/
def minSize (type : SBEntryType) : ℤ := if type.isSub then 9 else 5

def parseHosts (type : SBEntryType) : ℕ → List SBChunkHost → Cursor → Except Fault (Bool × List SBChunkHost)
  | 0, _, _ => .error .endless
  | turns + 1, hosts, c =>
    if minSize type ≤ c.remaining then do
      let (ok, hosts, c) ← parseHost type hosts c
      if ok then parseHosts type turns hosts c else return (false, hosts)
    else .ok (c.remaining = 0, hosts)

/-- The number of prefixes in a chunk of `kBinHashList`; that of a sub chunk is divided without a
sign. -/
def binHashCount (type : SBEntryType) (remaining : ℤ) : ℤ :=
  if type.isSub then remaining % 4294967296 / type.prefixSize
  else remaining.tdiv type.hashLen

/-- A chunk of `kBinHashList`: it has prefixes only. -/
def parseBinHashChunk (type : SBEntryType) (c : Cursor) : Except Fault (Bool × List SBChunkHost) := do
  let count := binHashCount type c.remaining
  let entry ← SBEntry.create type count
  let (ok, entry, c) ← readPrefixes entry count.toNat c
  -- a sub chunk gets the host behind its prefixes
  if type.isSub ∧ ¬ ok then return (false, [])
  return (ok ∧ c.remaining = 0, [⟨0, entry⟩])

/-- `ParseAddChunk` and `ParseSubChunk`, which differ in the type of the entries. -/
def parseChunkHosts (listName : List UInt8) (type : SBEntryType) (data : List UInt8) (dataLen : ℤ) :
    Except Fault (Bool × List SBChunkHost) :=
  if listName = kBinHashList then parseBinHashChunk type ⟨data, dataLen⟩
  else parseHosts type (dataLen.toNat + 1) [] ⟨data, dataLen⟩

def parseAddChunk (listName data : List UInt8) (dataLen hashLen : ℤ) :
    Except Fault (Bool × List SBChunkHost) :=
  parseChunkHosts listName (if hashLen = 4 then .ADD_PREFIX else .ADD_FULL_HASH) data dataLen

def parseSubChunk (listName data : List UInt8) (dataLen hashLen : ℤ) :
    Except Fault (Bool × List SBChunkHost) :=
  parseChunkHosts listName (if hashLen = 4 then .SUB_PREFIX else .SUB_FULL_HASH) data dataLen

/-- What `ParseChunk` gives back: its result, and what it set. -/
structure ParseChunkResult where
  ok : Bool
  reKey : Bool
  chunks : List SBChunk
  deriving DecidableEq

/-- The body of the loop of `ParseChunk`: with `none` it goes on, with the new chunks, the pointer and
`re_key`; otherwise the result. -/
def parseChunkTurn (listName : List UInt8) (length : ℤ) (c : Cursor) (reKey : Bool)
    (chunks : List SBChunk) :
    Except Fault (Except ParseChunkResult (Cursor × Bool × List SBChunk)) := do
  let some cmdLine ← getLine c.data length | return .error ⟨false, reKey, chunks⟩
  let lineLen := cmdLine.length + 1
  let c : Cursor := ⟨c.data.drop lineLen, c.remaining - lineLen⟩
  match splitString cmdLine 58 with
  | [command, number, hashLength, chunkLength] =>
    let hashLen := atoi hashLength
    if hashLen ≠ 4 ∧ hashLen ≠ 32 then return .error ⟨false, reKey, chunks⟩
    let chunkLen := atoi chunkLength
    if c.remaining < chunkLen then return .error ⟨false, reKey, chunks⟩
    if command = word "a" then
      let (ok, hosts) ← parseAddChunk listName c.data chunkLen hashLen
      let chunks := chunks ++ [⟨atoi number, true, hosts⟩]
      if ok then
        return .ok (⟨c.data.drop chunkLen.toNat, c.remaining - chunkLen⟩, reKey, chunks)
      else return .error ⟨false, reKey, chunks⟩
    else if command = word "s" then
      let (ok, hosts) ← parseSubChunk listName c.data chunkLen hashLen
      let chunks := chunks ++ [⟨atoi number, false, hosts⟩]
      if ok then
        return .ok (⟨c.data.drop chunkLen.toNat, c.remaining - chunkLen⟩, reKey, chunks)
      else return .error ⟨false, reKey, chunks⟩
    else return .error ⟨false, reKey, chunks ++ [⟨atoi number, false, []⟩]⟩
  | [command, argument] =>
    if command = word "e" ∧ argument = word "pleaserekey" then return .ok (c, true, chunks)
    else return .error ⟨false, reKey, chunks⟩
  | _ => return .error ⟨false, reKey, chunks⟩

/-- The loop of `ParseChunk`, with a bound on its turns. -/
def parseChunkLoop (listName : List UInt8) (length : ℤ) :
    ℕ → Cursor → Bool → List SBChunk → Except Fault ParseChunkResult
  | 0, _, _, _ => .error .endless
  | turns + 1, c, reKey, chunks =>
    if 0 < c.remaining then do
      match ← parseChunkTurn listName length c reKey chunks with
      | .ok (c, reKey, chunks) => parseChunkLoop listName length turns c reKey chunks
      | .error result => return result
    else .ok ⟨true, reKey, chunks⟩

/-- `ParseChunk`, with what `VerifyMAC` says of the buffer where there is a key. -/
def parseChunk (listName data : List UInt8) (macIsValid : Bool) : Except Fault ParseChunkResult :=
  if macIsValid then
    parseChunkLoop listName data.length (data.length + 1) ⟨data, data.length⟩ false []
  else .ok ⟨false, false, []⟩

end Chromium.SafeBrowsing
