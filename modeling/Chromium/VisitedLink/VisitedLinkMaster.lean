import Chromium.Lib.Binary32
import Chromium.Lib.LittleEndian
import Chromium.Lib.MachineInt
import Chromium.Lib.Stream
import Std.Data.ExtTreeSet

/-!
# The table of visited links

`chrome/common/visitedlink_common.cc` and `chrome/browser/visitedlink/visitedlink_master.cc`: fingerprints of
URLs in an open hash table, which other processes read, and a file that holds the same table.  The file is
patched by tasks that run later on another thread; `posted` are those that have not run.

A write behind the table's end writes what stands there, and a block that is too small for its table is a
fault: such a step gives `none`.  What the listener is told is left out.
-/

namespace Chromium.VisitedLink

open Lib

/-- `GURL`, as far as it is looked at here. -/
structure GURL where
  isValid : Bool
  spec : List UInt8
  deriving DecidableEq

/-- What surrounds the master: the hash of a salt and a URL, whether the `n`-th shared memory of some size
can be had, whether the file can be made, what stands in memory behind a table, and the profile. -/
structure Environment where
  md5 : List UInt8 → List UInt8 → UInt64
  allocates : ℕ → ℕ → Bool
  opens : Bool
  behindTable : UInt64
  isOffTheRecord : Bool

/-! ## The file -/

def linkSaltLength : ℕ := 8

def kFileSignature : ℤ := 1802390614

def kFileCurrentVersion : ℤ := 3

def kFileHeaderUsedOffset : ℕ := 12

def kFileHeaderSaltOffset : ℕ := 16

def kFileHeaderSize : ℕ := kFileHeaderSaltOffset + linkSaltLength

/-- `AsyncWriter` and `AsyncSetEndOfFile`; `open` is the file made anew. -/
inductive FileTask
  | create
  | write (offset : ℤ) (data : List UInt8)
  | setEndOfFile
  deriving DecidableEq

/-- The bytes of the file, and where it was written last. -/
structure LinkFile where
  bytes : List UInt8
  position : ℕ
  deriving DecidableEq

def LinkFile.run (file : LinkFile) : FileTask → LinkFile
  | .create => ⟨[], 0⟩
  | .write (.ofNat offset) data => ⟨writeAt 0 file.bytes offset data, offset + data.length⟩
  | .write (.negSucc _) _ => file
  | .setEndOfFile => { file with bytes := file.bytes.take file.position }

def LinkFile.runAll (file : LinkFile) (tasks : List FileTask) : LinkFile := tasks.foldl LinkFile.run file

/-! ## The table -/

/-- `VisitedLinkMaster`, with its file as it was before the posted tasks. -/
structure VisitedLinkMaster where
  hashTable : List UInt64
  usedItems : ℤ
  salt : List UInt8
  fileOpen : Bool
  file : LinkFile
  posted : List FileTask
  tableBuilder : Bool
  addedSinceRebuild : Std.ExtTreeSet UInt64
  deletedSinceRebuild : Std.ExtTreeSet UInt64
  sharedMemorySerial : ℕ

def hashFingerprint (fingerprint : UInt64) (tableLength : ℕ) : ℕ := fingerprint.toNat % tableLength

def incrementHash (tableLength hash : ℕ) : ℕ := if tableLength - 1 ≤ hash then 0 else hash + 1

/-- The loop of `IsVisited`. -/
def isVisitedLoop (hashTable : List UInt64) (fingerprint : UInt64) (firstHash : ℕ) : ℕ → ℕ → Bool
  | 0, _ => false
  | fuel + 1, curHash =>
    let curFingerprint := hashTable.getD curHash 0
    if curFingerprint = 0 then false
    else if curFingerprint = fingerprint then true
    else
      let curHash := if curHash + 1 = hashTable.length then 0 else curHash + 1
      if curHash = firstHash then false else isVisitedLoop hashTable fingerprint firstHash fuel curHash

/-- `VisitedLinkCommon::IsVisited`, which every process calls on the same memory. -/
def isVisited (hashTable : List UInt64) (fingerprint : UInt64) : Bool :=
  let firstHash := hashFingerprint fingerprint hashTable.length
  isVisitedLoop hashTable fingerprint firstHash hashTable.length firstHash

namespace VisitedLinkMaster

def tableLength (m : VisitedLinkMaster) : ℕ := m.hashTable.length

/-- The loop of `AddFingerprint`. -/
def addFingerprintLoop (m : VisitedLinkMaster) (fingerprint : UInt64) (firstHash : ℕ) :
    ℕ → ℕ → Option ℕ × VisitedLinkMaster
  | 0, _ => (none, m)
  | fuel + 1, curHash =>
    let curFingerprint := m.hashTable.getD curHash 0
    if curFingerprint = fingerprint then (none, m)
    else if curFingerprint = 0 then
      (some curHash, { m with hashTable := m.hashTable.set curHash fingerprint, usedItems := m.usedItems + 1 })
    else
      let curHash := incrementHash m.tableLength curHash
      if curHash = firstHash then (none, m) else addFingerprintLoop m fingerprint firstHash fuel curHash

/-- `AddFingerprint`: the slot, and the table with the fingerprint. -/
def addFingerprint (m : VisitedLinkMaster) (fingerprint : UInt64) : Option ℕ × VisitedLinkMaster :=
  let firstHash := hashFingerprint fingerprint m.tableLength
  addFingerprintLoop m fingerprint firstHash m.tableLength firstHash

def addFingerprints (m : VisitedLinkMaster) (fingerprints : List UInt64) : VisitedLinkMaster :=
  fingerprints.foldl (fun m fingerprint => (m.addFingerprint fingerprint).2) m

/-- `WriteToFile`: offsets and sizes are `int32`. -/
def writeToFile (m : VisitedLinkMaster) (offset : ℕ) (data : List UInt8) : VisitedLinkMaster :=
  { m with posted := m.posted ++ [.write (toInt32 offset) (data.take (toInt32 data.length).toNat)] }

/-- An `int32` in memory. -/
def int32Bytes (x : ℤ) : List UInt8 := toLe 4 (uint32OfInt x).toNat

def fingerprintBytes (fingerprints : List UInt64) : List UInt8 :=
  arrayBytes 8 (fingerprints.map UInt64.toNat)

def writeUsedItemCountToFile (m : VisitedLinkMaster) : VisitedLinkMaster :=
  if m.fileOpen then m.writeToFile kFileHeaderUsedOffset (int32Bytes m.usedItems) else m

def slots (env : Environment) (m : VisitedLinkMaster) (first count : ℕ) : List UInt64 :=
  ((m.hashTable ++ [env.behindTable]).drop first).take count

def writeHashRangeToFile (env : Environment) (m : VisitedLinkMaster) (firstHash lastHash : ℕ) :
    VisitedLinkMaster :=
  if m.fileOpen then
    if lastHash < firstHash then
      let m := m.writeToFile (firstHash * 8 + kFileHeaderSize)
        (fingerprintBytes (m.slots env firstHash (m.tableLength - firstHash + 1)))
      m.writeToFile kFileHeaderSize (fingerprintBytes (m.slots env 0 (lastHash + 1)))
    else
      m.writeToFile (firstHash * 8 + kFileHeaderSize)
        (fingerprintBytes (m.slots env firstHash (lastHash - firstHash + 1)))
  else m

/-- The first loop of `DeleteFingerprint`: the last of the taken slots behind the hash. -/
def endRangeLoop (hashTable : List UInt64) (deletedHash : ℕ) : ℕ → ℕ → ℕ
  | 0, endRange => endRange
  | fuel + 1, endRange =>
    let nextHash := incrementHash hashTable.length endRange
    if nextHash = deletedHash then endRange
    else if hashTable.getD nextHash 0 = 0 then endRange
    else endRangeLoop hashTable deletedHash fuel nextHash

def removeRangeLoop (fingerprint : UInt64) (stopLoop : ℕ) :
    ℕ → ℕ → VisitedLinkMaster → List UInt64 → VisitedLinkMaster × List UInt64
  | 0, _, m, shuffled => (m, shuffled)
  | fuel + 1, i, m, shuffled =>
    if i = stopLoop then (m, shuffled)
    else
      let cur := m.hashTable.getD i 0
      let cleared := { m with hashTable := m.hashTable.set i 0 }
      let next := incrementHash m.tableLength i
      if cur ≠ fingerprint then
        removeRangeLoop fingerprint stopLoop fuel next { cleared with usedItems := m.usedItems - 1 }
          (shuffled ++ [cur])
      else removeRangeLoop fingerprint stopLoop fuel next cleared shuffled

def deleteFingerprint (env : Environment) (m : VisitedLinkMaster) (fingerprint : UInt64)
    (updateFile : Bool) : VisitedLinkMaster :=
  if isVisited m.hashTable fingerprint then
    let m := { m with usedItems := m.usedItems - 1 }
    let m := if updateFile then m.writeUsedItemCountToFile else m
    let deletedHash := hashFingerprint fingerprint m.tableLength
    let endRange := endRangeLoop m.hashTable deletedHash m.tableLength deletedHash
    let stopLoop := incrementHash m.tableLength endRange
    let (m, shuffled) := removeRangeLoop fingerprint stopLoop m.tableLength deletedHash m []
    let m := m.addFingerprints shuffled
    if updateFile then m.writeHashRangeToFile env deletedHash endRange else m
  else m

def kDefaultTableSize : ℕ := 16381

def kBigDeleteThreshold : ℕ := 64

def tableSizes : List ℤ :=
  [16381, 32767, 65521, 130051, 262127, 524269, 1048549, 2097143, 4194301, 8388571, 16777199, 33554347]

def newTableSizeForCount (itemCount : ℤ) : ℤ :=
  let desired := toInt32 (itemCount * 3)
  match tableSizes.find? (desired < ·) with
  | some size => size
  | none => toInt32 (itemCount * 2 - 1)

/-- `WriteFullTable`: whether it could, and the tasks that it posts. -/
def writeFullTable (env : Environment) (m : VisitedLinkMaster) : Bool × VisitedLinkMaster :=
  if m.fileOpen || env.opens then
    let m := if m.fileOpen then m else { m with fileOpen := true, posted := m.posted ++ [.create] }
    let header := int32Bytes kFileSignature ++ int32Bytes kFileCurrentVersion ++
      int32Bytes m.tableLength ++ int32Bytes m.usedItems
    let m := m.writeToFile 0 header
    let m := m.writeToFile 16 m.salt
    let m := m.writeToFile kFileHeaderSize (fingerprintBytes m.hashTable)
    (true, { m with posted := m.posted ++ [.setEndOfFile] })
  else (false, m)

/-- `CreateURLTable` with `init_to_empty`, after the serial number has gone up: the size of the block is a
`uint32`.  Without memory there is no new table. -/
def createURLTable (env : Environment) (m : VisitedLinkMaster) (numEntries : ℤ) :
    Option (Bool × VisitedLinkMaster) :=
  let size := numEntries * 8 + 12
  let allocSize := (size % 4294967296).toNat
  if env.allocates m.sharedMemorySerial allocSize then
    if 0 ≤ numEntries ∧ size < 4294967296 then
      some (true, { m with hashTable := List.replicate numEntries.toNat 0, usedItems := 0 })
    else none
  else some (false, m)

def resizeTable (env : Environment) (m : VisitedLinkMaster) (newSize : ℤ) : Option VisitedLinkMaster :=
  let m := { m with sharedMemorySerial := m.sharedMemorySerial + 1 }
  (m.createURLTable env newSize).map fun (created, new) =>
    if created then ((new.addFingerprints (m.hashTable.filter (· ≠ 0))).writeFullTable env).2 else new

/-- `ComputeTableLoad`.  A negative count compares like zero. -/
def computeTableLoad (m : VisitedLinkMaster) : Binary32 :=
  (Binary32.ofFraction m.usedItems.toNat 1).div (Binary32.ofFraction m.tableLength 1)

/-- Whether `ResizeTableIfNecessary` leaves the table as it is. -/
def keepsSize (m : VisitedLinkMaster) : Bool :=
  m.computeTableLoad.lt (Binary32.ofFraction 1 2) &&
    (m.tableLength ≤ kDefaultTableSize || (Binary32.ofFraction 1 5).lt m.computeTableLoad)

def resizeTableIfNecessary (env : Environment) (m : VisitedLinkMaster) : Option (Bool × VisitedLinkMaster) :=
  if m.keepsSize then some (false, m)
  else (m.resizeTable env (newTableSizeForCount m.usedItems)).map fun m => (true, m)

def deleteFingerprintsFromCurrentTable (env : Environment) (m : VisitedLinkMaster)
    (fingerprints : Std.ExtTreeSet UInt64) : Option VisitedLinkMaster :=
  let bulkWrite : Bool := kBigDeleteThreshold < fingerprints.size
  let m := fingerprints.toList.foldl (fun m fingerprint => m.deleteFingerprint env fingerprint !bulkWrite) m
  (m.resizeTableIfNecessary env).map fun (resized, m) =>
    if resized then m else if bulkWrite then (m.writeFullTable env).2 else m

/-! ## What the browser calls -/

/-- `ComputeURLFingerprint` with the salt of the table. -/
def computeURLFingerprint (env : Environment) (m : VisitedLinkMaster) (url : GURL) : UInt64 :=
  env.md5 m.salt url.spec

def tryToAddURL (env : Environment) (m : VisitedLinkMaster) (url : GURL) : Option ℕ × VisitedLinkMaster :=
  if env.isOffTheRecord then (none, m)
  else if !url.isValid then (none, m)
  else
    let fingerprint := m.computeURLFingerprint env url
    let m :=
      if m.tableBuilder then
        { m with
          deletedSinceRebuild := m.deletedSinceRebuild.erase fingerprint
          addedSinceRebuild := m.addedSinceRebuild.insert fingerprint }
      else m
    if (m.tableLength / 10 : ℤ) < m.usedItems.tdiv 8 then (none, m) else m.addFingerprint fingerprint

def addURL (env : Environment) (m : VisitedLinkMaster) (url : GURL) : Option VisitedLinkMaster :=
  match m.tryToAddURL env url with
  | (some index, m) =>
    if m.tableBuilder then some m
    else
      let m := (m.writeUsedItemCountToFile).writeHashRangeToFile env index index
      (m.resizeTableIfNecessary env).map Prod.snd
  | (none, m) => some m

/-- The loop of `AddURLs`. -/
def addURLsLoop (env : Environment) (m : VisitedLinkMaster) : List GURL → Option VisitedLinkMaster
  | [] => some m
  | url :: urls =>
    match m.tryToAddURL env url with
    | (some _, m) =>
      if m.tableBuilder then addURLsLoop env m urls
      else (m.resizeTableIfNecessary env).bind fun (_, m) => addURLsLoop env m urls
    | (none, m) => addURLsLoop env m urls

def addURLs (env : Environment) (m : VisitedLinkMaster) (urls : List GURL) : Option VisitedLinkMaster :=
  (m.addURLsLoop env urls).map fun m => if m.tableBuilder then m else (m.writeFullTable env).2

def deleteAllURLs (env : Environment) (m : VisitedLinkMaster) : Option VisitedLinkMaster :=
  let m := { m with
    addedSinceRebuild := ∅
    deletedSinceRebuild := ∅
    usedItems := 0
    hashTable := List.replicate m.tableLength 0 }
  (m.resizeTableIfNecessary env).map fun (resized, m) => if resized then m else (m.writeFullTable env).2

def deleteURLWhileRebuilding (env : Environment) (m : VisitedLinkMaster) (url : GURL) : VisitedLinkMaster :=
  if url.isValid then
    let fingerprint := m.computeURLFingerprint env url
    let m := { m with
      deletedSinceRebuild := m.deletedSinceRebuild.insert fingerprint
      addedSinceRebuild := m.addedSinceRebuild.erase fingerprint }
    m.deleteFingerprint env fingerprint false
  else m

def fingerprintsOf (env : Environment) (m : VisitedLinkMaster) (urls : List GURL) : Std.ExtTreeSet UInt64 :=
  (urls.filter GURL.isValid).foldl (fun set url => set.insert (m.computeURLFingerprint env url)) ∅

/-- `DeleteURLs`, with the URLs in the order of their set. -/
def deleteURLs (env : Environment) (m : VisitedLinkMaster) (urls : List GURL) : Option VisitedLinkMaster :=
  if urls = [] then some m
  else if m.tableBuilder then some (urls.foldl (deleteURLWhileRebuilding env) m)
  else m.deleteFingerprintsFromCurrentTable env (m.fingerprintsOf env urls)

/-! ## Rebuilding, and the start -/

def rebuildTableFromHistory (m : VisitedLinkMaster) : VisitedLinkMaster := { m with tableBuilder := true }

def onTableRebuildComplete (env : Environment) (m : VisitedLinkMaster) (success : Bool)
    (fingerprints : List UInt64) : Option VisitedLinkMaster :=
  if success then
    let m := { m with sharedMemorySerial := m.sharedMemorySerial + 1 }
    let newTableSize := newTableSizeForCount
      (toInt32 ((fingerprints.length + m.addedSinceRebuild.size : ℕ) : ℤ))
    (m.createURLTable env newTableSize).bind fun (created, m) =>
      if created then
        let m := m.addFingerprints fingerprints
        let m := m.addFingerprints m.addedSinceRebuild.toList
        let m := { m with addedSinceRebuild := ∅ }
        (m.deleteFingerprintsFromCurrentTable env m.deletedSinceRebuild).map fun m =>
          let m := { m with deletedSinceRebuild := ∅ }
          { (m.writeFullTable env).2 with tableBuilder := false }
      else some { m with tableBuilder := false }
  else some { m with tableBuilder := false }

def initMembers (bytes : List UInt8) : VisitedLinkMaster where
  hashTable := []
  usedItems := 0
  salt := List.replicate linkSaltLength 0
  fileOpen := false
  file := ⟨bytes, 0⟩
  posted := []
  tableBuilder := false
  addedSinceRebuild := ∅
  deletedSinceRebuild := ∅
  sharedMemorySerial := 0

/-- What `ReadFileHeader` reads. -/
structure FileHeader where
  numEntries : ℤ
  usedCount : ℤ
  salt : List UInt8
  deriving DecidableEq

/-- An `int32` of the header. -/
def headerField (header : List UInt8) (offset : ℕ) : ℤ :=
  int32OfUInt32 (UInt32.ofNat (leNat ((header.drop offset).take 4)))

/-- `ReadFileHeader`: the sizes are compared as `size_t`. -/
def readFileHeader (file : List UInt8) : Option FileHeader :=
  if file.length ≤ kFileHeaderSize then none
  else
    let header := file.take kFileHeaderSize
    let numEntries := headerField header 8
    let usedCount := headerField header kFileHeaderUsedOffset
    if headerField header 0 ≠ kFileSignature then none
    else if headerField header 4 ≠ kFileCurrentVersion then none
    else if (numEntries * 8 + kFileHeaderSize) % 18446744073709551616 ≠ file.length then none
    else if numEntries < usedCount then none
    else some { numEntries, usedCount, salt := (header.drop kFileHeaderSaltOffset).take linkSaltLength }

/-- `InitFromFile` with the file that is there. -/
def initFromFile (env : Environment) (bytes : List UInt8) : Option VisitedLinkMaster :=
  (readFileHeader bytes).bind fun header =>
    let m := { initMembers bytes with salt := header.salt }
    (m.createURLTable env header.numEntries).bind fun (created, m) =>
      if created then
        let data := (bytes.drop kFileHeaderSize).take (header.numEntries.toNat * 8)
        if data.length = header.numEntries.toNat * 8 then
          some { m with
            hashTable := (readArray 8 header.numEntries.toNat data).map UInt64.ofNat
            usedItems := header.usedCount
            fileOpen := true }
        else none
      else none

/-- `InitFromScratch`: the random salt is given, the size is `kDefaultTableSize` or that of a test. -/
def initFromScratch (env : Environment) (bytes salt : List UInt8) (tableSize : ℕ) (suppressRebuild : Bool) :
    Option VisitedLinkMaster :=
  let m := { initMembers bytes with salt }
  (m.createURLTable env tableSize).bind fun (created, m) =>
    if created then
      if suppressRebuild then
        let (written, m) := m.writeFullTable env
        if written then some m else none
      else some m.rebuildTableFromHistory
    else none

end VisitedLinkMaster

end Chromium.VisitedLink
