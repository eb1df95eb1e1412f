import Chromium.Sync.Syncable.EntryKernel
import Mathlib.Data.Prod.Lex

/-!
# A sync directory

`chrome/browser/sync/syncable/syncable.cc`: the entries in memory with their indices (`Kernel`), and what
`MutableEntry` does to them.  A pointer to an entry is its metahandle, and the entry itself is what
`metahandlesIndex` has there.  `none` is a `CHECK` that fails, or a null pointer that is followed.
-/

namespace Chromium.Sync

open Lib

variable {P : Type}

/-! ## Indices -/

/-- An indexer: the key that its comparator goes by, and the entries that it includes. -/
structure Indexer (P K : Type) where
  key : EntryKernel P → K
  shouldInclude : EntryKernel P → Bool

namespace Indexer

variable {K : Type} [LinearOrder K] (I : Indexer P K) (index : List (K × ℤ))

/-- The first half of a `ScopedIndexUpdater`: an entry that is included is there, and leaves. -/
def erase (e : EntryKernel P) : Option (List (K × ℤ)) :=
  if I.shouldInclude e then
    if (SortedMap.get? (I.key e) index).isSome then some (SortedMap.erase (I.key e) index) else none
  else some index

def insert (h : ℤ) (e : EntryKernel P) : Option (List (K × ℤ)) :=
  if I.shouldInclude e then
    if (SortedMap.get? (I.key e) index).isNone then some (SortedMap.set (I.key e) h index) else none
  else some index

/-- `ScopedIndexUpdater`, around an entry that becomes another. -/
def reindex (h : ℤ) (e e' : EntryKernel P) : Option (List (K × ℤ)) :=
  (I.erase index e).bind fun index => I.insert index h e'

end Indexer

def idIndexer : Indexer P Id where
  key := EntryKernel.id
  shouldInclude _ := true

/-- The keys of the children: by their parent, then their position, then their id. -/
abbrev ChildKey : Type := Id ×ₗ ℤ ×ₗ Id

/-- `ParentIdAndHandleIndexer`.  The root item is left out, so that it does not show up as a child of itself. -/
def parentIdAndHandleIndexer : Indexer P ChildKey where
  key e := toLex (e.parentId, toLex (e.int64Fields .serverPositionInParent, e.id))
  shouldInclude e := !e.isDel && !e.id.isRoot

def clientTagIndexer : Indexer P (List UInt8) where
  key e := e.stringFields .uniqueClientTag
  shouldInclude e := !(e.stringFields .uniqueClientTag).isEmpty

structure Kernel (P : Type) where
  metahandlesIndex : List (ℤ × EntryKernel P)
  parentIdChildIndex : List (ChildKey × ℤ)
  idsIndex : List (Id × ℤ)
  clientTagIndex : List (List UInt8 × ℤ)
  unappliedUpdateMetahandles : List ℤ
  unsyncedMetahandles : List ℤ
  dirtyMetahandles : List ℤ
  metahandlesToPurge : List ℤ
  nextId : ℤ
  nextMetahandle : ℤ

namespace Kernel

variable (k : Kernel P)

/-! ## Entries -/

def getEntryByHandle (metahandle : ℤ) : Option (EntryKernel P) := SortedMap.get? metahandle k.metahandlesIndex

def getEntryById (id : Id) : Option (ℤ × EntryKernel P) := do
  let h ← SortedMap.get? id k.idsIndex
  let e ← k.getEntryByHandle h
  some (h, e)

/-- What was put into an entry, and `mark_dirty`. -/
def markDirty (h : ℤ) (e : EntryKernel P) : Kernel P :=
  { k with
    metahandlesIndex := SortedMap.set h { e with dirty := true } k.metahandlesIndex
    dirtyMetahandles := if e.dirty then k.dirtyMetahandles else k.dirtyMetahandles.insert e.metaHandle }

def insertEntry (h : ℤ) (e : EntryKernel P) : Option (Kernel P) :=
  if (SortedMap.get? h k.metahandlesIndex).isSome then none
  else if !e.isDel && (SortedMap.get? (parentIdAndHandleIndexer.key e) k.parentIdChildIndex).isSome then none
  else if (SortedMap.get? e.id k.idsIndex).isSome then none
  else if !(e.stringFields .uniqueClientTag).isEmpty then none
  else some { k with
    metahandlesIndex := SortedMap.set h e k.metahandlesIndex
    parentIdChildIndex :=
      if e.isDel then k.parentIdChildIndex
      else SortedMap.set (parentIdAndHandleIndexer.key e) h k.parentIdChildIndex
    idsIndex := SortedMap.set e.id h k.idsIndex }

/-! ## The order of the children -/

/-- The walk to an end of the order, through the ids of one field: `none` when an id has no entry, and when the end
is not reached in the steps that are given. -/
def walk (field : IdField) : ℕ → EntryKernel P → Option (EntryKernel P)
  | 0, _ => none
  | steps + 1, e =>
    if e.idFields field = .root then some e
    else (k.getEntryById (e.idFields field)).bind fun found => walk field steps found.2

/-- The children of a parent, as the index has them: from its lower bound to its upper bound. -/
def childHandles (parentId : Id) : List ℤ :=
  (k.parentIdChildIndex.filter fun entry => (ofLex entry.1).1 = parentId).map Prod.snd

/-- What `GetFirstChildId` and `GetLastChildId` do, with the way to the end: the walk starts at the first candidate
that is in the order. -/
def endChildId (field : IdField) : List ℤ → Option Id
  | [] => some .root
  | h :: candidates =>
    (k.getEntryByHandle h).bind fun e =>
      -- Self-looped entries are temporarily not in the order.
      if e.idFields field = .root ∨ e.prevId ≠ e.nextId then
        (k.walk field (k.metahandlesIndex.length + 1) e).map EntryKernel.id
      else endChildId field candidates

def getFirstChildId (parentId : Id) : Option Id := k.endChildId .prevId (k.childHandles parentId)

def getLastChildId (parentId : Id) : Option Id := k.endChildId .nextId (k.childHandles parentId).reverse

/-- The last steps of `UnlinkEntryFromOrder`: the entry after the one that leaves gets the one before it. -/
def unlinkNext (oldPrevious oldNext : Id) : Option (Kernel P) :=
  if oldNext = .root then some k
  else (k.getEntryById oldNext).bind fun next => some (k.markDirty next.1 (next.2.putId .prevId oldPrevious))

/-- What `UnlinkEntryFromOrder` does to the neighbours of an entry, once the entry is self-looped. -/
def unlinkNeighbours (id oldPrevious oldNext : Id) : Option (Kernel P) :=
  if oldPrevious = .root then k.unlinkNext oldPrevious oldNext
  else if oldPrevious = oldNext then
    -- Done if the entry was self-looped already; its id may have changed since.
    if oldNext = id ∨ oldNext.serverKnows = false then some k else none
  else
    (k.getEntryById oldPrevious).bind fun previous =>
      (k.markDirty previous.1 (previous.2.putId .nextId oldNext)).unlinkNext oldPrevious oldNext

def unlinkEntryFromOrder (h : ℤ) : Option (Kernel P) :=
  (k.getEntryByHandle h).bind fun e =>
    (k.markDirty h ((e.putId .nextId e.id).putId .prevId e.id)).unlinkNeighbours e.id e.prevId e.nextId

/-- `Put(IdField)`, for a field that no index depends on. -/
def putLink (h : ℤ) (field : IdField) (value : Id) : Option (Kernel P) := do
  let e ← k.getEntryByHandle h
  if e.idFields field = value then some k else some (k.markDirty h (e.putId field value))

/-- The end of `PutPredecessor`: the entry goes between two ids. -/
def putLinks (h : ℤ) (predecessorId successorId : Id) : Option (Kernel P × Bool) := do
  let k ← k.putLink h .prevId predecessorId
  let k ← k.putLink h .nextId successorId
  some (k, true)

/-- The second half of `PutPredecessor`, for the entry `e`. -/
def putSuccessor (h : ℤ) (e : EntryKernel P) (predecessorId successorId : Id) : Option (Kernel P × Bool) :=
  if successorId = .root then k.putLinks h predecessorId successorId
  else
    match k.getEntryById successorId with
    | none => some (k, false)
    | some successor =>
      if successor.2.parentId = e.parentId then do
        let k ← k.putLink successor.1 .prevId e.id
        k.putLinks h predecessorId successorId
      else some (k, false)

def putPredecessor (h : ℤ) (predecessorId : Id) : Option (Kernel P × Bool) := do
  let k ← k.unlinkEntryFromOrder h
  let e ← k.getEntryByHandle h
  if e.isDel then some (k, true)
  else if predecessorId = .root then do
    let successorId ← k.getFirstChildId e.parentId
    k.putSuccessor h e predecessorId successorId
  else
    match k.getEntryById predecessorId with
    | none => some (k, false)
    | some predecessor =>
      if predecessor.2.parentId = e.parentId then do
        let k ← k.putLink predecessor.1 .nextId e.id
        k.putSuccessor h e predecessorId predecessor.2.nextId
      else some (k, false)

/-! ## Putting fields -/

/-- The part of `PutIsDel` that puts the bit. -/
def setIsDel (h : ℤ) (isDel : Bool) : Option (Kernel P) := do
  let e ← k.getEntryByHandle h
  let index ← parentIdAndHandleIndexer.reindex k.parentIdChildIndex h e { e with isDel := isDel }
  some ({ k with parentIdChildIndex := index }.markDirty h { e with isDel := isDel })

def putIsDel (h : ℤ) (isDel : Bool) : Option (Kernel P) := do
  let e ← k.getEntryByHandle h
  if isDel = e.isDel then some k
  else if isDel then do
    let k ← k.unlinkEntryFromOrder h
    k.setIsDel h true
  else do
    let k ← k.setIsDel h false
    -- Restores the position to the front.
    let result ← k.putPredecessor h .root
    some result.1

/-- `Put(Int64Field)`. -/
def putInt64 (h : ℤ) (field : Int64Field) (value : ℤ) : Option (Kernel P) := do
  let e ← k.getEntryByHandle h
  if e.int64Fields field = value then some k
  else if field = .serverPositionInParent then do
    let index ← parentIdAndHandleIndexer.reindex k.parentIdChildIndex h e (e.putInt64 field value)
    some ({ k with parentIdChildIndex := index }.markDirty h (e.putInt64 field value))
  else some (k.markDirty h (e.putInt64 field value))

/-- `Put(TimeField)`. -/
def putTime (h : ℤ) (field : TimeField) (value : ℤ) : Option (Kernel P) := do
  let e ← k.getEntryByHandle h
  if e.timeFields field = value then some k else some (k.markDirty h (e.putTime field value))

/-- `Put(ID)`, for another id: `ReindexId`, and the mark.  An id that is there already is refused. -/
def reindexId (h : ℤ) (newId : Id) : Option (Kernel P × Bool) := do
  let e ← k.getEntryByHandle h
  if (k.getEntryById newId).isSome then some (k, false)
  else do
    let ids ← idIndexer.reindex k.idsIndex h e (e.putId .id newId)
    let children ← parentIdAndHandleIndexer.reindex k.parentIdChildIndex h e (e.putId .id newId)
    some ({ k with idsIndex := ids, parentIdChildIndex := children }.markDirty h (e.putId .id newId), true)

def putParentIdPropertyOnly (h : ℤ) (parentId : Id) : Option (Kernel P) := do
  let e ← k.getEntryByHandle h
  let children ← parentIdAndHandleIndexer.reindex k.parentIdChildIndex h e (e.putId .parentId parentId)
  some ({ k with parentIdChildIndex := children }.markDirty h (e.putId .parentId parentId))

/-- `Put(PARENT_ID)`, for another parent. -/
def putParentId (h : ℤ) (parentId : Id) : Option (Kernel P) := do
  -- Makes the order of the siblings inconsistent, and then fixes it up.
  let k ← k.putParentIdPropertyOnly h parentId
  let result ← k.putPredecessor h .root
  let e ← result.1.getEntryByHandle h
  some (result.1.markDirty h e)

/-- `Put(IdField)`. -/
def putId (h : ℤ) (field : IdField) (value : Id) : Option (Kernel P × Bool) := do
  let e ← k.getEntryByHandle h
  if e.idFields field = value then some (k, true)
  else
    match field with
    | .id => k.reindexId h value
    | .parentId => do
      let k ← k.putParentId h value
      some (k, true)
    | field => some (k.markDirty h (e.putId field value), true)

/-- `Put(BaseVersion)`. -/
def putBaseVersion (h value : ℤ) : Option (Kernel P) := do
  let e ← k.getEntryByHandle h
  if e.baseVersion = value then some k else some (k.markDirty h { e with baseVersion := value })

def putUniqueClientTag (h : ℤ) (newTag : List UInt8) : Option (Kernel P × Bool) := do
  let e ← k.getEntryByHandle h
  if e.stringFields .uniqueClientTag = newTag then some (k, true)
  else if !newTag.isEmpty && (SortedMap.get? newTag k.clientTagIndex).isSome then some (k, false)
  else do
    let index ← Sync.clientTagIndexer.reindex k.clientTagIndex h e (e.putString .uniqueClientTag newTag)
    some ({ k with clientTagIndex := index }.markDirty h (e.putString .uniqueClientTag newTag), true)

/-- `Put(StringField)`. -/
def putString (h : ℤ) (field : StringField) (value : List UInt8) : Option (Kernel P × Bool) :=
  if field = .uniqueClientTag then k.putUniqueClientTag h value
  else do
    let e ← k.getEntryByHandle h
    if e.stringFields field = value then some (k, true) else some (k.markDirty h (e.putString field value), true)

/-- `Put(ProtoField)`. -/
def putProto (S : EntitySpecifics P) (h : ℤ) (field : ProtoField) (value : P) : Option (Kernel P) := do
  let e ← k.getEntryByHandle h
  if S.serializeAsString (e.specificsFields field) = S.serializeAsString value then some k
  else some (k.markDirty h (e.putProto field value))

/-- `Put(BitField)`. -/
def putBit (h : ℤ) (field : BitField) (value : Bool) : Option (Kernel P) := do
  let e ← k.getEntryByHandle h
  if e.bitFields field = value then some k else some (k.markDirty h (e.putBit field value))

/-- The set of metahandles of an indexed bit after the bit was put: an entry is there when its bit was set. -/
def indexBit (index : List ℤ) (h : ℤ) (value : Bool) : Option (List ℤ) :=
  if value then if h ∈ index then none else some (index.insert h)
  else if h ∈ index then some (index.filter (· ≠ h)) else none

/-- `Put(IndexedBitField)`. -/
def putIndexedBit (h : ℤ) (field : IndexedBitField) (value : Bool) : Option (Kernel P) := do
  let e ← k.getEntryByHandle h
  if e.indexedBitFields field = value then some k
  else
    match field with
    | .isUnsynced => do
      let index ← indexBit k.unsyncedMetahandles e.metaHandle value
      some ({ k with unsyncedMetahandles := index }.markDirty h (e.putIndexedBit field value))
    | .isUnappliedUpdate => do
      let index ← indexBit k.unappliedUpdateMetahandles e.metaHandle value
      some ({ k with unappliedUpdateMetahandles := index }.markDirty h (e.putIndexedBit field value))

/-- `Put(BitTemp)`: the database does not have it, and the entry is not marked. -/
def putSyncing (h : ℤ) (value : Bool) : Option (Kernel P) := do
  let e ← k.getEntryByHandle h
  some { k with metahandlesIndex := SortedMap.set h { e with syncing := value } k.metahandlesIndex }

/-! ## Creating entries -/

def changesVersion : ℤ := -1

/-- The fields that `MutableEntry::Init` puts into a new entry. -/
def newEntry (S : EntitySpecifics P) (parentId : Id) (name : List UInt8) (now : ℤ) : EntryKernel P :=
  let e := (EntryKernel.new S).putId .id (Id.createFromClientString (decimalInt k.nextId))
  let e := { e with metaHandle := k.nextMetahandle, dirty := true }
  let e := (((e.putId .parentId parentId).putString .nonUniqueName name).putTime .ctime now).putTime .mtime now
  { e with baseVersion := changesVersion }

def newUpdateItem (S : EntitySpecifics P) (id : Id) : EntryKernel P :=
  { (EntryKernel.new S).putId .id id with
    metaHandle := k.nextMetahandle, dirty := true, isDel := true, baseVersion := changesVersion }

def nextDirty (nextId : ℤ) : Kernel P :=
  { k with
    nextId := nextId
    nextMetahandle := k.nextMetahandle + 1
    dirtyMetahandles := k.dirtyMetahandles.insert k.nextMetahandle }

/-- `MutableEntry::Init`; the new entry has the metahandle that was the next one. -/
def create (S : EntitySpecifics P) (parentId : Id) (name : List UInt8) (now : ℤ) : Option (Kernel P) :=
  (k.nextDirty (k.nextId - 1)).insertEntry k.nextMetahandle (k.newEntry S parentId name now)

/-- `MutableEntry(CREATE_NEW_UPDATE_ITEM)`: nothing, when the id is there already. -/
def createNewUpdateItem (S : EntitySpecifics P) (id : Id) : Option (Kernel P) :=
  if (k.getEntryById id).isSome then some k
  else (k.nextDirty k.nextId).insertEntry k.nextMetahandle (k.newUpdateItem S id)

/-! ## Purging -/

/-- One turn of the loop of `PurgeEntriesWithTypeIn`. -/
def purgeEntry (S : EntitySpecifics P) (types : List ModelType) (h : ℤ) : Option (Kernel P) :=
  match k.getEntryByHandle h with
  | none => some k
  | some e =>
    if S.getModelType (e.specificsFields .specifics) ∈ types ∨
        S.getModelType (e.specificsFields .serverSpecifics) ∈ types then do
      let k ← k.unlinkEntryFromOrder h
      let e ← k.getEntryByHandle h
      some { k with
        metahandlesToPurge := k.metahandlesToPurge.insert e.metaHandle
        idsIndex := SortedMap.erase e.id k.idsIndex
        clientTagIndex := SortedMap.erase (e.stringFields .uniqueClientTag) k.clientTagIndex
        unsyncedMetahandles := k.unsyncedMetahandles.filter (· ≠ e.metaHandle)
        unappliedUpdateMetahandles := k.unappliedUpdateMetahandles.filter (· ≠ e.metaHandle)
        parentIdChildIndex := SortedMap.erase (parentIdAndHandleIndexer.key e) k.parentIdChildIndex
        metahandlesIndex := SortedMap.erase h k.metahandlesIndex }
    else some k

/-- `PurgeEntriesWithTypeIn`, as far as the entries go. -/
def purgeEntriesWithTypeIn (S : EntitySpecifics P) (types : List ModelType) : Option (Kernel P) :=
  if .unspecified ∈ types ∨ .topLevelFolder ∈ types then some k
  else (k.metahandlesIndex.map Prod.fst).foldlM (fun k h => k.purgeEntry S types h) k

end Kernel

end Chromium.Sync
