import Chromium.Base.Values
import Chromium.Lib.Decimal

/-!
# The entries of a sync directory

`chrome/browser/sync/syncable/syncable.h` and `syncable_id.h`.  An `EntryKernel` has its fields in one array for each
kind of field; `put` writes one of them.  `EntryKernel.row` is what the database keeps of an entry: all but the
temporary bits and the dirty bit.
-/

namespace Chromium.Sync

open Lib

/-! ## Ids -/

/-- `Id`, in one of its three forms: `r` for the root item, `c` before the opaque id of an item that only the client
knows, `s` before the one of an item that the server knows about. -/
inductive Id
  | root
  | client (localId : List UInt8)
  | server (serverId : List UInt8)
deriving DecidableEq

namespace Id

/-- The string `s_`. -/
def value : Id → List UInt8
  | root => [114]
  | client localId => 99 :: localId
  | server serverId => 115 :: serverId

theorem value_injective : Function.Injective value := by
  intro a b h
  cases a <;> cases b <;> simp [value] at h
  · rfl
  · rw [h]
  · rw [h]

/-- Ids compare as their strings do. -/
instance instLinearOrderId : LinearOrder Id := LinearOrder.lift' value value_injective

/-- `IsRoot`, which is `IsNull` too. -/
def isRoot (id : Id) : Bool := id = root

def serverKnows : Id → Bool
  | root => true
  | client _ => false
  | server _ => true

def createFromClientString (localId : List UInt8) : Id := if localId = [48] then root else client localId

@[simp] theorem isRoot_iff (id : Id) : id.isRoot = true ↔ id = root := decide_eq_true_iff

theorem createFromClientString_decimalInt {n : ℤ} (hn : n < 0) :
    createFromClientString (decimalInt n) = client (45 :: decimal n.natAbs) := by
  have htext : decimalInt n = 45 :: decimal n.natAbs := if_pos hn
  rw [createFromClientString, htext, if_neg (by simp)]

theorem createFromClientString_ne_root {n : ℤ} (hn : n < 0) : createFromClientString (decimalInt n) ≠ root := by
  rw [createFromClientString_decimalInt hn]
  nofun

theorem createFromClientString_inj {n m : ℤ} (hn : n < 0) (hm : m < 0)
    (h : createFromClientString (decimalInt n) = createFromClientString (decimalInt m)) : n = m := by
  rw [createFromClientString_decimalInt hn, createFromClientString_decimalInt hm] at h
  have hdigits : decimal n.natAbs = decimal m.natAbs := (List.cons.inj (Id.client.inj h)).2
  have hvalue := congrArg decimalValue hdigits
  rw [decimalValue_decimal, decimalValue_decimal] at hvalue
  omega

end Id

/-! ## Fields -/

inductive Int64Field
  | serverVersion | serverPositionInParent | localExternalId
deriving DecidableEq

inductive TimeField
  | mtime | serverMtime | ctime | serverCtime
deriving DecidableEq

inductive IdField
  | id | parentId | serverParentId | prevId | nextId
deriving DecidableEq

inductive IndexedBitField
  | isUnsynced | isUnappliedUpdate
deriving DecidableEq

inductive BitField
  | isDir | serverIsDir | serverIsDel
deriving DecidableEq

inductive StringField
  | nonUniqueName | serverNonUniqueName | uniqueServerTag | uniqueClientTag
deriving DecidableEq

inductive ProtoField
  | specifics | serverSpecifics
deriving DecidableEq

inductive ModelType
  | unspecified | topLevelFolder
  | bookmarks | preferences | passwords | autofillProfile | autofill | themes | typedUrls | extensions | nigori
  | searchEngines | sessions | apps | extensionSettings | appNotifications
deriving DecidableEq

/-- What the generated class `EntitySpecifics` does: a new one, `SerializeAsString`, and the extension that
`GetModelTypeFromSpecifics` finds in one. -/
structure EntitySpecifics (P : Type) where
  empty : P
  serializeAsString : P → List UInt8
  getModelType : P → ModelType

def noSpecifics : EntitySpecifics Unit where
  empty := ()
  serializeAsString _ := []
  getModelType _ := .unspecified

def unixEpoch : ℤ := 11644473600000000

/-- `TimeToProtoTime`: milliseconds since the Unix epoch, cut off towards it. -/
def timeToProtoTime (t : ℤ) : ℤ := (t - unixEpoch).tdiv 1000

def protoTimeToTime (t : ℤ) : ℤ := unixEpoch + t * 1000

/-- `EntryKernel`, with `P` for `EntitySpecifics`. -/
structure EntryKernel (P : Type) where
  metaHandle : ℤ
  baseVersion : ℤ
  int64Fields : Int64Field → ℤ
  timeFields : TimeField → ℤ
  idFields : IdField → Id
  indexedBitFields : IndexedBitField → Bool
  isDel : Bool
  bitFields : BitField → Bool
  stringFields : StringField → List UInt8
  specificsFields : ProtoField → P
  syncing : Bool
  dirty : Bool

/-- What the database keeps of an entry. -/
structure Row (P : Type) where
  metaHandle : ℤ
  baseVersion : ℤ
  int64Fields : Int64Field → ℤ
  timeFields : TimeField → ℤ
  idFields : IdField → Id
  indexedBitFields : IndexedBitField → Bool
  isDel : Bool
  bitFields : BitField → Bool
  stringFields : StringField → List UInt8
  specificsFields : ProtoField → P

namespace EntryKernel

variable {P : Type} (e : EntryKernel P)

/-- `EntryKernel()`. -/
def new (S : EntitySpecifics P) : EntryKernel P where
  metaHandle := 0
  baseVersion := 0
  int64Fields _ := 0
  timeFields _ := 0
  idFields _ := .root
  indexedBitFields _ := false
  isDel := false
  bitFields _ := false
  stringFields _ := []
  specificsFields _ := S.empty
  syncing := false
  dirty := false

/-- The columns that `BindFields` writes. -/
def row : Row P where
  metaHandle := e.metaHandle
  baseVersion := e.baseVersion
  int64Fields := e.int64Fields
  timeFields := e.timeFields
  idFields := e.idFields
  indexedBitFields := e.indexedBitFields
  isDel := e.isDel
  bitFields := e.bitFields
  stringFields := e.stringFields
  specificsFields := e.specificsFields

def putInt64 (field : Int64Field) (value : ℤ) : EntryKernel P :=
  { e with int64Fields := Function.update e.int64Fields field value }

/-- The time goes through the format of the protocol, so that all times have the same resolution. -/
def putTime (field : TimeField) (value : ℤ) : EntryKernel P :=
  { e with timeFields := Function.update e.timeFields field (protoTimeToTime (timeToProtoTime value)) }

def putId (field : IdField) (value : Id) : EntryKernel P :=
  { e with idFields := Function.update e.idFields field value }

def putIndexedBit (field : IndexedBitField) (value : Bool) : EntryKernel P :=
  { e with indexedBitFields := Function.update e.indexedBitFields field value }

def putBit (field : BitField) (value : Bool) : EntryKernel P :=
  { e with bitFields := Function.update e.bitFields field value }

def putString (field : StringField) (value : List UInt8) : EntryKernel P :=
  { e with stringFields := Function.update e.stringFields field value }

def putProto (field : ProtoField) (value : P) : EntryKernel P :=
  { e with specificsFields := Function.update e.specificsFields field value }

/-! ## The ids of an entry -/

/-- `ref(ID)`. -/
def id : Id := e.idFields .id

/-- `ref(PARENT_ID)`. -/
def parentId : Id := e.idFields .parentId

/-- `ref(PREV_ID)`. -/
def prevId : Id := e.idFields .prevId

/-- `ref(NEXT_ID)`. -/
def nextId : Id := e.idFields .nextId

end EntryKernel

end Chromium.Sync
