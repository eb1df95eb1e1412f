import Chromium.Base.Values
import Chromium.Lib.LittleEndian
import Chromium.Net.Http.HttpUtil

/-!
# CRL sets

`net/base/crl_set.cc`: the serial numbers that some issuers have revoked, read from a file (`Parse`) or made from an
older set and a delta (`ApplyDelta`).  `JSONReader::Read` and zlib's `inflate` are given functions: the value of a
text, and the bytes that the whole of some compressed bytes stand for.  The numbers `NextUpdate` and `WindowSecs` are
kept as the header has them.
-/

namespace Chromium.Net

open Lib Base

def kSHA256Length : ℕ := 32
def kCurrentFileVersion : Int32 := 0
def kMaxUncompressedChangesLength : ℕ := 1024 * 1024

def SYMBOL_SAME : UInt8 := 0
def SYMBOL_INSERT : UInt8 := 1
def SYMBOL_DELETE : UInt8 := 2
def SYMBOL_CHANGED : UInt8 := 3

/-- The hash of an issuer, and the serials of its CRL. -/
abbrev Crl := List UInt8 × List (List UInt8)

/-- `D` is `double`. -/
structure CRLSet (D : Type) where
  nextUpdate : Value D
  updateWindow : Value D
  sequence : UInt32
  crls : List Crl
  crlsIndexByIssuer : List (List UInt8 × ℕ)

inductive CRLSet.Result
  | REVOKED | UNKNOWN | GOOD
deriving DecidableEq, Repr

/-! ## Reading -/

/-- The first `n` bytes, which are removed; `none` if there are not so many. -/
def removePrefix (n : ℕ) (data : List UInt8) : Option (List UInt8 × List UInt8) :=
  if data.length < n then none else some (data.take n, data.drop n)

/-- A number of `w` bytes, as it lies in memory. -/
def readNumber (w : ℕ) (data : List UInt8) : Option (ℕ × List UInt8) := do
  let (bytes, data) ← removePrefix w data
  some (leNat bytes, data)

section

variable {D : Type} (readJson : List UInt8 → Option (Value D))

def readHeader (data : List UInt8) : Option (List (List UInt8 × Value D) × List UInt8) := do
  let (headerLen, data) ← readNumber 2 data
  let (headerBytes, data) ← removePrefix headerLen data
  match readJson headerBytes with
  | some (.dictionary dictionary) => some (dictionary, data)
  | _ => none

end

section

variable {D : Type}

def getString (dictionary : List (List UInt8 × Value D)) (key : String) : Option (List UInt8) :=
  match SortedMap.get? (ascii key) dictionary with
  | some (.string value) => some value
  | _ => none

def getInteger (dictionary : List (List UInt8 × Value D)) (key : String) : Option Int32 :=
  match SortedMap.get? (ascii key) dictionary with
  | some (.integer value) => some value
  | _ => none

/-- A `double` or an integer. -/
def getDouble (dictionary : List (List UInt8 × Value D)) (key : String) : Option (Value D) :=
  match SortedMap.get? (ascii key) dictionary with
  | some (.integer value) => some (.integer value)
  | some (.double value) => some (.double value)
  | _ => none

end

def readSerial (data : List UInt8) : Option (List UInt8 × List UInt8) := do
  let (serialLength, data) ← readNumber 1 data
  removePrefix serialLength data

/-- The loop of `ReadCRL`. -/
def readSerials : ℕ → List UInt8 → Option (List (List UInt8) × List UInt8)
  | 0, data => some ([], data)
  | numSerials + 1, data => do
    let (serial, data) ← readSerial data
    let (serials, data) ← readSerials numSerials data
    some (serial :: serials, data)

def readCRL (data : List UInt8) : Option (Crl × List UInt8) := do
  let (parentSpkiHash, data) ← removePrefix kSHA256Length data
  let (numSerials, data) ← readNumber 4 data
  let (serials, data) ← readSerials numSerials data
  some ((parentSpkiHash, serials), data)

section

variable (inflate : List UInt8 → Option (List UInt8))

def decompressZlib (outLen : ℕ) (data : List UInt8) : Option (List UInt8) :=
  (inflate data).filter fun out => out.length = outLen

def readChanges (data : List UInt8) : Option (List UInt8 × List UInt8) := do
  let (uncompressedSize, data) ← readNumber 4 data
  let (compressedSize, data) ← readNumber 4 data
  if uncompressedSize > kMaxUncompressedChangesLength then none
  else if data.length < compressedSize then none
  else if uncompressedSize = 0 then some ([], data)
  else do
    let changes ← decompressZlib inflate uncompressedSize (data.take compressedSize)
    some (changes, data.drop compressedSize)

/-- The loops over the changes of a list: what stays is taken from the old list at `i`, what is inserted or changed is
read from the data, and `push` puts it into the new list.  The result is `i`, the new list and the data. -/
def applyChanges {A S : Type} (readInserted : List UInt8 → Option (A × List UInt8))
    (readChanged : A → List UInt8 → Option (A × List UInt8)) (push : S → A → S) (old : List A) :
    (changes : List UInt8) → (i : ℕ) → S → (data : List UInt8) → Option (ℕ × S × List UInt8)
  | [], i, out, data => some (i, out, data)
  | k :: changes, i, out, data =>
    if k = SYMBOL_SAME then do
      let item ← old[i]?
      applyChanges readInserted readChanged push old changes (i + 1) (push out item) data
    else if k = SYMBOL_INSERT then do
      let (item, data) ← readInserted data
      applyChanges readInserted readChanged push old changes i (push out item) data
    else if k = SYMBOL_DELETE then do
      let _ ← old[i]?
      applyChanges readInserted readChanged push old changes (i + 1) out data
    else if k = SYMBOL_CHANGED then do
      let item ← old[i]?
      let (item, data) ← readChanged item data
      applyChanges readInserted readChanged push old changes (i + 1) (push out item) data
    else none

def readDeltaCRL (data : List UInt8) (oldSerials : List (List UInt8)) :
    Option (List (List UInt8) × List UInt8) := do
  let (changes, data) ← readChanges inflate data
  let (i, serials, data) ← applyChanges readSerial (fun _ _ => none) (fun out serial => out ++ [serial]) oldSerials
    changes 0 [] data
  if i ≠ oldSerials.length then none else some (serials, data)

end

namespace CRLSet

variable {D : Type} (readJson : List UInt8 → Option (Value D)) (inflate : List UInt8 → Option (List UInt8))

/-- A set without CRLs; the sequence number is cast to `uint32`. -/
def new (nextUpdate updateWindow : Value D) (sequence : Int32) : CRLSet D where
  nextUpdate := nextUpdate
  updateWindow := updateWindow
  sequence := sequence.toUInt32
  crls := []
  crlsIndexByIssuer := []

def push (set : CRLSet D) (crl : Crl) : CRLSet D :=
  { set with
    crls := set.crls ++ [crl]
    crlsIndexByIssuer := SortedMap.set crl.1 set.crls.length set.crlsIndexByIssuer }

def setFromHeader (dictionary : List (List UInt8 × Value D)) (contentType : String) : Option (CRLSet D) := do
  let contents ← getString dictionary "ContentType"
  if contents ≠ ascii contentType then none else do
    let version ← getInteger dictionary "Version"
    if version ≠ kCurrentFileVersion then none else do
      let nextUpdate ← getDouble dictionary "NextUpdate"
      let updateWindow ← getDouble dictionary "WindowSecs"
      let sequence ← getInteger dictionary "Sequence"
      some (new nextUpdate updateWindow sequence)

/-- The loop of `Parse`, with as many turns as there are bytes: a CRL has some. -/
def readCrls : ℕ → List UInt8 → CRLSet D → Option (CRLSet D)
  | _, [], set => some set
  | 0, _ :: _, _ => none
  | turns + 1, data, set => do
    let (crl, data) ← readCRL data
    readCrls turns data (set.push crl)

/-- The set that `Parse` makes. -/
def readSet (data : List UInt8) : Option (CRLSet D) := do
  let (dictionary, data) ← readHeader readJson data
  let set ← setFromHeader dictionary "CRLSet"
  readCrls data.length data set

/-- `Parse`, with what is in `*out_crl_set` before. -/
def parse (data : List UInt8) (outCrlSet : Option (CRLSet D)) : Bool × Option (CRLSet D) :=
  match readSet readJson data with
  | some set => (true, some set)
  | none => (false, outCrlSet)

/-- The symbol `SYMBOL_CHANGED` of `ApplyDelta`. -/
def readChangedCRL (crl : Crl) (data : List UInt8) : Option (Crl × List UInt8) := do
  let (serials, data) ← readDeltaCRL inflate data crl.2
  some ((crl.1, serials), data)

/-- The set that `ApplyDelta` makes. -/
def readDelta (base : CRLSet D) (data : List UInt8) : Option (CRLSet D) := do
  let (dictionary, data) ← readHeader readJson data
  let set ← setFromHeader dictionary "CRLSetDelta"
  let deltaFrom ← getInteger dictionary "DeltaFrom"
  if deltaFrom < 0 ∨ deltaFrom.toUInt32 ≠ base.sequence then none else do
    let (crlChanges, data) ← readChanges inflate data
    let (i, set, data) ← applyChanges readCRL (readChangedCRL inflate) push base.crls crlChanges 0 set data
    if data ≠ [] then none
    else if i ≠ base.crls.length then none
    else some set

/-- `ApplyDelta`, with what is in `*out_crl_set` before. -/
def applyDelta (base : CRLSet D) (data : List UInt8) (outCrlSet : Option (CRLSet D)) : Bool × Option (CRLSet D) :=
  match readDelta readJson inflate base data with
  | some set => (true, some set)
  | none => (false, outCrlSet)

/-- `crls_[i->second]` is `none` where there is no such CRL. -/
def checkCertificate (set : CRLSet D) (serialNumber parentSpki : List UInt8) : Option Result :=
  match SortedMap.get? parentSpki set.crlsIndexByIssuer with
  | none => some .UNKNOWN
  | some index => set.crls[index]?.map fun crl => if crl.2.contains serialNumber then .REVOKED else .GOOD

end CRLSet

end Chromium.Net
