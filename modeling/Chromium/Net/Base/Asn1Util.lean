import Chromium.Lib.Gives
import Mathlib.Data.Nat.Notation

/-!
# ASN.1

`net/base/asn1_util.cc`: the elements of a certificate in DER, and what is taken from it.  A piece is a place in the
input and a size, as the source's pointer and length are, so a read outside the input is an error of its own, and one
more is a loop that does not end.
-/

namespace Chromium.Net.Asn1

def kBOOLEAN : ℕ := 0x01
def kINTEGER : ℕ := 0x02
def kOCTETSTRING : ℕ := 0x04
def kOID : ℕ := 0x06
def kSEQUENCE : ℕ := 0x30

def kContextSpecific : ℕ := 0x80
def kConstructed : ℕ := 0x20

def kAny : ℕ := 0x10000
def kOptional : ℕ := 0x20000

structure StringPiece where
  offset : ℕ
  size : ℕ
  deriving DecidableEq, Repr

/-- Why nothing is returned.  Only the first is an answer of the source. -/
inductive Stop
  | failed | outOfRange | endless
  deriving DecidableEq, Repr

namespace StringPiece

def null : StringPiece := ⟨0, 0⟩

def removePrefix (piece : StringPiece) (n : ℕ) : StringPiece := ⟨piece.offset + n, piece.size - n⟩

def read (input : List UInt8) (piece : StringPiece) (i : ℕ) : Except Stop UInt8 :=
  match input[piece.offset + i]? with
  | some b => .ok b
  | none => .error .outOfRange

def slice (input : List UInt8) (piece : StringPiece) : List UInt8 := (input.drop piece.offset).take piece.size

/-- `memcmp` with as many bytes as there are to compare with. -/
def equals (input : List UInt8) (piece : StringPiece) (bytes : List UInt8) : Except Stop Bool :=
  if piece.size ≠ bytes.length then .ok false
  else if piece.offset + piece.size ≤ input.length then .ok (decide (piece.slice input = bytes))
  else .error .outOfRange

end StringPiece

def attempt {α : Type} : Except Stop α → Except Stop (Option α)
  | .ok a => .ok (some a)
  | .error .failed => .ok none
  | .error stop => .error stop

def longLength (numBytes len : ℕ) : Except Stop (ℕ × ℕ) :=
  if len < 128 then .error .failed else .ok (2 + numBytes, len + (2 + numBytes))

def longForm (input : List UInt8) (piece : StringPiece) (numBytes : ℕ) : Except Stop (ℕ × ℕ) :=
  if numBytes = 0 ∨ 2 < numBytes then .error .failed
  else if piece.size < 2 + numBytes then .error .failed
  else do
    let high ← piece.read input 2
    if numBytes = 2 then
      if high = 0 then .error .failed
      else do
        let low ← piece.read input 3
        longLength numBytes (high.toNat * 256 + low.toNat)
    else longLength numBytes high.toNat

def elementLength (input : List UInt8) (piece : StringPiece) : Except Stop (ℕ × ℕ) := do
  let b ← piece.read input 1
  if b &&& 0x80 = 0 then .ok (2, b.toNat + 2) else longForm input piece (b &&& 0x7f).toNat

def parseElement (input : List UInt8) (piece : StringPiece) (tagValue : ℕ) :
    Except Stop (StringPiece × StringPiece × ℕ) :=
  if tagValue &&& kAny ≠ 0 ∧ tagValue &&& kOptional ≠ 0 then .error .failed
  else if piece.size = 0 ∧ tagValue &&& kOptional ≠ 0 then .ok (piece, .null, 0)
  else if piece.size < 2 then .error .failed
  else do
    let tag ← piece.read input 0
    if tagValue ≠ kAny ∧ tag.toNat ≠ tagValue &&& 0xff then
      if tagValue &&& kOptional ≠ 0 then .ok (piece, .null, 0) else .error .failed
    else do
      let (headerLen, len) ← elementLength input piece
      if piece.size < len then .error .failed
      else .ok (piece.removePrefix len, ⟨piece.offset, len⟩, headerLen)

def getElement (input : List UInt8) (piece : StringPiece) (tagValue : ℕ) : Except Stop (StringPiece × StringPiece) := do
  let (piece, out, headerLen) ← parseElement input piece tagValue
  .ok (piece, out.removePrefix headerLen)

/-- The elements one after the other, of which only the last one's end is of use. -/
def skipElements (input : List UInt8) : List ℕ → StringPiece → Except Stop StringPiece
  | [], piece => .ok piece
  | tagValue :: tagValues, piece => do
    let (piece, _) ← getElement input piece tagValue
    skipElements input tagValues piece

/-- The tags in front of the SubjectPublicKeyInfo: version, serialNumber, signature, issuer, validity and subject. -/
def tagsBeforeSPKI : List ℕ :=
  [kOptional ||| kConstructed ||| kContextSpecific ||| 0, kINTEGER, kSEQUENCE, kSEQUENCE, kSEQUENCE, kSEQUENCE]

def seekToSPKI (input : List UInt8) (cert : StringPiece) : Except Stop StringPiece := do
  let (cert, certificate) ← getElement input cert kSEQUENCE
  if cert.size ≠ 0 then .error .failed
  else do
    let (_, tbsCertificate) ← getElement input certificate kSEQUENCE
    skipElements input tagsBeforeSPKI tbsCertificate

def extractSPKIFromDERCert (input : List UInt8) : Except Stop StringPiece := do
  let cert ← seekToSPKI input ⟨0, input.length⟩
  let (_, spki, _) ← parseElement input cert kSEQUENCE
  .ok spki

/-- `while (piece.size() > 0)`, with at most as many turns. -/
def whileNotEmpty {σ : Type} (body : StringPiece → σ → Except Stop (StringPiece × σ)) :
    (turns : ℕ) → StringPiece → σ → Except Stop σ
  | 0, piece, s => if piece.size = 0 then .ok s else .error .endless
  | turns + 1, piece, s =>
    if piece.size = 0 then .ok s
    else do
      let (piece, s) ← body piece s
      whileNotEmpty body turns piece s

def generalNameTurn (input : List UInt8) (generalNames : StringPiece) (urls : List StringPiece) :
    Except Stop (StringPiece × List StringPiece) := do
  match ← attempt (getElement input generalNames (kContextSpecific ||| 6)) with
  | some (generalNames, url) => .ok (generalNames, urls ++ [url])
  | none => do
    let (generalNames, _) ← getElement input generalNames kAny
    .ok (generalNames, urls)

def distributionPointURLs (input : List UInt8) (distribPoint : StringPiece) (urls : List StringPiece) :
    Except Stop (List StringPiece) := do
  match ← attempt (getElement input distribPoint (kContextSpecific ||| kConstructed ||| 0)) with
  | none => .ok urls
  | some (distribPoint, name) =>
    match ← attempt (getElement input distribPoint (kContextSpecific ||| 1)) with
    | some _ => .ok urls
    | none =>
      match ← attempt (getElement input distribPoint (kContextSpecific ||| kConstructed ||| 2)) with
      | some _ => .ok urls
      | none =>
        match ← attempt (getElement input name (kContextSpecific ||| kConstructed ||| 0)) with
        | none => .ok urls
        | some (_, generalNames) => whileNotEmpty (generalNameTurn input) generalNames.size generalNames urls

def distributionPointTurn (input : List UInt8) (distributionPoints : StringPiece) (urls : List StringPiece) :
    Except Stop (StringPiece × List StringPiece) := do
  let (distributionPoints, distribPoint) ← getElement input distributionPoints kSEQUENCE
  let urls ← distributionPointURLs input distribPoint urls
  .ok (distributionPoints, urls)

def kCRLDistributionPointsOID : List UInt8 := [0x55, 0x1d, 0x1f]

def extensionURLs (input : List UInt8) (extension : StringPiece) (urls : List StringPiece) :
    Except Stop (List StringPiece) := do
  let (extension, oid) ← getElement input extension kOID
  let isCRLDistributionPoints ← oid.equals input kCRLDistributionPointsOID
  if isCRLDistributionPoints then do
    let critical ← attempt (getElement input extension kBOOLEAN)
    let extension := (critical.map Prod.fst).getD extension
    let (_, extensionValue) ← getElement input extension kOCTETSTRING
    let (_, distributionPoints) ← getElement input extensionValue kSEQUENCE
    whileNotEmpty (distributionPointTurn input) distributionPoints.size distributionPoints urls
  else .ok urls

def extensionTurn (input : List UInt8) (extensions : StringPiece) (urls : List StringPiece) :
    Except Stop (StringPiece × List StringPiece) := do
  let (extensions, extension) ← getElement input extensions kSEQUENCE
  let urls ← extensionURLs input extension urls
  .ok (extensions, urls)

/-- The tags in front of the extensions: subjectPublicKeyInfo, issuerUniqueID and subjectUniqueID. -/
def tagsBeforeExtensions : List ℕ :=
  [kSEQUENCE, kOptional ||| kConstructed ||| kContextSpecific ||| 1,
    kOptional ||| kConstructed ||| kContextSpecific ||| 2]

def extractCRLURLsFromDERCert (input : List UInt8) : Except Stop (List StringPiece) := do
  let cert ← seekToSPKI input ⟨0, input.length⟩
  let cert ← skipElements input tagsBeforeExtensions cert
  let (_, extensionsSeq) ← getElement input cert (kOptional ||| kConstructed ||| kContextSpecific ||| 3)
  if extensionsSeq.size = 0 then .ok []
  else do
    let (_, extensions) ← getElement input extensionsSeq kSEQUENCE
    whileNotEmpty (extensionTurn input) extensions.size extensions []

end Chromium.Net.Asn1
