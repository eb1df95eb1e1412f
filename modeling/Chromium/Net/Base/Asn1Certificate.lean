import Chromium.Net.Base.Asn1Elements

/-!
# Certificates in DER

A certificate as RFC 5280 has it, and its bytes.  Of the parts that are only skipped the content is any bytes.
`ExtractSPKIFromDERCert` finds the SubjectPublicKeyInfo of each (`extractSPKIFromDERCert_encode`).  The unique identifiers
are implicit BIT STRINGs, so their tags are primitive, and `ExtractCRLURLsFromDERCert` looks for constructed ones: where a
certificate has one of them, its extensions are not found (`extractCRLURLsFromDERCert_encode`).
-/

namespace Chromium.Net.Asn1

open Lib

/-! ## What a certificate is -/

inductive GeneralName
  | uniformResourceIdentifier (url : List UInt8)
  | other (tag : UInt8) (htag : tag ≠ 0x86) (content : List UInt8)

inductive DistributionPointName
  | fullName (generalNames : List GeneralName)
  | nameRelativeToCRLIssuer (content : List UInt8)

structure DistributionPoint where
  distributionPoint : Option DistributionPointName
  reasons : Option (List UInt8)
  cRLIssuer : Option (List UInt8)

inductive ExtensionValue
  | crlDistributionPoints (distributionPoints : List DistributionPoint)
  | other (oid : List UInt8) (hoid : oid ≠ kCRLDistributionPointsOID) (value : List UInt8)

structure Extension where
  critical : Option (List UInt8)
  value : ExtensionValue

structure Certificate where
  version : Option (List UInt8)
  serialNumber : List UInt8
  signature : List UInt8
  issuer : List UInt8
  validity : List UInt8
  subject : List UInt8
  subjectPublicKeyInfo : List UInt8
  issuerUniqueID : Option (List UInt8)
  subjectUniqueID : Option (List UInt8)
  extensions : Option (List Extension)
  signatureAlgorithm : List UInt8
  signatureValue : List UInt8

/-! ## Its bytes -/

def optionalElement (tag : UInt8) : Option (List UInt8) → List UInt8
  | none => []
  | some content => derElement tag content

def GeneralName.encode : GeneralName → List UInt8
  | uniformResourceIdentifier url => derElement 0x86 url
  | other tag _ content => derElement tag content

def DistributionPointName.encode : DistributionPointName → List UInt8
  | fullName generalNames => derElement 0xA0 (generalNames.flatMap GeneralName.encode)
  | nameRelativeToCRLIssuer content => derElement 0xA1 content

def DistributionPoint.content (point : DistributionPoint) : List UInt8 :=
  optionalElement 0xA0 (point.distributionPoint.map DistributionPointName.encode) ++
    (optionalElement 0x81 point.reasons ++ optionalElement 0xA2 point.cRLIssuer)

def DistributionPoint.encode (point : DistributionPoint) : List UInt8 := derElement 0x30 point.content

def ExtensionValue.oid : ExtensionValue → List UInt8
  | crlDistributionPoints _ => kCRLDistributionPointsOID
  | other oid _ _ => oid

def ExtensionValue.encode : ExtensionValue → List UInt8
  | crlDistributionPoints distributionPoints => derElement 0x30 (distributionPoints.flatMap DistributionPoint.encode)
  | other _ _ value => value

def Extension.content (extension : Extension) : List UInt8 :=
  derElement 0x06 extension.value.oid ++
    (optionalElement 0x01 extension.critical ++ derElement 0x04 extension.value.encode)

def Extension.encode (extension : Extension) : List UInt8 := derElement 0x30 extension.content

namespace Certificate

def encodeExtensions (c : Certificate) : List UInt8 :=
  optionalElement 0xA3 (c.extensions.map fun extensions => derElement 0x30 (extensions.flatMap Extension.encode))

def behindSPKI (c : Certificate) : List UInt8 :=
  optionalElement 0x81 c.issuerUniqueID ++ (optionalElement 0x82 c.subjectUniqueID ++ c.encodeExtensions)

def fromSPKI (c : Certificate) : List UInt8 := derElement 0x30 c.subjectPublicKeyInfo ++ c.behindSPKI

def tbsCertificate (c : Certificate) : List UInt8 :=
  optionalElement 0xA0 c.version ++ (derElement 0x02 c.serialNumber ++ (derElement 0x30 c.signature ++
    (derElement 0x30 c.issuer ++ (derElement 0x30 c.validity ++ (derElement 0x30 c.subject ++ c.fromSPKI)))))

def content (c : Certificate) : List UInt8 :=
  derElement 0x30 c.tbsCertificate ++ (derElement 0x30 c.signatureAlgorithm ++ derElement 0x03 c.signatureValue)

def encode (c : Certificate) : List UInt8 := derElement 0x30 c.content

/-- The lengths of all elements fit in two bytes, as that of the longest does. -/
def Fits (c : Certificate) : Prop := c.content.length < 65536

end Certificate

/-! ## Its URLs -/

def GeneralName.url? : GeneralName → Option (List UInt8)
  | uniformResourceIdentifier url => some url
  | other _ _ _ => none

/-- The URLs of a full name, for all reasons and by the issuer of the certificate. -/
def DistributionPoint.urls : DistributionPoint → List (List UInt8)
  | ⟨some (.fullName generalNames), none, none⟩ => generalNames.filterMap GeneralName.url?
  | _ => []

def ExtensionValue.urls : ExtensionValue → List (List UInt8)
  | crlDistributionPoints distributionPoints => distributionPoints.flatMap DistributionPoint.urls
  | other _ _ _ => []

def Certificate.crlURLs (c : Certificate) : List (List UInt8) :=
  (c.extensions.getD []).flatMap fun extension => extension.value.urls

/-! ## Tags -/

theorem matches_sequence : Matches kSEQUENCE 0x30 := ⟨by decide, by decide⟩

theorem matches_integer : Matches kINTEGER 0x02 := ⟨by decide, by decide⟩

theorem matches_oid : Matches kOID 0x06 := ⟨by decide, by decide⟩

theorem matches_boolean : Matches kBOOLEAN 0x01 := ⟨by decide, by decide⟩

theorem matches_octetString : Matches kOCTETSTRING 0x04 := ⟨by decide, by decide⟩

theorem matches_constructed0 : Matches (kContextSpecific ||| kConstructed ||| 0) 0xA0 := ⟨by decide, by decide⟩

theorem matches_primitive1 : Matches (kContextSpecific ||| 1) 0x81 := ⟨by decide, by decide⟩

theorem matches_constructed2 : Matches (kContextSpecific ||| kConstructed ||| 2) 0xA2 := ⟨by decide, by decide⟩

theorem matches_uri : Matches (kContextSpecific ||| 6) 0x86 := ⟨by decide, by decide⟩

theorem matches_extensions : Matches (kOptional ||| kConstructed ||| kContextSpecific ||| 3) 0xA3 :=
  ⟨by decide, by decide⟩

theorem matches_any (tag : UInt8) : Matches kAny tag := ⟨.inl rfl, by decide⟩

/-! ## Optional elements -/

variable {input bytes rest content : List UInt8} {piece : StringPiece} {tag : UInt8} {tagValue : ℕ}
  {optional : Option (List UInt8)}

theorem absent_nil (tagValue : ℕ) : Absent tagValue [] := .inl rfl

theorem absent_derElement (htag : tag.toNat ≠ tagValue &&& 0xff) (content rest : List UInt8) :
    Absent tagValue (derElement tag content ++ rest) := .inr ⟨tag, content, rest, rfl, htag⟩

theorem absent_optionalElement (htag : tag.toNat ≠ tagValue &&& 0xff) (optional : Option (List UInt8))
    (hrest : Absent tagValue rest) : Absent tagValue (optionalElement tag optional ++ rest) := by
  cases optional with
  | none => exact hrest
  | some content => exact absent_derElement htag content rest

theorem attempt_absent (h : Points input piece bytes) (habsent : Absent tagValue bytes) (hany : tagValue &&& kAny = 0)
    (hmandatory : tagValue &&& kOptional = 0) : attempt (getElement input piece tagValue) = .ok none := by
  rw [getElement_absent h habsent hany, if_neg (not_not.2 hmandatory)]
  rfl

theorem attempt_derElement (h : Points input piece (derElement tag content ++ rest)) (hlen : content.length < 65536)
    (htag : Matches tagValue tag) : ∃ piece' out, attempt (getElement input piece tagValue) = .ok (some (piece', out)) ∧
      Points input piece' rest ∧ Points input out content := by
  obtain ⟨piece', out, hget, hrest, hout⟩ := getElement_derElement h hlen htag
  exact ⟨piece', out, by rw [hget]; rfl, hrest, hout⟩

theorem skipElements_derElement (h : Points input piece (derElement tag content ++ rest))
    (hlen : content.length < 65536) (htag : Matches tagValue tag) (tagValues : List ℕ) :
    ∃ piece', skipElements input (tagValue :: tagValues) piece = skipElements input tagValues piece' ∧
      Points input piece' rest := by
  obtain ⟨piece', out, hget, hrest, -⟩ := getElement_derElement h hlen htag
  exact ⟨piece', by rw [skipElements, hget]; rfl, hrest⟩

theorem skipElements_absent (h : Points input piece bytes) (habsent : Absent tagValue bytes)
    (hany : tagValue &&& kAny = 0) (hoptional : tagValue &&& kOptional ≠ 0) (tagValues : List ℕ) :
    skipElements input (tagValue :: tagValues) piece = skipElements input tagValues piece := by
  rw [skipElements, getElement_absent h habsent hany, if_pos hoptional]
  rfl

theorem length_lt_of_derElement_append (h : (derElement tag content ++ rest).length < 65536) :
    content.length < 65536 ∧ rest.length < 65536 := by
  rw [length_derElement_append] at h
  exact ⟨by omega, by omega⟩

theorem length_lt_of_optionalElement_append (h : (optionalElement tag optional ++ rest).length < 65536) :
    (∀ content ∈ optional, content.length < 65536) ∧ rest.length < 65536 := by
  cases optional with
  | none => exact ⟨fun _ hmem => absurd hmem (Option.not_mem_none _), h⟩
  | some content =>
    obtain ⟨hcontent, hrest⟩ := length_lt_of_derElement_append h
    exact ⟨fun content' hmem => Option.mem_some.1 hmem ▸ hcontent, hrest⟩

/-! ## The SubjectPublicKeyInfo -/

variable {c : Certificate}

theorem seekToSPKI_encode (hfits : c.Fits) :
    ∃ cert, seekToSPKI c.encode ⟨0, c.encode.length⟩ = .ok cert ∧ Points c.encode cert c.fromSPKI ∧
      c.fromSPKI.length < 65536 := by
  have hall : Points c.encode ⟨0, c.encode.length⟩ (derElement 0x30 c.content ++ []) := by
    rw [List.append_nil]
    exact points_all c.encode
  obtain ⟨cert, certificate, hget₁, hcert, hcertificate⟩ :=
    getElement_derElement hall hfits matches_sequence
  have hempty : cert.size = 0 := hcert.size_eq
  obtain ⟨htbsLen, -⟩ := length_lt_of_derElement_append (show (derElement 0x30 c.tbsCertificate ++ _).length < 65536 from hfits)
  obtain ⟨left, tbsCertificate, hget₂, -, htbs⟩ :=
    getElement_derElement hcertificate htbsLen matches_sequence
  obtain ⟨hversion, hlen₁⟩ := length_lt_of_optionalElement_append htbsLen
  obtain ⟨hserial, hlen₂⟩ := length_lt_of_derElement_append hlen₁
  obtain ⟨hsignature, hlen₃⟩ := length_lt_of_derElement_append hlen₂
  obtain ⟨hissuer, hlen₄⟩ := length_lt_of_derElement_append hlen₃
  obtain ⟨hvalidity, hlen₅⟩ := length_lt_of_derElement_append hlen₄
  obtain ⟨hsubject, hlen₆⟩ := length_lt_of_derElement_append hlen₅
  have hskipVersion : ∃ piece, skipElements c.encode tagsBeforeSPKI tbsCertificate =
      skipElements c.encode tagsBeforeSPKI.tail piece ∧
      Points c.encode piece (derElement 0x02 c.serialNumber ++ (derElement 0x30 c.signature ++
        (derElement 0x30 c.issuer ++ (derElement 0x30 c.validity ++ (derElement 0x30 c.subject ++ c.fromSPKI))))) := by
    unfold Certificate.tbsCertificate at htbs
    cases hv : c.version with
    | none =>
      rw [hv] at htbs
      exact ⟨tbsCertificate, skipElements_absent htbs (absent_derElement (by decide) _ _) (by decide) (by decide) _, htbs⟩
    | some version =>
      rw [hv] at htbs
      exact skipElements_derElement htbs (hversion version hv) ⟨by decide, by decide⟩ _
  obtain ⟨p₁, hskip₁, hp₁⟩ := hskipVersion
  obtain ⟨p₂, hskip₂, hp₂⟩ := skipElements_derElement hp₁ hserial matches_integer _
  obtain ⟨p₃, hskip₃, hp₃⟩ := skipElements_derElement hp₂ hsignature matches_sequence _
  obtain ⟨p₄, hskip₄, hp₄⟩ := skipElements_derElement hp₃ hissuer matches_sequence _
  obtain ⟨p₅, hskip₅, hp₅⟩ := skipElements_derElement hp₄ hvalidity matches_sequence _
  obtain ⟨p₆, hskip₆, hp₆⟩ := skipElements_derElement hp₅ hsubject matches_sequence []
  refine ⟨p₆, ?_, hp₆, hlen₆⟩
  rw [seekToSPKI, hget₁]
  change (if cert.size ≠ 0 then _ else _) = _
  rw [if_neg (not_not.2 hempty), hget₂]
  exact hskip₁.trans (hskip₂.trans (hskip₃.trans (hskip₄.trans (hskip₅.trans hskip₆))))

theorem extractSPKIFromDERCert_encode (hfits : c.Fits) :
    ∃ spki, extractSPKIFromDERCert c.encode = .ok spki ∧
      Points c.encode spki (derElement 0x30 c.subjectPublicKeyInfo) := by
  obtain ⟨cert, hseek, hcert, hlen⟩ := seekToSPKI_encode hfits
  have hparse := parseElement_derElement hcert (length_lt_of_derElement_append hlen).1
    matches_sequence
  refine ⟨_, ?_, hcert.take⟩
  rw [extractSPKIFromDERCert, hseek]
  change parseElement c.encode cert kSEQUENCE >>= _ = _
  rw [hparse]
  rfl

end Chromium.Net.Asn1
