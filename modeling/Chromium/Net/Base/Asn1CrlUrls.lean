import Chromium.Net.Base.Asn1Certificate

/-!
# The URLs of a certificate

The three loops of `ExtractCRLURLsFromDERCert` have one shape: while a piece is not empty, an element is taken off it and
what it says is added to the URLs.  `whileNotEmpty_flatMap` follows such a loop over the bytes of a list, and the rest
follows the nesting of a certificate from the inside.
-/

namespace Chromium.Net.Asn1

open Lib
open List (append_nil)

variable {input bytes rest content : List UInt8} {piece : StringPiece} {pieces : List StringPiece}
  {found : List (List UInt8)}

def PointsAll (input : List UInt8) (pieces : List StringPiece) (urls : List (List UInt8)) : Prop :=
  List.Forall₂ (Points input) pieces urls

theorem PointsAll.concat {url : List UInt8} (h : PointsAll input pieces found) (hurl : Points input piece url) :
    PointsAll input (pieces ++ [piece]) (found ++ [url]) :=
  List.rel_append h (List.Forall₂.cons hurl List.Forall₂.nil)

theorem PointsAll.unique {found' : List (List UInt8)} (h : PointsAll input pieces found)
    (h' : PointsAll input pieces found') : found = found' := by
  induction h generalizing found' with
  | nil =>
    cases h'
    rfl
  | cons hurl _ ih =>
    cases h' with
    | cons hurl' hrest => rw [hurl.slice_eq.symm.trans hurl'.slice_eq, ih hrest]

def Adds (input : List UInt8) (added : List (List UInt8)) (f : List StringPiece → Except Stop (List StringPiece)) : Prop :=
  ∀ pieces urls, PointsAll input pieces urls → ∃ pieces', f pieces = .ok pieces' ∧ PointsAll input pieces' (urls ++ added)

theorem adds_nil (input : List UInt8) : Adds input [] (fun pieces => .ok pieces) := fun pieces urls h =>
  ⟨pieces, rfl, by rwa [append_nil]⟩

/-- **A loop over the bytes of a list**, of which each turn takes one element. -/
theorem whileNotEmpty_flatMap {α : Type} {encode : α → List UInt8} {urlsOf : α → List (List UInt8)}
    {body : StringPiece → List StringPiece → Except Stop (StringPiece × List StringPiece)} (xs : List α)
    (hne : ∀ x, encode x ≠ [])
    (hbody : ∀ x ∈ xs, ∀ rest piece pieces urls, Points input piece (encode x ++ rest) → PointsAll input pieces urls →
      ∃ piece' pieces', body piece pieces = .ok (piece', pieces') ∧ Points input piece' rest ∧
        PointsAll input pieces' (urls ++ urlsOf x))
    (turns : ℕ) (hturns : (xs.flatMap encode).length ≤ turns) (hpiece : Points input piece (xs.flatMap encode)) :
    Adds input (xs.flatMap urlsOf) (whileNotEmpty body turns piece) := by
  induction xs generalizing piece turns with
  | nil =>
    intro pieces urls hpieces
    have hempty : piece.size = 0 := hpiece.size_eq
    refine ⟨pieces, ?_, by rwa [List.flatMap_nil, append_nil]⟩
    cases turns <;> rw [whileNotEmpty, if_pos hempty]
  | cons x xs ih =>
    intro pieces urls hpieces
    rw [List.flatMap_cons] at hpiece hturns
    have hpos := List.length_pos_iff.2 (hne x)
    have hsize := hpiece.size_eq
    rw [List.length_append] at hsize hturns
    obtain ⟨piece', pieces', hturn, hpiece', hpieces'⟩ :=
      hbody x List.mem_cons_self _ piece pieces urls hpiece hpieces
    cases turns with
    | zero => omega
    | succ turns =>
      obtain ⟨pieces'', hloop, hall⟩ :=
        ih (fun y hy => hbody y (List.mem_cons_of_mem x hy)) turns (by omega) hpiece' pieces' _ hpieces'
      refine ⟨pieces'', ?_, by rwa [List.flatMap_cons, ← List.append_assoc]⟩
      rw [whileNotEmpty, if_neg (by omega), hturn]
      exact hloop

theorem derElement_ne_nil (tag : UInt8) (content : List UInt8) : derElement tag content ≠ [] := List.cons_ne_nil _ _

theorem length_lt_of_mem_flatMap {α : Type} {encode : α → List UInt8} {xs : List α} {x : α} (hmem : x ∈ xs)
    (hlen : (xs.flatMap encode).length < 65536) : (encode x).length < 65536 :=
  lt_of_le_of_lt (List.Sublist.length_le (List.sublist_flatten_of_mem (List.mem_map_of_mem hmem))) (by
    rwa [List.flatMap_def] at hlen)

theorem length_lt_of_derElement {tag : UInt8} (h : (derElement tag content).length < 65536) : content.length < 65536 := by
  rw [← append_nil (derElement tag content)] at h
  exact (length_lt_of_derElement_append h).1

/-! ## General names -/

def GeneralName.urls (name : GeneralName) : List (List UInt8) := name.url?.toList

theorem flatMap_urls (names : List GeneralName) : names.flatMap GeneralName.urls = names.filterMap GeneralName.url? := by
  induction names with
  | nil => rfl
  | cons name names ih =>
    rw [List.flatMap_cons, List.filterMap_cons, ih, GeneralName.urls]
    cases name.url? <;> rfl

theorem generalNameTurn_encode {name : GeneralName} (hlen : name.encode.length < 65536)
    (hpiece : Points input piece (name.encode ++ rest)) (hpieces : PointsAll input pieces found) :
    ∃ piece' pieces', generalNameTurn input piece pieces = .ok (piece', pieces') ∧ Points input piece' rest ∧
      PointsAll input pieces' (found ++ name.urls) := by
  cases name with
  | uniformResourceIdentifier url =>
    obtain ⟨piece', out, hget, hpiece', hout⟩ := attempt_derElement hpiece (length_lt_of_derElement hlen) matches_uri
    exact ⟨piece', pieces ++ [out], by rw [generalNameTurn, hget]; rfl, hpiece', hpieces.concat hout⟩
  | other tag htag content =>
    have hother : tag.toNat ≠ (kContextSpecific ||| 6) &&& 0xff := fun heq => htag (UInt8.toNat_inj.1 heq)
    have hnone := attempt_absent hpiece (absent_derElement hother content rest) (by decide) (by decide)
    obtain ⟨piece', out, hget, hpiece', -⟩ :=
      getElement_derElement hpiece (length_lt_of_derElement hlen) (matches_any tag)
    refine ⟨piece', pieces, ?_, hpiece', by rwa [GeneralName.urls, GeneralName.url?, Option.toList_none, append_nil]⟩
    rw [generalNameTurn, hnone]
    change getElement input piece kAny >>= _ = _
    rw [hget]
    rfl

theorem adds_generalNames {names : List GeneralName} (hlen : (names.flatMap GeneralName.encode).length < 65536)
    (hpiece : Points input piece (names.flatMap GeneralName.encode)) :
    Adds input (names.filterMap GeneralName.url?) (whileNotEmpty (generalNameTurn input) piece.size piece) := by
  rw [← flatMap_urls]
  refine whileNotEmpty_flatMap names (fun name => ?_) (fun name hmem rest piece pieces urls => ?_) _
    hpiece.size_eq.ge hpiece
  · cases name <;> exact derElement_ne_nil _ _
  · exact generalNameTurn_encode (length_lt_of_mem_flatMap hmem hlen)

/-! ## Distribution points -/

theorem adds_distributionPoint {point : DistributionPoint} (hlen : point.content.length < 65536)
    (hpiece : Points input piece point.content) : Adds input point.urls (distributionPointURLs input piece) := by
  obtain ⟨name?, reasons?, cRLIssuer?⟩ := point
  obtain ⟨hname, hrestLen⟩ := length_lt_of_optionalElement_append hlen
  obtain ⟨hreasons, hissuerLen⟩ := length_lt_of_optionalElement_append hrestLen
  rw [← append_nil (optionalElement 0xA2 cRLIssuer?)] at hissuerLen
  obtain ⟨hissuer, -⟩ := length_lt_of_optionalElement_append hissuerLen
  unfold DistributionPoint.content at hpiece
  cases name? with
  | none =>
    -- Without a name the point is skipped.
    have habsent : Absent (kContextSpecific ||| kConstructed ||| 0)
        (optionalElement 0x81 reasons? ++ (optionalElement 0xA2 cRLIssuer? ++ [])) :=
      absent_optionalElement (by decide) _ (absent_optionalElement (by decide) _ (absent_nil _))
    rw [append_nil] at habsent
    have hnone := attempt_absent hpiece habsent (by decide) (by decide)
    unfold distributionPointURLs
    rw [hnone]
    exact adds_nil input
  | some name =>
    obtain ⟨piece₁, out, hget, hpiece₁, hout⟩ := attempt_derElement hpiece (hname _ rfl) matches_constructed0
    unfold distributionPointURLs
    rw [hget]
    cases reasons? with
    | some reasons =>
      obtain ⟨piece₂, out₂, hget₂, -, -⟩ := attempt_derElement hpiece₁ (hreasons _ rfl) matches_primitive1
      have hurls : DistributionPoint.urls ⟨some name, some reasons, cRLIssuer?⟩ = [] := by cases name <;> rfl
      rw [hurls]
      change Adds input [] fun pieces => attempt (getElement input piece₁ (kContextSpecific ||| 1)) >>= _
      rw [hget₂]
      exact adds_nil input
    | none =>
      have habsent : Absent (kContextSpecific ||| 1) (optionalElement 0xA2 cRLIssuer? ++ []) :=
        absent_optionalElement (by decide) _ (absent_nil _)
      rw [append_nil] at habsent
      have hnone := attempt_absent hpiece₁ habsent (by decide) (by decide)
      cases cRLIssuer? with
      | some cRLIssuer =>
        have hpiece₁' : Points input piece₁ (derElement 0xA2 cRLIssuer ++ []) := by rwa [append_nil]
        obtain ⟨piece₂, out₂, hget₂, -, -⟩ := attempt_derElement hpiece₁' (hissuer _ rfl) matches_constructed2
        have hurls : DistributionPoint.urls ⟨some name, none, some cRLIssuer⟩ = [] := by cases name <;> rfl
        rw [hurls]
        change Adds input [] fun pieces => attempt (getElement input piece₁ (kContextSpecific ||| 1)) >>= _
        rw [hnone]
        change Adds input [] fun pieces =>
          attempt (getElement input piece₁ (kContextSpecific ||| kConstructed ||| 2)) >>= _
        rw [hget₂]
        exact adds_nil input
      | none =>
        have hnone₂ := attempt_absent hpiece₁ (absent_nil (kContextSpecific ||| kConstructed ||| 2)) (by decide)
          (by decide)
        change Adds input _ fun pieces => attempt (getElement input piece₁ (kContextSpecific ||| 1)) >>= _
        rw [hnone]
        change Adds input _ fun pieces =>
          attempt (getElement input piece₁ (kContextSpecific ||| kConstructed ||| 2)) >>= _
        rw [hnone₂]
        change Adds input _ fun pieces => attempt (getElement input out (kContextSpecific ||| kConstructed ||| 0)) >>= _
        cases name with
        | fullName generalNames =>
          have hlen' : (generalNames.flatMap GeneralName.encode).length < 65536 :=
            length_lt_of_derElement (show (derElement 0xA0 _).length < 65536 from hname _ rfl)
          have hout' : Points input out (derElement 0xA0 (generalNames.flatMap GeneralName.encode) ++ []) := by
            rwa [append_nil]
          obtain ⟨left, names, hget₃, -, hnames⟩ := attempt_derElement hout' hlen' matches_constructed0
          rw [hget₃]
          exact adds_generalNames hlen' hnames
        | nameRelativeToCRLIssuer content =>
          have hout' : Points input out (derElement 0xA1 content ++ []) := by rwa [append_nil]
          have habsent₃ : Absent (kContextSpecific ||| kConstructed ||| 0) (derElement 0xA1 content ++ []) :=
            absent_derElement (by decide) content []
          rw [attempt_absent hout' habsent₃ (by decide) (by decide)]
          exact adds_nil input

theorem distributionPointTurn_encode {point : DistributionPoint} (hlen : point.encode.length < 65536)
    (hpiece : Points input piece (point.encode ++ rest)) (hpieces : PointsAll input pieces found) :
    ∃ piece' pieces', distributionPointTurn input piece pieces = .ok (piece', pieces') ∧ Points input piece' rest ∧
      PointsAll input pieces' (found ++ point.urls) := by
  have hlen' := length_lt_of_derElement hlen
  obtain ⟨piece', out, hget, hpiece', hout⟩ := getElement_derElement hpiece hlen' matches_sequence
  obtain ⟨pieces', hadds, hpieces'⟩ := adds_distributionPoint hlen' hout pieces found hpieces
  refine ⟨piece', pieces', ?_, hpiece', hpieces'⟩
  rw [distributionPointTurn, hget]
  change distributionPointURLs input out pieces >>= _ = _
  rw [hadds]
  rfl

/-! ## Extensions -/

theorem adds_distributionPoints {points : List DistributionPoint}
    (hlen : (points.flatMap DistributionPoint.encode).length < 65536)
    (hpiece : Points input piece (points.flatMap DistributionPoint.encode)) :
    Adds input (points.flatMap DistributionPoint.urls) (whileNotEmpty (distributionPointTurn input) piece.size piece) := by
  refine whileNotEmpty_flatMap points (fun point => derElement_ne_nil _ _) (fun point hmem rest piece pieces urls => ?_) _
    hpiece.size_eq.ge hpiece
  exact distributionPointTurn_encode (length_lt_of_mem_flatMap hmem hlen)

theorem skip_critical {critical : Option (List UInt8)} {value : List UInt8}
    (hcritical : ∀ content ∈ critical, content.length < 65536)
    (hpiece : Points input piece (optionalElement 0x01 critical ++ derElement 0x04 value)) :
    ∃ got, attempt (getElement input piece kBOOLEAN) = .ok got ∧
      Points input ((got.map Prod.fst).getD piece) (derElement 0x04 value ++ []) := by
  rw [append_nil]
  cases critical with
  | none =>
    have hpiece' : Points input piece (derElement 0x04 value ++ []) := by rwa [append_nil]
    exact ⟨none, attempt_absent hpiece' (absent_derElement (by decide) value []) (by decide) (by decide), hpiece⟩
  | some content =>
    obtain ⟨piece', out, hget, hpiece', -⟩ := attempt_derElement hpiece (hcritical content rfl) matches_boolean
    exact ⟨some (piece', out), hget, hpiece'⟩

theorem adds_extension {extension : Extension} (hlen : extension.content.length < 65536)
    (hpiece : Points input piece extension.content) :
    Adds input extension.value.urls (extensionURLs input piece) := by
  obtain ⟨critical, value⟩ := extension
  obtain ⟨hoidLen, hrestLen⟩ := length_lt_of_derElement_append hlen
  obtain ⟨hcritical, hvalueLen⟩ := length_lt_of_optionalElement_append hrestLen
  obtain ⟨piece₁, oid, hget, hpiece₁, hoid⟩ := getElement_derElement hpiece hoidLen matches_oid
  intro pieces found hpieces
  rw [extensionURLs, hget]
  change ∃ pieces', oid.equals input kCRLDistributionPointsOID >>= _ = _ ∧ _
  rw [hoid.equals]
  cases value with
  | other oid' hne value =>
    have hdiffers : decide ((ExtensionValue.other oid' hne value).oid = kCRLDistributionPointsOID) = false :=
      decide_eq_false hne
    rw [hdiffers]
    exact adds_nil input pieces found hpieces
  | crlDistributionPoints points =>
    have hsame : decide ((ExtensionValue.crlDistributionPoints points).oid = kCRLDistributionPointsOID) = true :=
      decide_eq_true rfl
    have hpointsLen := length_lt_of_derElement (length_lt_of_derElement hvalueLen)
    obtain ⟨got, hgot, hvalue⟩ := skip_critical hcritical hpiece₁
    obtain ⟨left, extensionValue, hget₂, -, hextensionValue⟩ :=
      getElement_derElement hvalue (length_lt_of_derElement hvalueLen) matches_octetString
    have hextensionValue' : Points input extensionValue (derElement 0x30 (points.flatMap DistributionPoint.encode) ++ []) := by
      rwa [append_nil]
    obtain ⟨left₂, distributionPoints, hget₃, -, hpoints⟩ :=
      getElement_derElement hextensionValue' hpointsLen matches_sequence
    obtain ⟨pieces', hloop, hpieces'⟩ := adds_distributionPoints hpointsLen hpoints pieces found hpieces
    refine ⟨pieces', ?_, hpieces'⟩
    rw [hsame]
    change attempt (getElement input piece₁ kBOOLEAN) >>= _ = _
    rw [hgot]
    change getElement input ((got.map Prod.fst).getD piece₁) kOCTETSTRING >>= _ = _
    rw [hget₂]
    change getElement input extensionValue kSEQUENCE >>= _ = _
    rw [hget₃]
    exact hloop

theorem extensionTurn_encode {extension : Extension} (hlen : extension.encode.length < 65536)
    (hpiece : Points input piece (extension.encode ++ rest)) (hpieces : PointsAll input pieces found) :
    ∃ piece' pieces', extensionTurn input piece pieces = .ok (piece', pieces') ∧ Points input piece' rest ∧
      PointsAll input pieces' (found ++ extension.value.urls) := by
  have hlen' := length_lt_of_derElement hlen
  obtain ⟨piece', out, hget, hpiece', hout⟩ := getElement_derElement hpiece hlen' matches_sequence
  obtain ⟨pieces', hadds, hpieces'⟩ := adds_extension hlen' hout pieces found hpieces
  refine ⟨piece', pieces', ?_, hpiece', hpieces'⟩
  rw [extensionTurn, hget]
  change extensionURLs input out pieces >>= _ = _
  rw [hadds]
  rfl

theorem adds_extensions {extensions : List Extension} (hlen : (extensions.flatMap Extension.encode).length < 65536)
    (hpiece : Points input piece (extensions.flatMap Extension.encode)) :
    Adds input (extensions.flatMap fun extension => extension.value.urls)
      (whileNotEmpty (extensionTurn input) piece.size piece) := by
  refine whileNotEmpty_flatMap extensions (fun extension => derElement_ne_nil _ _)
    (fun extension hmem rest piece pieces urls => ?_) _ hpiece.size_eq.ge hpiece
  exact extensionTurn_encode (length_lt_of_mem_flatMap hmem hlen)

/-! ## The certificate -/

variable {c : Certificate}

def Certificate.NoUniqueID (c : Certificate) : Prop := c.issuerUniqueID = none ∧ c.subjectUniqueID = none

instance Certificate.decidableNoUniqueID (c : Certificate) : Decidable c.NoUniqueID :=
  inferInstanceAs (Decidable (_ ∧ _))

/-- **The extensions are found where no unique identifier comes first.** -/
theorem getElement_extensions (hlen : c.behindSPKI.length < 65536) (hpiece : Points input piece c.behindSPKI) :
    ∃ left extensionsSeq,
      getElement input piece (kOptional ||| kConstructed ||| kContextSpecific ||| 3) = .ok (left, extensionsSeq) ∧
        Points input extensionsSeq (if c.NoUniqueID then
          (c.extensions.map fun extensions => derElement 0x30 (extensions.flatMap Extension.encode)).getD [] else []) := by
  have hnull : Absent (kOptional ||| kConstructed ||| kContextSpecific ||| 3) c.behindSPKI →
      getElement input piece (kOptional ||| kConstructed ||| kContextSpecific ||| 3) = .ok (piece, .null) := by
    intro habsent
    rw [getElement_absent hpiece habsent (by decide), if_pos (by decide)]
  by_cases hno : c.NoUniqueID
  · rw [if_pos hno]
    have hbytes : c.behindSPKI = c.encodeExtensions := by
      rw [Certificate.behindSPKI, hno.1, hno.2]
      rfl
    cases hextensions : c.extensions with
    | none =>
      have hempty : c.behindSPKI = [] := by
        rw [hbytes, Certificate.encodeExtensions, hextensions]
        rfl
      exact ⟨piece, .null, hnull (hempty ▸ absent_nil _), points_null input⟩
    | some extensions =>
      have hbytes' : c.behindSPKI = derElement 0xA3 (derElement 0x30 (extensions.flatMap Extension.encode)) ++ [] := by
        rw [hbytes, Certificate.encodeExtensions, hextensions, append_nil]
        rfl
      rw [hbytes'] at hpiece hlen
      obtain ⟨left, out, hget, -, hout⟩ :=
        getElement_derElement hpiece (length_lt_of_derElement_append hlen).1 matches_extensions
      exact ⟨left, out, hget, hout⟩
  · rw [if_neg hno]
    refine ⟨piece, .null, hnull ?_, points_null input⟩
    unfold Certificate.behindSPKI
    cases hissuer : c.issuerUniqueID with
    | some content => exact absent_derElement (by decide) content _
    | none =>
      cases hsubject : c.subjectUniqueID with
      | some content => exact absent_derElement (by decide) content _
      | none => exact absurd ⟨hissuer, hsubject⟩ hno

theorem absent_uniqueID (tagValue : ℕ) (h1 : (0x81 : UInt8).toNat ≠ tagValue &&& 0xff)
    (h2 : (0x82 : UInt8).toNat ≠ tagValue &&& 0xff) (h3 : (0xA3 : UInt8).toNat ≠ tagValue &&& 0xff) (c : Certificate) :
    Absent tagValue c.behindSPKI := by
  have hextensions : Absent tagValue (c.encodeExtensions ++ []) := absent_optionalElement h3 _ (absent_nil tagValue)
  rw [append_nil] at hextensions
  exact absent_optionalElement h1 _ (absent_optionalElement h2 _ hextensions)

/-- **The URLs are extracted, unless a unique identifier hides the extensions.** -/
theorem extractCRLURLsFromDERCert_encode (hfits : c.Fits) :
    ∃ pieces, extractCRLURLsFromDERCert c.encode = .ok pieces ∧
      PointsAll c.encode pieces (if c.NoUniqueID then c.crlURLs else []) := by
  obtain ⟨cert, hseek, hcert, hlen⟩ := seekToSPKI_encode hfits
  obtain ⟨hspkiLen, hbehindLen⟩ := length_lt_of_derElement_append hlen
  obtain ⟨p₁, hskip₁, hp₁⟩ := skipElements_derElement hcert hspkiLen matches_sequence tagsBeforeExtensions.tail
  have hskip₂ := skipElements_absent hp₁
    (absent_uniqueID (kOptional ||| kConstructed ||| kContextSpecific ||| 1) (by decide) (by decide) (by decide) c)
    (by decide) (by decide) [kOptional ||| kConstructed ||| kContextSpecific ||| 2]
  have hskip₃ := skipElements_absent hp₁
    (absent_uniqueID (kOptional ||| kConstructed ||| kContextSpecific ||| 2) (by decide) (by decide) (by decide) c)
    (by decide) (by decide) []
  have hskip : skipElements c.encode tagsBeforeExtensions cert = .ok p₁ := hskip₁.trans (hskip₂.trans hskip₃)
  obtain ⟨left, extensionsSeq, hget, hextensionsSeq⟩ := getElement_extensions hbehindLen hp₁
  have hrun : extractCRLURLsFromDERCert c.encode = if extensionsSeq.size = 0 then .ok []
      else getElement c.encode extensionsSeq kSEQUENCE >>= fun read =>
        whileNotEmpty (extensionTurn c.encode) read.2.size read.2 [] := by
    rw [extractCRLURLsFromDERCert, hseek]
    change skipElements c.encode tagsBeforeExtensions cert >>= _ = _
    rw [hskip]
    change getElement c.encode p₁ (kOptional ||| kConstructed ||| kContextSpecific ||| 3) >>= _ = _
    rw [hget]
    rfl
  have hnil : PointsAll c.encode [] [] := List.Forall₂.nil
  rw [hrun]
  by_cases hno : c.NoUniqueID
  · rw [if_pos hno] at hextensionsSeq ⊢
    unfold Certificate.crlURLs
    cases hextensions : c.extensions with
    | none =>
      rw [hextensions] at hextensionsSeq
      have hempty : extensionsSeq.size = 0 := hextensionsSeq.size_eq
      rw [if_pos hempty]
      exact ⟨[], rfl, hnil⟩
    | some extensions =>
      rw [hextensions, Option.map_some, Option.getD_some] at hextensionsSeq
      have hsome : extensionsSeq.size ≠ 0 := by
        rw [hextensionsSeq.size_eq]
        exact (List.length_pos_iff.2 (derElement_ne_nil _ _)).ne'
      have hextLen : (derElement 0x30 (extensions.flatMap Extension.encode)).length < 65536 := by
        unfold Certificate.behindSPKI at hbehindLen
        rw [hno.1, hno.2, Certificate.encodeExtensions, hextensions] at hbehindLen
        exact length_lt_of_derElement hbehindLen
      rw [← append_nil (derElement 0x30 (extensions.flatMap Extension.encode))] at hextensionsSeq
      obtain ⟨left₂, out, hget₂, -, hout⟩ :=
        getElement_derElement hextensionsSeq (length_lt_of_derElement hextLen) matches_sequence
      obtain ⟨pieces, hloop, hpieces⟩ := adds_extensions (length_lt_of_derElement hextLen) hout [] [] hnil
      rw [if_neg hsome, hget₂]
      exact ⟨pieces, hloop, hpieces⟩
  · rw [if_neg hno] at hextensionsSeq ⊢
    have hempty : extensionsSeq.size = 0 := hextensionsSeq.size_eq
    rw [if_pos hempty]
    exact ⟨[], rfl, hnil⟩

end Chromium.Net.Asn1
