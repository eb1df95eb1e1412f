import Chromium.Net.Base.Asn1CrlUrls

/-!
# Any bytes

Whatever the input is, a piece that is looked at lies inside it, each turn of a loop takes something off its piece, and
so the only error is that something failed.
-/

namespace Chromium.Net.Asn1

open Lib

variable {input : List UInt8} {piece : StringPiece} {α β : Type} {P : α → Prop} {Q : β → Prop}

def Inside (input : List UInt8) (piece : StringPiece) : Prop := piece.offset + piece.size ≤ input.length

/-- **A computation that stays inside the input and ends.** -/
abbrev Answers (P : α → Prop) : Except Stop α → Prop := Ends (· = Stop.failed) P

theorem inside_null (input : List UInt8) : Inside input .null := Nat.zero_le _

theorem Points.isInside {bytes : List UInt8} (h : Points input piece bytes) : Inside input piece := h.inside

/-- What is left of a piece, and the content of an element that was taken off. -/
structure TakesOff (input : List UInt8) (piece : StringPiece) (tagValue : ℕ) (read : StringPiece × StringPiece) : Prop where
  left : Inside input read.1
  content : Inside input read.2
  shorter : tagValue &&& kOptional = 0 → read.1.size < piece.size

theorem getElement_answers (h : Inside input piece) (tagValue : ℕ) :
    Answers (TakesOff input piece tagValue) (getElement input piece tagValue) := by
  have hpoints := points_slice h
  refine (parseElement_spec hpoints tagValue).bind fun read hread => ?_
  cases hread with
  | absent hoptional => exact ⟨h, inside_null input, fun hmandatory => absurd hmandatory hoptional⟩
  | @found tag length content rest hbytes htag hder =>
    have hsize := hpoints.size_eq
    have hinside : piece.offset + piece.size ≤ input.length := h
    rw [hbytes, List.length_append, List.length_cons, List.length_append] at hsize
    refine ⟨?_, ?_, fun _ => ?_⟩
    · dsimp only [Inside, StringPiece.removePrefix]
      rw [List.length_cons, List.length_append]
      omega
    · dsimp only [Inside, StringPiece.removePrefix]
      rw [List.length_cons, List.length_append]
      omega
    · dsimp only [StringPiece.removePrefix]
      rw [List.length_cons, List.length_append]
      omega

theorem attempt_answers {x : Except Stop α} (h : Answers P x) : Answers (fun got => ∀ a ∈ got, P a) (attempt x) := by
  cases x with
  | ok a => exact fun a' hmem => Option.mem_some.1 hmem ▸ h
  | error stop =>
    cases h
    exact fun a hmem => absurd hmem (Option.not_mem_none a)

theorem skipElements_answers (tagValues : List ℕ) (h : Inside input piece) :
    Answers (Inside input) (skipElements input tagValues piece) := by
  induction tagValues generalizing piece with
  | nil => exact h
  | cons tagValue tagValues ih => exact (getElement_answers h tagValue).bind fun read hread => ih hread.left

theorem seekToSPKI_answers (h : Inside input piece) : Answers (Inside input) (seekToSPKI input piece) := by
  refine (getElement_answers h kSEQUENCE).bind fun read hread => ?_
  change Answers _ (if read.1.size ≠ 0 then _ else _)
  split
  · rfl
  · exact (getElement_answers hread.content kSEQUENCE).bind fun read' hread' => skipElements_answers _ hread'.content

theorem whileNotEmpty_answers {body : StringPiece → β → Except Stop (StringPiece × β)}
    (hbody : ∀ piece s, Inside input piece → Q s →
      Answers (fun read => Inside input read.1 ∧ Q read.2 ∧ read.1.size < piece.size) (body piece s))
    (turns : ℕ) (s : β) (hturns : piece.size ≤ turns) (h : Inside input piece) (hs : Q s) :
    Answers Q (whileNotEmpty body turns piece s) := by
  induction turns generalizing piece s with
  | zero =>
    rw [whileNotEmpty, if_pos (Nat.le_zero.1 hturns)]
    exact hs
  | succ turns ih =>
    rw [whileNotEmpty]
    split
    · exact hs
    · refine (hbody piece s h hs).bind ?_
      intro read hread
      exact ih read.2 (by have := hread.2.2; omega) hread.1 hread.2.1

def AllInside (input : List UInt8) (pieces : List StringPiece) : Prop := ∀ piece ∈ pieces, Inside input piece

variable {pieces : List StringPiece}

theorem AllInside.concat (h : AllInside input pieces) (hpiece : Inside input piece) :
    AllInside input (pieces ++ [piece]) := by
  intro other hmem
  rcases List.mem_append.1 hmem with hmem | hmem
  · exact h other hmem
  · exact List.mem_singleton.1 hmem ▸ hpiece

/-- A turn of one of the three loops. -/
abbrev TurnAnswers (input : List UInt8) (body : StringPiece → List StringPiece → Except Stop (StringPiece × List StringPiece)) :
    Prop := ∀ piece pieces, Inside input piece → AllInside input pieces →
  Answers (fun read => Inside input read.1 ∧ AllInside input read.2 ∧ read.1.size < piece.size) (body piece pieces)

theorem generalNameTurn_answers (input : List UInt8) : TurnAnswers input (generalNameTurn input) := by
  intro piece pieces h hpieces
  refine (attempt_answers (getElement_answers h (kContextSpecific ||| 6))).bind fun got hgot => ?_
  cases got with
  | some read =>
    have hread := hgot read rfl
    exact ⟨hread.left, hpieces.concat hread.content, hread.shorter (by decide)⟩
  | none =>
    refine (getElement_answers h kAny).bind fun read hread => ?_
    exact ⟨hread.left, hpieces, hread.shorter (by decide)⟩

theorem distributionPointURLs_answers (h : Inside input piece) (hpieces : AllInside input pieces) :
    Answers (AllInside input) (distributionPointURLs input piece pieces) := by
  refine (attempt_answers (getElement_answers h _)).bind fun name? hname => ?_
  cases name? with
  | none => exact hpieces
  | some name =>
    have hname := hname name rfl
    refine (attempt_answers (getElement_answers hname.left _)).bind fun reasons? _ => ?_
    cases reasons? with
    | some reasons => exact hpieces
    | none =>
      refine (attempt_answers (getElement_answers hname.left _)).bind fun issuer? _ => ?_
      cases issuer? with
      | some issuer => exact hpieces
      | none =>
        refine (attempt_answers (getElement_answers hname.content _)).bind fun names? hnames => ?_
        cases names? with
        | none => exact hpieces
        | some names =>
          exact whileNotEmpty_answers (generalNameTurn_answers input) _ pieces le_rfl (hnames names rfl).content hpieces

theorem distributionPointTurn_answers (input : List UInt8) : TurnAnswers input (distributionPointTurn input) := by
  intro piece pieces h hpieces
  refine (getElement_answers h kSEQUENCE).bind fun read hread => ?_
  refine (distributionPointURLs_answers hread.content hpieces).bind fun pieces' hpieces' => ?_
  exact ⟨hread.left, hpieces', hread.shorter (by decide)⟩

theorem equals_answers (h : Inside input piece) (bytes : List UInt8) :
    Answers (fun _ => True) (piece.equals input bytes) := by
  rw [(points_slice h).equals]
  exact trivial

theorem extensionURLs_answers (h : Inside input piece) (hpieces : AllInside input pieces) :
    Answers (AllInside input) (extensionURLs input piece pieces) := by
  refine (getElement_answers h kOID).bind fun read hread => ?_
  refine (equals_answers hread.content kCRLDistributionPointsOID).bind fun isCRLDistributionPoints _ => ?_
  cases isCRLDistributionPoints with
  | false => exact hpieces
  | true =>
    refine (attempt_answers (getElement_answers hread.left kBOOLEAN)).bind fun critical? hcritical => ?_
    have hextension : Inside input ((critical?.map Prod.fst).getD read.1) := by
      cases critical? with
      | none => exact hread.left
      | some critical => exact (hcritical critical rfl).left
    refine (getElement_answers hextension kOCTETSTRING).bind fun value hvalue => ?_
    refine (getElement_answers hvalue.content kSEQUENCE).bind fun points hpoints => ?_
    exact whileNotEmpty_answers (distributionPointTurn_answers input) _ pieces le_rfl hpoints.content hpieces

theorem extensionTurn_answers (input : List UInt8) : TurnAnswers input (extensionTurn input) := by
  intro piece pieces h hpieces
  refine (getElement_answers h kSEQUENCE).bind fun read hread => ?_
  refine (extensionURLs_answers hread.content hpieces).bind fun pieces' hpieces' => ?_
  exact ⟨hread.left, hpieces', hread.shorter (by decide)⟩

theorem extractSPKIFromDERCert_answers (input : List UInt8) :
    Answers (Inside input) (extractSPKIFromDERCert input) := by
  refine (seekToSPKI_answers (points_all input).isInside).bind fun cert hcert => ?_
  have hpoints := points_slice hcert
  refine (parseElement_spec hpoints kSEQUENCE).bind fun read hread => ?_
  cases hread with
  | absent hoptional => exact inside_null input
  | @found tag length content rest hbytes htag hder =>
    have hsize := hpoints.size_eq
    have hinside : cert.offset + cert.size ≤ input.length := hcert
    rw [hbytes, List.length_append] at hsize
    exact show cert.offset + (tag :: (length ++ content)).length ≤ input.length by omega

theorem extractCRLURLsFromDERCert_answers (input : List UInt8) :
    Answers (AllInside input) (extractCRLURLsFromDERCert input) := by
  have hnil : AllInside input [] := fun piece hmem => nomatch hmem
  refine (seekToSPKI_answers (points_all input).isInside).bind fun cert hcert => ?_
  refine (skipElements_answers tagsBeforeExtensions hcert).bind fun cert' hcert' => ?_
  refine (getElement_answers hcert' _).bind fun read hread => ?_
  change Answers _ (if read.2.size = 0 then _ else _)
  split
  · exact hnil
  · refine (getElement_answers hread.content kSEQUENCE).bind fun read' hread' => ?_
    exact whileNotEmpty_answers (extensionTurn_answers input) _ [] le_rfl hread'.content hnil

/-! ## The two functions -/

/-- **What is extracted.**  Of a certificate, its SubjectPublicKeyInfo, and its URLs exactly where no unique identifier
hides them; of any bytes, pieces inside them; and no element with a length that is not minimal. -/
theorem extractFromDERCert_spec (c : Certificate) (input : List UInt8) (piece : StringPiece) (tagValue : ℕ) :
    (c.Fits → (∃ spki, extractSPKIFromDERCert c.encode = .ok spki ∧
        Points c.encode spki (derElement 0x30 c.subjectPublicKeyInfo)) ∧
      ((∃ pieces, extractCRLURLsFromDERCert c.encode = .ok pieces ∧ PointsAll c.encode pieces c.crlURLs) ↔
        c.NoUniqueID ∨ c.crlURLs = [])) ∧
    (Answers (Inside input) (extractSPKIFromDERCert input) ∧
      Answers (AllInside input) (extractCRLURLsFromDERCert input)) ∧
    (Inside input piece → Answers (Parsed piece (piece.slice input) tagValue) (parseElement input piece tagValue)) := by
  refine ⟨fun hfits => ⟨extractSPKIFromDERCert_encode hfits, ?_⟩,
    ⟨extractSPKIFromDERCert_answers input, extractCRLURLsFromDERCert_answers input⟩,
    fun h => parseElement_spec (points_slice h) tagValue⟩
  obtain ⟨pieces, hextract, hpieces⟩ := extractCRLURLsFromDERCert_encode hfits
  constructor
  · rintro ⟨pieces', hextract', hpieces'⟩
    rw [hextract] at hextract'
    cases hextract'
    by_cases hno : c.NoUniqueID
    · exact .inl hno
    · rw [if_neg hno] at hpieces
      exact .inr (hpieces'.unique hpieces)
  · intro hwhen
    refine ⟨pieces, hextract, ?_⟩
    rcases hwhen with hno | hnil
    · rwa [if_pos hno] at hpieces
    · rwa [hnil, ite_self, ← hnil] at hpieces

def smallCertificate (issuerUniqueID : Option (List UInt8)) : Certificate where
  version := some [0x02, 0x01, 0x02]
  serialNumber := [0x01]
  signature := []
  issuer := []
  validity := []
  subject := []
  subjectPublicKeyInfo := [0x03, 0x01, 0x00]
  issuerUniqueID := issuerUniqueID
  subjectUniqueID := none
  extensions := some [⟨none, .crlDistributionPoints [⟨some (.fullName [.uniformResourceIdentifier [0x68, 0x3a]]), none, none⟩]⟩]
  signatureAlgorithm := []
  signatureValue := [0x00]

theorem fits_smallCertificate : (smallCertificate none).Fits ∧ (smallCertificate (some [0x00, 0x2a])).Fits := by
  refine ⟨?_, ?_⟩
  · exact show (smallCertificate none).content.length < 65536 by decide
  · exact show (smallCertificate (some [0x00, 0x2a])).content.length < 65536 by decide

theorem extractFromDERCert_smallCertificate :
    ∃ pieces, extractCRLURLsFromDERCert (smallCertificate none).encode = .ok pieces ∧
      PointsAll (smallCertificate none).encode pieces [[0x68, 0x3a]] :=
  ((extractFromDERCert_spec (smallCertificate none) [] ⟨0, 0⟩ 0).1 fits_smallCertificate.1).2.mpr (.inl ⟨rfl, rfl⟩)

/-- **An identifier of the issuer hides the URL.** -/
theorem not_extractCRLURLsFromDERCert : ¬∀ c : Certificate, c.Fits →
      ∃ pieces, extractCRLURLsFromDERCert c.encode = .ok pieces ∧ PointsAll c.encode pieces c.crlURLs := by
  intro h
  obtain ⟨pieces, hextract, hpieces⟩ := extractCRLURLsFromDERCert_encode fits_smallCertificate.2
  obtain ⟨pieces', hextract', hpieces'⟩ := h _ fits_smallCertificate.2
  rw [hextract] at hextract'
  cases hextract'
  have hno : ¬(smallCertificate (some [0x00, 0x2a])).NoUniqueID := fun hno => Option.some_ne_none _ hno.1
  rw [if_neg hno] at hpieces
  exact List.cons_ne_nil _ _ (hpieces'.unique hpieces)

end Chromium.Net.Asn1
