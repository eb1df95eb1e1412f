import Chromium.Lib.Der
import Chromium.Net.Base.Asn1Util

/-!
# Elements of a piece

`Points` says which bytes a piece stands for.  What `ParseElement` does is a matter of these: an element in DER of at most
65535 bytes is found where its tag is wanted (`parseElement_derElement`), and whatever is found is an element with its
length in as few bytes as possible (`parseElement_spec`).
-/

namespace Chromium.Net.Asn1

open Lib
open List (length_append length_cons length_nil)

variable {input bytes rest content : List UInt8} {piece : StringPiece} {tag : UInt8} {tagValue n : ℕ}

/-! ## The bytes of a piece -/

/-- **A piece of the input that stands for these bytes.** -/
structure Points (input : List UInt8) (piece : StringPiece) (bytes : List UInt8) : Prop where
  inside : piece.offset + piece.size ≤ input.length
  slice_eq : piece.slice input = bytes

theorem points_slice (h : piece.offset + piece.size ≤ input.length) : Points input piece (piece.slice input) := ⟨h, rfl⟩

theorem points_null (input : List UInt8) : Points input .null [] := ⟨Nat.zero_le _, List.take_zero⟩

theorem points_all (input : List UInt8) : Points input ⟨0, input.length⟩ input :=
  ⟨by rw [Nat.zero_add], by rw [StringPiece.slice, List.drop_zero, List.take_length]⟩

theorem Points.size_eq (h : Points input piece bytes) : piece.size = bytes.length := by
  have hinside := h.inside
  rw [← h.slice_eq, StringPiece.slice, List.length_take, List.length_drop]
  omega

theorem Points.read {i : ℕ} {b : UInt8} (h : Points input piece bytes) (hb : bytes[i]? = some b) :
    piece.read input i = .ok b := by
  have hlt : i < piece.size := by
    rw [h.size_eq]
    exact (List.getElem?_eq_some_iff.1 hb).1
  have hinput : input[piece.offset + i]? = some b := by
    rw [← hb, ← h.slice_eq, StringPiece.slice, List.getElem?_take_of_lt hlt, List.getElem?_drop]
  rw [StringPiece.read, hinput]

theorem Points.take {first second : List UInt8} (h : Points input piece (first ++ second)) :
    Points input ⟨piece.offset, first.length⟩ first := by
  have hsize := h.size_eq
  have hinside := h.inside
  rw [length_append] at hsize
  refine ⟨by dsimp only; omega, ?_⟩
  have htake := congrArg (List.take first.length) h.slice_eq
  rw [StringPiece.slice, List.take_take, List.take_left' rfl, Nat.min_eq_left (by omega)] at htake
  exact htake

theorem Points.removePrefix {first second : List UInt8} (h : Points input piece (first ++ second)) :
    Points input (piece.removePrefix first.length) second := by
  have hsize := h.size_eq
  have hinside := h.inside
  rw [length_append] at hsize
  refine ⟨by rw [StringPiece.removePrefix]; dsimp only; omega, ?_⟩
  have hdrop := congrArg (List.drop first.length) h.slice_eq
  rw [StringPiece.slice, List.drop_take, List.drop_drop, List.drop_left' rfl] at hdrop
  exact hdrop

theorem Points.equals {other : List UInt8} (h : Points input piece bytes) :
    piece.equals input other = .ok (decide (bytes = other)) := by
  unfold StringPiece.equals
  by_cases hsize : piece.size = other.length
  · rw [if_neg (not_not.2 hsize), if_pos h.inside, h.slice_eq]
  · rw [if_pos hsize, decide_eq_false]
    rintro rfl
    exact hsize h.size_eq

/-! ## Lengths -/

theorem eq_ofNat_of_high (b : UInt8) (h : b &&& 0x80 ≠ 0) : b = UInt8.ofNat (128 + (b &&& 0x7f).toNat) := by
  have hall : ∀ n : Fin 256, UInt8.ofNat n.val &&& 0x80 ≠ 0 →
      UInt8.ofNat n.val = UInt8.ofNat (128 + (UInt8.ofNat n.val &&& 0x7f).toNat) := by decide +kernel
  have hb := hall ⟨b.toNat, b.toNat_lt⟩
  rw [UInt8.ofNat_toNat] at hb
  exact hb h

theorem toNat_lt_of_low (b : UInt8) (h : b &&& 0x80 = 0) : b.toNat < 128 := by
  have hall : ∀ n : Fin 256, UInt8.ofNat n.val &&& 0x80 = 0 → n.val < 128 := by decide +kernel
  have hb := hall ⟨b.toNat, b.toNat_lt⟩
  rw [UInt8.ofNat_toNat] at hb
  exact hb h

theorem low_eq_zero {k : ℕ} (h : k < 128) : UInt8.ofNat k &&& 0x80 = 0 := by
  have hall : ∀ n : Fin 128, UInt8.ofNat n.val &&& 0x80 = 0 := by decide +kernel
  exact hall ⟨k, h⟩

theorem toBe_one (n : ℕ) : toBe 1 n = [UInt8.ofNat n] := rfl

theorem toBe_two (n : ℕ) : toBe 2 n = [UInt8.ofNat (n / 256), UInt8.ofNat n] := rfl

theorem toNat_ofNat_of_lt (h : n < 256) : (UInt8.ofNat n).toNat = n := by
  rw [UInt8.toNat_ofNat']
  exact Nat.mod_eq_of_lt h

theorem longForm_one {b₀ b₁ high : UInt8} (h : Points input piece (b₀ :: b₁ :: high :: rest)) :
    longForm input piece 1 = longLength 1 high.toNat := by
  have hroom : ¬piece.size < 2 + 1 := by
    rw [h.size_eq]
    simp only [length_cons]
    omega
  rw [longForm, if_neg (by decide), if_neg hroom, h.read (i := 2) rfl]
  rfl

theorem longForm_two {b₀ b₁ high low : UInt8} (h : Points input piece (b₀ :: b₁ :: high :: low :: rest)) :
    longForm input piece 2 =
      if high = 0 then .error .failed else longLength 2 (high.toNat * 256 + low.toNat) := by
  have hroom : ¬piece.size < 2 + 2 := by
    rw [h.size_eq]
    simp only [length_cons]
    omega
  rw [longForm, if_neg (by decide), if_neg hroom, h.read (i := 2) rfl, h.read (i := 3) rfl]
  rfl

theorem elementLength_eq {b₀ b₁ : UInt8} (h : Points input piece (b₀ :: b₁ :: rest)) :
    elementLength input piece =
      if b₁ &&& 0x80 = 0 then .ok (2, b₁.toNat + 2) else longForm input piece (b₁ &&& 0x7f).toNat := by
  rw [elementLength, h.read (i := 1) rfl]
  rfl

theorem derLength_of_lt_128 (h : n < 128) : derLength n = [UInt8.ofNat n] := if_pos h

theorem derLength_of_lt_256 (h : 128 ≤ n) (h' : n < 256) : derLength n = [0x81, UInt8.ofNat n] := by
  rw [derLength, if_neg (not_lt.2 h), minimalBytes_eq_toBe (w := 0) (by omega) h', toBe_one]
  rfl

theorem derLength_of_lt_65536 (h : 256 ≤ n) (h' : n < 65536) :
    derLength n = [0x82, UInt8.ofNat (n / 256), UInt8.ofNat n] := by
  rw [derLength, if_neg (by omega), minimalBytes_eq_toBe (w := 1) (by omega) h', toBe_two]
  rfl

theorem elementLength_derLength (h : Points input piece (tag :: (derLength n ++ rest))) (hn : n < 65536) :
    elementLength input piece = .ok (1 + (derLength n).length, 1 + (derLength n).length + n) := by
  by_cases hshort : n < 128
  · rw [derLength_of_lt_128 hshort] at h ⊢
    rw [elementLength_eq h, if_pos (low_eq_zero hshort), toNat_ofNat_of_lt (by omega), Nat.add_comm n 2]
    rfl
  · by_cases hone : n < 256
    · rw [derLength_of_lt_256 (not_lt.1 hshort) hone] at h ⊢
      rw [elementLength_eq h, if_neg (by decide)]
      change longForm input piece 1 = _
      rw [longForm_one h, toNat_ofNat_of_lt hone, longLength, if_neg hshort, Nat.add_comm n]
      rfl
    · rw [derLength_of_lt_65536 (not_lt.1 hone) hn] at h ⊢
      have hhigh : UInt8.ofNat (n / 256) ≠ 0 := by
        rw [ne_eq, ← UInt8.toNat_inj, toNat_ofNat_of_lt (by omega)]
        exact show n / 256 ≠ 0 by omega
      have hvalue : (UInt8.ofNat (n / 256)).toNat * 256 + (UInt8.ofNat n).toNat = n := by
        rw [toNat_ofNat_of_lt (by omega), UInt8.toNat_ofNat']
        omega
      rw [elementLength_eq h, if_neg (by decide)]
      change longForm input piece 2 = _
      rw [longForm_two h, if_neg hhigh, hvalue, longLength, if_neg hshort, Nat.add_comm n]
      rfl

/-- What a length that is read says about the bytes. -/
structure ReadsLength (bytes : List UInt8) (headerLen len : ℕ) : Prop where
  exists_length : ∃ tag length rest, bytes = tag :: (length ++ rest) ∧ headerLen = 1 + length.length ∧
    ∃ n, len = headerLen + n ∧ IsDerLength n length

theorem elementLength_ends (h : Points input piece bytes) (hsize : 2 ≤ piece.size) :
    Ends (· = Stop.failed) (fun read => ReadsLength bytes read.1 read.2) (elementLength input piece) := by
  rw [h.size_eq] at hsize
  rcases bytes with - | ⟨b₀, - | ⟨b₁, rest⟩⟩
  · exact absurd hsize (Nat.not_succ_le_zero 1)
  · exact absurd (Nat.le_of_succ_le_succ hsize) (Nat.not_succ_le_zero 0)
  rw [elementLength_eq h]
  by_cases hlow : b₁ &&& 0x80 = 0
  · rw [if_pos hlow]
    refine ⟨b₀, [b₁], rest, rfl, rfl, b₁.toNat, Nat.add_comm _ _, ?_⟩
    have hder := IsDerLength.short (toNat_lt_of_low b₁ hlow)
    rwa [UInt8.ofNat_toNat] at hder
  · rw [if_neg hlow]
    have hbyte := eq_ofNat_of_high b₁ hlow
    obtain ⟨numBytes, hnum⟩ : ∃ numBytes, numBytes = (b₁ &&& 0x7f).toNat := ⟨_, rfl⟩
    rw [← hnum] at hbyte ⊢
    by_cases hrange : numBytes = 0 ∨ 2 < numBytes
    · rw [longForm, if_pos hrange]
      rfl
    · by_cases hroom : piece.size < 2 + numBytes
      · rw [longForm, if_neg hrange, if_pos hroom]
        rfl
      · rw [h.size_eq] at hroom
        rcases rest with - | ⟨high, rest⟩
        · simp only [length_cons, length_nil] at hroom
          omega
        by_cases hone : numBytes = 1
        · subst hone
          rw [longForm_one h, longLength]
          split
          · rfl
          · next hlen =>
            refine ⟨b₀, [b₁, high], rest, rfl, rfl, high.toNat, Nat.add_comm _ _, ?_⟩
            have hder := IsDerLength.long (w := 0) (not_lt.1 hlen) (by decide) (by omega) high.toNat_lt
            rwa [toBe_one, UInt8.ofNat_toNat, ← hbyte] at hder
        · have htwo : numBytes = 2 := by omega
          subst htwo
          rcases rest with - | ⟨low, rest⟩
          · simp only [length_cons, length_nil] at hroom
            omega
          rw [longForm_two h]
          by_cases hzero : high = 0
          · rw [if_pos hzero]
            rfl
          · have hhigh : high.toNat ≠ 0 := fun heq => hzero (UInt8.toNat_inj.1 heq)
            have hlt := high.toNat_lt
            have hlt' := low.toNat_lt
            obtain ⟨n, hn⟩ : ∃ n, n = high.toNat * 256 + low.toNat := ⟨_, rfl⟩
            have hbytes : toBe 2 n = [high, low] := by
              have h1 : UInt8.ofNat (n / 256) = high := by
                rw [show n / 256 = high.toNat by omega, UInt8.ofNat_toNat]
              have h2 : UInt8.ofNat n = low := by
                rw [← UInt8.toNat_inj, UInt8.toNat_ofNat']
                omega
              rw [toBe_two, h1, h2]
            rw [if_neg hzero, ← hn, longLength, if_neg (by omega)]
            refine ⟨b₀, [b₁, high, low], rest, rfl, rfl, n, Nat.add_comm _ _, ?_⟩
            have hder := IsDerLength.long (n := n) (w := 1) (by omega) (by decide) (by omega) (by omega)
            rwa [hbytes, ← hbyte] at hder

/-! ## Elements -/

/-- A tag value that a tag matches, and that can be asked for. -/
structure Matches (tagValue : ℕ) (tag : UInt8) : Prop where
  tag_eq : tagValue = kAny ∨ tag.toNat = tagValue &&& 0xff
  not_both : ¬(tagValue &&& kAny ≠ 0 ∧ tagValue &&& kOptional ≠ 0)

/-- **What is parsed**: nothing, where that is allowed, or an element with its length in as few bytes as possible. -/
inductive Parsed (piece : StringPiece) (bytes : List UInt8) (tagValue : ℕ) : StringPiece × StringPiece × ℕ → Prop
  | absent (hoptional : tagValue &&& kOptional ≠ 0) : Parsed piece bytes tagValue (piece, .null, 0)
  | found {tag : UInt8} {length content rest : List UInt8} (hbytes : bytes = (tag :: (length ++ content)) ++ rest)
      (htag : Matches tagValue tag) (hder : IsDerLength content.length length) :
      Parsed piece bytes tagValue
        (piece.removePrefix (tag :: (length ++ content)).length, ⟨piece.offset, (tag :: (length ++ content)).length⟩,
          1 + length.length)

theorem parseElement_spec (h : Points input piece bytes) (tagValue : ℕ) :
    Ends (· = Stop.failed) (Parsed piece bytes tagValue) (parseElement input piece tagValue) := by
  unfold parseElement
  by_cases hboth : tagValue &&& kAny ≠ 0 ∧ tagValue &&& kOptional ≠ 0
  · rw [if_pos hboth]
    rfl
  · rw [if_neg hboth]
    by_cases hempty : piece.size = 0 ∧ tagValue &&& kOptional ≠ 0
    · rw [if_pos hempty]
      exact Parsed.absent hempty.2
    · rw [if_neg hempty]
      by_cases hshort : piece.size < 2
      · rw [if_pos hshort]
        rfl
      · have hlength := elementLength_ends h (not_lt.1 hshort)
        have hsize := h.size_eq
        rw [if_neg hshort]
        rcases bytes with - | ⟨b, rest⟩
        · rw [length_nil] at hsize
          omega
        rw [h.read (i := 0) rfl]
        change Ends _ _ (if tagValue ≠ kAny ∧ b.toNat ≠ tagValue &&& 0xff then _ else _)
        by_cases htag : tagValue ≠ kAny ∧ b.toNat ≠ tagValue &&& 0xff
        · rw [if_pos htag]
          by_cases hoptional : tagValue &&& kOptional ≠ 0
          · rw [if_pos hoptional]
            exact Parsed.absent hoptional
          · rw [if_neg hoptional]
            rfl
        · rw [if_neg htag]
          refine hlength.bind fun read hread => ?_
          obtain ⟨headerLen, len⟩ := read
          obtain ⟨tag, length, tail, hbytes, hheader, n, hlen, hder⟩ := hread.exists_length
          dsimp only at hheader hlen ⊢
          by_cases hroom : piece.size < len
          · rw [if_pos hroom]
            rfl
          · rw [if_neg hroom]
            have hlenTail : n ≤ tail.length := by
              rw [hbytes, length_cons, length_append] at hsize
              omega
            have hcontent : (tail.take n).length = n := List.length_take_of_le hlenTail
            have hsplit : b :: rest = (tag :: (length ++ tail.take n)) ++ tail.drop n := by
              rw [hbytes, List.cons_append, List.append_assoc, List.take_append_drop]
            have hlen' : len = (tag :: (length ++ tail.take n)).length := by
              rw [length_cons, length_append, hcontent]
              omega
            rw [hlen', hheader]
            refine Parsed.found hsplit ⟨?_, hboth⟩ (hcontent.symm ▸ hder)
            rw [← (List.cons.inj hbytes).1]
            rcases not_and_or.1 htag with htag | htag
            · exact .inl (not_not.1 htag)
            · exact .inr (not_not.1 htag)

theorem length_derElement_append (tag : UInt8) (content rest : List UInt8) :
    (derElement tag content ++ rest).length = 1 + (derLength content.length).length + content.length + rest.length := by
  rw [length_append, length_derElement]

theorem derLength_ne_nil (n : ℕ) : derLength n ≠ [] := by
  unfold derLength
  split <;> exact List.cons_ne_nil _ _

theorem parseElement_derElement (h : Points input piece (derElement tag content ++ rest))
    (hlen : content.length < 65536) (htag : Matches tagValue tag) :
    parseElement input piece tagValue =
      .ok (piece.removePrefix (derElement tag content).length, ⟨piece.offset, (derElement tag content).length⟩,
        1 + (derLength content.length).length) := by
  have hpos := List.length_pos_iff.2 (derLength_ne_nil content.length)
  have hsize := h.size_eq
  rw [length_derElement_append] at hsize
  have hread : piece.read input 0 = .ok tag := h.read rfl
  have hbytes : derElement tag content ++ rest = tag :: (derLength content.length ++ (content ++ rest)) := by
    rw [derElement, List.cons_append, List.append_assoc]
  have hwanted : ¬(tagValue ≠ kAny ∧ tag.toNat ≠ tagValue &&& 0xff) := fun hne =>
    htag.tag_eq.elim hne.1 hne.2
  rw [parseElement, if_neg htag.not_both, if_neg (fun hempty => by omega), if_neg (by omega), hread]
  change (if tagValue ≠ kAny ∧ tag.toNat ≠ tagValue &&& 0xff then _ else _) = _
  rw [if_neg hwanted, elementLength_derLength (hbytes ▸ h) hlen]
  change (if piece.size < 1 + (derLength content.length).length + content.length then _ else _) = _
  rw [if_neg (by omega), length_derElement]

/-- **The content of an element in DER is found, and what is behind it.** -/
theorem getElement_derElement (h : Points input piece (derElement tag content ++ rest))
    (hlen : content.length < 65536) (htag : Matches tagValue tag) :
    ∃ piece' out, getElement input piece tagValue = .ok (piece', out) ∧ Points input piece' rest ∧
      Points input out content := by
  have hheader : derElement tag content = (tag :: derLength content.length) ++ content := by
    rw [derElement, List.cons_append]
  have hout := h.take
  rw [hheader] at hout
  refine ⟨_, _, ?_, h.removePrefix, hout.removePrefix⟩
  rw [getElement, parseElement_derElement h hlen htag, hheader, length_cons, Nat.add_comm 1]
  rfl

def Absent (tagValue : ℕ) (bytes : List UInt8) : Prop :=
  bytes = [] ∨ ∃ tag content rest, bytes = derElement tag content ++ rest ∧ tag.toNat ≠ tagValue &&& 0xff

/-- **An element that is absent leaves the piece as it is**: nothing is returned, or that is the answer. -/
theorem getElement_absent (h : Points input piece bytes) (habsent : Absent tagValue bytes)
    (hany : tagValue &&& kAny = 0) :
    getElement input piece tagValue =
      if tagValue &&& kOptional ≠ 0 then .ok (piece, .null) else .error .failed := by
  have hne : tagValue ≠ kAny := by
    rintro rfl
    cases hany
  have hboth : ¬(tagValue &&& kAny ≠ 0 ∧ tagValue &&& kOptional ≠ 0) := fun hboth => hboth.1 hany
  have hsize := h.size_eq
  unfold getElement parseElement
  rw [if_neg hboth]
  rcases habsent with rfl | ⟨tag, content, rest, rfl, htag⟩
  · have hzero : piece.size = 0 := hsize
    by_cases hoptional : tagValue &&& kOptional ≠ 0
    · rw [if_pos ⟨hzero, hoptional⟩, if_pos hoptional]
      rfl
    · rw [if_neg (fun hempty => hoptional hempty.2), if_pos (by omega), if_neg hoptional]
      rfl
  · have hpos := List.length_pos_iff.2 (derLength_ne_nil content.length)
    have hread : piece.read input 0 = .ok tag := h.read rfl
    rw [length_derElement_append] at hsize
    rw [if_neg (fun hempty => by omega), if_neg (by omega), hread]
    change (if tagValue ≠ kAny ∧ tag.toNat ≠ tagValue &&& 0xff then _ else _) >>= _ = _
    rw [if_pos ⟨hne, htag⟩]
    by_cases hoptional : tagValue &&& kOptional ≠ 0
    · rw [if_pos hoptional, if_pos hoptional]
      rfl
    · rw [if_neg hoptional, if_neg hoptional]
      rfl

end Chromium.Net.Asn1
