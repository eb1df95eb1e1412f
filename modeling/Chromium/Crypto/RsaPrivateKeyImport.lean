import Chromium.Crypto.RsaPrivateKeyExport

/-!
# Importing an exported key

`Export` strips the zeros in front of an integer and adds one that keeps it positive.  `ReadIntegerImpl` drops one zero,
and `ReadIntegerWithExpectedSize` fills up what is missing to the expected size, so a key of the sizes `ReadInteger`
expects is read back byte for byte (`importKey_exportKey`), in both byte orders.
-/

namespace Chromium.Crypto

open Lib
open List (cons_append cons_ne_nil drop_left' length_append length_cons length_pos_iff nil_append
  take_left')

variable {val data rest : List UInt8} {n k : ℕ}

/-! ## Lengths -/

theorem toInt32_mod_le {length : ℕ} (h : n ≤ length) : toInt32 ((n % 4294967296 : ℕ) : ℤ) ≤ length := by
  unfold toInt32
  omega

/-- **A length that is written is read back**, also one that does not fit. -/
theorem readLength_derLength (hle : n ≤ data.length) (hne : data ≠ []) :
    readLength (derLength (n % 4294967296) ++ data) = some (n % 4294967296, data) := by
  obtain ⟨m, hm⟩ : ∃ m, m = n % 4294967296 := ⟨_, rfl⟩
  have hlt : m < 4294967296 := by omega
  have hmle : m ≤ data.length := by omega
  rw [← hm, derLength]
  by_cases hshort : m < 128
  · have hlow : UInt8.ofNat m &&& 0x80 = 0 := by
      rw [← not_not (a := UInt8.ofNat m &&& 0x80 = 0)]
      refine (high_ne_zero_iff _).not.2 ?_
      rw [UInt8.le_iff_toNat_le, UInt8.toNat_ofNat', Nat.mod_eq_of_lt (by omega)]
      exact not_le.2 hshort
    have hbyte : (UInt8.ofNat m).toNat = m := by
      rw [UInt8.toNat_ofNat']
      exact Nat.mod_eq_of_lt (by omega)
    rw [if_pos hshort, List.singleton_append, readLength, if_pos hlow, hbyte, if_pos hmle]
  · have hwidth : (minimalBytes m).length ≤ 4 := length_minimalBytes_le (w := 4) hlt
    have hhigh : ∀ k ≤ 4, UInt8.ofNat (128 + k) &&& 0x80 ≠ 0 := by decide
    have hlow : ∀ k ≤ 4, (UInt8.ofNat (128 + k) &&& 0x7F).toNat = k := by decide
    have hpos := length_pos_iff.2 hne
    have hmore : (minimalBytes m).length < (minimalBytes m ++ data).length := by
      rw [length_append]
      omega
    rw [if_neg hshort, cons_append, readLength, if_neg (hhigh _ hwidth)]
    dsimp only
    rw [hlow _ hwidth, if_pos ⟨hwidth, hmore⟩, take_left', drop_left' rfl, beNat_minimalBytes,
      if_pos (hm ▸ toInt32_mod_le hle)]
    rfl

theorem readTypeHeaderAndLength_derLength (tag : UInt8) (hle : n ≤ data.length) (hne : data ≠ []) :
    readTypeHeaderAndLength tag (tag :: (derLength (n % 4294967296) ++ data)) = some (n % 4294967296, data) := by
  rw [readTypeHeaderAndLength, if_pos rfl, readLength_derLength hle hne]

theorem readTypeHeaderAndLength_prepend (tag : UInt8) (hne : data ≠ []) :
    readTypeHeaderAndLength tag (PrivateKeyInfoCodec.prependTypeHeaderAndLength tag data.length data) =
      some (data.length % 4294967296, data) := by
  rw [prependTypeHeaderAndLength_eq]
  exact readTypeHeaderAndLength_derLength tag le_rfl hne

theorem readTypeHeaderAndLength_derElement (tag : UInt8) {content : List UInt8} (hne : content ≠ [])
    (hlen : content.length < 4294967296) (rest : List UInt8) :
    readTypeHeaderAndLength tag (derElement tag content ++ rest) = some (content.length, content ++ rest) := by
  have hle : content.length ≤ (content ++ rest).length := by
    rw [length_append]
    omega
  have hread := readTypeHeaderAndLength_derLength tag hle (List.append_ne_nil_of_left_ne_nil hne rest)
  rw [Nat.mod_eq_of_lt hlen] at hread
  rw [derElement, cons_append, List.append_assoc, hread]

/-! ## One integer -/

def stripZero : List UInt8 → List UInt8
  | [] => []
  | b :: rest => if b = 0 then rest else b :: rest

theorem readIntegerImpl_derElement {content : List UInt8} (hne : content ≠ []) (hlen : content.length < 4294967296)
    (rest out : List UInt8) (bigEndian : Bool) :
    readIntegerImpl (derElement kIntegerTag content ++ rest) out bigEndian =
      some (some (highestFirst bigEndian (out ++ stripZero content), rest)) := by
  rw [readIntegerImpl, readTypeHeaderAndLength_derElement kIntegerTag hne hlen]
  dsimp only
  rw [if_neg (length_pos_iff.2 hne).ne']
  cases content with
  | nil => exact absurd rfl hne
  | cons b tail =>
    rw [cons_append, stripZero]
    dsimp only
    by_cases hb : b = 0
    · have hfits : ¬(tail ++ rest).length < (b :: tail).length - 1 := by
        rw [length_append, length_cons]
        omega
      rw [if_pos hb, if_pos hb]
      dsimp only
      rw [if_neg hfits, length_cons, Nat.add_sub_cancel, take_left' rfl, drop_left' rfl]
      rfl
    · have hfits : ¬(b :: (tail ++ rest)).length < (b :: tail).length := by
        rw [length_cons, length_cons, length_append]
        omega
      rw [if_neg hb, if_neg hb]
      dsimp only
      rw [if_neg hfits, ← cons_append, take_left' rfl, drop_left' rfl]
      rfl

theorem replicate_append_stripZero (hne : val ≠ []) :
    ∃ pad, List.replicate pad 0 ++ stripZero (integerContent val) = val := by
  have hskips := skips_skipped val
  have hval := eq_replicate_append_drop (by have := hskips.half; omega) hskips.zero
  obtain ⟨b, tail, hdrop⟩ := List.exists_cons_of_ne_nil (drop_skipped_ne_nil hne)
  rw [hdrop] at hval
  rw [integerContent_eq hdrop]
  by_cases hhigh : 128 ≤ b
  · exact ⟨skipped val, by rw [if_pos hhigh, stripZero, if_pos rfl, ← hval]⟩
  · by_cases hb : b = 0
    · subst hb
      refine ⟨skipped val + 1, ?_⟩
      rw [if_neg hhigh, stripZero, if_pos rfl, List.replicate_succ', List.append_assoc, List.singleton_append, ← hval]
    · exact ⟨skipped val, by rw [if_neg hhigh, stripZero, if_neg hb, ← hval]⟩

theorem stripZero_integerContent (htop : val.headD 0 ≠ 0) : stripZero (integerContent val) = val := by
  cases val with
  | nil => exact absurd rfl htop
  | cons b tail =>
    have hhead : b ≠ 0 := htop
    obtain ⟨pad, hpad⟩ := replicate_append_stripZero (cons_ne_nil b tail)
    cases pad with
    | zero => exact hpad
    | succ pad =>
      rw [List.replicate_succ, cons_append] at hpad
      exact absurd (List.cons.inj hpad).1.symm hhead

def integerElement (bigEndian : Bool) (val : List UInt8) : List UInt8 :=
  derElement kIntegerTag (integerContent (highestFirst bigEndian val))

theorem highestFirst_highestFirst (bigEndian : Bool) (val : List UInt8) :
    highestFirst bigEndian (highestFirst bigEndian val) = val := by
  cases bigEndian with
  | true => rfl
  | false => exact List.reverse_reverse val

theorem readIntegerImpl_integerElement (be bigEndian : Bool) (hne : val ≠ []) (hlen : val.length < 2147483648)
    (rest out : List UInt8) :
    readIntegerImpl (integerElement be val ++ rest) out bigEndian =
      some (some (highestFirst bigEndian (out ++ stripZero (integerContent (highestFirst be val))), rest)) := by
  have hle := length_integerContent_le (highestFirst be val)
  rw [length_highestFirst] at hle
  exact readIntegerImpl_derElement (integerContent_ne_nil (highestFirst_ne_nil be hne)) (by omega) rest out bigEndian

theorem readInteger_integerElement {s : ImportState} (name : Component) (hfresh : s.codec.integers name = [])
    (htop : (highestFirst s.codec.bigEndian val).headD 0 ≠ 0) (hlen : val.length < 2147483648)
    (hdata : s.data = integerElement s.codec.bigEndian val ++ rest) :
    ∃ work, (Part.integer name).read s = some (true, ⟨rest, work, s.codec.set name val⟩) := by
  have hne : val ≠ [] := by
    rintro rfl
    cases hb : s.codec.bigEndian <;> rw [hb] at htop <;> exact htop rfl
  rw [Part.read, readInteger, hdata, hfresh, readIntegerImpl_integerElement _ _ hne hlen, nil_append,
    stripZero_integerContent htop, highestFirst_highestFirst]
  exact ⟨_, rfl⟩

theorem readIntegerWithExpectedSize_integerElement {s : ImportState} {name : Component}
    (hfresh : s.codec.integers name = []) (hne : val ≠ []) (hlen : val.length < 2147483648)
    (hdata : s.data = integerElement s.codec.bigEndian val ++ rest) :
    ∃ work, readIntegerWithExpectedSize name val.length s = some (true, ⟨rest, work, s.codec.set name val⟩) := by
  obtain ⟨pad, hpad⟩ := replicate_append_stripZero (highestFirst_ne_nil s.codec.bigEndian hne)
  obtain ⟨temp, htemp⟩ : ∃ temp, temp = stripZero (integerContent (highestFirst s.codec.bigEndian val)) := ⟨_, rfl⟩
  rw [← htemp] at hpad
  have hsize : pad + temp.length = val.length := by
    have := congrArg List.length hpad
    rwa [length_append, List.length_replicate, length_highestFirst] at this
  have hpad' : toInt32 ((val.length : ℤ) - temp.length) = pad := by
    rw [toInt32_of_mem (by omega) (by omega)]
    omega
  have hreads : readIntegerImpl s.data [] true = some (some (temp, rest)) := by
    rw [hdata, readIntegerImpl_integerElement _ _ hne hlen, nil_append, ← htemp]
    rfl
  have hother : ¬([] : List UInt8).length = (val.length + 1) % 18446744073709551616 := by
    rw [List.length_nil]
    omega
  rw [readIntegerWithExpectedSize, hreads]
  dsimp only [Option.bind_some]
  have hroom : ([] : List UInt8).length ≤ val.length := Nat.zero_le _
  rw [hfresh, if_neg hother, if_pos hroom, hpad', fill, if_neg (by omega), hfresh, Int.toNat_natCast,
    nil_append, hpad]
  dsimp only
  have hval : (if s.codec.bigEndian = true then highestFirst s.codec.bigEndian val
      else (highestFirst s.codec.bigEndian val).reverse) = val := highestFirst_highestFirst s.codec.bigEndian val
  rw [hval]
  exact ⟨_, rfl⟩

/-! ## The whole key -/

def componentSize (k : ℕ) : Component → ℕ
  | .modulus | .privateExponent => 2 * k
  | .publicExponent => 4
  | .prime1 | .prime2 | .exponent1 | .exponent2 | .coefficient => k

/-- **A key of the expected sizes.**  A size is an `int`, and the modulus has a top byte. -/
structure KeySizes (k : ℕ) (c : PrivateKeyInfoCodec) : Prop where
  isInt : 2 * k < 2147483648
  length_integers : ∀ name, (c.integers name).length = componentSize k name
  top : (highestFirst c.bigEndian (c.integers .modulus)).headD 0 ≠ 0

variable {c : PrivateKeyInfoCodec}

variable {s : ImportState}

theorem KeySizes.pos (h : KeySizes k c) : 0 < k := by
  have hlen := h.length_integers .modulus
  have htop := h.top
  by_contra hzero
  have hnil : c.integers .modulus = [] := List.eq_nil_of_length_eq_zero (by rw [hlen, componentSize]; omega)
  rw [hnil] at htop
  cases hb : c.bigEndian <;> rw [hb] at htop <;> exact htop rfl

theorem KeySizes.length_lt (h : KeySizes k c) (name : Component) : (c.integers name).length < 2147483648 := by
  have hint := h.isInt
  rw [h.length_integers]
  cases name <;> simp only [componentSize] <;> omega

theorem KeySizes.ne_nil (h : KeySizes k c) (name : Component) : c.integers name ≠ [] := by
  have hpos := h.pos
  rw [← length_pos_iff, h.length_integers]
  cases name <;> simp only [componentSize] <;> omega

def versionElement : List UInt8 := derElement kIntegerTag [0]

def componentElements (c : PrivateKeyInfoCodec) : List Component → List UInt8
  | [] => []
  | name :: names => integerElement c.bigEndian (c.integers name) ++ componentElements c names

def components : List Component :=
  [.modulus, .publicExponent, .privateExponent, .prime1, .prime2, .exponent1, .exponent2, .coefficient]

theorem prependInteger_version (c : PrivateKeyInfoCodec) (data : List UInt8) :
    c.prependInteger [0] data = versionElement ++ data := by
  rw [PrivateKeyInfoCodec.prependInteger, prependIntegerImpl_eq _ (cons_ne_nil _ _) (by decide)]
  cases c.bigEndian <;> rfl

theorem KeySizes.prependInteger (h : KeySizes k c) (name : Component) (data : List UInt8) :
    c.prependInteger (c.integers name) data = integerElement c.bigEndian (c.integers name) ++ data :=
  prependIntegerImpl_eq c.bigEndian (h.ne_nil name) (by have := h.length_lt name; omega) data

/-- `RSAPrivateKey`, without its header. -/
def privateKeyContent (c : PrivateKeyInfoCodec) : List UInt8 := versionElement ++ componentElements c components

/-- `RSAPrivateKey`. -/
def privateKey (c : PrivateKeyInfoCodec) : List UInt8 :=
  PrivateKeyInfoCodec.prependTypeHeaderAndLength kSequenceTag (privateKeyContent c).length (privateKeyContent c)

/-- `PrivateKeyInfo`, without its header. -/
def privateKeyInfoContent (c : PrivateKeyInfoCodec) : List UInt8 :=
  versionElement ++ (kRsaAlgorithmIdentifier ++
    PrivateKeyInfoCodec.prependTypeHeaderAndLength kOctetStringTag (privateKey c).length (privateKey c))

theorem KeySizes.exportKey_eq (h : KeySizes k c) :
    c.exportKey = PrivateKeyInfoCodec.prependTypeHeaderAndLength kSequenceTag (privateKeyInfoContent c).length
      (privateKeyInfoContent c) := by
  unfold PrivateKeyInfoCodec.exportKey
  simp only [h.prependInteger, prependInteger_version]
  rfl

theorem prependTypeHeaderAndLength_ne_nil (tag : UInt8) (n : ℕ) (data : List UInt8) :
    PrivateKeyInfoCodec.prependTypeHeaderAndLength tag n data ≠ [] := cons_ne_nil _ _

theorem versionElement_append_ne_nil (data : List UInt8) : versionElement ++ data ≠ [] := cons_ne_nil _ _

theorem readAll_cons {part : Part} {parts : List Part} {s' : ImportState} (h : part.read s = some (true, s')) :
    readAll (part :: parts) s = readAll parts s' := by
  rw [readAll, h]
  rfl

theorem readHeaderOnly_prepend (tag : UInt8) (hne : data ≠ [])
    (hdata : s.data = PrivateKeyInfoCodec.prependTypeHeaderAndLength tag data.length data) :
    ∃ work, (Part.header tag).read s = some (true, ⟨data, work, s.codec⟩) := by
  rw [Part.read, readHeaderOnly, hdata, readTypeHeaderAndLength_prepend tag hne]
  exact ⟨_, rfl⟩

theorem readVersion_versionElement (hdata : s.data = versionElement ++ rest) :
    ∃ work, Part.version.read s = some (true, ⟨rest, work, s.codec⟩) := by
  rw [Part.read, readVersion, hdata, versionElement, readTypeHeaderAndLength_derElement _ (cons_ne_nil _ _) (by decide)]
  exact ⟨_, rfl⟩

theorem readAlgorithmIdentifier_append (hne : rest ≠ [])
    (hdata : s.data = kRsaAlgorithmIdentifier ++ rest) :
    ∃ work, Part.algorithmIdentifier.read s = some (true, ⟨rest, work, s.codec⟩) := by
  have hpos := length_pos_iff.2 hne
  have hmore : kRsaAlgorithmIdentifier.length < (kRsaAlgorithmIdentifier ++ rest).length := by
    rw [length_append]
    omega
  rw [Part.read, readAlgorithmIdentifier, hdata, take_left' rfl, drop_left' rfl, if_pos ⟨hmore, rfl⟩]
  exact ⟨_, rfl⟩

def componentPart (k : ℕ) (name : Component) : Part := .integerWithExpectedSize name (componentSize k name)

theorem KeySizes.read_component (h : KeySizes k c) {name : Component} {names : List Component}
    (hendian : s.codec.bigEndian = c.bigEndian) (hfresh : s.codec.integers name = [])
    (hdata : s.data = componentElements c (name :: names)) :
    ∃ work, (componentPart k name).read s =
      some (true, ⟨componentElements c names, work, s.codec.set name (c.integers name)⟩) := by
  rw [componentPart, Part.read, ← h.length_integers]
  exact readIntegerWithExpectedSize_integerElement hfresh (h.ne_nil name) (h.length_lt name) (hendian ▸ hdata)

theorem KeySizes.read_components (h : KeySizes k c) (parts : List Part) (names : List Component) (hnodup : names.Nodup) (hendian : s.codec.bigEndian = c.bigEndian) (hfresh : ∀ name ∈ names, s.codec.integers name = [])
    (hdata : s.data = componentElements c names) :
    ∃ s', readAll (names.map (componentPart k) ++ parts) s = readAll parts s' ∧ s'.data = [] ∧
      s'.codec.bigEndian = c.bigEndian ∧
      ∀ name, s'.codec.integers name = if name ∈ names then c.integers name else s.codec.integers name := by
  induction names generalizing s with
  | nil => exact ⟨s, rfl, hdata, hendian, fun name => (if_neg List.not_mem_nil).symm⟩
  | cons name names ih =>
    obtain ⟨hnotMem, hnodup'⟩ := List.nodup_cons.1 hnodup
    obtain ⟨work, hread⟩ := h.read_component hendian (hfresh name List.mem_cons_self) hdata
    obtain ⟨s₁, hs₁⟩ : ∃ s₁ : ImportState,
      s₁ = ⟨componentElements c names, work, s.codec.set name (c.integers name)⟩ := ⟨_, rfl⟩
    have hset : ∀ other, s₁.codec.integers other =
        if other = name then c.integers name else s.codec.integers other := fun other => by
      rw [hs₁]
      exact Function.update_apply _ _ _ _
    have hfresh₁ : ∀ other ∈ names, s₁.codec.integers other = [] := fun other hmem => by
      rw [hset, if_neg (ne_of_mem_of_not_mem hmem hnotMem)]
      exact hfresh other (List.mem_cons_of_mem name hmem)
    obtain ⟨s', hrun, hend, hendian', hintegers⟩ := ih hnodup' (s := s₁) (by rw [hs₁]; exact hendian) hfresh₁ (by rw [hs₁])
    refine ⟨s', ?_, hend, hendian', fun other => ?_⟩
    · rw [List.map_cons, cons_append, readAll_cons (hs₁ ▸ hread), hrun]
    · rw [hintegers other]
      by_cases hmem : other ∈ names
      · rw [if_pos hmem, if_pos (List.mem_cons_of_mem name hmem)]
      · rw [if_neg hmem, hset]
        by_cases heq : other = name
        · rw [if_pos heq, if_pos (heq ▸ List.mem_cons_self), heq]
        · rw [if_neg heq, if_neg (List.mem_cons.not.2 (not_or.2 ⟨heq, hmem⟩))]

theorem componentParts_eq (hint : 2 * k < 2147483648) :
    componentParts (2 * k : ℕ) = components.tail.map (componentPart k) ++ [.atEnd] := by
  have hhalf : ((2 * k : ℕ) : ℤ).tdiv 2 = k := by
    rw [Int.tdiv_eq_ediv_of_nonneg (Int.natCast_nonneg _)]
    omega
  have hsize : ∀ n : ℕ, n < 2147483648 → sizeOfInt n = n := fun n hn => by
    unfold sizeOfInt
    omega
  rw [componentParts, hhalf, hsize _ hint, hsize k (by omega)]
  rfl

theorem KeySizes.read_modulusParts (h : KeySizes k c) :
    ∃ work, readAll modulusParts (.new (.new c.bigEndian) c.exportKey) =
      some (true, ⟨componentElements c components.tail, work,
        (PrivateKeyInfoCodec.new c.bigEndian).set .modulus (c.integers .modulus)⟩) := by
  have hbody : privateKeyContent c ≠ [] := versionElement_append_ne_nil _
  have hinfo : privateKeyInfoContent c ≠ [] := versionElement_append_ne_nil _
  have hkey : privateKey c ≠ [] := prependTypeHeaderAndLength_ne_nil _ _ _
  have hoctets := prependTypeHeaderAndLength_ne_nil kOctetStringTag (privateKey c).length (privateKey c)
  obtain ⟨w₁, h₁⟩ := readHeaderOnly_prepend (s := .new (.new c.bigEndian) c.exportKey) kSequenceTag hinfo h.exportKey_eq
  obtain ⟨w₂, h₂⟩ := readVersion_versionElement
    (s := ⟨privateKeyInfoContent c, w₁, .new c.bigEndian⟩) rfl
  obtain ⟨w₃, h₃⟩ := readAlgorithmIdentifier_append hoctets
    (s := ⟨kRsaAlgorithmIdentifier ++ PrivateKeyInfoCodec.prependTypeHeaderAndLength kOctetStringTag
      (privateKey c).length (privateKey c), w₂, .new c.bigEndian⟩) rfl
  obtain ⟨w₄, h₄⟩ := readHeaderOnly_prepend
    (s := ⟨PrivateKeyInfoCodec.prependTypeHeaderAndLength kOctetStringTag (privateKey c).length (privateKey c), w₃,
      .new c.bigEndian⟩) kOctetStringTag hkey rfl
  obtain ⟨w₅, h₅⟩ := readHeaderOnly_prepend (s := ⟨privateKey c, w₄, .new c.bigEndian⟩) kSequenceTag hbody rfl
  obtain ⟨w₆, h₆⟩ := readVersion_versionElement (s := ⟨privateKeyContent c, w₅, .new c.bigEndian⟩) rfl
  obtain ⟨w₇, h₇⟩ := readInteger_integerElement (s := ⟨componentElements c components, w₆, .new c.bigEndian⟩)
    .modulus rfl h.top (h.length_lt .modulus) rfl
  exact ⟨w₇, (readAll_cons h₁).trans ((readAll_cons h₂).trans ((readAll_cons h₃).trans ((readAll_cons h₄).trans
    ((readAll_cons h₅).trans ((readAll_cons h₆).trans ((readAll_cons h₇).trans rfl))))))⟩

theorem KeySizes.importKey_exportKey (h : KeySizes k c) :
    ∃ work, importKey (.new c.bigEndian) c.exportKey = some (true, ⟨[], work, c⟩) := by
  have hne : c.exportKey ≠ [] := by
    rw [h.exportKey_eq]
    exact prependTypeHeaderAndLength_ne_nil _ _ _
  obtain ⟨work, hmodulus⟩ := h.read_modulusParts
  obtain ⟨s, hs⟩ : ∃ s : ImportState, s = ⟨componentElements c components.tail, work,
    (PrivateKeyInfoCodec.new c.bigEndian).set .modulus (c.integers .modulus)⟩ := ⟨_, rfl⟩
  have hset : ∀ name, s.codec.integers name = if name = .modulus then c.integers .modulus else [] := fun name => by
    rw [hs]
    exact Function.update_apply _ _ _ _
  have hsize : modSize s.codec = (2 * k : ℕ) := by
    have hint := h.isInt
    rw [modSize, hset, if_pos rfl, h.length_integers, componentSize]
    exact toInt32_of_mem (by omega) (by omega)
  have heven : ((2 * k : ℕ) : ℤ).tmod 2 = 0 := by
    rw [Int.tmod_eq_emod_of_nonneg (Int.natCast_nonneg _)]
    omega
  obtain ⟨s', hrun, hend, hendian, hintegers⟩ := h.read_components [.atEnd] components.tail (by decide)
    (s := s) (by rw [hs]; rfl)
    (fun name hmem => by rw [hset, if_neg (by rintro rfl; exact nomatch hmem)]) (by rw [hs])
  have hcodec : s'.codec = c := by
    have hfun : s'.codec.integers = c.integers := funext fun name => by
      rw [hintegers, hset]
      by_cases hmem : name ∈ components.tail
      · rw [if_pos hmem]
      · have hname : name = .modulus := by
          cases name <;> first | rfl | exact absurd (by decide) hmem
        rw [if_neg hmem, if_pos hname, hname]
    cases hc : s'.codec with
    | mk be integers =>
      rw [hc] at hendian hfun
      cases c with
      | mk be' integers' => exact congrArg₂ PrivateKeyInfoCodec.mk hendian hfun
  have hatEnd : Part.atEnd.read s' = some (true, s') := by
    dsimp only [Part.read]
    rw [decide_eq_true hend]
  rw [importKey, if_neg hne, hmodulus, ← hs, Option.bind_some, if_pos rfl, hsize, if_neg (not_not.2 heven),
    componentParts_eq h.isInt, hrun, readAll_cons hatEnd, readAll]
  refine ⟨s'.work, ?_⟩
  rw [← hcodec, ← hend]

end Chromium.Crypto
