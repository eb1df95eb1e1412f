import Chromium.Crypto.RsaPrivateKey
import Mathlib.Data.List.GetD
import Mathlib.Data.List.TakeWhile

/-!
# The integers that a key is written with

`PrependIntegerImpl` of `crypto/rsa_private_key.cc` goes up from the first byte and at the same time down from the last,
so it skips zeros only in the first half of an integer.  What it writes is an INTEGER of the same value, and one in
minimal form exactly where that is enough (`minimalContent_integerContent`).
-/

namespace Chromium.Crypto

open Lib

variable {val data rest : List UInt8} {n : ℕ}

variable (bigEndian : Bool)

/-! ## Zeros in front -/

def skipped (val : List UInt8) : ℕ := (PrivateKeyInfoCodec.skipZeros val val.length 0 val.length).1

/-- **The loop stops in the middle, or at a byte that is not zero.** -/
theorem skipZeros_spec (val : List UInt8) (turns start numBytes : ℕ) (hturns : numBytes ≤ start + turns) :
    ∃ j, PrivateKeyInfoCodec.skipZeros val turns start numBytes = (start + j, numBytes - j) ∧
      (∀ i, start ≤ i → i < start + j → val.getD i 0 = 0) ∧ (j = 0 ∨ start + j + j ≤ numBytes) ∧
      (numBytes - j ≤ start + j + 1 ∨ val.getD (start + j) 0 ≠ 0) := by
  induction turns generalizing start numBytes with
  | zero => exact ⟨0, rfl, fun i hle hlt => by omega, .inl rfl, .inl (by omega)⟩
  | succ turns ih =>
    rw [PrivateKeyInfoCodec.skipZeros]
    by_cases h : start + 1 < numBytes ∧ val.getD start 0 = 0
    · obtain ⟨j, hj, hzero, hhalf, hstop⟩ := ih (start + 1) (numBytes - 1) (by omega)
      refine ⟨j + 1, ?_, fun i hle hlt => ?_, .inr (by omega), ?_⟩
      · rw [if_pos h, hj, Nat.add_assoc, Nat.add_comm 1 j, Nat.sub_sub, Nat.add_comm 1 j]
      · by_cases hi : i = start
        · exact hi ▸ h.2
        · exact hzero i (by omega) (by omega)
      · rcases hstop with hstop | hstop
        · exact .inl (by omega)
        · exact .inr (by rwa [Nat.add_assoc, Nat.add_comm 1 j] at hstop)
    · refine ⟨0, if_neg h, fun i hle hlt => by omega, .inl rfl, ?_⟩
      rcases not_and_or.1 h with h | h
      · exact .inl (by omega)
      · exact .inr h

/-- **What is skipped**: zeros, at most half of the bytes, and all of them in that half. -/
structure Skips (val : List UInt8) (s : ℕ) : Prop where
  loop : PrivateKeyInfoCodec.skipZeros val val.length 0 val.length = (s, val.length - s)
  zero : ∀ i < s, val.getD i 0 = 0
  half : 2 * s ≤ val.length
  stop : val.length ≤ 2 * s + 1 ∨ val.getD s 0 ≠ 0

theorem skips_skipped (val : List UInt8) : Skips val (skipped val) := by
  obtain ⟨j, hj, hzero, hhalf, hstop⟩ := skipZeros_spec val val.length 0 val.length (by omega)
  rw [Nat.zero_add] at hj hzero hhalf hstop
  have hs : skipped val = j := by rw [skipped, hj]
  rw [hs]
  exact ⟨hj, fun i hi => hzero i (Nat.zero_le i) hi, by omega, hstop.imp (fun h => by omega) id⟩

theorem eq_replicate_append_drop {s : ℕ} (hle : s ≤ val.length) (hzero : ∀ i < s, val.getD i 0 = 0) :
    val = List.replicate s 0 ++ val.drop s := by
  have htake : val.take s = List.replicate s 0 := by
    rw [List.eq_replicate_iff]
    refine ⟨List.length_take_of_le hle, fun b hb => ?_⟩
    obtain ⟨i, hi, rfl⟩ := List.getElem_of_mem hb
    have hlt : i < s := lt_of_lt_of_le hi (List.length_take_le s val)
    rw [List.getElem_take, ← hzero i hlt, List.getD_eq_getElem _ _ (by omega)]
  conv_lhs => rw [← List.take_append_drop s val, htake]

theorem beNat_replicate_append (s : ℕ) (bytes : List UInt8) : beNat (List.replicate s 0 ++ bytes) = beNat bytes := by
  have hzero : beNat (List.replicate s 0) = 0 := by
    induction s with
    | zero => rfl
    | succ s ih => rw [List.replicate_succ', beNat_concat, ih]; rfl
  rw [beNat_append, hzero, Nat.zero_mul, Nat.zero_add]

/-! ## The content -/

/-- The content of an integer, from its bytes with the highest first: without what is skipped, and with a zero in front
if it would be negative. -/
def integerContent (val : List UInt8) : List UInt8 :=
  let content := val.drop (skipped val)
  if content.headD 0 &&& 0x80 ≠ 0 then 0 :: content else content

/-- **A content of no more bytes than it needs.** -/
def MinimalContent : List UInt8 → Prop
  | [] => False
  | [b] => b < 128
  | b :: b' :: _ => b < 128 ∧ (b = 0 → 128 ≤ b')

structure IsDerInteger (n : ℕ) (bytes : List UInt8) : Prop where
  exists_content : ∃ content length, bytes = kIntegerTag :: (length ++ content) ∧ IsDerLength content.length length ∧
    MinimalContent content ∧ beNat content = n

def FewZeros (val : List UInt8) : Prop :=
  (val.takeWhile (· = 0)).length ≤ val.length / 2 ∨ val.length ≤ 2 ∨ 128 ≤ val.getD (val.length / 2 + 1) 0

theorem high_ne_zero_iff (b : UInt8) : b &&& 0x80 ≠ 0 ↔ 128 ≤ b := by
  have hnat : ∀ n : Fin 256, n.val &&& 128 ≠ 0 ↔ 128 ≤ n.val := by decide +kernel
  rw [UInt8.le_iff_toNat_le, ← UInt8.toNat_inj.ne, UInt8.toNat_and]
  exact hnat ⟨b.toNat, b.toNat_lt⟩

theorem integerContent_eq {b : UInt8} {tail : List UInt8} (h : val.drop (skipped val) = b :: tail) :
    integerContent val = if 128 ≤ b then 0 :: b :: tail else b :: tail := by
  dsimp only [integerContent]
  rw [h, List.headD_cons]
  by_cases hb : 128 ≤ b
  · rw [if_pos hb, if_pos ((high_ne_zero_iff b).2 hb)]
  · rw [if_neg hb, if_neg ((high_ne_zero_iff b).not.2 hb)]

theorem drop_skipped_ne_nil (hne : val ≠ []) : val.drop (skipped val) ≠ [] := by
  have hpos := List.length_pos_iff.2 hne
  have hhalf := (skips_skipped val).half
  rw [← List.length_pos_iff, List.length_drop]
  omega

theorem beNat_integerContent (val : List UInt8) : beNat (integerContent val) = beNat val := by
  have hskips := skips_skipped val
  have hval : beNat (val.drop (skipped val)) = beNat val := by
    conv_rhs => rw [eq_replicate_append_drop (by have := hskips.half; omega) hskips.zero]
    rw [beNat_replicate_append]
  dsimp only [integerContent]
  split
  · rw [← hval]
    exact beNat_replicate_append 1 _
  · exact hval

theorem length_integerContent_le (val : List UInt8) : (integerContent val).length ≤ val.length + 1 := by
  dsimp only [integerContent]
  split
  · rw [List.length_cons, List.length_drop]
    omega
  · rw [List.length_drop]
    omega

theorem integerContent_ne_nil (hne : val ≠ []) : integerContent val ≠ [] := by
  dsimp only [integerContent]
  split
  · exact List.cons_ne_nil _ _
  · exact drop_skipped_ne_nil hne

theorem getD_takeWhile_length (h : (val.takeWhile (· = 0)).length < val.length) :
    val.getD (val.takeWhile (· = 0)).length 0 ≠ 0 := by
  induction val with
  | nil => exact nomatch h
  | cons b val ih =>
    rw [List.takeWhile_cons] at h ⊢
    by_cases hb : b = 0
    · rw [if_pos (by simpa using hb)] at h ⊢
      rw [List.length_cons] at h ⊢
      exact ih (Nat.lt_of_succ_lt_succ h)
    · rw [if_neg (by simpa using hb)]
      exact hb

theorem getD_of_lt_takeWhile_length {i : ℕ} (h : i < (val.takeWhile (· = 0)).length) : val.getD i 0 = 0 := by
  have hmem := List.getElem_mem h
  have hzero : (val.takeWhile (· = 0))[i] = 0 := by simpa using List.mem_takeWhile_imp hmem
  have hlt : i < val.length := lt_of_lt_of_le h (List.takeWhile_prefix _).length_le
  rw [List.getD_eq_getElem _ _ hlt, ← hzero]
  exact (List.IsPrefix.getElem (List.takeWhile_prefix _) h).symm

/-- **An integer is minimal exactly where the skipped zeros are enough.** -/
theorem minimalContent_integerContent (hne : val ≠ []) : MinimalContent (integerContent val) ↔ FewZeros val := by
  have hskips := skips_skipped val
  have hpos := List.length_pos_iff.2 hne
  obtain ⟨s, hs⟩ : ∃ s, s = skipped val := ⟨_, rfl⟩
  rw [← hs] at hskips
  have hhalf := hskips.half
  have hlt : s < val.length := by omega
  have hdrop : val.drop s = val.getD s 0 :: val.drop (s + 1) := by
    rw [List.getD_eq_getElem _ _ hlt, List.drop_eq_getElem_cons hlt]
  have hcontent : integerContent val =
      if 128 ≤ val.getD s 0 then 0 :: val.getD s 0 :: val.drop (s + 1) else val.getD s 0 :: val.drop (s + 1) :=
    integerContent_eq (hs ▸ hdrop)
  rw [hcontent]
  by_cases hzero : val.getD s 0 = 0
  · -- The loop stopped in the middle, at a zero.
    have hmid : val.length ≤ 2 * s + 1 := hskips.stop.resolve_right (not_not.2 hzero)
    have hs2 : s = val.length / 2 := by omega
    have hmany : s < (val.takeWhile (· = 0)).length := by
      by_contra hle
      rcases Nat.lt_or_ge (val.takeWhile (· = 0)).length val.length with h | h
      · rcases Nat.lt_or_ge (val.takeWhile (· = 0)).length s with h' | h'
        · exact getD_takeWhile_length h (hskips.zero _ h')
        · have heq : (val.takeWhile (· = 0)).length = s := le_antisymm (not_lt.1 hle) h'
          exact getD_takeWhile_length h (heq ▸ hzero)
      · omega
    rw [hzero, if_neg (by decide)]
    rw [FewZeros, ← hs2]
    rcases hrest : val.drop (s + 1) with - | ⟨b, tail⟩
    · have hshort : val.length ≤ s + 1 := List.drop_eq_nil_iff.1 hrest
      exact ⟨fun _ => .inr (.inl (by omega)), fun _ => show (0 : UInt8) < 128 by decide⟩
    · have hlen : s + 1 < val.length := by
        rw [← List.drop_eq_nil_iff.not.trans not_le, hrest]
        exact List.cons_ne_nil _ _
      have hb : val.getD (s + 1) 0 = b := by
        rw [List.getD_eq_getElem _ _ hlen]
        rw [List.drop_eq_getElem_cons hlen] at hrest
        exact (List.cons.inj hrest).1
      rw [hb]
      constructor
      · intro h
        exact .inr (.inr (h.2 rfl))
      · rintro (h | h | h)
        · omega
        · omega
        · exact ⟨by decide, fun _ => h⟩
  · -- The loop stopped at the first byte that is not zero.
    have hfew : FewZeros val := by
      refine .inl ?_
      by_contra hmany
      exact hzero (getD_of_lt_takeWhile_length (by omega))
    refine ⟨fun _ => hfew, fun _ => ?_⟩
    split
    · next hhigh => exact ⟨by decide, fun _ => hhigh⟩
    · next hlow =>
      have hlow' : val.getD s 0 < 128 := UInt8.not_le.1 hlow
      cases val.drop (s + 1) with
      | nil => exact hlow'
      | cons b tail => exact ⟨hlow', fun h => absurd h hzero⟩

/-! ## What is written -/

theorem prependLength_eq (hn : n < 4294967296) (data : List UInt8) :
    PrivateKeyInfoCodec.prependLength n data = derLength n ++ data := by
  have hor : ∀ k ≤ 4, (0x80 : UInt8) ||| UInt8.ofNat k = UInt8.ofNat (128 + k) := by decide
  unfold PrivateKeyInfoCodec.prependLength derLength
  split
  · rfl
  · rw [hor _ (length_minimalBytes_le (w := 4) hn)]
    rfl

theorem prependTypeHeaderAndLength_eq (type : UInt8) (n : ℕ) (data : List UInt8) :
    PrivateKeyInfoCodec.prependTypeHeaderAndLength type n data = type :: (derLength (n % 4294967296) ++ data) := by
  rw [PrivateKeyInfoCodec.prependTypeHeaderAndLength, prependLength_eq (Nat.mod_lt _ (by decide))]

def highestFirst (bigEndian : Bool) (val : List UInt8) : List UInt8 := if bigEndian then val else val.reverse

theorem length_highestFirst (val : List UInt8) : (highestFirst bigEndian val).length = val.length := by
  cases bigEndian with
  | true => rfl
  | false => exact List.length_reverse

theorem highestFirst_ne_nil (hne : val ≠ []) : highestFirst bigEndian val ≠ [] := by
  rw [← List.length_pos_iff, length_highestFirst]
  exact List.length_pos_iff.2 hne

theorem prependIntegerImpl_bigEndian (hne : val ≠ []) (hlen : val.length < 4294967295) (data : List UInt8) :
    PrivateKeyInfoCodec.prependIntegerImpl val data true =
      derElement kIntegerTag (integerContent val) ++ data := by
  have hskips := skips_skipped val
  obtain ⟨b, content, hcontent⟩ := List.exists_cons_of_ne_nil (drop_skipped_ne_nil hne)
  have hcount : val.length - skipped val = (b :: content).length := by
    rw [← hcontent, List.length_drop]
  have hsmall : (b :: content).length + 1 < 4294967296 := by
    rw [← hcount]
    omega
  dsimp only [PrivateKeyInfoCodec.prependIntegerImpl]
  rw [if_pos rfl, hskips.loop]
  dsimp only
  rw [hcontent, hcount, List.take_length, List.cons_append, List.headD_cons, integerContent_eq hcontent]
  by_cases hb : 128 ≤ b
  · rw [if_pos ((high_ne_zero_iff b).2 hb), if_pos hb, prependTypeHeaderAndLength_eq, Nat.mod_eq_of_lt hsmall, derElement]
    simp only [List.length_cons, List.cons_append, List.append_assoc]
  · rw [if_neg ((high_ne_zero_iff b).not.2 hb), if_neg hb, prependTypeHeaderAndLength_eq,
      Nat.mod_eq_of_lt (by omega), derElement]
    simp only [List.length_cons, List.cons_append, List.append_assoc]

theorem prependIntegerImpl_eq (hne : val ≠ []) (hlen : val.length < 4294967295) (data : List UInt8) :
    PrivateKeyInfoCodec.prependIntegerImpl val data bigEndian =
      derElement kIntegerTag (integerContent (highestFirst bigEndian val)) ++ data := by
  have hflag : PrivateKeyInfoCodec.prependIntegerImpl val data bigEndian =
      PrivateKeyInfoCodec.prependIntegerImpl (highestFirst bigEndian val) data true := by
    cases bigEndian with
    | true | false => rfl
  rw [hflag, prependIntegerImpl_bigEndian (highestFirst_ne_nil bigEndian hne) (by rwa [length_highestFirst])]

/-- **The INTEGER that is written is minimal exactly where the skipped zeros are enough.** -/
theorem isDerInteger_iff (hne : val ≠ []) (hlen : val.length < 4294967295) :
    IsDerInteger (beNat (highestFirst bigEndian val)) (PrivateKeyInfoCodec.prependIntegerImpl val [] bigEndian) ↔
      FewZeros (highestFirst bigEndian val) := by
  have hne' := highestFirst_ne_nil bigEndian hne
  have hshort : (integerContent (highestFirst bigEndian val)).length < 256 ^ 126 := by
    have hle := length_integerContent_le (highestFirst bigEndian val)
    rw [length_highestFirst] at hle
    have hfive : (integerContent (highestFirst bigEndian val)).length < 256 ^ 5 := by omega
    exact lt_of_lt_of_le hfive (Nat.pow_le_pow_right (by decide) (by decide))
  have hder := isDerLength_derLength hshort
  rw [prependIntegerImpl_eq bigEndian hne hlen, List.append_nil, ← minimalContent_integerContent hne', derElement]
  constructor
  · rintro ⟨content, length, heq, hlength, hminimal, -⟩
    rwa [hder.content_unique hlength rfl rfl (List.cons.inj heq).2]
  · intro hminimal
    exact ⟨_, _, rfl, hder, hminimal, beNat_integerContent _⟩

end Chromium.Crypto
