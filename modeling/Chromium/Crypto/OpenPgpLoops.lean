import Chromium.Crypto.OpenPgpCipher

/-!
# The loops over bytes

The key of a passphrase is the same for any array that is large enough, and what the feedback of a ciphertext does is undone
by the same feedback.
-/

namespace Chromium.Crypto.OpenPgp

variable {aes hash : List UInt8 → List UInt8} {mask data out combined hashed : List UInt8}
  {used count written turns i cipherKeyLength : ℕ}

/-! ## Arrays -/

theorem at'_of_lt (array : List UInt8) (i : ℕ) (h : i < array.length) : ∃ b, array[i]? = some b ∧ at' array i = .ok b := by
  refine ⟨_, List.getElem?_eq_getElem h, ?_⟩
  rw [at', List.getElem?_eq_getElem h]

theorem at'_of_eq_some {array : List UInt8} {b : UInt8} (h : array[i]? = some b) : at' array i = .ok b := by
  rw [at', h]

theorem setAt_of_lt {array : List UInt8} (b : UInt8) (h : i < array.length) : setAt array i b = .ok (array.set i b) :=
  if_pos h

/-! ## Keys -/

theorem exists_iterated (h : combined ≠ [] ∨ count = 0) (hturns : count - written < turns) :
    ∃ bytes, iterated combined count turns written = .ok bytes := by
  induction turns generalizing written with
  | zero => exact nomatch hturns
  | succ turns ih =>
    rw [iterated]
    by_cases hwritten : written < count
    · have hpos := List.length_pos_iff.2 (h.resolve_right (by omega))
      rw [if_pos hwritten]
      by_cases hlast : count < written + combined.length
      · obtain ⟨bytes, hbytes⟩ := ih (show count - count < turns by omega)
        rw [if_pos hlast, if_neg (by omega), hbytes]
        exact ⟨_, rfl⟩
      · obtain ⟨bytes, hbytes⟩ := ih (show count - (written + combined.length) < turns by omega)
        rw [if_neg hlast, hbytes]
        exact ⟨_, rfl⟩
    · exact ⟨[], if_neg hwritten⟩

/-- **The digests are enough for a key**, in any array that has room for it. -/
theorem exists_keyLoop (hhash : ∀ bytes, hash bytes ≠ []) (hashed : List UInt8) (i : ℕ) (key : List UInt8)
    (hkey : key.length ≤ cipherKeyLength)
    (hturns : cipherKeyLength - key.length < turns) :
    ∃ key', key'.length = cipherKeyLength ∧
      ∀ keySize, cipherKeyLength ≤ keySize → keyLoop hash cipherKeyLength keySize hashed turns i key = .ok key' := by
  induction turns generalizing i key with
  | zero => exact nomatch hturns
  | succ turns ih =>
    by_cases hmore : key.length < cipherKeyLength
    · have hpos := List.length_pos_iff.2 (hhash (List.replicate i 0 ++ hashed))
      have hlength : (key ++ (hash (List.replicate i 0 ++ hashed)).take
          (min (cipherKeyLength - key.length) (hash (List.replicate i 0 ++ hashed)).length)).length =
          key.length + min (cipherKeyLength - key.length) (hash (List.replicate i 0 ++ hashed)).length := by
        rw [List.length_append, List.length_take, Nat.min_assoc, Nat.min_self]
      obtain ⟨key', hlength', hkey'⟩ := ih (i + 1) _ (by rw [hlength]; omega) (by rw [hlength]; omega)
      refine ⟨key', hlength', fun keySize hsize => ?_⟩
      rw [keyLoop, if_pos hmore]
      dsimp only
      rw [if_neg (by omega)]
      exact hkey' keySize hsize
    · exact ⟨key, by omega, fun keySize _ => by rw [keyLoop, if_neg hmore]⟩

theorem exists_saltedIteratedS2K (hhash : ∀ bytes, hash bytes ≠ []) (cipherKeyLength : ℕ) (passphrase salt : List UInt8)
    (count : ℕ) (h : salt ++ passphrase ≠ [] ∨ count = 0) :
    ∃ key, key.length = cipherKeyLength ∧
      ∀ keySize, cipherKeyLength ≤ keySize → saltedIteratedS2K hash cipherKeyLength keySize passphrase salt count = .ok key := by
  obtain ⟨hashed, hhashed⟩ := exists_iterated h (show count - 0 < count + 2 by omega)
  obtain ⟨key, hlength, hkey⟩ := exists_keyLoop hhash hashed 0 [] (Nat.zero_le cipherKeyLength)
    (Nat.lt_succ_self cipherKeyLength)
  refine ⟨key, hlength, fun keySize hsize => ?_⟩
  rw [saltedIteratedS2K, hhashed]
  exact hkey keySize hsize

/-! ## Feedback -/

theorem exists_refill (haes : ∀ block, (aes block).length = blockSize) (hmask : mask.length = blockSize)
    (hused : used ≤ blockSize) :
    ∃ mask' used' m, refill aes mask used = (mask', used') ∧ mask'.length = blockSize ∧ used' < blockSize ∧
      mask'[used']? = some m := by
  have hblock : blockSize = 16 := rfl
  unfold refill
  by_cases hfull : used = blockSize
  · rw [if_pos hfull]
    have hlength := haes mask
    exact ⟨aes mask, 0, _, rfl, hlength, by omega, List.getElem?_eq_getElem (by omega)⟩
  · rw [if_neg hfull]
    exact ⟨mask, used, _, rfl, hmask, by omega, List.getElem?_eq_getElem (by omega)⟩

theorem xor_xor_cancel (b m : UInt8) : b ^^^ m ^^^ m = b := by
  rw [UInt8.xor_assoc, UInt8.xor_self, UInt8.xor_zero]

theorem decryptLoop_cons {size : ℕ} {b m : UInt8} {mask' : List UInt8} {used' : ℕ}
    (hrefill : refill aes mask used = (mask', used')) (hm : mask'[used']? = some m) (hroom : out.length < size) :
    decryptLoop aes size mask used (b :: data) out =
      decryptLoop aes size (mask'.set used' b) (used' + 1) data (out ++ [b ^^^ m]) := by
  obtain ⟨hlt, -⟩ := List.getElem?_eq_some_iff.1 hm
  rw [decryptLoop, hrefill]
  dsimp only
  rw [at'_of_eq_some hm]
  change (if size ≤ out.length then _ else setAt mask' used' b >>= _) = _
  rw [if_neg (Nat.not_le.2 hroom), setAt_of_lt b hlt]
  rfl

/-- **A ciphertext stays inside its buffers**, and there is one plaintext byte for each byte. -/
theorem exists_decryptLoop (haes : ∀ block, (aes block).length = blockSize) {size : ℕ} (data out : List UInt8)
    (hmask : mask.length = blockSize) (hused : used ≤ blockSize) (hsize : out.length + data.length ≤ size) :
    ∃ out', decryptLoop aes size mask used data out = .ok out' ∧ out'.length = out.length + data.length := by
  induction data generalizing mask used out with
  | nil => exact ⟨out, rfl, rfl⟩
  | cons b data ih =>
    rw [List.length_cons] at hsize
    obtain ⟨mask', used', m, hrefill, hmask', hused', hm⟩ := exists_refill haes hmask hused
    obtain ⟨out', hout', hlength⟩ := ih (out ++ [b ^^^ m])
      (show (mask'.set used' b).length = blockSize by rw [List.length_set]; exact hmask')
      (show used' + 1 ≤ blockSize from hused') (by rw [List.length_append, List.length_singleton]; omega)
    rw [decryptLoop_cons hrefill hm (by omega)]
    refine ⟨out', hout', ?_⟩
    rw [hlength, List.length_append, List.length_singleton, List.length_cons]
    omega

/-- **What was encrypted is decrypted**: both feed back the same bytes. -/
theorem exists_encryptLoop (haes : ∀ block, (aes block).length = blockSize) (data packet : List UInt8)
    (hmask : mask.length = blockSize) (hused : used ≤ blockSize) :
    ∃ ciphertext, encryptLoop aes mask used data packet = .ok (packet ++ ciphertext) ∧ ciphertext.length = data.length ∧
      ∀ size out, out.length + data.length ≤ size → decryptLoop aes size mask used ciphertext out = .ok (out ++ data) := by
  induction data generalizing mask used packet with
  | nil => exact ⟨[], by rw [List.append_nil]; rfl, rfl, fun size out _ => by rw [List.append_nil]; rfl⟩
  | cons b data ih =>
    obtain ⟨mask', used', m, hrefill, hmask', hused', hm⟩ := exists_refill haes hmask hused
    obtain ⟨ciphertext, hencrypt, hlength, hdecrypt⟩ := ih (packet ++ [b ^^^ m])
      (show (mask'.set used' (b ^^^ m)).length = blockSize by rw [List.length_set]; exact hmask')
      (show used' + 1 ≤ blockSize from hused')
    refine ⟨(b ^^^ m) :: ciphertext, ?_, ?_, fun size out hsize => ?_⟩
    · rw [encryptLoop, hrefill]
      dsimp only
      rw [at'_of_eq_some hm]
      change (setAt mask' used' (b ^^^ m) >>= _) = _
      rw [setAt_of_lt _ (by omega)]
      change encryptLoop aes (mask'.set used' (b ^^^ m)) (used' + 1) data (packet ++ [b ^^^ m]) = _
      rw [hencrypt, List.append_assoc, List.singleton_append]
    · rw [List.length_cons, List.length_cons, hlength]
    · rw [List.length_cons] at hsize
      rw [decryptLoop_cons hrefill hm (by omega), xor_xor_cancel,
        hdecrypt size (out ++ [b]) (by rw [List.length_append, List.length_singleton]; omega), List.append_assoc,
        List.singleton_append]

end Chromium.Crypto.OpenPgp
