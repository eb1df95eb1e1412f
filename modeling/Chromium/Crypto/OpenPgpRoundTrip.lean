import Chromium.Crypto.OpenPgpBounds
import Chromium.Crypto.OpenPgpLengths

/-!
# A plaintext comes back

What `Encrypt` writes is decrypted up to the literal data packet, if the length of the packet around it is read as it was
written, and the plaintext comes back if that of the literal data packet is too (`decrypt_encrypt_iff`).
-/

namespace Chromium.Crypto.OpenPgp

open Lib
open List (drop_left' length_append length_cons length_set take_left')

variable (P : Primitives) {aes : List UInt8 → List UInt8} {data literal : List UInt8} {random : Randomness}

/-! ## Ciphertexts -/

theorem zipWith_xor_cancel (a b : List UInt8) (h : a.length = b.length) :
    List.zipWith (· ^^^ ·) b (List.zipWith (· ^^^ ·) a b) = a := by
  induction a generalizing b with
  | nil =>
    cases b with
    | nil => rfl
    | cons y b => exact nomatch h.symm
  | cons x a ih =>
    cases b with
    | nil => exact nomatch h
    | cons y b =>
      rw [List.zipWith_cons_cons, List.zipWith_cons_cons, ih b (Nat.succ.inj h), UInt8.xor_comm x y, ← UInt8.xor_assoc,
        UInt8.xor_self, UInt8.zero_xor]

/-- The random bytes in front of a plaintext: their ciphertext, and the mask behind it. -/
structure Start (aes : List UInt8 → List UInt8) (random : Randomness) where
  block : List UInt8
  i₀ : UInt8
  i₁ : UInt8
  f₀ : UInt8
  f₁ : UInt8
  xor_eq : xorBlock random.iv (aes (List.replicate blockSize 0)) = .ok block
  length_block : block.length = blockSize
  xor_back : xorBlock (aes (List.replicate blockSize 0)) (block ++ [i₀ ^^^ f₀, i₁ ^^^ f₁]) = .ok random.iv
  i₀_eq : random.iv[blockSize - 2]? = some i₀
  i₁_eq : random.iv[blockSize - 1]? = some i₁
  f₀_eq : (aes block)[0]? = some f₀
  f₁_eq : (aes block)[1]? = some f₁

def Start.bytes (s : Start aes random) : List UInt8 := s.block ++ [s.i₀ ^^^ s.f₀, s.i₁ ^^^ s.f₁]

def Start.mask (s : Start aes random) : List UInt8 := ((aes s.block).set 0 (s.i₀ ^^^ s.f₀)).set 1 (s.i₁ ^^^ s.f₁)

theorem exists_start (haes : ∀ block, (aes block).length = blockSize) (random : Randomness) : Nonempty (Start aes random) := by
  have hblock : blockSize = 16 := rfl
  have hzero := haes (List.replicate blockSize 0)
  have hiv := random.length_iv
  obtain ⟨block, hxor, hlength⟩ := exists_xorBlock (a := random.iv) (b := aes (List.replicate blockSize 0)) (by omega) (by omega)
  have hfre := haes block
  obtain ⟨i₀, hi₀, -⟩ := at'_of_lt random.iv (blockSize - 2) (by omega)
  obtain ⟨i₁, hi₁, -⟩ := at'_of_lt random.iv (blockSize - 1) (by omega)
  obtain ⟨f₀, hf₀, -⟩ := at'_of_lt (aes block) 0 (by omega)
  obtain ⟨f₁, hf₁, -⟩ := at'_of_lt (aes block) 1 (by omega)
  refine ⟨⟨block, i₀, i₁, f₀, f₁, hxor, hlength, ?_, hi₀, hi₁, hf₀, hf₁⟩⟩
  rw [xorBlock, if_neg (by omega), List.take_of_length_le (by omega), List.take_of_length_le (by omega)] at hxor
  rw [xorBlock, if_neg (by rw [length_append]; omega), List.take_of_length_le (by omega), take_left' hlength,
    ← Except.ok.inj hxor, zipWith_xor_cancel _ _ (hiv.trans hzero.symm)]

theorem Start.length_bytes (s : Start aes random) : s.bytes.length = blockSize + 2 := by
  rw [bytes, length_append, s.length_block]
  rfl

theorem Start.length_mask (s : Start aes random) (haes : ∀ block, (aes block).length = blockSize) :
    s.mask.length = blockSize := by
  rw [mask, length_set, length_set, haes]

/-- **The random bytes are decrypted**, and the mask is that of the encryption. -/
theorem decryptPrefix_start (s : Start aes random) (haes : ∀ block, (aes block).length = blockSize) :
    decryptPrefix aes s.bytes = .ok (random.iv ++ [s.i₀, s.i₁], s.mask) := by
  have hblock : blockSize = 16 := rfl
  have hlength := s.length_block
  have hfre := haes s.block
  have hb₀ : s.bytes[blockSize]? = some (s.i₀ ^^^ s.f₀) := by
    rw [Start.bytes, List.getElem?_append_right (by omega), hlength, Nat.sub_self]
    rfl
  have hb₁ : s.bytes[blockSize + 1]? = some (s.i₁ ^^^ s.f₁) := by
    rw [Start.bytes, List.getElem?_append_right (by omega), hlength, Nat.add_sub_cancel_left]
    rfl
  have htake : s.bytes.take blockSize = s.block := take_left' hlength
  have hback : xorBlock (aes (List.replicate blockSize 0)) s.bytes = .ok random.iv := s.xor_back
  rw [decryptPrefix, hback]
  dsimp only
  rw [htake, at'_of_eq_some hb₀, at'_of_eq_some hb₁, at'_of_eq_some s.f₀_eq, at'_of_eq_some s.f₁_eq]
  change (at' random.iv (blockSize - 2) >>= fun p₀ => at' random.iv (blockSize - 1) >>= _) = _
  rw [at'_of_eq_some s.i₀_eq, at'_of_eq_some s.i₁_eq]
  change (if s.i₀ ≠ s.i₀ ^^^ s.f₀ ^^^ s.f₀ ∨ s.i₁ ≠ s.i₁ ^^^ s.f₁ ^^^ s.f₁ then fail
    else setAt (aes s.block) 0 (s.i₀ ^^^ s.f₀) >>= fun fre => setAt fre 1 (s.i₁ ^^^ s.f₁) >>= fun fre =>
      .ok (random.iv ++ [s.i₀ ^^^ s.f₀ ^^^ s.f₀, s.i₁ ^^^ s.f₁ ^^^ s.f₁], fre)) = _
  rw [xor_xor_cancel, xor_xor_cancel, if_neg (fun h => h.elim (fun h => h rfl) (fun h => h rfl)), setAt_of_lt _ (by omega)]
  change (setAt ((aes s.block).set 0 (s.i₀ ^^^ s.f₀)) 1 (s.i₁ ^^^ s.f₁) >>= _) = _
  rw [setAt_of_lt _ (by rw [length_set]; omega)]
  rfl

/-- The plaintext with the header of the Modification Detection Code, and the code. -/
def withMdc (literal iv : List UInt8) (i₀ i₁ : UInt8) : List UInt8 :=
  (literal ++ [0xd3, 20]) ++ P.sha1 (iv ++ [i₀, i₁] ++ (literal ++ [0xd3, 20]))

theorem length_withMdc (literal iv : List UInt8) (i₀ i₁ : UInt8) : (withMdc P literal iv i₀ i₁).length = literal.length + 22 := by
  have hsha1 : sha1Length = 20 := rfl
  have hpair : ([0xd3, 20] : List UInt8).length = 2 := rfl
  rw [withMdc, length_append, length_append, P.length_sha1, hpair]
  omega

theorem checkMdc_withMdc (literal iv : List UInt8) (i₀ i₁ : UInt8) :
    checkMdc P (iv ++ [i₀, i₁]) (withMdc P literal iv i₀ i₁) = .ok (literal ++ [0xd3, 20]) := by
  have hsha1 : sha1Length = 20 := rfl
  have hlength := length_withMdc P literal iv i₀ i₁
  have hpair : (literal ++ [0xd3, 20]).length = (withMdc P literal iv i₀ i₁).length - sha1Length := by
    have htwo : ([0xd3, 20] : List UInt8).length = 2 := rfl
    rw [length_append, htwo]
    omega
  have hb₀ : (withMdc P literal iv i₀ i₁)[(withMdc P literal iv i₀ i₁).length - sha1Length - 2]? = some 0xd3 := by
    rw [show (withMdc P literal iv i₀ i₁).length - sha1Length - 2 = literal.length by omega, withMdc, List.append_assoc,
      List.getElem?_append_right le_rfl, Nat.sub_self]
    rfl
  have hb₁ : (withMdc P literal iv i₀ i₁)[(withMdc P literal iv i₀ i₁).length - sha1Length - 1]? = some 0x14 := by
    rw [show (withMdc P literal iv i₀ i₁).length - sha1Length - 1 = literal.length + 1 by omega, withMdc, List.append_assoc,
      List.getElem?_append_right (Nat.le_add_right _ 1), Nat.add_sub_cancel_left]
    rfl
  have htake : (withMdc P literal iv i₀ i₁).take ((withMdc P literal iv i₀ i₁).length - sha1Length) =
      literal ++ [0xd3, 20] := take_left' hpair
  have hdrop : (withMdc P literal iv i₀ i₁).drop ((withMdc P literal iv i₀ i₁).length - sha1Length) =
      P.sha1 (iv ++ [i₀, i₁] ++ (literal ++ [0xd3, 20])) := drop_left' hpair
  rw [checkMdc, at'_of_eq_some hb₀, at'_of_eq_some hb₁]
  change (if (0xd3 : UInt8) ≠ 0xd3 ∨ (0x14 : UInt8) ≠ 0x14 then fail else _) = _
  rw [if_neg (by decide), htake, hdrop, if_neg (fun h => h rfl)]
  rfl

/-- **A ciphertext is decrypted** to what was encrypted and the header of the code. -/
theorem parseSymmetricallyEncrypted_written (s : Start aes random) (haes : ∀ block, (aes block).length = blockSize)
    (literal : List UInt8) :
    ∃ ciphertext, encryptLoop aes s.mask 2 (withMdc P literal random.iv s.i₀ s.i₁) (1 :: s.bytes) =
        .ok (1 :: (s.bytes ++ ciphertext)) ∧
      ciphertext.length = literal.length + 22 ∧
      parseSymmetricallyEncrypted P aes (1 :: (s.bytes ++ ciphertext)) = .ok (literal ++ [0xd3, 20]) := by
  have hlength := length_withMdc P literal random.iv s.i₀ s.i₁
  obtain ⟨ciphertext, hencrypt, hsize, hdecrypt⟩ := exists_encryptLoop haes (withMdc P literal random.iv s.i₀ s.i₁)
    (1 :: s.bytes) (s.length_mask haes) (show 2 ≤ blockSize by decide)
  refine ⟨ciphertext, hencrypt, hsize.trans hlength, ?_⟩
  have hlong : ¬ciphertext.length < sha1Length + 2 := by
    have hsha1 : sha1Length = 20 := rfl
    omega
  have htake : Reader.takePrefix (blockSize + 2) (s.bytes ++ ciphertext) = .ok (s.bytes, ciphertext) := by
    rw [Reader.takePrefix, if_neg (by rw [length_append, s.length_bytes]; omega), take_left' s.length_bytes,
      drop_left' s.length_bytes]
  rw [parseSymmetricallyEncrypted]
  change (if (1 : UInt8) ≠ 1 then fail else Reader.takePrefix (blockSize + 2) (s.bytes ++ ciphertext) >>= _) = _
  rw [if_neg (by decide), htake]
  change (decryptPrefix aes s.bytes >>= _) = _
  rw [decryptPrefix_start s haes]
  change (if ciphertext.length < sha1Length + 2 then fail
    else decryptLoop aes ciphertext.length s.mask 2 ciphertext [] >>= checkMdc P (random.iv ++ [s.i₀, s.i₁])) = _
  rw [if_neg hlong, hdecrypt ciphertext.length [] (by rw [List.length_nil]; omega), List.nil_append]
  exact checkMdc_withMdc P literal random.iv s.i₀ s.i₁

/-! ## Packets -/

def skeContents (random : Randomness) : List UInt8 := [4, 7, 3, 2] ++ random.salt ++ [96]

theorem length_skeContents (random : Randomness) : (skeContents random).length = 13 := by
  rw [skeContents, length_append, length_append, random.length_salt]
  rfl

/-- **A message that was written**: the context of its key, and the packets. -/
theorem exists_encrypt (hcreate : ∀ key : List UInt8, key.length = 16 → (P.createAESContext key).isSome)
    (plaintext passphrase : List UInt8) (random : Randomness) :
    ∃ aes body, encrypt P plaintext passphrase random =
        .ok (makePacket kSymmetricKeyEncryptedTag (skeContents random) ++ makePacket kSymmetricallyEncryptedTag body) ∧
      parseSymmetricKeyEncrypted P passphrase (skeContents random) = .ok aes ∧
      body.length = (serializeLiteralData plaintext).length + 41 ∧
      parseSymmetricallyEncrypted P aes body = .ok (serializeLiteralData plaintext ++ [0xd3, 20]) := by
  have hsalt : random.salt ++ passphrase ≠ [] :=
    List.append_ne_nil_of_left_ne_nil (List.ne_nil_of_length_pos (by rw [random.length_salt]; decide)) _
  obtain ⟨key, hkeyLength, hkey⟩ := exists_saltedIteratedS2K (sha1_ne_nil P) 16 passphrase random.salt 65536
    (.inl hsalt)
  obtain ⟨aes, hcontext⟩ := Option.isSome_iff_exists.1 (hcreate key hkeyLength)
  have haes : ∀ block, (aes block).length = blockSize := fun block => P.length_encrypt key aes block hcontext
  have hfor : contextFor P key = .ok aes := by rw [contextFor, hcontext]
  obtain ⟨s⟩ := exists_start haes random
  obtain ⟨ciphertext, hloop, hlength, hparse⟩ := parseSymmetricallyEncrypted_written P s haes (serializeLiteralData plaintext)
  refine ⟨aes, 1 :: (s.bytes ++ ciphertext), ?_, ?_, ?_, hparse⟩
  · rw [encrypt, serializeSymmetricKeyEncrypted, hkey 16 le_rfl]
    change (serializeSymmetricallyEncrypted P (serializeLiteralData plaintext) key random >>= _) = _
    rw [serializeSymmetricallyEncrypted, hfor]
    change ((xorBlock random.iv (aes (List.replicate blockSize 0)) >>= _) >>= _) = _
    rw [s.xor_eq]
    change ((at' random.iv (blockSize - 2) >>= fun i₀ => at' random.iv (blockSize - 1) >>= fun i₁ =>
      at' (aes s.block) 0 >>= fun f₀ => at' (aes s.block) 1 >>= _) >>= _) = _
    rw [at'_of_eq_some s.i₀_eq, at'_of_eq_some s.i₁_eq, at'_of_eq_some s.f₀_eq, at'_of_eq_some s.f₁_eq]
    change ((setAt (aes s.block) 0 (s.i₀ ^^^ s.f₀) >>= fun fre => setAt fre 1 (s.i₁ ^^^ s.f₁) >>= fun fre =>
      encryptLoop aes fre 2 (withMdc P (serializeLiteralData plaintext) random.iv s.i₀ s.i₁) (1 :: s.bytes) >>= _) >>= _) = _
    have hblock : blockSize = 16 := rfl
    have hfre := haes s.block
    rw [setAt_of_lt _ (by omega)]
    change ((setAt ((aes s.block).set 0 (s.i₀ ^^^ s.f₀)) 1 (s.i₁ ^^^ s.f₁) >>= fun fre =>
      encryptLoop aes fre 2 (withMdc P (serializeLiteralData plaintext) random.iv s.i₀ s.i₁) (1 :: s.bytes) >>= _) >>= _) = _
    rw [setAt_of_lt _ (by rw [length_set]; omega)]
    change ((encryptLoop aes s.mask 2 (withMdc P (serializeLiteralData plaintext) random.iv s.i₀ s.i₁) (1 :: s.bytes) >>= _)
      >>= _) = _
    rw [hloop]
    rfl
  · have htake : Reader.takePrefix 8 (random.salt ++ [96]) = .ok (random.salt, [96]) := by
      rw [Reader.takePrefix, if_neg (by rw [length_append, random.length_salt]; omega),
        take_left' random.length_salt, drop_left' random.length_salt]
    rw [parseSymmetricKeyEncrypted]
    change ((Reader.takePrefix 8 (random.salt ++ [96]) >>= _) >>= _) = _
    rw [htake]
    change ((saltedIteratedS2K P.sha1 16 32 passphrase random.salt 65536 >>= _) >>= _) = _
    rw [hkey 32 (by decide)]
    change (contextFor P key >>= _) = _
    rw [hfor]
    rfl
  · rw [length_cons, length_append, s.length_bytes, hlength]
    have hblock : blockSize = 16 := rfl
    omega

theorem parsePacket_of_readable {charIsSigned : Bool} {tag : ℕ} (htag : tag < 64) {contents : List UInt8}
    (hsize : contents.length < 4294967296) (h : Readable charIsSigned contents.length) (rest : List UInt8) :
    parsePacket charIsSigned (makePacket tag contents ++ rest) = .ok ((tag, contents), rest) := by
  rw [parsePacket_makePacket htag, readLength_of_readable h hsize, if_neg (by omega), take_left' rfl,
    drop_left' rfl]

theorem length_serializeLiteralData (plaintext : List UInt8) :
    (serializeLiteralData plaintext).length = plaintext.length + 7 +
      if plaintext.length + 6 < 192 then 1 else if plaintext.length + 6 < 8384 then 2 else 5 := by
  have hcontents : ([0x74, 0, 0, 0, 0, 0] ++ plaintext).length = plaintext.length + 6 := by
    rw [length_append]
    exact Nat.add_comm _ _
  rw [serializeLiteralData, makePacket, length_cons, length_append, hcontents, lengthHeader]
  split
  · rw [List.length_singleton]
    omega
  · split
    · rw [length_cons, List.length_singleton]
      omega
    · rw [length_cons, length_cons, length_cons, length_cons, List.length_singleton]
      omega

theorem parseLiteralData_append (data : List UInt8) : parseLiteralData ([0x74, 0, 0, 0, 0, 0] ++ data) = .ok data := by
  rw [parseLiteralData]
  change (Reader.skip 0 ([0, 0, 0, 0] ++ data) >>= Reader.skip 4) = _
  rw [Reader.skip, if_neg (Nat.not_lt_zero _)]
  change Reader.skip 4 ([0, 0, 0, 0] ++ data) = _
  rw [Reader.skip, if_neg (by rw [length_append]; exact Nat.not_lt.2 (Nat.le_add_right 4 _))]
  rfl

/-- **The packet around the plaintext is found** where its length is read as it was written, and else nothing is. -/
theorem decrypt_written {passphrase ske body literal : List UInt8}
    (hske : ske.length = 13) (haes : parseSymmetricKeyEncrypted P passphrase ske = .ok aes)
    (hbody : parseSymmetricallyEncrypted P aes body = .ok literal) (hsize : body.length < 4294967296) :
    (Readable P.charIsSigned body.length →
      decrypt P (makePacket kSymmetricKeyEncryptedTag ske ++ makePacket kSymmetricallyEncryptedTag body) passphrase =
        parsePacket P.charIsSigned literal >>= fun read =>
          if read.1.1 = kCompressedTag then .error (.refused .compressed)
          else if read.1.1 ≠ kLiteralDataTag then .error (.refused .notSymmetricallyEncrypted)
          else parseLiteralData read.1.2) ∧
    (¬Readable P.charIsSigned body.length →
      decrypt P (makePacket kSymmetricKeyEncryptedTag ske ++ makePacket kSymmetricallyEncryptedTag body) passphrase = fail) := by
  have hfirst : parsePacket P.charIsSigned
      (makePacket kSymmetricKeyEncryptedTag ske ++ makePacket kSymmetricallyEncryptedTag body) =
        .ok ((kSymmetricKeyEncryptedTag, ske), makePacket kSymmetricallyEncryptedTag body) :=
    parsePacket_of_readable (by decide) (by omega) (.inl (by omega)) _
  have hdecrypt : decrypt P (makePacket kSymmetricKeyEncryptedTag ske ++ makePacket kSymmetricallyEncryptedTag body) passphrase =
      parsePacket P.charIsSigned (makePacket kSymmetricallyEncryptedTag body ++ []) >>= fun read =>
        if read.1.1 ≠ kSymmetricallyEncryptedTag then .error (.refused .notSymmetricallyEncrypted)
        else if read.2 ≠ [] then fail
        else parseSymmetricallyEncrypted P aes read.1.2 >>= fun contents =>
          parsePacket P.charIsSigned contents >>= fun read =>
            if read.1.1 = kCompressedTag then .error (.refused .compressed)
            else if read.1.1 ≠ kLiteralDataTag then .error (.refused .notSymmetricallyEncrypted)
            else parseLiteralData read.1.2 := by
    rw [List.append_nil, decrypt, hfirst]
    change (if kSymmetricKeyEncryptedTag ≠ kSymmetricKeyEncryptedTag then .error (.refused .notSymmetricallyEncrypted)
      else parseSymmetricKeyEncrypted P passphrase ske >>= _) = _
    rw [if_neg (fun h => h rfl), haes]
    rfl
  rw [hdecrypt]
  constructor
  · intro hreadable
    rw [parsePacket_of_readable (by decide) hsize hreadable]
    change (if kSymmetricallyEncryptedTag ≠ kSymmetricallyEncryptedTag then .error (.refused .notSymmetricallyEncrypted)
      else if ([] : List UInt8) ≠ [] then fail else parseSymmetricallyEncrypted P aes body >>= _) = _
    rw [if_neg (fun h => h rfl), if_neg (fun h => h rfl), hbody]
    rfl
  · intro hnot
    rw [parsePacket_makePacket (by decide), List.length_nil, Nat.add_zero, List.append_nil]
    rcases readLength_of_not_readable hnot hsize with ⟨hle, -, hread⟩ | ⟨-, hread⟩
    · have hshort : body.length - 192 < body.length := by omega
      rw [hread]
      generalize body.length - 192 = n at hshort ⊢
      rw [if_neg (by omega)]
      change (if kSymmetricallyEncryptedTag ≠ kSymmetricallyEncryptedTag then .error (.refused .notSymmetricallyEncrypted)
        else if body.drop n ≠ [] then fail else _) = _
      rw [if_neg (fun h => h rfl), if_pos (List.ne_nil_of_length_pos (by rw [List.length_drop]; omega))]
    · rw [if_pos (by omega)]
      rfl

/-- **The literal data packet gives the plaintext** where its length is read as it was written, and else something else. -/
theorem parseLiteral_written (charIsSigned : Bool) {plaintext : List UInt8} (hsize : plaintext.length + 6 < 4294967296) :
    ((parsePacket charIsSigned (serializeLiteralData plaintext ++ [0xd3, 20]) >>= fun read =>
      if read.1.1 = kCompressedTag then .error (.refused .compressed)
      else if read.1.1 ≠ kLiteralDataTag then .error (.refused .notSymmetricallyEncrypted)
      else parseLiteralData read.1.2) = .ok plaintext) ↔ Readable charIsSigned (plaintext.length + 6) := by
  have hcontents : ([0x74, 0, 0, 0, 0, 0] ++ plaintext).length = plaintext.length + 6 := by
    rw [length_append]
    exact Nat.add_comm _ _
  constructor
  · intro h
    by_contra hnot
    rw [serializeLiteralData, parsePacket_makePacket (by decide), hcontents] at h
    have htwo : ([0xd3, 20] : List UInt8).length = 2 := rfl
    rw [htwo] at h
    rcases readLength_of_not_readable hnot hsize with ⟨hle, hlt, hread⟩ | ⟨-, hread⟩
    · have hshort : plaintext.length + 6 - 192 < plaintext.length := by omega
      rw [hread] at h
      generalize plaintext.length + 6 - 192 = n at h hshort
      rw [if_neg (by omega)] at h
      -- The plaintext of fewer bytes is shorter.
      change parseLiteralData (([0x74, 0, 0, 0, 0, 0] ++ plaintext ++ [0xd3, 20]).take n) = .ok plaintext at h
      have hanswers := parseLiteralData_answers (([0x74, 0, 0, 0, 0, 0] ++ plaintext ++ [0xd3, 20]).take n)
      rw [h] at hanswers
      change plaintext.length ≤ (([0x74, 0, 0, 0, 0, 0] ++ plaintext ++ [0xd3, 20]).take n).length at hanswers
      rw [List.length_take] at hanswers
      omega
    · rw [if_pos (by omega)] at h
      cases h
  · intro hreadable
    rw [serializeLiteralData, parsePacket_of_readable (by decide) (by omega) (by rw [hcontents]; exact hreadable)]
    exact parseLiteralData_append plaintext

def ComesBack (charIsSigned : Bool) (n : ℕ) : Prop :=
  n < 143 ∨ 8378 ≤ n ∧ (charIsSigned = true → SignSafe (n + 6) ∧ SignSafe (n + 53))

theorem decrypt_encrypt_iff (hcreate : ∀ key : List UInt8, key.length = 16 → (P.createAESContext key).isSome)
    (plaintext passphrase : List UInt8) (random : Randomness) (hsize : plaintext.length + 53 < 4294967296) :
    ∃ message, encrypt P plaintext passphrase random = .ok message ∧
      (decrypt P message passphrase = .ok plaintext ↔ ComesBack P.charIsSigned plaintext.length) := by
  obtain ⟨aes, body, hencrypt, haes, hlength, hbody⟩ := exists_encrypt P hcreate plaintext passphrase random
  have hliteral := length_serializeLiteralData plaintext
  have hbodySize : body.length < 4294967296 := by
    rw [hlength, hliteral]
    split <;> [skip; split] <;> omega
  obtain ⟨hreads, hfails⟩ := decrypt_written P (length_skeContents random) haes hbody hbodySize
  have hcond : ComesBack P.charIsSigned plaintext.length ↔
      Readable P.charIsSigned body.length ∧ Readable P.charIsSigned (plaintext.length + 6) := by
    unfold ComesBack Readable
    rw [hlength, hliteral]
    split
    · rename_i hone
      constructor
      · rintro (hsmall | ⟨hlarge, -⟩)
        · exact ⟨.inl (by omega), .inl hone⟩
        · omega
      · rintro ⟨hsmall | ⟨hlarge, -⟩, -⟩
        · exact .inl (by omega)
        · omega
    · split
      · constructor
        · rintro (hsmall | ⟨hlarge, -⟩)
          · omega
          · omega
        · rintro ⟨-, hsmall | ⟨hlarge, -⟩⟩
          · omega
          · omega
      · rw [show plaintext.length + 7 + 5 + 41 = plaintext.length + 53 by omega]
        constructor
        · rintro (hsmall | ⟨hlarge, hsafe⟩)
          · omega
          · exact ⟨.inr ⟨by omega, fun h => (hsafe h).2⟩, .inr ⟨by omega, fun h => (hsafe h).1⟩⟩
        · rintro ⟨hsmall | ⟨-, hsafe⟩, hsmall' | ⟨hlarge, hsafe'⟩⟩
          · omega
          · omega
          · omega
          · exact .inr ⟨by omega, fun h => ⟨hsafe' h, hsafe h⟩⟩
  refine ⟨_, hencrypt, ?_⟩
  by_cases hreadable : Readable P.charIsSigned body.length
  · rw [hreads hreadable, parseLiteral_written P.charIsSigned (by omega), hcond]
    exact ⟨fun h => ⟨hreadable, h⟩, fun h => h.2⟩
  · rw [hfails hreadable, hcond]
    refine iff_of_false ?_ (fun h => hreadable h.1)
    nofun

/-- **Encryption with a passphrase.**  A plaintext comes back if and only if it has fewer than 143 bytes, or at least 8378 and
no negative `char` changes the lengths of its packets.  For any input `Decrypt` ends, with a plaintext or a result code, and
with no access outside its input and its buffers. -/
theorem openPgp_spec (hcreate : ∀ key : List UInt8, key.length = 16 → (P.createAESContext key).isSome) :
    (∀ (plaintext passphrase : List UInt8) (random : Randomness), plaintext.length + 53 < 4294967296 →
      ∃ message, encrypt P plaintext passphrase random = .ok message ∧
        (decrypt P message passphrase = .ok plaintext ↔ ComesBack P.charIsSigned plaintext.length)) ∧
    ∀ input passphrase, (∃ out, decrypt P input passphrase = .ok out) ∨
      ∃ result, decrypt P input passphrase = .error (.refused result) := by
  refine ⟨fun plaintext passphrase random => decrypt_encrypt_iff P hcreate plaintext passphrase random, ?_⟩
  intro input passphrase
  have hanswers := decrypt_answers P input passphrase
  cases hdecrypt : decrypt P input passphrase with
  | ok out => exact .inl ⟨out, rfl⟩
  | error stop =>
    rw [hdecrypt] at hanswers
    obtain ⟨result, rfl⟩ := hanswers
    exact .inr ⟨result, rfl⟩

/-- A library that encrypts nothing, on a platform where `char` is signed. -/
def plainPrimitives : Primitives where
  charIsSigned := true
  createAESContext := fun _ => some fun _ => List.replicate blockSize 0
  sha1 := fun _ => List.replicate sha1Length 0
  sha256 := fun _ => List.replicate 32 0
  length_encrypt := by
    intro key aes block h
    rw [← Option.some.inj h, List.length_replicate]
  length_sha1 := fun _ => List.length_replicate
  length_sha256 := fun _ => List.length_replicate

def zeroRandomness : Randomness := ⟨List.replicate 8 0, List.replicate blockSize 0, List.length_replicate, List.length_replicate⟩

/-- A short plaintext comes back. -/
theorem openPgp_short :
    ∃ message, encrypt plainPrimitives [1, 2, 3] [97] zeroRandomness = .ok message ∧
      decrypt plainPrimitives message [97] = .ok [1, 2, 3] := by
  obtain ⟨message, hencrypt, hiff⟩ := (openPgp_spec plainPrimitives (fun _ _ => rfl)).1 [1, 2, 3] [97] zeroRandomness
    (by decide)
  exact ⟨message, hencrypt, hiff.mpr (.inl (by decide))⟩

/-- **143 bytes do not.** -/
theorem not_openPgp_143 :
    ∃ message, encrypt plainPrimitives (List.replicate 143 0) [97] zeroRandomness = .ok message ∧
      decrypt plainPrimitives message [97] ≠ .ok (List.replicate 143 0) := by
  have hsize : (List.replicate 143 (0 : UInt8)).length = 143 := List.length_replicate
  obtain ⟨message, hencrypt, hiff⟩ := decrypt_encrypt_iff plainPrimitives (fun _ _ => rfl) (List.replicate 143 0) [97]
    zeroRandomness (by rw [hsize]; decide)
  refine ⟨message, hencrypt, fun h => ?_⟩
  have hback := hiff.mp h
  rw [hsize] at hback
  rcases hback with hsmall | ⟨hlarge, -⟩
  · exact absurd hsmall (by decide)
  · exact absurd hlarge (by decide)

end Chromium.Crypto.OpenPgp
