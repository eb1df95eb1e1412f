import Chromium.Crypto.OpenPgpPackets

/-!
# OpenPGP encryption with a passphrase

`Decrypter` and `Encrypter` of `crypto/openpgp_symmetric_encryption.cc`.  The library gives the block encryption and the hash
functions, and random bytes.  A buffer that is written from its start is the bytes written so far.
-/

namespace Chromium.Crypto.OpenPgp

/-- `AES_BLOCK_SIZE`. -/
def blockSize : ℕ := 16

def sha1Length : ℕ := 20

def kSymmetricKeyEncryptedTag : ℕ := 3
def kSymmetricallyEncryptedTag : ℕ := 18
def kCompressedTag : ℕ := 8
def kLiteralDataTag : ℕ := 11

/-- What the platform and the library give: whether `char` is signed, AES in ECB mode under a key (`CreateAESContext`), which
encrypts one block, and the hash functions. -/
structure Primitives where
  charIsSigned : Bool
  createAESContext : List UInt8 → Option (List UInt8 → List UInt8)
  sha1 : List UInt8 → List UInt8
  sha256 : List UInt8 → List UInt8
  length_encrypt : ∀ key aes block, createAESContext key = some aes → (aes block).length = blockSize
  length_sha1 : ∀ bytes, (sha1 bytes).length = sha1Length
  length_sha256 : ∀ bytes, (sha256 bytes).length = 32

def at' (array : List UInt8) (i : ℕ) : Except Stop UInt8 :=
  match array[i]? with
  | some b => .ok b
  | none => .error .outside

def setAt (array : List UInt8) (i : ℕ) (b : UInt8) : Except Stop (List UInt8) :=
  if i < array.length then .ok (array.set i b) else .error .outside

/-! ## The key of a passphrase -/

/-- What `SaltedIteratedS2K` hashes behind the zeros: `combined` over and over, `count` bytes. -/
def iterated (combined : List UInt8) (count : ℕ) : (turns written : ℕ) → Except Stop (List UInt8)
  | 0, _ => .error .endless
  | turns + 1, written =>
    if written < count then
      if count < written + combined.length then do
        let todo := count - written
        if combined.length < todo then .error .outside
        else
          let bytes ← iterated combined count turns count
          return combined.take todo ++ bytes
      else do
        let bytes ← iterated combined count turns (written + combined.length)
        return combined ++ bytes
    else .ok []

def keyLoop (hash : List UInt8 → List UInt8) (cipherKeyLength keySize : ℕ) (hashed : List UInt8) :
    (turns i : ℕ) → (key : List UInt8) → Except Stop (List UInt8)
  | 0, _, _ => .error .endless
  | turns + 1, i, key =>
    if key.length < cipherKeyLength then
      let digest := hash (List.replicate i 0 ++ hashed)
      let todo := min (cipherKeyLength - key.length) digest.length
      if keySize < key.length + todo then .error .outside
      else keyLoop hash cipherKeyLength keySize hashed turns (i + 1) (key ++ digest.take todo)
    else .ok key

/-- `SaltedIteratedS2K`, into an array of `keySize` bytes. -/
def saltedIteratedS2K (hash : List UInt8 → List UInt8) (cipherKeyLength keySize : ℕ) (passphrase salt : List UInt8)
    (count : ℕ) : Except Stop (List UInt8) := do
  let hashed ← iterated (salt ++ passphrase) count (count + 2) 0
  keyLoop hash cipherKeyLength keySize hashed (cipherKeyLength + 1) 0 []

/-! ## Cipher feedback -/

/-- The mask for the next byte, which is encrypted again when all of it is used. -/
def refill (aes : List UInt8 → List UInt8) (mask : List UInt8) (used : ℕ) : List UInt8 × ℕ :=
  if used = blockSize then (aes mask, 0) else (mask, used)

/-- The loop of `CFBDecrypt` and of `ParseSymmetricallyEncrypted`, into a buffer of `size` bytes. -/
def decryptLoop (aes : List UInt8 → List UInt8) (size : ℕ) :
    (mask : List UInt8) → (used : ℕ) → (data out : List UInt8) → Except Stop (List UInt8)
  | _, _, [], out => .ok out
  | mask, used, b :: data, out => do
    let (mask, used) := refill aes mask used
    let m ← at' mask used
    if size ≤ out.length then .error .outside
    else
      let mask ← setAt mask used b
      decryptLoop aes size mask (used + 1) data (out ++ [b ^^^ m])

/-- The loop of `SerializeSymmetricallyEncrypted`. -/
def encryptLoop (aes : List UInt8 → List UInt8) : (mask : List UInt8) → (used : ℕ) → (data packet : List UInt8) →
    Except Stop (List UInt8)
  | _, _, [], packet => .ok packet
  | mask, used, b :: data, packet => do
    let (mask, used) := refill aes mask used
    let m ← at' mask used
    let c := b ^^^ m
    let mask ← setAt mask used c
    encryptLoop aes mask (used + 1) data (packet ++ [c])

def cfbDecrypt (aes : List UInt8 → List UInt8) (data : List UInt8) (size : ℕ) : Except Stop (List UInt8) :=
  decryptLoop aes size (List.replicate blockSize 0) blockSize data []

def xorBlock (a b : List UInt8) : Except Stop (List UInt8) :=
  if a.length < blockSize ∨ b.length < blockSize then .error .outside
  else .ok (List.zipWith (· ^^^ ·) (a.take blockSize) (b.take blockSize))

/-! ## Decrypter -/

variable (P : Primitives)

/-- `OpenPGPCipherIdToKeyLength`. -/
def cipherIdToKeyLength (cipher : UInt8) : ℕ :=
  if cipher = 7 then 16 else if cipher = 8 then 24 else if cipher = 9 then 32 else 0

/-- A context for a key.  Where there is none the source has a `CHECK` in the encrypter. -/
def contextFor (key : List UInt8) : Except Stop (List UInt8 → List UInt8) :=
  match P.createAESContext key with
  | some aes => .ok aes
  | none => .error (.refused .internalError)

def hashFor (hashFuncId : UInt8) : Except Stop (List UInt8 → List UInt8) :=
  if hashFuncId = 2 then .ok P.sha1 else if hashFuncId = 8 then .ok P.sha256 else .error (.refused .unknownHash)

/-- The key by the S2K specifier, into `key[32]`. -/
def parseS2K (s2kType : UInt8) (hash : List UInt8 → List UInt8) (cipherKeyLength : ℕ) (passphrase data : List UInt8) :
    Except Stop (List UInt8 × List UInt8) :=
  if s2kType = 0 then do
    let key ← saltedIteratedS2K hash cipherKeyLength 32 passphrase [] (passphrase.length % 4294967296)
    return (key, data)
  else if s2kType = 1 then do
    let (salt, data) ← Reader.takePrefix 8 data
    let key ← saltedIteratedS2K hash cipherKeyLength 32 passphrase salt ((passphrase.length + salt.length) % 4294967296)
    return (key, data)
  else if s2kType = 3 then do
    let (salt, data) ← Reader.takePrefix 8 data
    let (countSpec, data) ← Reader.u8 data
    let key ← saltedIteratedS2K hash cipherKeyLength 32 passphrase salt
      ((16 + countSpec.toNat % 16) * 2 ^ (countSpec.toNat / 16 + 6))
    return (key, data)
  else fail

def parseSymmetricKeyEncrypted (passphrase data : List UInt8) : Except Stop (List UInt8 → List UInt8) := do
  let (version, data) ← Reader.u8 data
  if version ≠ 4 then fail
  else
    let (cipher, data) ← Reader.u8 data
    let (s2kType, data) ← Reader.u8 data
    let (hashFuncId, data) ← Reader.u8 data
    if cipherIdToKeyLength cipher = 0 then .error (.refused .unknownCipher)
    else
      let hash ← hashFor P hashFuncId
      let (key, encryptedKey) ← parseS2K s2kType hash (cipherIdToKeyLength cipher) passphrase data
      let aes ← contextFor P key
      if encryptedKey = [] then return aes
      else
        let plaintextKey ← cfbDecrypt aes encryptedKey encryptedKey.length
        let id ← at' plaintextKey 0
        if cipherIdToKeyLength id = 0 then .error (.refused .unknownCipher)
        else if encryptedKey.length ≠ 1 + cipherIdToKeyLength id then fail
        else contextFor P ((plaintextKey.drop 1).take (cipherIdToKeyLength id))

/-- The 18 bytes in front of a ciphertext, decrypted, of which the last two are two bytes again. -/
def decryptPrefix (aes : List UInt8 → List UInt8) (start : List UInt8) : Except Stop (List UInt8 × List UInt8) := do
  let block ← xorBlock (aes (List.replicate blockSize 0)) start
  let fre := aes (start.take blockSize)
  let b₀ ← at' start blockSize
  let b₁ ← at' start (blockSize + 1)
  let f₀ ← at' fre 0
  let f₁ ← at' fre 1
  let p₀ ← at' block (blockSize - 2)
  let p₁ ← at' block (blockSize - 1)
  if p₀ ≠ b₀ ^^^ f₀ ∨ p₁ ≠ b₁ ^^^ f₁ then fail
  else
    let fre ← setAt fre 0 b₀
    let fre ← setAt fre 1 b₁
    return (block ++ [b₀ ^^^ f₀, b₁ ^^^ f₁], fre)

/-- The Modification Detection Code behind the plaintext, which stays a part of it in so far as it is its header. -/
def checkMdc (prefixCopy plaintext : List UInt8) : Except Stop (List UInt8) := do
  let b₀ ← at' plaintext (plaintext.length - sha1Length - 2)
  let b₁ ← at' plaintext (plaintext.length - sha1Length - 1)
  if b₀ ≠ 0xd3 ∨ b₁ ≠ 0x14 then fail
  else
    let hashed := plaintext.take (plaintext.length - sha1Length)
    if P.sha1 (prefixCopy ++ hashed) ≠ plaintext.drop (plaintext.length - sha1Length) then fail else return hashed

def parseSymmetricallyEncrypted (aes : List UInt8 → List UInt8) (data : List UInt8) : Except Stop (List UInt8) := do
  let (version, data) ← Reader.u8 data
  if version ≠ 1 then fail
  else
    let (start, data) ← Reader.takePrefix (blockSize + 2) data
    let (prefixCopy, fre) ← decryptPrefix aes start
    if data.length < sha1Length + 2 then fail
    else
      let plaintext ← decryptLoop aes data.length fre 2 data []
      checkMdc P prefixCopy plaintext

def parseLiteralData (data : List UInt8) : Except Stop (List UInt8) := do
  let (_, data) ← Reader.u8 data
  let (filenameLen, data) ← Reader.u8 data
  let data ← Reader.skip filenameLen.toNat data
  Reader.skip 4 data

def decrypt (input passphrase : List UInt8) : Except Stop (List UInt8) := do
  let ((tag, contents), reader) ← parsePacket P.charIsSigned input
  if tag ≠ kSymmetricKeyEncryptedTag then .error (.refused .notSymmetricallyEncrypted)
  else
    let aes ← parseSymmetricKeyEncrypted P passphrase contents
    let ((tag, contents), reader) ← parsePacket P.charIsSigned reader
    if tag ≠ kSymmetricallyEncryptedTag then .error (.refused .notSymmetricallyEncrypted)
    else if reader ≠ [] then fail
    else
      let contents ← parseSymmetricallyEncrypted P aes contents
      let ((tag, contents), _) ← parsePacket P.charIsSigned contents
      if tag = kCompressedTag then .error (.refused .compressed)
      else if tag ≠ kLiteralDataTag then .error (.refused .notSymmetricallyEncrypted)
      else parseLiteralData contents

/-! ## Encrypter -/

structure Randomness where
  salt : List UInt8
  iv : List UInt8
  length_salt : salt.length = 8
  length_iv : iv.length = blockSize

def serializeLiteralData (contents : List UInt8) : List UInt8 :=
  makePacket kLiteralDataTag ([0x74, 0, 0, 0, 0, 0] ++ contents)

def serializeSymmetricKeyEncrypted (passphrase : List UInt8) (random : Randomness) : Except Stop (List UInt8 × List UInt8) := do
  let key ← saltedIteratedS2K P.sha1 16 16 passphrase random.salt 65536
  return (key, makePacket kSymmetricKeyEncryptedTag ([4, 7, 3, 2] ++ random.salt ++ [96]))

def serializeSymmetricallyEncrypted (plaintext key : List UInt8) (random : Randomness) : Except Stop (List UInt8) := do
  let aes ← contextFor P key
  let block ← xorBlock random.iv (aes (List.replicate blockSize 0))
  let fre := aes block
  let i₀ ← at' random.iv (blockSize - 2)
  let i₁ ← at' random.iv (blockSize - 1)
  let f₀ ← at' fre 0
  let f₁ ← at' fre 1
  let start := block ++ [i₀ ^^^ f₀, i₁ ^^^ f₁]
  let hashed := plaintext ++ [0xd3, 20]
  let digest := P.sha1 (random.iv ++ [i₀, i₁] ++ hashed)
  let fre ← setAt fre 0 (i₀ ^^^ f₀)
  let fre ← setAt fre 1 (i₁ ^^^ f₁)
  let packet ← encryptLoop aes fre 2 (hashed ++ digest) (1 :: start)
  return makePacket kSymmetricallyEncryptedTag packet

def encrypt (plaintext passphrase : List UInt8) (random : Randomness) : Except Stop (List UInt8) := do
  let (key, ske) ← serializeSymmetricKeyEncrypted P passphrase random
  let se ← serializeSymmetricallyEncrypted P (serializeLiteralData plaintext) key random
  return ske ++ se

end Chromium.Crypto.OpenPgp
