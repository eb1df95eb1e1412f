import Chromium.Crypto.OpenPgpLoops

/-!
# Any input

Whatever the input is, `Decrypt` ends with an answer: no access is outside the input and the buffers, and no loop goes on
for ever.
-/

namespace Chromium.Crypto.OpenPgp

open Lib

variable {α : Type} {Q : α → Prop} {charIsSigned : Bool} {data buf : List UInt8} {turns length total : ℕ}

def IsRefusal (stop : Stop) : Prop := ∃ result, stop = .refused result

/-- **A computation that ends with an answer.** -/
abbrev Answers (Q : α → Prop) : Except Stop α → Prop := Ends IsRefusal Q

theorem fail_answers : Answers Q fail := ⟨.parseError, rfl⟩

theorem refused_answers (result : Result) : Answers Q (.error (.refused result)) := ⟨result, rfl⟩

/-! ## Packets -/

theorem u8_answers (data : List UInt8) : Answers (fun read => read.2.length < data.length) (Reader.u8 data) := by
  cases data with
  | nil => exact fail_answers
  | cons b data => exact Nat.lt_succ_self _

theorem takePrefix_answers (n : ℕ) (data : List UInt8) :
    Answers (fun read => read.1.length = n ∧ read.2.length ≤ data.length) (Reader.takePrefix n data) := by
  unfold Reader.takePrefix
  split
  · exact fail_answers
  · refine ⟨?_, ?_⟩
    · rw [List.length_take]
      omega
    · rw [List.length_drop]
      omega

theorem skip_answers (n : ℕ) (data : List UInt8) : Answers (fun read => read.length ≤ data.length) (Reader.skip n data) := by
  unfold Reader.skip
  split
  · exact fail_answers
  · change (data.drop n).length ≤ data.length
    rw [List.length_drop]
    omega

theorem u32_answers (charIsSigned : Bool) (data : List UInt8) :
    Answers (fun read => read.2.length ≤ data.length) (Reader.u32 charIsSigned data) := by
  match data with
  | b₀ :: b₁ :: b₂ :: b₃ :: data =>
    change data.length ≤ data.length + 1 + 1 + 1 + 1
    omega
  | [] => exact fail_answers
  | [_] => exact fail_answers
  | [_, _] => exact fail_answers
  | [_, _, _] => exact fail_answers

theorem parseLength_answers (charIsSigned : Bool) (data : List UInt8) :
    Answers (fun read => read.2.length < data.length) (parseLength charIsSigned data) := by
  refine (u8_answers data).bind fun read hread => ?_
  change Answers _ (if read.1.toNat < 192 then .ok ((read.1.toNat, false), read.2)
    else if read.1.toNat < 224 then
      Reader.u8 read.2 >>= fun next => .ok (((read.1.toNat - 192) * 256 + next.1.toNat, false), next.2)
    else if read.1.toNat < 255 then .ok ((2 ^ (read.1.toNat % 32), true), read.2)
    else Reader.u32 charIsSigned read.2 >>= fun next => .ok ((next.1, false), next.2))
  split
  · exact hread
  · split
    · exact (u8_answers read.2).bind fun next hnext => Nat.lt_trans hnext hread
    · split
      · exact hread
      · exact (u32_answers charIsSigned read.2).bind fun next hnext => Nat.lt_of_le_of_lt hnext hread

theorem measureChunks_answers (charIsSigned : Bool) (length : ℕ) (data : List UInt8) (hturns : data.length < turns) :
    Answers (fun _ => True) (measureChunks charIsSigned turns length data) := by
  induction turns generalizing length data with
  | zero => exact nomatch hturns
  | succ turns ih =>
    refine (parseLength_answers charIsSigned data).bind fun read hread => ?_
    change Answers _ (if (length + read.1.1) % 18446744073709551616 < length then fail
      else Reader.skip read.1.1 read.2 >>= fun data =>
        if read.1.2 then measureChunks charIsSigned turns (length + read.1.1) data else .ok (length + read.1.1))
    split
    · exact fail_answers
    · refine (skip_answers read.1.1 read.2).bind fun data' hdata' => ?_
      change Answers _ (if read.1.2 then _ else _)
      split
      · exact ih _ data' (by omega)
      · exact trivial

theorem takePrefix_of_skip {n : ℕ} {data rest : List UInt8} (h : Reader.skip n data = .ok rest) :
    ∃ chunk, chunk.length = n ∧ Reader.takePrefix n data = .ok (chunk, rest) := by
  unfold Reader.skip at h
  unfold Reader.takePrefix
  by_cases hlong : data.length < n
  · rw [if_pos hlong] at h
    cases h
  · rw [if_neg hlong] at h ⊢
    cases h
    exact ⟨data.take n, by rw [List.length_take]; omega, rfl⟩

/-- **The second loop takes the same chunks**, and they fill the buffer. -/
theorem copyChunks_of_measureChunks (h : measureChunks charIsSigned turns buf.length data = .ok total) :
    buf.length ≤ total ∧
      ∃ copied rest, copyChunks charIsSigned total turns buf data = .ok (copied, rest) ∧ copied.length = total := by
  induction turns generalizing buf data with
  | zero => cases h
  | succ turns ih =>
    rw [measureChunks] at h
    rw [copyChunks]
    cases hparse : parseLength charIsSigned data with
    | error stop =>
      rw [hparse] at h
      cases h
    | ok read =>
      obtain ⟨⟨chunkLength, isPartial⟩, data'⟩ := read
      rw [hparse] at h
      change (if (buf.length + chunkLength) % 18446744073709551616 < buf.length then fail
        else Reader.skip chunkLength data' >>= fun data =>
          if isPartial then measureChunks charIsSigned turns (buf.length + chunkLength) data
          else .ok (buf.length + chunkLength)) = .ok total at h
      split at h
      · cases h
      · cases hskip : Reader.skip chunkLength data' with
        | error stop =>
          rw [hskip] at h
          cases h
        | ok rest =>
          obtain ⟨chunk, hchunk, htake⟩ := takePrefix_of_skip hskip
          rw [hskip] at h
          change (if isPartial then measureChunks charIsSigned turns (buf.length + chunkLength) rest
            else .ok (buf.length + chunkLength)) = .ok total at h
          change buf.length ≤ total ∧ ∃ copied rest, (Reader.takePrefix chunkLength data' >>= fun read =>
            if total < buf.length + read.1.length then .error .outside
            else if isPartial then copyChunks charIsSigned total turns (buf ++ read.1) read.2
            else .ok (buf ++ read.1, read.2)) = .ok (copied, rest) ∧ copied.length = total
          rw [htake]
          change buf.length ≤ total ∧ ∃ copied rest', (if total < buf.length + chunk.length then .error .outside
            else if isPartial then copyChunks charIsSigned total turns (buf ++ chunk) rest
            else .ok (buf ++ chunk, rest)) = .ok (copied, rest') ∧ copied.length = total
          have hlength : (buf ++ chunk).length = buf.length + chunkLength := by rw [List.length_append, hchunk]
          cases isPartial with
          | true =>
            rw [if_pos rfl, ← hlength] at h
            obtain ⟨hle, hcopied⟩ := ih h
            rw [if_neg (by omega), if_pos rfl]
            exact ⟨by omega, hcopied⟩
          | false =>
            rw [if_neg Bool.false_ne_true] at h
            cases h
            rw [if_neg (by omega), if_neg Bool.false_ne_true]
            exact ⟨by omega, _, _, rfl, hlength⟩

theorem parseStreamContents_answers (n : ℕ) (data : List UInt8) :
    Answers (fun _ => True) (parseStreamContents charIsSigned n data) := by
  rw [parseStreamContents]
  cases hskip : Reader.skip n data with
  | error stop =>
    have hanswers := skip_answers n data
    rw [hskip] at hanswers
    exact hanswers
  | ok rest =>
    obtain ⟨chunk, hchunk, htake⟩ := takePrefix_of_skip hskip
    change Answers _ (measureChunks charIsSigned (rest.length + 1) n rest >>= _)
    cases hmeasure : measureChunks charIsSigned (rest.length + 1) n rest with
    | error stop =>
      have hanswers := measureChunks_answers charIsSigned n rest (Nat.lt_succ_self rest.length)
      rw [hmeasure] at hanswers
      exact hanswers
    | ok total =>
      rw [← hchunk] at hmeasure
      obtain ⟨hle, copied, rest', hcopy, hcopied⟩ := copyChunks_of_measureChunks hmeasure
      change Answers _ (Reader.takePrefix n data >>= _)
      rw [htake]
      change Answers _ (if total < chunk.length then .error .outside else _)
      rw [if_neg (by omega), hcopy]
      change Answers _ (if copied.length = total then _ else _)
      rw [if_pos hcopied]
      exact trivial

theorem oldLength_answers (lengthBytes length : ℕ) (data : List UInt8) :
    Answers (fun _ => True) (oldLength lengthBytes length data) := by
  induction lengthBytes generalizing length data with
  | zero => exact trivial
  | succ lengthBytes ih => exact (u8_answers data).bind fun read _ => ih _ read.2

theorem parsePacket_answers (charIsSigned : Bool) (data : List UInt8) :
    Answers (fun _ => True) (parsePacket charIsSigned data) := by
  refine (u8_answers data).bind fun read _ => ?_
  dsimp only
  split
  · exact fail_answers
  · split
    · split
      · exact trivial
      · refine (oldLength_answers _ 0 read.2).bind fun length _ => ?_
        exact (takePrefix_answers length.1 length.2).bind fun _ _ => trivial
    · refine (parseLength_answers charIsSigned read.2).bind fun length _ => ?_
      obtain ⟨⟨length, isPartial⟩, data'⟩ := length
      cases isPartial with
      | true => exact (parseStreamContents_answers length data').bind fun _ _ => trivial
      | false => exact (takePrefix_answers length data').bind fun _ _ => trivial

/-! ## Keys -/

variable (P : Primitives)

theorem contextFor_answers (key : List UInt8) :
    Answers (fun aes => ∀ block, (aes block).length = blockSize) (contextFor P key) := by
  unfold contextFor
  cases haes : P.createAESContext key with
  | none => exact refused_answers .internalError
  | some aes => exact fun block => P.length_encrypt key aes block haes

theorem sha1_ne_nil (bytes : List UInt8) : P.sha1 bytes ≠ [] :=
  List.ne_nil_of_length_pos (by rw [P.length_sha1]; decide)

theorem hashFor_answers (hashFuncId : UInt8) :
    Answers (fun hash => ∀ bytes, hash bytes ≠ []) (hashFor P hashFuncId) := by
  unfold hashFor
  split
  · exact sha1_ne_nil P
  · split
    · exact fun bytes => List.ne_nil_of_length_pos (by rw [P.length_sha256]; decide)
    · exact refused_answers .unknownHash

theorem cipherIdToKeyLength_le (cipher : UInt8) : cipherIdToKeyLength cipher ≤ 32 := by
  unfold cipherIdToKeyLength
  split
  · decide
  · split
    · decide
    · split <;> decide

theorem parseS2K_answers {hash : List UInt8 → List UInt8} {cipherKeyLength : ℕ} (hhash : ∀ bytes, hash bytes ≠ [])
    (hlength : cipherKeyLength ≤ 32) (s2kType : UInt8) (passphrase data : List UInt8) :
    Answers (fun _ => True) (parseS2K s2kType hash cipherKeyLength passphrase data) := by
  have hkey : ∀ salt count, salt ++ passphrase ≠ [] ∨ count = 0 →
      Answers (fun _ => True) (saltedIteratedS2K hash cipherKeyLength 32 passphrase salt count) := by
    intro salt count h
    obtain ⟨key, -, hkey⟩ := exists_saltedIteratedS2K hhash cipherKeyLength passphrase salt count h
    rw [hkey 32 hlength]
    exact trivial
  have hsalt : ∀ salt : List UInt8, salt.length = 8 → salt ++ passphrase ≠ [] := fun salt h =>
    List.append_ne_nil_of_left_ne_nil (List.ne_nil_of_length_pos (by omega)) _
  unfold parseS2K
  split
  · refine (hkey [] _ ?_).bind fun _ _ => trivial
    by_cases hnil : passphrase = []
    · exact .inr (by rw [hnil]; rfl)
    · exact .inl hnil
  · split
    · exact (takePrefix_answers 8 data).bind fun read hread =>
        (hkey read.1 _ (.inl (hsalt read.1 hread.1))).bind fun _ _ => trivial
    · split
      · exact (takePrefix_answers 8 data).bind fun read hread =>
          (u8_answers read.2).bind fun _ _ => (hkey read.1 _ (.inl (hsalt read.1 hread.1))).bind fun _ _ => trivial
      · exact fail_answers

theorem parseSymmetricKeyEncrypted_answers (passphrase data : List UInt8) :
    Answers (fun aes => ∀ block, (aes block).length = blockSize) (parseSymmetricKeyEncrypted P passphrase data) := by
  refine (u8_answers data).bind fun version _ => ?_
  dsimp only
  split
  · exact fail_answers
  · refine (u8_answers version.2).bind fun cipher _ => (u8_answers cipher.2).bind fun s2kType _ =>
      (u8_answers s2kType.2).bind fun hashFuncId _ => ?_
    split
    · exact refused_answers .unknownCipher
    · refine (hashFor_answers P hashFuncId.1).bind fun hash hhash => ?_
      refine (parseS2K_answers hhash (cipherIdToKeyLength_le cipher.1) s2kType.1 passphrase hashFuncId.2).bind fun key _ => ?_
      refine (contextFor_answers P key.1).bind fun aes haes => ?_
      split
      · exact haes
      · rename_i hne
        obtain ⟨plaintextKey, hdecrypt, hlength⟩ := exists_decryptLoop haes key.2 [] (List.length_replicate (n := blockSize))
          (Nat.le_refl blockSize) (Nat.le_of_eq (Nat.zero_add key.2.length))
        rw [List.length_nil, Nat.zero_add] at hlength
        obtain ⟨id, -, hid⟩ := at'_of_lt plaintextKey 0
          (by rw [hlength]; exact List.length_pos_iff.2 hne)
        rw [cfbDecrypt, hdecrypt]
        change Answers _ (at' plaintextKey 0 >>= _)
        rw [hid]
        change Answers _ (if cipherIdToKeyLength id = 0 then .error (.refused .unknownCipher)
          else if key.2.length ≠ 1 + cipherIdToKeyLength id then fail
          else contextFor P ((plaintextKey.drop 1).take (cipherIdToKeyLength id)))
        split
        · exact refused_answers .unknownCipher
        · split
          · exact fail_answers
          · exact contextFor_answers P _

/-! ## Ciphertexts -/

theorem exists_xorBlock {a b : List UInt8} (ha : blockSize ≤ a.length) (hb : blockSize ≤ b.length) :
    ∃ block, xorBlock a b = .ok block ∧ block.length = blockSize := by
  refine ⟨_, if_neg (by omega), ?_⟩
  rw [List.length_zipWith, List.length_take, List.length_take]
  omega

theorem decryptPrefix_answers {aes : List UInt8 → List UInt8} (haes : ∀ block, (aes block).length = blockSize)
    {start : List UInt8} (hstart : start.length = blockSize + 2) :
    Answers (fun read => read.2.length = blockSize) (decryptPrefix aes start) := by
  have hblock : blockSize = 16 := rfl
  have hfre := haes (start.take blockSize)
  obtain ⟨block, hxor, hlength⟩ := exists_xorBlock (a := aes (List.replicate blockSize 0)) (b := start)
    (Nat.le_of_eq (haes _).symm) (by omega)
  obtain ⟨b₀, -, hb₀⟩ := at'_of_lt start blockSize (by omega)
  obtain ⟨b₁, -, hb₁⟩ := at'_of_lt start (blockSize + 1) (by omega)
  obtain ⟨f₀, -, hf₀⟩ := at'_of_lt (aes (start.take blockSize)) 0 (by omega)
  obtain ⟨f₁, -, hf₁⟩ := at'_of_lt (aes (start.take blockSize)) 1 (by omega)
  obtain ⟨p₀, -, hp₀⟩ := at'_of_lt block (blockSize - 2) (by omega)
  obtain ⟨p₁, -, hp₁⟩ := at'_of_lt block (blockSize - 1) (by omega)
  rw [decryptPrefix, hxor]
  dsimp only
  rw [hb₀, hb₁, hf₀, hf₁]
  change Answers _ (at' block (blockSize - 2) >>= fun p₀ => at' block (blockSize - 1) >>= _)
  rw [hp₀, hp₁]
  change Answers _ (if p₀ ≠ b₀ ^^^ f₀ ∨ p₁ ≠ b₁ ^^^ f₁ then fail
    else setAt (aes (start.take blockSize)) 0 b₀ >>= fun fre => setAt fre 1 b₁ >>= fun fre =>
      .ok (block ++ [b₀ ^^^ f₀, b₁ ^^^ f₁], fre))
  split
  · exact fail_answers
  · rw [setAt_of_lt b₀ (by omega)]
    change Answers _ (setAt ((aes (start.take blockSize)).set 0 b₀) 1 b₁ >>= _)
    rw [setAt_of_lt b₁ (by rw [List.length_set]; omega)]
    change (((aes (start.take blockSize)).set 0 b₀).set 1 b₁).length = blockSize
    rw [List.length_set, List.length_set, hfre]

theorem checkMdc_answers {plaintext : List UInt8} (prefixCopy : List UInt8) (h : sha1Length + 2 ≤ plaintext.length) :
    Answers (fun _ => True) (checkMdc P prefixCopy plaintext) := by
  have hsha1 : sha1Length = 20 := rfl
  obtain ⟨b₀, -, hb₀⟩ := at'_of_lt plaintext (plaintext.length - sha1Length - 2) (by omega)
  obtain ⟨b₁, -, hb₁⟩ := at'_of_lt plaintext (plaintext.length - sha1Length - 1) (by omega)
  rw [checkMdc, hb₀, hb₁]
  change Answers _ (if b₀ ≠ 0xd3 ∨ b₁ ≠ 0x14 then fail else _)
  split
  · exact fail_answers
  · split
    · exact fail_answers
    · exact trivial

theorem parseSymmetricallyEncrypted_answers {aes : List UInt8 → List UInt8}
    (haes : ∀ block, (aes block).length = blockSize) (data : List UInt8) :
    Answers (fun _ => True) (parseSymmetricallyEncrypted P aes data) := by
  refine (u8_answers data).bind fun version _ => ?_
  dsimp only
  split
  · exact fail_answers
  · refine (takePrefix_answers (blockSize + 2) version.2).bind fun start hstart => ?_
    refine (decryptPrefix_answers haes hstart.1).bind fun read hread => ?_
    split
    · exact fail_answers
    · rename_i hlong
      obtain ⟨plaintext, hdecrypt, hlength⟩ := exists_decryptLoop haes start.2 [] hread (show 2 ≤ blockSize by decide)
        (Nat.le_of_eq (Nat.zero_add start.2.length))
      rw [hdecrypt]
      rw [List.length_nil, Nat.zero_add] at hlength
      exact checkMdc_answers P read.1 (by omega)

theorem parseLiteralData_answers (data : List UInt8) :
    Answers (fun out => out.length ≤ data.length) (parseLiteralData data) := by
  refine (u8_answers data).bind fun mode hmode => (u8_answers mode.2).bind fun filename hfilename => ?_
  refine (skip_answers _ filename.2).bind fun rest hrest => (skip_answers 4 rest).imp fun out hout => ?_
  omega

/-- **`Decrypt` ends for every input and passphrase**, and stays inside its input and its buffers. -/
theorem decrypt_answers (input passphrase : List UInt8) : Answers (fun _ => True) (decrypt P input passphrase) := by
  refine (parsePacket_answers P.charIsSigned input).bind fun first _ => ?_
  dsimp only
  split
  · exact refused_answers .notSymmetricallyEncrypted
  · refine (parseSymmetricKeyEncrypted_answers P passphrase first.1.2).bind fun aes haes => ?_
    refine (parsePacket_answers P.charIsSigned first.2).bind fun second _ => ?_
    split
    · exact refused_answers .notSymmetricallyEncrypted
    · split
      · exact fail_answers
      · refine (parseSymmetricallyEncrypted_answers P haes second.1.2).bind fun contents _ => ?_
        refine (parsePacket_answers P.charIsSigned contents).bind fun third _ => ?_
        split
        · exact refused_answers .compressed
        · split
          · exact refused_answers .notSymmetricallyEncrypted
          · exact (parseLiteralData_answers third.1.2).imp fun _ _ => trivial

end Chromium.Crypto.OpenPgp
