import Chromium.Net.Base.CrlSet

/-!
# The format of a CRL set and of its deltas

The formats that `net/base/crl_set.cc` documents, as relations between bytes and lists.  `Edit` is an edit script with
its payload; the CRLs of a set are edited by one, and the serials of a changed CRL by one inside its payload.
`Reaches` says that reading a script comes to a change whose payload is bad, which is used for empty scripts.
-/

namespace Chromium.Net

open Lib Base
open List (append_assoc length_cons map_cons)
open Option (bind_eq_bind bind_eq_some_iff bind_some)

/-! ## The format -/

inductive EditSymbol
  | same | insert | delete | changed

def EditSymbol.toByte : EditSymbol → UInt8
  | same => SYMBOL_SAME
  | insert => SYMBOL_INSERT
  | delete => SYMBOL_DELETE
  | changed => SYMBOL_CHANGED

theorem EditSymbol.toByte_injective : Function.Injective EditSymbol.toByte := by
  intro s s' h
  cases s <;> cases s' <;> first | rfl | cases h

section

variable {A : Type} (Inserted : List UInt8 → A → Prop) (Changed : A → List UInt8 → A → Prop)

/-- **A list is edited as the symbols say**, with the bytes of what is inserted or changed. -/
inductive Edit : List EditSymbol → (old : List A) → (payload : List UInt8) → (new : List A) → Prop
  | nil : Edit [] [] [] []
  | same {symbols : List EditSymbol} {a : A} {old new : List A} {payload : List UInt8} :
      Edit symbols old payload new → Edit (.same :: symbols) (a :: old) payload (a :: new)
  | insert {symbols : List EditSymbol} {a : A} {old new : List A} {bytes payload : List UInt8} :
      Inserted bytes a → Edit symbols old payload new → Edit (.insert :: symbols) old (bytes ++ payload) (a :: new)
  | delete {symbols : List EditSymbol} {a : A} {old new : List A} {payload : List UInt8} :
      Edit symbols old payload new → Edit (.delete :: symbols) (a :: old) payload new
  | changed {symbols : List EditSymbol} {a a' : A} {old new : List A} {bytes payload : List UInt8} :
      Changed a bytes a' → Edit symbols old payload new →
        Edit (.changed :: symbols) (a :: old) (bytes ++ payload) (a' :: new)

/-- Reading a script comes to a change of a bad payload. -/
inductive Reaches (Bad : A → List UInt8 → Prop) : List EditSymbol → List A → List UInt8 → Prop
  | here {symbols : List EditSymbol} {a : A} {old : List A} {data : List UInt8} :
      Bad a data → Reaches Bad (.changed :: symbols) (a :: old) data
  | same {symbols : List EditSymbol} {a : A} {old : List A} {data : List UInt8} :
      Reaches Bad symbols old data → Reaches Bad (.same :: symbols) (a :: old) data
  | insert {symbols : List EditSymbol} {a : A} {old : List A} {bytes data : List UInt8} :
      Inserted bytes a → Reaches Bad symbols old data → Reaches Bad (.insert :: symbols) old (bytes ++ data)
  | delete {symbols : List EditSymbol} {a : A} {old : List A} {data : List UInt8} :
      Reaches Bad symbols old data → Reaches Bad (.delete :: symbols) (a :: old) data
  | changed {symbols : List EditSymbol} {a a' : A} {old : List A} {bytes data : List UInt8} :
      Changed a bytes a' → Reaches Bad symbols old data → Reaches Bad (.changed :: symbols) (a :: old) (bytes ++ data)

variable (inflate : List UInt8 → Option (List UInt8))

/-- `CompressedChanges`: the two sizes, and the compressed bytes. -/
def CompressedChanges (changes bytes : List UInt8) : Prop :=
  ∃ zlibData : List UInt8, zlibData.length < 4294967296 ∧ changes.length ≤ kMaxUncompressedChangesLength ∧
    inflate zlibData = some changes ∧ bytes = toLe 4 changes.length ++ (toLe 4 zlibData.length ++ zlibData)

def Script (old : List A) (bytes : List UInt8) (new : List A) : Prop :=
  ∃ (symbols : List EditSymbol) (header payload : List UInt8),
    CompressedChanges inflate (symbols.map (·.toByte)) header ∧ Edit Inserted Changed symbols old payload new ∧
      bytes = header ++ payload

/-- **An empty script of an empty list**, whose compressed bytes are behind its sizes.  The bytes that `inflate` takes
for nothing may be none. -/
def EmptyScript (old : List A) (data : List UInt8) : Prop :=
  old = [] ∧ ∃ (compressedSize : ℕ) (rest : List UInt8), compressedSize < 4294967296 ∧ compressedSize ≤ rest.length ∧
    data = toLe 4 0 ++ (toLe 4 compressedSize ++ rest) ∧ ¬(compressedSize = 0 ∧ inflate [] = some [])

def ReachesEmpty (Bad : A → List UInt8 → Prop) (old : List A) (data : List UInt8) : Prop :=
  EmptyScript inflate old data ∨ ∃ (symbols : List EditSymbol) (header payload : List UInt8),
      CompressedChanges inflate (symbols.map (·.toByte)) header ∧ data = header ++ payload ∧
        Reaches Inserted Changed Bad symbols old payload

end

def serialBytes (serial : List UInt8) : List UInt8 := toLe 1 serial.length ++ serial

def SerialBytes (bytes serial : List UInt8) : Prop := serial.length < 256 ∧ bytes = serialBytes serial

def crlBytes (crl : Crl) : List UInt8 := crl.1 ++ (toLe 4 crl.2.length ++ crl.2.flatMap serialBytes)

structure CrlFits (crl : Crl) : Prop where
  hash : crl.1.length = kSHA256Length
  count : crl.2.length < 4294967296
  serials : ∀ serial ∈ crl.2, serial.length < 256

def CrlBytes (bytes : List UInt8) (crl : Crl) : Prop := CrlFits crl ∧ bytes = crlBytes crl

section

variable (inflate : List UInt8 → Option (List UInt8))

def SerialScript : List (List UInt8) → List UInt8 → List (List UInt8) → Prop :=
  Script SerialBytes (fun _ _ _ => False) inflate

def ChangedCrl (crl : Crl) (bytes : List UInt8) (crl' : Crl) : Prop :=
  crl'.1 = crl.1 ∧ SerialScript inflate crl.2 bytes crl'.2

def CrlScript : List Crl → List UInt8 → List Crl → Prop := Script CrlBytes (ChangedCrl inflate) inflate

def CrlScriptReachesEmpty : List Crl → List UInt8 → Prop :=
  ReachesEmpty CrlBytes (ChangedCrl inflate) inflate fun crl => EmptyScript inflate crl.2

end

/-! ## Reading -/

variable {A S : Type} {data bytes rest : List UInt8} {n w : ℕ}

theorem removePrefix_eq_some : removePrefix n data = some (bytes, rest) ↔ bytes.length = n ∧ data = bytes ++ rest := by
  unfold removePrefix
  constructor
  · intro h
    obtain ⟨hlen, h⟩ := Option.ite_none_left_eq_some.1 h
    cases h
    exact ⟨List.length_take_of_le (not_lt.1 hlen), (List.take_append_drop n data).symm⟩
  · rintro ⟨rfl, rfl⟩
    rw [if_neg (by rw [List.length_append]; omega), List.take_left, List.drop_left]

theorem readNumber_eq_some {value : ℕ} :
    readNumber w data = some (value, rest) ↔ value < 256 ^ w ∧ data = toLe w value ++ rest := by
  unfold readNumber
  simp only [bind_eq_bind, bind_eq_some_iff, Prod.exists, removePrefix_eq_some]
  constructor
  · rintro ⟨bytes, rest', ⟨rfl, rfl⟩, h⟩
    cases h
    exact ⟨leNat_lt bytes, by rw [toLe_leNat]⟩
  · rintro ⟨hlt, rfl⟩
    exact ⟨toLe w value, rest, ⟨length_toLe w value, rfl⟩, by rw [leNat_toLe hlt]⟩

theorem readSerial_eq_some {serial : List UInt8} :
    readSerial data = some (serial, rest) ↔ ∃ bytes, SerialBytes bytes serial ∧ data = bytes ++ rest := by
  unfold readSerial SerialBytes serialBytes
  simp only [bind_eq_bind, bind_eq_some_iff, Prod.exists, readNumber_eq_some, removePrefix_eq_some]
  constructor
  · rintro ⟨_, _, ⟨hlt, rfl⟩, rfl, rfl⟩
    exact ⟨_, ⟨by simpa using hlt, rfl⟩, (append_assoc _ _ _).symm⟩
  · rintro ⟨_, ⟨hlt, rfl⟩, rfl⟩
    exact ⟨_, _, ⟨by simpa using hlt, append_assoc _ _ _⟩, rfl, rfl⟩

theorem readSerials_eq_some {serials : List (List UInt8)} : readSerials n data = some (serials, rest) ↔
      serials.length = n ∧ (∀ serial ∈ serials, serial.length < 256) ∧
        data = serials.flatMap serialBytes ++ rest := by
  induction n generalizing data serials rest with
  | zero =>
    rw [readSerials, Option.some_inj, Prod.mk.injEq]
    constructor
    · rintro ⟨rfl, rfl⟩
      exact ⟨rfl, nofun, rfl⟩
    · rintro ⟨hlen, -, rfl⟩
      obtain rfl := List.length_eq_zero_iff.1 hlen
      exact ⟨rfl, rfl⟩
  | succ n ih =>
    rw [readSerials]
    simp only [bind_eq_bind, bind_eq_some_iff, Prod.exists, readSerial_eq_some, ih]
    constructor
    · rintro ⟨serial, _, ⟨_, ⟨hlt, rfl⟩, rfl⟩, serials', rest', ⟨rfl, hall, rfl⟩, h⟩
      cases h
      refine ⟨rfl, fun s hs => ?_, ?_⟩
      · rcases List.mem_cons.1 hs with rfl | hs
        · exact hlt
        · exact hall s hs
      · rw [List.flatMap_cons, append_assoc]
    · rintro ⟨hlen, hall, rfl⟩
      obtain ⟨serial, serials, rfl⟩ := List.exists_cons_of_length_eq_add_one hlen
      refine ⟨serial, serials.flatMap serialBytes ++ rest,
        ⟨serialBytes serial, ⟨hall serial List.mem_cons_self, rfl⟩, ?_⟩, serials, rest,
        ⟨by simpa using hlen, fun s hs => hall s (List.mem_cons_of_mem _ hs), rfl⟩, rfl⟩
      rw [List.flatMap_cons, append_assoc]

theorem readCRL_eq_some {crl : Crl} :
    readCRL data = some (crl, rest) ↔ ∃ bytes, CrlBytes bytes crl ∧ data = bytes ++ rest := by
  unfold readCRL CrlBytes crlBytes
  simp only [bind_eq_bind, bind_eq_some_iff, Prod.exists, readNumber_eq_some, removePrefix_eq_some,
    readSerials_eq_some]
  constructor
  · rintro ⟨hash, _, ⟨hlen, rfl⟩, _, _, ⟨hlt, rfl⟩, serials, rest', ⟨rfl, hall, rfl⟩, h⟩
    cases h
    exact ⟨_, ⟨⟨hlen, by simpa using hlt, hall⟩, rfl⟩, by simp only [append_assoc]⟩
  · rintro ⟨_, ⟨⟨hhash, hcount, hserials⟩, rfl⟩, rfl⟩
    exact ⟨crl.1, _, ⟨hhash, by simp only [append_assoc]⟩, crl.2.length, _, ⟨by simpa using hcount, rfl⟩, crl.2, rest,
      ⟨rfl, hserials, rfl⟩, rfl⟩

/-! ## Reading a script -/

section

variable {inflate : List UInt8 → Option (List UInt8)} {changes : List UInt8}

theorem decompressZlib_eq_some {outLen : ℕ} : decompressZlib inflate outLen data = some changes ↔
    inflate data = some changes ∧ changes.length = outLen := by
  rw [decompressZlib, Option.filter_eq_some_iff, decide_eq_true_iff]

/-- **The changes are read as they were compressed**, but where there are none: then the compressed bytes are left. -/
theorem readChanges_eq_some : readChanges inflate data = some (changes, rest) ↔
    (changes ≠ [] ∧ ∃ header, CompressedChanges inflate changes header ∧ data = header ++ rest) ∨
    (changes = [] ∧ ∃ compressedSize < 4294967296, compressedSize ≤ rest.length ∧
      data = toLe 4 0 ++ (toLe 4 compressedSize ++ rest)) := by
  unfold readChanges CompressedChanges
  simp only [bind_eq_bind, bind_eq_some_iff, Prod.exists, readNumber_eq_some]
  constructor
  · rintro ⟨uncompressedSize, _, ⟨-, rfl⟩, compressedSize, data, ⟨hsize, rfl⟩, h⟩
    obtain ⟨hmax, h⟩ := Option.ite_none_left_eq_some.1 h
    obtain ⟨hlen, h⟩ := Option.ite_none_left_eq_some.1 h
    have htake : (data.take compressedSize).length = compressedSize := List.length_take_of_le (not_lt.1 hlen)
    split at h
    · next hzero =>
      cases h
      subst hzero
      exact .inr ⟨rfl, compressedSize, hsize, not_lt.1 hlen, rfl⟩
    · next hzero =>
      obtain ⟨_, hout, h⟩ := bind_eq_some_iff.1 h
      cases h
      obtain ⟨hinflate, rfl⟩ := decompressZlib_eq_some.1 hout
      refine .inl ⟨fun hnil => hzero (by rw [hnil]; rfl), _,
        ⟨data.take compressedSize, htake.symm ▸ hsize, not_lt.1 hmax, hinflate, rfl⟩, ?_⟩
      rw [htake, append_assoc, append_assoc, List.take_append_drop]
  · rintro (⟨hne, _, ⟨zlibData, hsize, hmax, hinflate, rfl⟩, rfl⟩ | ⟨rfl, compressedSize, hsize, hle, rfl⟩)
    · refine ⟨changes.length, toLe 4 zlibData.length ++ (zlibData ++ rest),
        ⟨lt_of_le_of_lt hmax (by decide), by simp only [append_assoc]⟩, zlibData.length, zlibData ++ rest,
        ⟨hsize, rfl⟩, ?_⟩
      rw [if_neg (not_lt.2 hmax), if_neg (by rw [List.length_append]; omega),
        if_neg (by rw [List.length_eq_zero_iff]; exact hne), List.take_left, List.drop_left]
      exact bind_eq_some_iff.2 ⟨changes, decompressZlib_eq_some.2 ⟨hinflate, rfl⟩, rfl⟩
    · refine ⟨0, _, ⟨by decide, rfl⟩, compressedSize, rest, ⟨hsize, rfl⟩, ?_⟩
      rw [if_neg (by decide), if_neg (not_lt.2 hle), if_pos rfl]

end

section

variable {Inserted : List UInt8 → A → Prop} {Changed : A → List UInt8 → A → Prop} {Bad : A → List UInt8 → Prop}
  {readInserted : List UInt8 → Option (A × List UInt8)} {readChanged : A → List UInt8 → Option (A × List UInt8)}
  {push : S → A → S} {old left : List A} {symbols : List EditSymbol} {changes : List UInt8} {i : ℕ} {out : S}

/-- What the readers of a script read: what is inserted exactly, and what is changed where it is not bad. -/
structure Reads (Inserted : List UInt8 → A → Prop) (Changed : A → List UInt8 → A → Prop) (Bad : A → List UInt8 → Prop)
    (readInserted : List UInt8 → Option (A × List UInt8)) (readChanged : A → List UInt8 → Option (A × List UInt8)) :
    Prop where
  inserted : ∀ data a rest, readInserted data = some (a, rest) ↔ ∃ bytes, Inserted bytes a ∧ data = bytes ++ rest
  changed : ∀ a data, ¬Bad a data → ∀ a' rest,
    readChanged a data = some (a', rest) ↔ ∃ bytes, Changed a bytes a' ∧ data = bytes ++ rest

theorem getElem?_of_drop {a : A} {tail : List A} (h : old.drop i = a :: tail) :
    old[i]? = some a ∧ old.drop (i + 1) = tail := by
  constructor
  · rw [← Nat.add_zero i, ← List.getElem?_drop, h]
    rfl
  · rw [← List.drop_drop, h]
    rfl

theorem exists_cons_of_drop {a : A} {tail : List A} (h : old.drop i = tail) (hget : old[i]? = some a) :
    ∃ tail', tail = a :: tail' := by
  rw [← Nat.add_zero i, ← List.getElem?_drop, h] at hget
  cases tail with
  | nil => exact absurd hget (Option.some_ne_none a).symm
  | cons b tail => exact ⟨tail, congrArg (· :: tail) (Option.some.inj hget)⟩

/-! One change. -/

theorem applyChanges_same : applyChanges readInserted readChanged push old (SYMBOL_SAME :: changes) i out data =
    old[i]?.bind fun item => applyChanges readInserted readChanged push old changes (i + 1) (push out item) data := rfl

theorem applyChanges_insert : applyChanges readInserted readChanged push old (SYMBOL_INSERT :: changes) i out data =
    (readInserted data).bind fun read =>
      applyChanges readInserted readChanged push old changes i (push out read.1) read.2 := rfl

theorem applyChanges_delete : applyChanges readInserted readChanged push old (SYMBOL_DELETE :: changes) i out data =
    old[i]?.bind fun _ => applyChanges readInserted readChanged push old changes (i + 1) out data := rfl

theorem applyChanges_changed : applyChanges readInserted readChanged push old (SYMBOL_CHANGED :: changes) i out data =
    old[i]?.bind fun item => (readChanged item data).bind fun read =>
      applyChanges readInserted readChanged push old changes (i + 1) (push out read.1) read.2 := rfl

theorem applyChanges_of_edit (push : S → A → S) (out : S) (left : List A) (rest : List UInt8)
    (h : Reads Inserted Changed Bad readInserted readChanged) {used new : List A} {payload : List UInt8}
    (hedit : Edit Inserted Changed symbols used payload new) (hdrop : old.drop i = used ++ left)
    (hreach : ¬Reaches Inserted Changed Bad symbols (used ++ left) (payload ++ rest)) :
    applyChanges readInserted readChanged push old (symbols.map (·.toByte)) i out (payload ++ rest) =
      some (i + used.length, new.foldl push out, rest) := by
  induction hedit generalizing i out with
  | nil => rfl
  | same hedit ih =>
    obtain ⟨hget, hdrop⟩ := getElem?_of_drop hdrop
    rw [map_cons, EditSymbol.toByte, applyChanges_same, hget, bind_some,
      ih _ hdrop (fun hr => hreach (.same hr)), length_cons, Nat.add_right_comm, Nat.add_assoc]
    rfl
  | insert hinserted hedit ih =>
    rw [append_assoc] at hreach ⊢
    rw [map_cons, EditSymbol.toByte, applyChanges_insert, (h.inserted _ _ _).2 ⟨_, hinserted, rfl⟩,
      bind_some, ih _ hdrop (fun hr => hreach (.insert hinserted hr))]
    rfl
  | delete hedit ih =>
    obtain ⟨hget, hdrop⟩ := getElem?_of_drop hdrop
    rw [map_cons, EditSymbol.toByte, applyChanges_delete, hget, bind_some,
      ih _ hdrop (fun hr => hreach (.delete hr)), length_cons, Nat.add_right_comm, Nat.add_assoc]
  | changed hchanged hedit ih =>
    obtain ⟨hget, hdrop⟩ := getElem?_of_drop hdrop
    rw [append_assoc] at hreach ⊢
    rw [map_cons, EditSymbol.toByte, applyChanges_changed, hget, bind_some,
      (h.changed _ _ (fun hbad => hreach (.here hbad)) _ _).2 ⟨_, hchanged, rfl⟩, bind_some,
      ih _ hdrop (fun hr => hreach (.changed hchanged hr)), length_cons, Nat.add_right_comm, Nat.add_assoc]
    rfl

theorem edit_of_applyChanges (h : Reads Inserted Changed Bad readInserted readChanged) {symbols : List EditSymbol}
    {i' : ℕ} {out' : S} {tail : List A} (hdrop : old.drop i = tail)
    (hreach : ¬Reaches Inserted Changed Bad symbols tail data)
    (happly : applyChanges readInserted readChanged push old (symbols.map (·.toByte)) i out data = some (i', out', rest)) :
    ∃ used left payload new, tail = used ++ left ∧ Edit Inserted Changed symbols used payload new ∧
      data = payload ++ rest ∧ i' = i + used.length ∧ out' = new.foldl push out := by
  induction symbols generalizing i out data tail with
  | nil =>
    obtain ⟨rfl, h⟩ := Prod.mk.inj (Option.some.inj happly)
    cases h
    exact ⟨[], tail, [], [], rfl, .nil, rfl, rfl, rfl⟩
  | cons symbol symbols ih =>
    rw [map_cons] at happly
    cases symbol with
    | same =>
      rw [EditSymbol.toByte, applyChanges_same, bind_eq_some_iff] at happly
      obtain ⟨a, hget, happly⟩ := happly
      obtain ⟨tail, rfl⟩ := exists_cons_of_drop hdrop hget
      obtain ⟨used, left, payload, new, rfl, hedit, rfl, rfl, rfl⟩ :=
        ih (getElem?_of_drop hdrop).2 (fun hr => hreach (.same hr)) happly
      exact ⟨a :: used, left, payload, a :: new, rfl, .same hedit, rfl,
        by rw [length_cons, Nat.add_right_comm, Nat.add_assoc], rfl⟩
    | insert =>
      rw [EditSymbol.toByte, applyChanges_insert, bind_eq_some_iff] at happly
      obtain ⟨⟨a, _⟩, hread, happly⟩ := happly
      obtain ⟨bytes, hinserted, rfl⟩ := (h.inserted _ _ _).1 hread
      obtain ⟨used, left, payload, new, rfl, hedit, rfl, rfl, rfl⟩ :=
        ih hdrop (fun hr => hreach (.insert hinserted hr)) happly
      exact ⟨used, left, bytes ++ payload, a :: new, rfl, .insert hinserted hedit, (append_assoc _ _ _).symm, rfl, rfl⟩
    | delete =>
      rw [EditSymbol.toByte, applyChanges_delete, bind_eq_some_iff] at happly
      obtain ⟨a, hget, happly⟩ := happly
      obtain ⟨tail, rfl⟩ := exists_cons_of_drop hdrop hget
      obtain ⟨used, left, payload, new, rfl, hedit, rfl, rfl, rfl⟩ :=
        ih (getElem?_of_drop hdrop).2 (fun hr => hreach (.delete hr)) happly
      exact ⟨a :: used, left, payload, new, rfl, .delete hedit, rfl,
        by rw [length_cons, Nat.add_right_comm, Nat.add_assoc], rfl⟩
    | changed =>
      rw [EditSymbol.toByte, applyChanges_changed, bind_eq_some_iff] at happly
      obtain ⟨a, hget, hbind⟩ := happly
      obtain ⟨tail, rfl⟩ := exists_cons_of_drop hdrop hget
      obtain ⟨⟨a', _⟩, hread, happly⟩ := bind_eq_some_iff.1 hbind
      obtain ⟨bytes, hchanged, rfl⟩ := (h.changed _ _ (fun hbad => hreach (.here hbad)) _ _).1 hread
      obtain ⟨used, left, payload, new, rfl, hedit, rfl, rfl, rfl⟩ :=
        ih (getElem?_of_drop hdrop).2 (fun hr => hreach (.changed hchanged hr)) happly
      exact ⟨a :: used, left, bytes ++ payload, a' :: new, rfl, .changed hchanged hedit, (append_assoc _ _ _).symm,
        by rw [length_cons, Nat.add_right_comm, Nat.add_assoc], rfl⟩

end

end Chromium.Net
