import Chromium.Net.Base.CrlSetFormat

/-!
# The deltas of a CRL set

`ApplyDelta` of `net/base/crl_set.cc` and its documented format.  The bytes behind the sizes of compressed changes are
not consumed where the changes are none, so a delta with an empty script is not read as it was written.  All others
are.
-/

namespace Chromium.Net

open Lib Base
open Option (bind_eq_bind bind_eq_some_iff bind_some some_inj some_ne_none)
open List (append_assoc append_nil drop_zero)

/-! ## A whole script -/

section

variable {A S : Type} {Inserted : List UInt8 → A → Prop} {Changed : A → List UInt8 → A → Prop}
  {Bad : A → List UInt8 → Prop} {readInserted : List UInt8 → Option (A × List UInt8)}
  {readChanged : A → List UInt8 → Option (A × List UInt8)} {push : S → A → S} {old : List A}
  {symbols : List EditSymbol} {changes data rest : List UInt8} {i : ℕ} {out : S}
  {inflate : List UInt8 → Option (List UInt8)}

theorem applyChanges_cons {k : UInt8} {r : ℕ × S × List UInt8}
    (h : applyChanges readInserted readChanged push old (k :: changes) i out data = some r) :
    ∃ (symbol : EditSymbol) (i' : ℕ) (out' : S) (data' : List UInt8), k = symbol.toByte ∧
      (out' = out ∨ ∃ a, out' = push out a) ∧
      applyChanges readInserted readChanged push old changes i' out' data' = some r := by
  rw [applyChanges] at h
  split at h
  · next hk =>
    obtain ⟨a, -, h⟩ := bind_eq_some_iff.1 h
    exact ⟨.same, _, _, _, hk, .inr ⟨a, rfl⟩, h⟩
  split at h
  · next hk =>
    obtain ⟨a, -, h⟩ := bind_eq_some_iff.1 h
    exact ⟨.insert, _, _, _, hk, .inr ⟨_, rfl⟩, h⟩
  split at h
  · next hk =>
    obtain ⟨_, -, h⟩ := bind_eq_some_iff.1 h
    exact ⟨.delete, _, _, _, hk, .inl rfl, h⟩
  split at h
  · next hk =>
    obtain ⟨_, -, hbind⟩ := bind_eq_some_iff.1 h
    obtain ⟨_, -, h⟩ := bind_eq_some_iff.1 hbind
    exact ⟨.changed, _, _, _, hk, .inr ⟨_, rfl⟩, h⟩
  · exact absurd h (some_ne_none r).symm

theorem exists_symbols_of_applyChanges {r : ℕ × S × List UInt8}
    (h : applyChanges readInserted readChanged push old changes i out data = some r) :
    ∃ symbols : List EditSymbol, changes = symbols.map (·.toByte) := by
  induction changes generalizing i out data with
  | nil => exact ⟨[], rfl⟩
  | cons k changes ih =>
    obtain ⟨symbol, _, _, _, hk, -, h⟩ := applyChanges_cons h
    obtain ⟨symbols, rfl⟩ := ih h
    exact ⟨symbol :: symbols, by rw [hk, List.map_cons]⟩

theorem applyChanges_invariant {P : S → Prop} (hpush : ∀ (out : S) (a : A), P out → P (push out a)) (hout : P out)
    {i' : ℕ} {out' : S} (h : applyChanges readInserted readChanged push old changes i out data = some (i', out', rest)) :
    P out' := by
  induction changes generalizing i out data with
  | nil =>
    obtain ⟨-, h⟩ := Prod.mk.inj (Option.some.inj h)
    exact (Prod.mk.inj h).1 ▸ hout
  | cons k changes ih =>
    obtain ⟨_, _, next, _, -, hnext, h⟩ := applyChanges_cons h
    have hkept : P next := by
      rcases hnext with rfl | ⟨a, rfl⟩
      · exact hout
      · exact hpush out a hout
    exact ih hkept h

theorem compressedChanges_nil_of_not_emptyScript {compressedSize : ℕ} (hlt : compressedSize < 4294967296)
    (hle : compressedSize ≤ rest.length)
    (hempty : ¬EmptyScript inflate ([] : List A) (toLe 4 0 ++ (toLe 4 compressedSize ++ rest))) :
    compressedSize = 0 ∧ inflate [] = some [] := by
  by_contra hno
  exact hempty ⟨rfl, compressedSize, rest, hlt, hle, rfl, hno⟩

/-- **A script is read exactly where it is**, if reading it comes to no empty script. -/
theorem readScript_iff (push : S → A → S) (out out' : S) (rest : List UInt8)
    (h : Reads Inserted Changed Bad readInserted readChanged)
    (hreach : ¬ReachesEmpty Inserted Changed inflate Bad old data) :
    (∃ changes data', readChanges inflate data = some (changes, data') ∧
      applyChanges readInserted readChanged push old changes 0 out data' = some (old.length, out', rest)) ↔
    ∃ bytes new, Script Inserted Changed inflate old bytes new ∧ data = bytes ++ rest ∧ out' = new.foldl push out := by
  have hempty : ¬EmptyScript inflate old data := fun hempty => hreach (.inl hempty)
  constructor
  · rintro ⟨changes, data', hread, happly⟩
    obtain ⟨symbols, rfl⟩ := exists_symbols_of_applyChanges happly
    rcases readChanges_eq_some.1 hread with ⟨-, header, hheader, rfl⟩ | ⟨hnil, compressedSize, hlt, hle, rfl⟩
    · obtain ⟨used, left, payload, new, hold, hedit, rfl, hlen, rfl⟩ :=
        edit_of_applyChanges h rfl (fun hr => hreach (.inr ⟨symbols, header, data', hheader, rfl, hr⟩)) happly
      have hleft : left = [] := by
        rw [drop_zero] at hold
        rw [hold, List.length_append, Nat.zero_add] at hlen
        exact List.length_eq_zero_iff.1 (by omega)
      rw [hleft, append_nil, drop_zero] at hold
      exact ⟨header ++ payload, new, ⟨symbols, header, payload, hheader, hold ▸ hedit, rfl⟩,
        (append_assoc _ _ _).symm, rfl⟩
    · -- Without changes the old list is empty too.
      obtain rfl := List.map_eq_nil_iff.1 hnil
      obtain ⟨hlen, hrest⟩ := Prod.mk.inj (Option.some.inj happly)
      cases hrest
      obtain rfl := List.length_eq_zero_iff.1 hlen.symm
      obtain ⟨rfl, hinflate⟩ := compressedChanges_nil_of_not_emptyScript hlt hle hempty
      refine ⟨toLe 4 0 ++ toLe 4 0, [], ⟨[], toLe 4 0 ++ toLe 4 0, [], ?_, .nil, (append_nil _).symm⟩,
        (append_assoc _ _ _).symm, rfl⟩
      exact ⟨[], by decide, by decide, hinflate, by rw [append_nil]; rfl⟩
  · rintro ⟨_, new, ⟨symbols, header, payload, hheader, hedit, rfl⟩, rfl, rfl⟩
    rw [append_assoc] at hreach hempty ⊢
    have happly := applyChanges_of_edit push out [] rest h hedit
      (by rw [append_nil]; exact drop_zero) (fun hr => hreach (.inr ⟨symbols, header, _, hheader, rfl, by
        rwa [append_nil] at hr⟩))
    rw [Nat.zero_add] at happly
    refine ⟨symbols.map (·.toByte), payload ++ rest, readChanges_eq_some.2 ?_, happly⟩
    cases symbols with
    | nil =>
      cases hedit with
      | nil =>
      obtain ⟨zlibData, hlt, -, -, rfl⟩ := hheader
      rw [append_assoc, append_assoc] at hempty
      obtain ⟨hzero, -⟩ := compressedChanges_nil_of_not_emptyScript hlt (by rw [List.length_append]; omega) hempty
      obtain rfl := List.length_eq_zero_iff.1 hzero
      exact .inr ⟨rfl, 0, by decide, Nat.zero_le _, by rw [append_assoc, append_assoc]; rfl⟩
    | cons symbol symbols => exact .inl ⟨List.cons_ne_nil _ _, header, hheader, rfl⟩

end

/-! ## The serials of a CRL -/

section

variable {inflate : List UInt8 → Option (List UInt8)} {data rest : List UInt8}

theorem reads_serial : Reads SerialBytes (fun _ _ _ => False) (fun _ _ => False) readSerial (fun _ _ => none) where
  inserted _ _ _ := readSerial_eq_some
  changed _ _ _ _ _ := ⟨nofun, fun ⟨_, h, _⟩ => h.elim⟩

theorem not_reaches_serial {symbols : List EditSymbol} {old : List (List UInt8)} :
    ¬Reaches SerialBytes (fun _ _ _ => False) (fun _ _ => False) symbols old data := by
  intro h
  induction h with
  | here h | changed h => exact h
  | same _ ih | insert _ _ ih | delete _ ih => exact ih

theorem foldl_append_singleton {A : Type} (l out : List A) : l.foldl (fun out a => out ++ [a]) out = out ++ l := by
  induction l generalizing out with
  | nil => exact (append_nil out).symm
  | cons a l ih => rw [List.foldl_cons, ih, append_assoc]; rfl

/-- **The serials of a CRL are read as they were written**, if the script is not empty. -/
theorem readDeltaCRL_eq_some {old serials : List (List UInt8)} (hempty : ¬EmptyScript inflate old data) :
    readDeltaCRL inflate data old = some (serials, rest) ↔
      ∃ bytes, SerialScript inflate old bytes serials ∧ data = bytes ++ rest := by
  have hreach : ¬ReachesEmpty SerialBytes (fun _ _ _ => False) inflate (fun _ _ => False) old data :=
    fun hr => hr.elim hempty fun ⟨_, _, _, _, _, hr⟩ => not_reaches_serial hr
  have hscript := readScript_iff (fun out serial => out ++ [serial]) [] serials rest reads_serial hreach
  unfold readDeltaCRL
  simp only [foldl_append_singleton, List.nil_append] at hscript
  simp only [bind_eq_bind, bind_eq_some_iff, Prod.exists]
  constructor
  · rintro ⟨changes, data', hread, i, out, rest', happly, h⟩
    obtain ⟨hi, h⟩ := Option.ite_none_left_eq_some.1 h
    cases h
    obtain ⟨bytes, _, hbytes, hdata, rfl⟩ := hscript.1 ⟨changes, data', hread, (not_not.1 hi) ▸ happly⟩
    exact ⟨bytes, hbytes, hdata⟩
  · rintro ⟨bytes, hbytes, hdata⟩
    obtain ⟨changes, data', hread, happly⟩ := hscript.2 ⟨bytes, serials, hbytes, hdata, rfl⟩
    exact ⟨changes, data', hread, _, _, _, happly, if_neg (fun h => h rfl)⟩

theorem readChangedCRL_eq_some {crl crl' : Crl} (hempty : ¬EmptyScript inflate crl.2 data) :
    CRLSet.readChangedCRL inflate crl data = some (crl', rest) ↔
      ∃ bytes, ChangedCrl inflate crl bytes crl' ∧ data = bytes ++ rest := by
  unfold CRLSet.readChangedCRL ChangedCrl
  simp only [bind_eq_bind, bind_eq_some_iff, Prod.exists, readDeltaCRL_eq_some hempty]
  constructor
  · rintro ⟨serials, _, ⟨bytes, hbytes, rfl⟩, h⟩
    cases h
    exact ⟨bytes, ⟨rfl, hbytes⟩, rfl⟩
  · rintro ⟨bytes, ⟨hhash, hbytes⟩, rfl⟩
    exact ⟨crl'.2, rest, ⟨bytes, hbytes, rfl⟩, by rw [← hhash]⟩

theorem reads_crl : Reads CrlBytes (ChangedCrl inflate) (fun crl => EmptyScript inflate crl.2) readCRL
    (CRLSet.readChangedCRL inflate) where
  inserted _ _ _ := readCRL_eq_some
  changed _ _ hempty _ _ := readChangedCRL_eq_some hempty

end

/-! ## The header -/

section

variable {D : Type} {dictionary : List (List UInt8 × Value D)} {contentType : String}
  {nextUpdate updateWindow : Value D} {sequence : Int32} {readJson : List UInt8 → Option (Value D)}

/-- A `double`, or an integer. -/
def Numeric : Value D → Prop
  | .integer _ => True
  | .double _ => True
  | _ => False

structure SetHeader (contentType : String) (dictionary : List (List UInt8 × Value D)) (nextUpdate updateWindow : Value D)
    (sequence : Int32) : Prop where
  contentType : SortedMap.get? (ascii "ContentType") dictionary = some (.string (ascii contentType))
  version : SortedMap.get? (ascii "Version") dictionary = some (.integer kCurrentFileVersion)
  nextUpdate : SortedMap.get? (ascii "NextUpdate") dictionary = some nextUpdate ∧ Numeric nextUpdate
  windowSecs : SortedMap.get? (ascii "WindowSecs") dictionary = some updateWindow ∧ Numeric updateWindow
  sequence : SortedMap.get? (ascii "Sequence") dictionary = some (.integer sequence)

def HeaderBytes (readJson : List UInt8 → Option (Value D)) (bytes : List UInt8)
    (dictionary : List (List UInt8 × Value D)) : Prop :=
  ∃ text : List UInt8, text.length < 65536 ∧ readJson text = some (.dictionary dictionary) ∧
    bytes = toLe 2 text.length ++ text

theorem readHeader_eq_some {data rest : List UInt8} : readHeader readJson data = some (dictionary, rest) ↔
    ∃ bytes, HeaderBytes readJson bytes dictionary ∧ data = bytes ++ rest := by
  unfold readHeader HeaderBytes
  simp only [bind_eq_bind, bind_eq_some_iff, Prod.exists, readNumber_eq_some, removePrefix_eq_some]
  constructor
  · rintro ⟨_, _, ⟨hlt, rfl⟩, text, rest', ⟨rfl, rfl⟩, h⟩
    split at h
    · next hjson =>
      cases h
      exact ⟨_, ⟨text, by simpa using hlt, hjson, rfl⟩, (append_assoc _ _ _).symm⟩
    · cases h
  · rintro ⟨_, ⟨text, hlt, hjson, rfl⟩, rfl⟩
    exact ⟨_, _, ⟨by simpa using hlt, append_assoc _ _ _⟩, text, rest, ⟨rfl, rfl⟩, by rw [hjson]⟩

theorem getString_eq_some {key : String} {value : List UInt8} : getString dictionary key = some value ↔
    SortedMap.get? (ascii key) dictionary = some (.string value) := by
  unfold getString
  split
  · next h => rw [h, some_inj, some_inj, Value.string.injEq]
  · next hne => exact ⟨nofun, fun h => absurd h (hne value)⟩

theorem getInteger_eq_some {key : String} {value : Int32} : getInteger dictionary key = some value ↔
    SortedMap.get? (ascii key) dictionary = some (.integer value) := by
  unfold getInteger
  split
  · next h => rw [h, some_inj, some_inj, Value.integer.injEq]
  · next hne => exact ⟨nofun, fun h => absurd h (hne value)⟩

theorem getDouble_eq_some {key : String} {value : Value D} : getDouble dictionary key = some value ↔
    SortedMap.get? (ascii key) dictionary = some value ∧ Numeric value := by
  unfold getDouble
  constructor
  · intro h
    split at h
    · next hget => exact ⟨hget.trans h, Option.some.inj h ▸ trivial⟩
    · next hget => exact ⟨hget.trans h, Option.some.inj h ▸ trivial⟩
    · cases h
  · rintro ⟨hget, hnumeric⟩
    cases value with
    | integer value | double value => rw [hget]
    | null | boolean | string | list | dictionary => exact hnumeric.elim

theorem CRLSet.setFromHeader_eq_some {set : CRLSet D} : CRLSet.setFromHeader dictionary contentType = some set ↔
    ∃ nextUpdate updateWindow sequence, SetHeader contentType dictionary nextUpdate updateWindow sequence ∧
      set = CRLSet.new nextUpdate updateWindow sequence := by
  unfold CRLSet.setFromHeader
  simp only [bind_eq_bind, bind_eq_some_iff, getString_eq_some]
  constructor
  · rintro ⟨contents, hcontents, h⟩
    obtain ⟨hcontentType, h⟩ := Option.ite_none_left_eq_some.1 h
    obtain ⟨version, hversion, h⟩ := bind_eq_some_iff.1 h
    rw [getInteger_eq_some] at hversion
    obtain ⟨hcurrent, h⟩ := Option.ite_none_left_eq_some.1 h
    simp only [bind_eq_some_iff, getDouble_eq_some, getInteger_eq_some] at h
    obtain ⟨nextUpdate, hnext, updateWindow, hwindow, sequence, hsequence, h⟩ := h
    exact ⟨nextUpdate, updateWindow, sequence,
      ⟨not_not.1 hcontentType ▸ hcontents, not_not.1 hcurrent ▸ hversion, hnext, hwindow, hsequence⟩,
      (Option.some.inj h).symm⟩
  · rintro ⟨nextUpdate, updateWindow, sequence, h, rfl⟩
    refine ⟨_, h.contentType, ?_⟩
    rw [if_neg (fun hne => hne rfl), getInteger_eq_some.2 h.version, bind_some, if_neg (fun hne => hne rfl),
      getDouble_eq_some.2 h.nextUpdate, bind_some, getDouble_eq_some.2 h.windowSecs, bind_some,
      getInteger_eq_some.2 h.sequence, bind_some]

theorem deltaFrom_iff {deltaFrom : Int32} {sequence : UInt32} :
    ¬(deltaFrom < 0 ∨ deltaFrom.toUInt32 ≠ sequence) ↔ deltaFrom.toInt = sequence.toNat := by
  rw [not_or, not_not, ← UInt32.toNat_inj]
  constructor
  · rintro ⟨hneg, hseq⟩
    have hpos : 0 ≤ deltaFrom := Int32.not_lt.1 hneg
    rw [← hseq, Int32.toNat_toUInt32_of_le hpos, Int32.cast_toNatClampNeg deltaFrom hpos]
  · intro h
    have hpos : 0 ≤ deltaFrom := by
      rw [Int32.le_iff_toInt_le, h]
      exact Int.natCast_nonneg _
    refine ⟨Int32.not_lt.2 hpos, ?_⟩
    rw [Int32.toNat_toUInt32_of_le hpos]
    have hcast := Int32.cast_toNatClampNeg deltaFrom hpos
    omega

end

end Chromium.Net
