import Chromium.Net.Base.CrlSetDelta

/-!
# The set behind a delta

What `ApplyDelta` of `net/base/crl_set.cc` makes of a set and a delta, and what `CheckCertificate` says of the sets that
are read: the index finds the last CRL of an issuer.
-/

namespace Chromium.Net

open Lib Base
open Option (bind_eq_bind bind_eq_some_iff bind_some ite_none_left_eq_some)

namespace CRLSet

variable {D : Type} {set : CRLSet D} {data : List UInt8}
  {readJson : List UInt8 → Option (Value D)} {inflate : List UInt8 → Option (List UInt8)}

/-! ## Checking a certificate -/

def lastCrl (crls : List Crl) (issuer : List UInt8) : Option Crl := crls.reverse.find? (·.1 = issuer)

def verdict (crls : List Crl) (serialNumber issuer : List UInt8) : Result :=
  match lastCrl crls issuer with
  | none => .UNKNOWN
  | some crl => if ∃ serial ∈ crl.2, serial = serialNumber then .REVOKED else .GOOD

/-- **The index of a set**: an issuer has none or that of its last CRL. -/
def Indexed (set : CRLSet D) : Prop := ∀ issuer,
  (SortedMap.get? issuer set.crlsIndexByIssuer = none ∧ lastCrl set.crls issuer = none) ∨
  ∃ index crl, SortedMap.get? issuer set.crlsIndexByIssuer = some index ∧ set.crls[index]? = some crl ∧
    lastCrl set.crls issuer = some crl

theorem lastCrl_append (crls : List Crl) (crl : Crl) (issuer : List UInt8) :
    lastCrl (crls ++ [crl]) issuer = if crl.1 = issuer then some crl else lastCrl crls issuer := by
  rw [lastCrl, List.reverse_append, List.reverse_singleton, List.singleton_append, List.find?_cons]
  by_cases h : crl.1 = issuer
  · rw [if_pos h, decide_eq_true h]
  · rw [if_neg h, decide_eq_false h]
    rfl

theorem indexed_new (nextUpdate updateWindow : Value D) (sequence : Int32) :
    (new nextUpdate updateWindow sequence).Indexed := fun _ => .inl ⟨rfl, rfl⟩

/-- **A CRL that is put behind the others becomes the last of its issuer.** -/
theorem Indexed.push (h : set.Indexed) (crl : Crl) : (set.push crl).Indexed := by
  intro issuer
  rw [CRLSet.push, lastCrl_append, SortedMap.get?_set]
  by_cases hissuer : crl.1 = issuer
  · rw [if_pos hissuer, if_pos hissuer]
    exact .inr ⟨_, crl, rfl, List.getElem?_concat_length, rfl⟩
  · rw [if_neg hissuer, if_neg hissuer]
    rcases h issuer with h | ⟨index, last, hget, hindex, hlast⟩
    · exact .inl h
    · refine .inr ⟨index, last, hget, ?_, hlast⟩
      rw [List.getElem?_append_left (List.getElem?_eq_some_iff.1 hindex).1, hindex]

theorem checkCertificate_eq (h : set.Indexed) (serialNumber issuer : List UInt8) :
    checkCertificate set serialNumber issuer = some (verdict set.crls serialNumber issuer) := by
  unfold checkCertificate verdict
  rcases h issuer with ⟨hget, hlast⟩ | ⟨index, crl, hget, hindex, hlast⟩
  · rw [hget, hlast]
  · rw [hget, hlast]
    simp only [hindex, Option.map_some, List.contains_iff_mem, exists_eq_right]

theorem readCrls_indexed {turns : ℕ} {set' : CRLSet D} (h : set.Indexed) (hread : readCrls turns data set = some set') :
    set'.Indexed := by
  induction turns generalizing data set with
  | zero =>
    cases data with
    | nil => exact Option.some.inj hread ▸ h
    | cons => cases hread
  | succ turns ih =>
    cases data with
    | nil => exact Option.some.inj hread ▸ h
    | cons =>
      obtain ⟨⟨crl, _⟩, -, hread⟩ := bind_eq_some_iff.1 hread
      exact ih (h.push crl) hread

theorem readSet_indexed (h : readSet readJson data = some set) : set.Indexed := by
  obtain ⟨⟨dictionary, data⟩, -, hread⟩ := bind_eq_some_iff.1 h
  obtain ⟨_, hheader, hread⟩ := bind_eq_some_iff.1 hread
  obtain ⟨_, _, _, -, rfl⟩ := setFromHeader_eq_some.1 hheader
  exact readCrls_indexed (indexed_new _ _ _) hread

/-! ## Deltas -/

variable {base : CRLSet D}

def DeltaHeader (readJson : List UInt8 → Option (Value D)) (base : CRLSet D) (bytes : List UInt8)
    (nextUpdate updateWindow : Value D) (sequence : Int32) : Prop :=
  ∃ dictionary, HeaderBytes readJson bytes dictionary ∧
    SetHeader "CRLSetDelta" dictionary nextUpdate updateWindow sequence ∧
    ∃ deltaFrom : Int32, SortedMap.get? (ascii "DeltaFrom") dictionary = some (.integer deltaFrom) ∧
      deltaFrom.toInt = base.sequence.toNat

/-- **A delta as it is documented**: a header for the set, and a script that edits its CRLs. -/
def IsDelta (readJson : List UInt8 → Option (Value D)) (inflate : List UInt8 → Option (List UInt8)) (base : CRLSet D)
    (data : List UInt8) (crls : List Crl) : Prop :=
  ∃ header nextUpdate updateWindow sequence script, DeltaHeader readJson base header nextUpdate updateWindow sequence ∧
    CrlScript inflate base.crls script crls ∧ data = header ++ script

def DeltaReachesEmpty (readJson : List UInt8 → Option (Value D)) (inflate : List UInt8 → Option (List UInt8))
    (base : CRLSet D) (data : List UInt8) : Prop :=
  ∃ header nextUpdate updateWindow sequence script, DeltaHeader readJson base header nextUpdate updateWindow sequence ∧
    data = header ++ script ∧ CrlScriptReachesEmpty inflate base.crls script

theorem crls_foldl_push (set : CRLSet D) (crls : List Crl) : (crls.foldl push set).crls = set.crls ++ crls := by
  induction crls generalizing set with
  | nil => exact (List.append_nil _).symm
  | cons crl crls ih => rw [List.foldl_cons, ih, push, List.append_assoc]; rfl

theorem readDelta_append {header : List UInt8} {nextUpdate updateWindow : Value D} {sequence : Int32}
    (hdelta : DeltaHeader readJson base header nextUpdate updateWindow sequence) (script : List UInt8) :
    readDelta readJson inflate base (header ++ script) = (readChanges inflate script).bind fun read =>
      (applyChanges readCRL (readChangedCRL inflate) push base.crls read.1 0 (new nextUpdate updateWindow sequence)
        read.2).bind fun edited =>
          if edited.2.2 ≠ [] then none else if edited.1 ≠ base.crls.length then none else some edited.2.1 := by
  obtain ⟨dictionary, hheader, hset, deltaFrom, hfrom, hsequence⟩ := hdelta
  rw [readDelta, readHeader_eq_some.2 ⟨header, hheader, rfl⟩, bind_eq_bind, bind_some]
  dsimp only
  rw [setFromHeader_eq_some.2 ⟨_, _, _, hset, rfl⟩, bind_eq_bind, bind_some,
    getInteger_eq_some.2 hfrom, bind_eq_bind, bind_some, if_neg (deltaFrom_iff.2 hsequence)]
  rfl

/-- **A delta is read exactly where it is**, if reading it comes to no empty script. -/
theorem readDelta_eq_some (hreach : ¬DeltaReachesEmpty readJson inflate base data) :
    readDelta readJson inflate base data = some set ↔
      ∃ header nextUpdate updateWindow sequence script crls,
        DeltaHeader readJson base header nextUpdate updateWindow sequence ∧ CrlScript inflate base.crls script crls ∧
          data = header ++ script ∧ set = crls.foldl push (new nextUpdate updateWindow sequence) := by
  constructor
  · intro h
    unfold readDelta at h
    simp only [bind_eq_bind, bind_eq_some_iff, Prod.exists, readHeader_eq_some, setFromHeader_eq_some,
      getInteger_eq_some] at h
    obtain ⟨dictionary, script, ⟨header, hheader, rfl⟩, _, ⟨nextUpdate, updateWindow, sequence, hset, rfl⟩, deltaFrom,
      hfrom, h⟩ := h
    obtain ⟨hsequence, h⟩ := ite_none_left_eq_some.1 h
    have hdelta : DeltaHeader readJson base header nextUpdate updateWindow sequence :=
    ⟨dictionary, hheader, hset, deltaFrom, hfrom, deltaFrom_iff.1 hsequence⟩
    obtain ⟨⟨changes, data'⟩, hchanges, h⟩ := bind_eq_some_iff.1 h
    obtain ⟨⟨i, set', rest⟩, happly, h⟩ := bind_eq_some_iff.1 h
    dsimp only at h
    obtain ⟨hrest, h⟩ := ite_none_left_eq_some.1 h
    obtain ⟨hi, h⟩ := ite_none_left_eq_some.1 h
    cases h
    obtain rfl := not_not.1 hrest
    obtain rfl := not_not.1 hi
    obtain ⟨script, crls, hscript, rfl, rfl⟩ :=
    (readScript_iff push _ _ _ reads_crl (fun hr => hreach ⟨header, _, _, _, script, hdelta, rfl, hr⟩)).1
      ⟨changes, data', hchanges, happly⟩
    exact ⟨header, nextUpdate, updateWindow, sequence, script, crls, hdelta, hscript, by rw [List.append_nil], rfl⟩
  · rintro ⟨header, nextUpdate, updateWindow, sequence, script, crls, hdelta, hscript, rfl, rfl⟩
    obtain ⟨changes, data', hchanges, happly⟩ :=
      (readScript_iff push (new nextUpdate updateWindow sequence) _ [] reads_crl
        (fun hr => hreach ⟨header, _, _, _, script, hdelta, rfl, hr⟩)).2
        ⟨script, crls, hscript, (List.append_nil script).symm, rfl⟩
    rw [readDelta_append hdelta, hchanges, bind_some, happly, bind_some, if_neg (fun h => h rfl),
      if_neg (fun h => h rfl)]

theorem readDelta_indexed (h : readDelta readJson inflate base data = some set) : set.Indexed := by
  unfold readDelta at h
  simp only [bind_eq_bind, bind_eq_some_iff, Prod.exists, setFromHeader_eq_some] at h
  obtain ⟨_, _, -, _, ⟨_, _, _, -, rfl⟩, _, -, h⟩ := h
  obtain ⟨-, h⟩ := ite_none_left_eq_some.1 h
  obtain ⟨⟨changes, data'⟩, hchanges, h⟩ := bind_eq_some_iff.1 h
  obtain ⟨⟨i, set', rest⟩, happly, h⟩ := bind_eq_some_iff.1 h
  dsimp only at h
  obtain ⟨-, h⟩ := ite_none_left_eq_some.1 h
  obtain ⟨-, h⟩ := ite_none_left_eq_some.1 h
  cases h
  exact applyChanges_invariant (P := Indexed) (fun _ crl h => h.push crl) (indexed_new _ _ _) happly

/-- **A delta edits the base as it says, unless reading it comes to an empty script; and the last CRL decides.**  No
other delta is accepted then, and what is behind `out_crl_set` is left. -/
theorem applyDelta_of_not_reachesEmpty (readJson : List UInt8 → Option (Value D))
    (inflate : List UInt8 → Option (List UInt8)) (base : CRLSet D) (data : List UInt8) (outCrlSet : Option (CRLSet D)) :
    (¬DeltaReachesEmpty readJson inflate base data →
      (∀ crls, IsDelta readJson inflate base data crls →
        ∃ set, applyDelta readJson inflate base data outCrlSet = (true, some set) ∧ set.crls = crls) ∧
      ((∀ crls, ¬IsDelta readJson inflate base data crls) →
        applyDelta readJson inflate base data outCrlSet = (false, outCrlSet))) ∧
    ∀ set, parse readJson data outCrlSet = (true, some set) ∨
        applyDelta readJson inflate base data outCrlSet = (true, some set) →
      ∀ serialNumber issuer,
        checkCertificate set serialNumber issuer = some (verdict set.crls serialNumber issuer) := by
  refine ⟨fun hreach => ⟨?_, ?_⟩, ?_⟩
  · rintro crls ⟨header, nextUpdate, updateWindow, sequence, script, hheader, hscript, rfl⟩
    refine ⟨crls.foldl push (new nextUpdate updateWindow sequence), ?_, crls_foldl_push _ crls⟩
    rw [applyDelta, (readDelta_eq_some hreach).mpr ⟨_, _, _, _, _, _, hheader, hscript, rfl, rfl⟩]
  · intro hno
    rw [applyDelta]
    split
    · next hread =>
      obtain ⟨_, _, _, _, _, crls, hheader, hscript, hdata, -⟩ := (readDelta_eq_some hreach).mp hread
      exact absurd ⟨_, _, _, _, _, hheader, hscript, hdata⟩ (hno crls)
    · rfl
  · intro set hset
    refine checkCertificate_eq ?_
    rcases hset with h | h
    · rw [parse] at h
      split at h
      · next hread => exact Option.some.inj (Prod.mk.inj h).2 ▸ readSet_indexed hread
      · exact absurd (Prod.mk.inj h).1 Bool.false_ne_true
    · rw [applyDelta] at h
      split at h
      · next hread => exact Option.some.inj (Prod.mk.inj h).2 ▸ readDelta_indexed hread
      · exact absurd (Prod.mk.inj h).1 Bool.false_ne_true

/-! A delta from the first set to the second. -/

def deltaText : List UInt8 :=
  ascii ("\x7b\"ContentType\":\"CRLSetDelta\",\"Version\":0,\"NextUpdate\":0,\"WindowSecs\":0," ++
    "\"Sequence\":2,\"DeltaFrom\":1\x7d")

def deltaDictionary : List (List UInt8 × Value Unit) :=
  [(ascii "ContentType", .string (ascii "CRLSetDelta")), (ascii "DeltaFrom", .integer 1),
    (ascii "NextUpdate", .integer 0), (ascii "Sequence", .integer 2), (ascii "Version", .integer 0),
    (ascii "WindowSecs", .integer 0)]

def readDeltaText (text : List UInt8) : Option (Value Unit) :=
  if text = deltaText then some (.dictionary deltaDictionary) else none

def inflateDelta (data : List UInt8) : Option (List UInt8) :=
  if data = [120, 156, 3, 0, 0, 0, 0, 1] then some []
  else if data = [120, 156, 99, 6, 0, 0, 4, 0, 4] then some [3]
  else if data = [120, 156, 99, 96, 4, 0, 0, 3, 0, 2] then some [0, 1]
  else none

def deltaHeader : List UInt8 := toLe 2 deltaText.length ++ deltaText

theorem deltaHeader_readDeltaText (base : CRLSet Unit) (h : base.sequence = 1) :
    DeltaHeader readDeltaText base deltaHeader (.integer 0) (.integer 0) 2 :=
  ⟨deltaDictionary, ⟨deltaText, by decide, if_pos rfl, rfl⟩, ⟨rfl, rfl, ⟨rfl, trivial⟩, ⟨rfl, trivial⟩, rfl⟩, 1, rfl,
    by rw [h]; rfl⟩

def deltaCrl : Crl := (List.replicate 32 7, [[5]])

def deltaBase : CRLSet Unit := (new (.integer 0) (.integer 0) 1).push deltaCrl

/-- The serial `9` is inserted behind the other. -/
def insertSerialDelta : List UInt8 :=
  deltaHeader ++ ((toLe 4 1 ++ (toLe 4 9 ++ [120, 156, 99, 6, 0, 0, 4, 0, 4])) ++
    ((toLe 4 2 ++ (toLe 4 10 ++ [120, 156, 99, 96, 4, 0, 0, 3, 0, 2])) ++ serialBytes [9]))

theorem isDelta_insertSerialDelta :
    IsDelta readDeltaText inflateDelta deltaBase insertSerialDelta [(List.replicate 32 7, [[5], [9]])] := by
  have hinsert : Edit SerialBytes (fun _ _ _ => False) [.insert] [] (serialBytes [9] ++ []) [[9]] :=
    .insert ⟨by decide, rfl⟩ .nil
  have hserials : SerialScript inflateDelta [[5]]
      ((toLe 4 2 ++ (toLe 4 10 ++ [120, 156, 99, 96, 4, 0, 0, 3, 0, 2])) ++ serialBytes [9]) [[5], [9]] :=
    ⟨[.same, .insert], _, serialBytes [9], ⟨[120, 156, 99, 96, 4, 0, 0, 3, 0, 2], by decide, by decide, rfl, rfl⟩,
      .same hinsert, rfl⟩
  have hchanges : CompressedChanges inflateDelta [SYMBOL_CHANGED]
      (toLe 4 1 ++ (toLe 4 9 ++ [120, 156, 99, 6, 0, 0, 4, 0, 4])) :=
    ⟨[120, 156, 99, 6, 0, 0, 4, 0, 4], by decide, by decide, rfl, rfl⟩
  have hedit : Edit CrlBytes (ChangedCrl inflateDelta) [.changed] [deltaCrl]
      (((toLe 4 2 ++ (toLe 4 10 ++ [120, 156, 99, 96, 4, 0, 0, 3, 0, 2])) ++ serialBytes [9]) ++ [])
      [(List.replicate 32 7, [[5], [9]])] := .changed ⟨rfl, hserials⟩ .nil
  rw [List.append_nil] at hedit
  exact ⟨deltaHeader, _, _, _, _, deltaHeader_readDeltaText deltaBase rfl, ⟨[.changed], _, _, hchanges, hedit, rfl⟩, rfl⟩

theorem not_reachesEmpty_deltaBase (data : List UInt8) :
    ¬DeltaReachesEmpty readDeltaText inflateDelta deltaBase data := by
  rintro ⟨_, _, _, _, script, -, -, hempty | ⟨symbols, _, payload, ⟨zlibData, -, -, hinflate, -⟩, -, hreaches⟩⟩
  · exact nomatch hempty.1
  · rw [inflateDelta] at hinflate
    split at hinflate
    · rw [List.map_eq_nil_iff.1 (Option.some.inj hinflate).symm] at hreaches
      cases hreaches
    split at hinflate
    · have hsymbols : symbols = [.changed] :=
        List.map_injective_iff.2 EditSymbol.toByte_injective (Option.some.inj hinflate).symm
      subst hsymbols
      cases hreaches with
      | here hbad => exact nomatch hbad.1
      | changed _ hreaches => cases hreaches
    split at hinflate
    · have hsymbols : symbols = [.same, .insert] :=
        List.map_injective_iff.2 EditSymbol.toByte_injective (Option.some.inj hinflate).symm
      subst hsymbols
      cases hreaches with
      | same hreaches =>
        cases hreaches with
        | insert _ hreaches => cases hreaches
    · cases hinflate

theorem applyDelta_insertSerialDelta : ∃ set,
    applyDelta readDeltaText inflateDelta deltaBase insertSerialDelta none = (true, some set) ∧
      set.crls = [(List.replicate 32 7, [[5], [9]])] ∧
      checkCertificate set [9] (List.replicate 32 7) = some .REVOKED := by
  have hspec := applyDelta_of_not_reachesEmpty readDeltaText inflateDelta deltaBase insertSerialDelta none
  obtain ⟨set, happly, hcrls⟩ := (hspec.1 (not_reachesEmpty_deltaBase _)).1 _ isDelta_insertSerialDelta
  refine ⟨set, happly, hcrls, ?_⟩
  rw [hspec.2 set (.inr happly), hcrls]
  rfl

/-- The base has no CRLs, and the delta does not change that. -/
theorem applyDelta_of_empty : IsDelta readDeltaText inflateDelta (new (.integer 0) (.integer 0) 1)
        (deltaHeader ++ (toLe 4 0 ++ (toLe 4 8 ++ [120, 156, 3, 0, 0, 0, 0, 1]))) [] ∧
      applyDelta readDeltaText inflateDelta (new (.integer 0) (.integer 0) 1)
        (deltaHeader ++ (toLe 4 0 ++ (toLe 4 8 ++ [120, 156, 3, 0, 0, 0, 0, 1]))) none = (false, none) := by
  constructor
  · refine ⟨deltaHeader, _, _, _, _, deltaHeader_readDeltaText _ rfl, ⟨[], _, [], ?_, .nil, (List.append_nil _).symm⟩, rfl⟩
    exact ⟨[120, 156, 3, 0, 0, 0, 0, 1], by decide, by decide, rfl, rfl⟩
  · have hchanges : readChanges inflateDelta (toLe 4 0 ++ (toLe 4 8 ++ [120, 156, 3, 0, 0, 0, 0, 1])) =
        some ([], [120, 156, 3, 0, 0, 0, 0, 1]) :=
      readChanges_eq_some.mpr (.inr ⟨rfl, 8, by decide, by decide, rfl⟩)
    rw [applyDelta, readDelta_append (deltaHeader_readDeltaText _ rfl), hchanges]
    rfl

end CRLSet

end Chromium.Net
