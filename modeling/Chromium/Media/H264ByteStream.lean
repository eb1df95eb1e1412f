import Chromium.Media.H264BitstreamConverter

/-!
# The byte stream of a packet

`NalStream` says which units a packet has and how it ends, and `byteStream` what is written for them.

`converts_iff`: the two functions of `media/base/h264_bitstream_converter.cc` agree, and stay within their input and
output, exactly where no length field is cut off, no unit behind the first of an access unit opens the next, and the
byte stream is shorter than `2 ^ 32`.
-/

namespace Chromium.Media

open Lib
open List (length_append length_drop length_pos_iff)
open H264BitstreamConverter (calculateLoop convertLoop)

/-! ## Packets -/

/-- How a packet ends: with a unit, with a length of zero, within a length, or with a length beyond the data. -/
inductive NalEnd
  | done | zero | truncated | tooLong
  deriving DecidableEq

inductive NalStream (width : ℕ) : List UInt8 → List (List UInt8) → NalEnd → Prop
  | done : NalStream width [] [] .done
  | zero {data : List UInt8} (hne : data ≠ []) (hwidth : width ≤ data.length) (hlen : beNat (data.take width) = 0) :
      NalStream width data [] .zero
  | truncated {data : List UInt8} (hne : data ≠ []) (hwidth : data.length < width) : NalStream width data [] .truncated
  | tooLong {data : List UInt8} (hne : data ≠ []) (hwidth : width ≤ data.length)
      (hlen : data.length - width < beNat (data.take width)) : NalStream width data [] .tooLong
  | unit {unit rest : List UInt8} {units : List (List UInt8)} {ending : NalEnd} (hne : unit ≠ [])
      (hlen : unit.length < 256 ^ width) (hrest : NalStream width rest units ending) :
      NalStream width (toBe width unit.length ++ (unit ++ rest)) (unit :: units) ending

def Opens (unit : List UInt8) : Prop := isAccessUnitBoundaryNal (nalUnitType unit) = true

instance decidableOpens (unit : List UInt8) : Decidable (Opens unit) := inferInstanceAs (Decidable (_ = true))

def startCode (zeroByte : Bool) : List UInt8 := (if zeroByte then [0] else []) ++ kStartCodePrefix

/-- **What is written for units**: each behind a start code, which has a zero byte where the unit opens an access
unit. -/
def byteStream : (first : Bool) → List (List UInt8) → List UInt8
  | _, [] => []
  | first, unit :: units =>
    startCode (first || isAccessUnitBoundaryNal (nalUnitType unit)) ++ (unit ++ byteStream false units)

def OpensLate : (first : Bool) → List (List UInt8) → Prop
  | _, [] => False
  | first, unit :: units => (first = false ∧ Opens unit) ∨ OpensLate false units

theorem exists_nalStream {width : ℕ} (hwidth : 0 < width) (data : List UInt8) :
    ∃ units ending, NalStream width data units ending := by
  induction hn : data.length using Nat.strong_induction_on generalizing data with
  | _ n ih =>
    by_cases hne : data = []
    · exact ⟨[], .done, hne ▸ .done⟩
    by_cases hcut : data.length < width
    · exact ⟨[], .truncated, .truncated hne hcut⟩
    have htake : (data.take width).length = width := List.length_take_of_le (not_lt.1 hcut)
    by_cases hzero : beNat (data.take width) = 0
    · exact ⟨[], .zero, .zero hne (not_lt.1 hcut) hzero⟩
    by_cases hlong : data.length - width < beNat (data.take width)
    · exact ⟨[], .tooLong, .tooLong hne (not_lt.1 hcut) hlong⟩
    -- The unit, and what is behind it.
    obtain ⟨len, hlen⟩ : ∃ len, len = beNat (data.take width) := ⟨_, rfl⟩
    rw [← hlen] at hzero hlong
    obtain ⟨units, ending, hrest⟩ := ih ((data.drop width).drop len).length
      (by rw [length_drop, length_drop]; omega) _ rfl
    have hunit : ((data.drop width).take len).length = len := by
      rw [List.length_take, length_drop]
      omega
    have hlt : beNat (data.take width) < 256 ^ width := by
      have h := beNat_lt (data.take width)
      rwa [htake] at h
    have hfield : toBe width len = data.take width := by
      have h := toBe_beNat (data.take width)
      rwa [htake, ← hlen] at h
    have hunitNe : (data.drop width).take len ≠ [] := by
      rw [← length_pos_iff, hunit]
      omega
    have hstream : NalStream width (toBe width ((data.drop width).take len).length ++
        ((data.drop width).take len ++ (data.drop width).drop len)) ((data.drop width).take len :: units) ending :=
      .unit hunitNe (by rw [hunit, hlen]; exact hlt) hrest
    rw [hunit, hfield, List.take_append_drop, List.take_append_drop] at hstream
    exact ⟨_, ending, hstream⟩

variable {width turns outputSize : ℕ} {first : Bool} {output data unit rest : List UInt8} {units : List (List UInt8)}
  {ending : NalEnd}

@[simp]
theorem nalUnitType_append (hne : unit ≠ []) (rest : List UInt8) :
    nalUnitType (unit ++ rest) = nalUnitType unit := by
  obtain ⟨b, unit, rfl⟩ := List.exists_cons_of_ne_nil hne
  rfl

theorem length_startCode (zeroByte : Bool) : (startCode zeroByte).length = (if zeroByte then 1 else 0) + 3 := by
  cases zeroByte <;> rfl

theorem length_byteStream_cons (first : Bool) (unit : List UInt8) (units : List (List UInt8)) : (byteStream first (unit :: units)).length =
    (if first || isAccessUnitBoundaryNal (nalUnitType unit) then 1 else 0) + 3 + unit.length +
      (byteStream false units).length := by
  rw [byteStream, length_append, length_append, length_startCode]
  omega

theorem put_append {A : Type} (bytes bytes' : List UInt8) (f : List UInt8 → Option A) :
    (put outputSize output (bytes ++ bytes')).bind f =
      (put outputSize output bytes).bind fun output => (put outputSize output bytes').bind f := by
  unfold put
  by_cases h : output.length + bytes.length ≤ outputSize
  · rw [if_pos h, Option.bind_some, length_append, length_append, List.append_assoc, Nat.add_assoc]
  · rw [if_neg h, if_neg (by rw [length_append]; omega)]
    rfl

/-! ## One unit -/

section

variable (hne : unit ≠ []) (hlen : unit.length < 256 ^ width)

include hne hlen

theorem calculateLoop_unit (hwidth : 0 < width) (size : ℕ) :
    calculateLoop width (turns + 1) first size (toBe width unit.length ++ (unit ++ rest)) =
      calculateLoop width turns false
        ((size + ((if first || isAccessUnitBoundaryNal (nalUnitType unit) then 1 else 0) + 3 + unit.length)) % 4294967296)
        rest := by
  have hpos := length_pos_iff.2 hne
  have hdata : toBe width unit.length ++ (unit ++ rest) ≠ [] := by
    rw [← length_pos_iff, length_append, length_toBe]
    omega
  rw [calculateLoop, if_neg hdata,
    if_neg (by rw [length_append, length_toBe]; omega), List.take_left' (length_toBe _ _),
    List.drop_left' (length_toBe _ _), beNat_toBe_of_lt hlen, if_neg (by omega),
    if_neg (by rw [length_append]; omega), nalUnitType_append hne, List.drop_left]
  dsimp only
  rw [show kStartCodePrefix.length = 3 from rfl, Nat.add_assoc, Nat.add_assoc, Nat.add_assoc]

theorem convertLoop_unit (hwidth : 0 < width) : convertLoop width outputSize (turns + 1) first output
        (toBe width unit.length ++ (unit ++ rest)) =
      if (output.length + ((if first then 1 else 0) + 3) + unit.length) % 4294967296 > outputSize then
        some (false, first, output)
      else (put outputSize output (startCode (first || isAccessUnitBoundaryNal (nalUnitType unit)) ++ unit)).bind
        fun output => convertLoop width outputSize turns false output rest := by
  have hpos := length_pos_iff.2 hne
  have hdata : toBe width unit.length ++ (unit ++ rest) ≠ [] := by
    rw [← length_pos_iff, length_append, length_toBe]
    omega
  have hcode : (if first then kStartCodePrefix.length + 1 else kStartCodePrefix.length) =
      (if first then 1 else 0) + 3 := by
    cases first <;> rfl
  rw [convertLoop, if_neg hdata, List.take_left' (length_toBe _ _),
    List.drop_left' (length_toBe _ _), beNat_toBe_of_lt hlen, if_neg (by omega),
    if_neg (by rw [length_append]; omega), nalUnitType_append hne, List.drop_left, List.take_left, hcode]
  rw [startCode, put_append, put_append]
  rfl

end

/-! ## A packet -/

theorem length_unit_append : (toBe width unit.length ++ (unit ++ rest)).length = width + unit.length + rest.length := by
  rw [length_append, length_append, length_toBe, Nat.add_assoc]

theorem exists_turns (hne : data ≠ []) (hturns : data.length ≤ turns) : ∃ left, turns = left + 1 :=
  Nat.exists_eq_add_one_of_ne_zero (ne_of_gt (lt_of_lt_of_le (length_pos_iff.2 hne) hturns))

/-- **The size of a packet**, which is read outside the input where a length is cut off. -/
theorem calculateLoop_of_stream (hstream : NalStream width data units ending) (hwidth : 0 < width)
    (hturns : data.length ≤ turns) {size : ℕ} (hsize : size < 4294967296) :
    calculateLoop width turns first size data = if ending = .truncated then none
      else if ending = .tooLong then some 0
      else some ((size + (byteStream first units).length) % 4294967296) := by
  induction hstream generalizing turns first size with
  | done =>
    have hmod : (size + (byteStream first []).length) % 4294967296 = size := Nat.mod_eq_of_lt hsize
    rw [if_neg (by decide), if_neg (by decide), hmod]
    cases turns with
    | zero | succ turns => rfl
  | zero hne hle hlen =>
    obtain ⟨turns, rfl⟩ := exists_turns hne hturns
    have hmod : (size + (byteStream first []).length) % 4294967296 = size := Nat.mod_eq_of_lt hsize
    rw [if_neg (by decide), if_neg (by decide), hmod, calculateLoop, if_neg hne,
      if_neg (not_lt.2 hle), if_pos hlen]
  | truncated hne hcut =>
    obtain ⟨turns, rfl⟩ := exists_turns hne hturns
    rw [if_pos rfl, calculateLoop, if_neg hne, if_pos hcut]
  | tooLong hne hle hlen =>
    obtain ⟨turns, rfl⟩ := exists_turns hne hturns
    rw [if_neg (by decide), if_pos rfl, calculateLoop, if_neg hne, if_neg (not_lt.2 hle),
      if_neg (by omega), if_pos (by rw [length_drop]; exact hlen)]
  | unit hne hlen hrest ih =>
    rw [length_unit_append] at hturns
    obtain ⟨turns, rfl⟩ := Nat.exists_eq_add_one_of_ne_zero (show turns ≠ 0 by omega)
    rw [calculateLoop_unit hne hlen hwidth, ih (by omega) (Nat.mod_lt _ (by decide)), Nat.mod_add_mod,
      length_byteStream_cons, Nat.add_assoc size]

theorem convertLoop_of_stop (hstop : NalStream width data [] ending) (hend : ending ≠ .truncated)
    (hturns : data.length ≤ turns) :
    convertLoop width outputSize turns first output data =
      some (decide (ending ≠ .tooLong), first, output) := by
  cases hstop with
  | done =>
    cases turns with
    | zero | succ turns => rfl
  | zero hne hle hlen =>
    obtain ⟨turns, rfl⟩ := exists_turns hne hturns
    rw [convertLoop, if_neg hne, if_pos hlen]
    rfl
  | truncated => exact absurd rfl hend
  | tooLong hne hle hlen =>
    obtain ⟨turns, rfl⟩ := exists_turns hne hturns
    rw [convertLoop, if_neg hne, if_neg (by omega), if_pos (by rw [length_drop]; exact hlen)]
    rfl

theorem space_eq (hlate : ¬ (first = false ∧ Opens unit)) :
    (first || isAccessUnitBoundaryNal (nalUnitType unit)) = first := by
  cases first with
  | true => rfl
  | false => exact Bool.eq_false_iff.2 fun hopens => hlate ⟨rfl, hopens⟩

/-- **A packet is converted within the output**, and as a whole where there is space for it. -/
theorem convertLoop_of_stream (hstream : NalStream width data units ending) (hend : ending ≠ .truncated)
    (hwidth : 0 < width) (hturns : data.length ≤ turns) (hlate : ¬ OpensLate first units)
    (hshort : output.length + (byteStream first units).length < 4294967296) (hspace : output.length ≤ outputSize) :
    ∃ ok first' output', convertLoop width outputSize turns first output data =
        some (ok, first', output') ∧ output'.length ≤ outputSize ∧
      (ending ≠ .tooLong → output.length + (byteStream first units).length ≤ outputSize →
        ok = true ∧ output' = output ++ byteStream first units) := by
  induction hstream generalizing turns first output with
  | done =>
    exact ⟨_, _, _, convertLoop_of_stop .done hend hturns, hspace, fun h _ => ⟨decide_eq_true h, (List.append_nil _).symm⟩⟩
  | zero hne hle hlen =>
    exact ⟨_, _, _, convertLoop_of_stop (.zero hne hle hlen) hend hturns, hspace,
      fun h _ => ⟨decide_eq_true h, (List.append_nil _).symm⟩⟩
  | truncated => exact absurd rfl hend
  | tooLong hne hle hlen =>
    exact ⟨_, _, _, convertLoop_of_stop (.tooLong hne hle hlen) hend hturns, hspace, fun h _ => absurd rfl h⟩
  | @unit unit rest units ending hne hlen hrest ih =>
    rw [length_unit_append] at hturns
    obtain ⟨turns, rfl⟩ := Nat.exists_eq_add_one_of_ne_zero (show turns ≠ 0 by omega)
    obtain ⟨hfirst, hlate⟩ := not_or.1 hlate
    have hcode : (startCode first ++ unit).length = (if first then 1 else 0) + 3 + unit.length := by
      rw [length_append, length_startCode]
    have htotal := length_byteStream_cons first unit units
    rw [space_eq hfirst] at htotal
    rw [htotal] at hshort ⊢
    rw [convertLoop_unit hne hlen hwidth, space_eq hfirst, Nat.mod_eq_of_lt (by omega)]
    by_cases hroom : output.length + ((if first then 1 else 0) + 3) + unit.length > outputSize
    · rw [if_pos hroom]
      exact ⟨_, _, _, rfl, hspace, fun _ hle => by omega⟩
    · have hput : put outputSize output (startCode first ++ unit) = some (output ++ (startCode first ++ unit)) :=
        if_pos (by rw [hcode]; omega)
      rw [if_neg hroom, hput, Option.bind_some]
      have hshort' : (output ++ (startCode first ++ unit)).length + (byteStream false units).length < 4294967296 := by
        rw [length_append, hcode]
        omega
      have hspace' : (output ++ (startCode first ++ unit)).length ≤ outputSize := by
        rw [length_append, hcode]
        omega
      obtain ⟨ok, first', output', hloop, hwithin, hwhole⟩ :=
        ih hend (show rest.length ≤ turns by omega) hlate hshort' hspace'
      refine ⟨ok, first', output', hloop, hwithin, fun hlong hle => ?_⟩
      obtain ⟨hok, houtput⟩ := hwhole hlong (by rw [length_append, hcode]; omega)
      refine ⟨hok, ?_⟩
      rw [houtput, byteStream, space_eq hfirst, List.append_assoc, List.append_assoc]

theorem convertLoop_eq_none (hstream : NalStream width data units ending) (hwidth : 0 < width)
    (hturns : data.length ≤ turns) (hoverflow : output.length < 4294967296)
    (hbad : OpensLate first units ∨ 4294967296 ≤ output.length + (byteStream first units).length) :
    ∃ outputSize, output.length ≤ outputSize ∧ 0 < outputSize ∧ outputSize < 4294967296 ∧
      convertLoop width outputSize turns first output data = none := by
  induction hstream generalizing turns first output with
  | done | zero | truncated | tooLong =>
    rcases hbad with hlate | hlong
    · exact hlate.elim
    · exact absurd hlong (by rw [byteStream, List.length_nil]; omega)
  | @unit unit rest units ending hne hlen hrest ih =>
    rw [length_unit_append] at hturns
    obtain ⟨turns, rfl⟩ := Nat.exists_eq_add_one_of_ne_zero (show turns ≠ 0 by omega)
    have hcode : (startCode (first || isAccessUnitBoundaryNal (nalUnitType unit)) ++ unit).length =
        (if first || isAccessUnitBoundaryNal (nalUnitType unit) then 1 else 0) + 3 + unit.length := by
      rw [length_append, length_startCode]
    -- What is written for the unit, and what is looked for.
    have hlow : (if first then 1 else 0) ≤ if first || isAccessUnitBoundaryNal (nalUnitType unit) then 1 else 0 := by
      cases first <;> simp
    by_cases hwrap : 4294967296 ≤ output.length + ((if first then 1 else 0) + 3) + unit.length
    · refine ⟨4294967295, by omega, by omega, by omega, ?_⟩
      rw [convertLoop_unit hne hlen hwidth,
        if_neg (not_lt.2 (Nat.le_of_lt_succ (Nat.mod_lt _ (by decide)))), put, if_neg (by rw [hcode]; omega)]
      rfl
    by_cases hlate : first = false ∧ Opens unit
    · obtain ⟨rfl, hopens⟩ := hlate
      refine ⟨output.length + 3 + unit.length, by omega, by omega, by simpa using hwrap, ?_⟩
      rw [convertLoop_unit hne hlen hwidth, if_neg (by simp only [Bool.false_eq_true, if_false] at hwrap ⊢; omega), put,
        if_neg (by rw [hcode, hopens]; simp only [Bool.or_true, if_true]; omega)]
      rfl
    · rw [space_eq hlate] at hcode
      have hoverflow' : (output ++ (startCode first ++ unit)).length < 4294967296 := by
        rw [length_append, hcode]
        omega
      have hbad' : OpensLate false units ∨
          4294967296 ≤ (output ++ (startCode first ++ unit)).length + (byteStream false units).length := by
        rcases hbad with (hbad | hbad) | hbad
        · exact absurd hbad hlate
        · exact .inl hbad
        · rw [length_byteStream_cons, space_eq hlate] at hbad
          exact .inr (by rw [length_append, hcode]; omega)
      obtain ⟨outputSize, hle, hpos, hlt, hnone⟩ := ih (show rest.length ≤ turns by omega) hoverflow' hbad'
      rw [length_append, hcode] at hle
      refine ⟨outputSize, by omega, hpos, hlt, ?_⟩
      rw [convertLoop_unit hne hlen hwidth, space_eq hlate,
        if_neg (not_lt.2 ((Nat.mod_le _ _).trans (by omega))), put, if_pos (by rw [hcode]; omega), Option.bind_some,
        hnone]

/-! ## Both functions -/

/-- **The two functions agree**: the first reads only the input, the second also writes only the output, and where the
first gives a size the second writes the byte stream of the units into an output of that size. -/
structure Converts (c : H264BitstreamConverter) (input : List UInt8) (units : List (List UInt8)) : Prop where
  calculate : ∃ m, c.calculateNeededOutputBufferSize input = some m
  convert : ∀ outputSize < 4294967296, ∃ r, c.convertNalUnitStreamToByteStream input outputSize = some r ∧
    r.output.length ≤ outputSize
  agree : ∀ m, 0 < m → c.calculateNeededOutputBufferSize input = some m →
    ∀ outputSize < 4294967296, m ≤ outputSize →
      ∃ r, c.convertNalUnitStreamToByteStream input outputSize = some r ∧ r.ok = true ∧ r.outputSize = m ∧
        r.output = byteStream c.firstNalUnitInAccessUnit units ∧ r.output.length = m

variable {c : H264BitstreamConverter} {input : List UInt8}

theorem calculate_eq (hc : c.Configured) (hprocessed : c.configurationProcessed = true) (hne : input ≠ []) :
    c.calculateNeededOutputBufferSize input = calculateLoop c.nalUnitLengthFieldWidth input.length
      c.firstNalUnitInAccessUnit 0 input := by
  rw [H264BitstreamConverter.calculateNeededOutputBufferSize, if_neg hne, if_neg (not_not.2 hprocessed), if_pos hc]

/-- **The functions agree exactly where** no length field is cut off, no unit opens an access unit that the flag does
not know of, and the byte stream is shorter than `2 ^ 32`. -/
theorem converts_iff (c : H264BitstreamConverter) (hc : c.Configured) (hprocessed : c.configurationProcessed = true)
    (input : List UInt8) (hne : input ≠ []) :
    (∃ units ending, NalStream c.nalUnitLengthFieldWidth input units ending) ∧
      ∀ units ending, NalStream c.nalUnitLengthFieldWidth input units ending →
        (Converts c input units ↔ ending ≠ .truncated ∧ ¬ OpensLate c.firstNalUnitInAccessUnit units ∧
          (byteStream c.firstNalUnitInAccessUnit units).length < 4294967296) := by
  have hwidth : 0 < c.nalUnitLengthFieldWidth := by
    rcases hc with h | h | h <;> omega
  refine ⟨exists_nalStream hwidth input, fun units ending hstream => ?_⟩
  have hcalculate := calculate_eq hc hprocessed hne
  rw [calculateLoop_of_stream hstream hwidth le_rfl (by decide), Nat.zero_add] at hcalculate
  constructor
  · intro h
    constructor
    · rintro rfl
      obtain ⟨m, hm⟩ := h.calculate
      rw [hcalculate, if_pos rfl] at hm
      exact Option.some_ne_none m hm.symm
    · by_contra hgood
      have hbad : OpensLate c.firstNalUnitInAccessUnit units ∨ 4294967296 ≤
          ([] : List UInt8).length + (byteStream c.firstNalUnitInAccessUnit units).length := by
        rw [List.length_nil, Nat.zero_add]
        by_contra hno
        obtain ⟨hlate, hlong⟩ := not_or.mp hno
        exact hgood ⟨hlate, not_le.mp hlong⟩
      obtain ⟨outputSize, -, hpos, hlt, hnone⟩ := convertLoop_eq_none hstream hwidth le_rfl (by decide) hbad
      obtain ⟨r, hr, -⟩ := h.convert outputSize hlt
      rw [H264BitstreamConverter.convertNalUnitStreamToByteStream, if_neg (by rw [not_or]; exact ⟨hne, by omega⟩),
        if_pos hc, hnone] at hr
      exact Option.some_ne_none r hr.symm
  · rintro ⟨hend, hlate, hshort⟩
    rw [if_neg hend] at hcalculate
    have hconvert (outputSize : ℕ) (hpos : 0 < outputSize) :
        ∃ r, c.convertNalUnitStreamToByteStream input outputSize = some r ∧ r.output.length ≤ outputSize ∧
          (ending ≠ .tooLong → (byteStream c.firstNalUnitInAccessUnit units).length ≤ outputSize → r.ok = true ∧
            r.outputSize = (byteStream c.firstNalUnitInAccessUnit units).length ∧
            r.output = byteStream c.firstNalUnitInAccessUnit units) := by
      have hshort' : ([] : List UInt8).length + (byteStream c.firstNalUnitInAccessUnit units).length < 4294967296 := by
        rwa [List.length_nil, Nat.zero_add]
      obtain ⟨ok, first', output, hloop, hwithin, hwhole⟩ :=
        convertLoop_of_stream hstream hend hwidth le_rfl hlate hshort' (Nat.zero_le outputSize)
      rw [List.length_nil, Nat.zero_add, List.nil_append] at hwhole
      rw [H264BitstreamConverter.convertNalUnitStreamToByteStream, if_neg (by rw [not_or]; exact ⟨hne, by omega⟩),
        if_pos hc, hloop]
      refine ⟨_, rfl, hwithin, fun hlong hle => ?_⟩
      obtain ⟨rfl, rfl⟩ := hwhole hlong hle
      exact ⟨rfl, Nat.mod_eq_of_lt hshort, rfl⟩
    refine ⟨?_, fun outputSize _ => ?_, fun m hm hcalc outputSize hlt hle => ?_⟩
    · rw [hcalculate]
      split
      · exact ⟨_, rfl⟩
      · exact ⟨_, rfl⟩
    · by_cases hzero : outputSize = 0
      · refine ⟨⟨false, 0, [], c⟩, if_pos (.inr hzero), ?_⟩
        exact Nat.zero_le _
      · obtain ⟨r, hr, hwithin, -⟩ := hconvert outputSize (by omega)
        exact ⟨r, hr, hwithin⟩
    · rw [hcalculate] at hcalc
      split at hcalc
      · exact absurd (Option.some.inj hcalc) (by omega)
      · next hlong =>
        obtain rfl := Option.some.inj hcalc
        rw [Nat.mod_eq_of_lt hshort] at hle ⊢
        obtain ⟨r, hr, -, hwhole⟩ := hconvert outputSize (by rw [Nat.mod_eq_of_lt hshort] at hm; omega)
        obtain ⟨hok, hsize, houtput⟩ := hwhole hlong hle
        exact ⟨r, hr, hok, hsize, houtput, by rw [houtput]⟩

/-- Two units of one access unit. -/
theorem converts_twoUnits :
    Converts ⟨true, true, 2⟩ [0, 2, 0x65, 0xAA, 0, 1, 0x41] [[0x65, 0xAA], [0x41]] := by
  have hlast : NalStream 2 (toBe 2 ([0x41] : List UInt8).length ++ ([0x41] ++ [])) [[0x41]] .done :=
    .unit (List.cons_ne_nil _ _) (by decide) .done
  have hstream : NalStream 2 (toBe 2 ([0x65, 0xAA] : List UInt8).length ++ ([0x65, 0xAA] ++ [0, 1, 0x41]))
      [[0x65, 0xAA], [0x41]] .done := .unit (List.cons_ne_nil _ _) (by decide) hlast
  refine ((converts_iff ⟨true, true, 2⟩ (.inr (.inl rfl)) rfl _ (List.cons_ne_nil _ _)).2 _ _ hstream).mpr ?_
  refine ⟨by decide, ?_, by decide⟩
  rintro (h | h | h)
  · exact absurd h.1 (by decide)
  · exact absurd h.2 (by decide)
  · exact h

/-- **A length that is cut off is read beyond the input, and a parameter set behind another unit is written beyond the
output.** -/
theorem not_converts :
    H264BitstreamConverter.calculateNeededOutputBufferSize ⟨true, true, 2⟩ [1] = none ∧
      H264BitstreamConverter.convertNalUnitStreamToByteStream ⟨true, true, 1⟩ [1, 0x41, 1, 0x67] 9 = none := by
  decide

end Chromium.Media
