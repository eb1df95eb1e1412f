import Chromium.Gpu.Common.ImageDataSize
import Chromium.Lib.LittleEndian
import Chromium.Lib.TransSys
import Mathlib.Data.List.AList

/-!
# The buffer manager

`gpu/command_buffer/service/buffer_manager.cc`.  The info of a buffer that may hold indices keeps a copy of
its data, so that before a draw call the largest index of a range is known.  A scan of a range is not done
again while its result is in `rangeSet`, where it is looked up before anything is checked.

What the client has written is `Contents`, a function of the calls alone.  `Refines` says that the copy has
these bytes and that what is in the cache is what a scan would return, and it holds in every run
(`refines_run`).
-/

namespace Chromium.Gpu

open Lib

def GL_STATIC_DRAW : GLenum := 0x88E4

namespace BufferManager

structure Range where
  offset : UInt32
  count : ℤ
  type : GLenum
  deriving DecidableEq, Repr

structure BufferInfo where
  serviceId : UInt32
  size : ℤ
  usage : GLenum
  shadowed : Bool
  shadow : List UInt8
  rangeSet : AList fun _ : Range => UInt32

/-- `GLsizeiptr` and `GLintptr` are the numbers from `-limit` on below `limit`, which is `2 ^ 31` or `2 ^ 63`. -/
def toIntptr (limit x : ℤ) : ℤ := (limit + x) % (2 * limit) - limit

/-- The loop of `GetMaxValue<T>` over `n` elements of `w` bytes from the byte `position` on. -/
def getMaxValue (w : ℕ) (data : List UInt8) : ℕ → ℕ → UInt32 → UInt32
  | 0, _, maxValue => maxValue
  | n + 1, position, maxValue =>
    let element := UInt32.ofNat (leNat ((data.drop position).take w))
    getMaxValue w data n (position + w) (if maxValue < element then element else maxValue)

namespace BufferInfo

def new (serviceId : UInt32) : BufferInfo := ⟨serviceId, 0, GL_STATIC_DRAW, false, [], ∅⟩

def setInfo (b : BufferInfo) (size : ℤ) (usage : GLenum) (shadow : Bool) : BufferInfo :=
  if size ≠ b.size ∨ shadow ≠ b.shadowed then
    { b with
      usage
      shadowed := shadow
      size
      rangeSet := ∅
      shadow := if shadow then List.replicate size.toNat 0 else b.shadow }
  else { b with usage }

def setRange (limit : ℤ) (b : BufferInfo) (offset : ℤ) (data : List UInt8) : BufferInfo × Bool :=
  let size : ℤ := data.length
  if offset < 0 ∨ toIntptr limit (offset + size) < offset ∨ b.size < toIntptr limit (offset + size) then
    (b, false)
  else if b.shadowed then
    ({ b with
      shadow := b.shadow.take offset.toNat ++ data ++ b.shadow.drop (offset.toNat + data.length)
      rangeSet := ∅ }, true)
  else (b, true)

/-- `BufferInfo::GetRange`: the bytes from the pointer it returns on. -/
def getRange (limit : ℤ) (b : BufferInfo) (offset size : ℤ) : Option (List UInt8) :=
  if !b.shadowed then none
  else if offset < 0 ∨ toIntptr limit (offset + size) < offset ∨
      b.size < toIntptr limit (offset + size) then
    none
  else some (b.shadow.drop offset.toNat)

/-- The switch of `BufferInfo::GetMaxValueForRange`. -/
def scan (shadow : List UInt8) (offset : UInt32) (count : ℤ) (type : GLenum) : Option UInt32 :=
  if type = GL_UNSIGNED_BYTE then some (getMaxValue 1 shadow count.toNat offset.toNat 0)
  else if type = GL_UNSIGNED_SHORT then
    if offset &&& 1 ≠ 0 then none else some (getMaxValue 2 shadow count.toNat offset.toNat 0)
  else if type = GL_UNSIGNED_INT then
    if offset &&& 3 ≠ 0 then none else some (getMaxValue 4 shadow count.toNat offset.toNat 0)
  else some 0

/-- `BufferInfo::GetMaxValueForRange` for a range that is not in the cache. -/
def scanRange (b : BufferInfo) (offset : UInt32) (count : ℤ) (type : GLenum) : Option UInt32 := do
  let size ← safeMultiplyUint32 (uint32OfInt count)
    (UInt32.ofNat (getGLTypeSizeForTexturesAndBuffers type))
  let size ← safeAddUint32 offset size
  if uint32OfInt b.size < size then none
  else if !b.shadowed then none
  else scan b.shadow offset count type

def getMaxValueForRange (b : BufferInfo) (offset : UInt32) (count : ℤ) (type : GLenum) :
    BufferInfo × Option UInt32 :=
  match b.rangeSet.lookup ⟨offset, count, type⟩ with
  | some maxValue => (b, some maxValue)
  | none =>
    match b.scanRange offset count type with
    | none => (b, none)
    | some maxValue => ({ b with rangeSet := b.rangeSet.insert ⟨offset, count, type⟩ maxValue }, some maxValue)

end BufferInfo

/-! ### What was written -/

inductive Label
  | setInfo (size : ℤ) (usage : GLenum) (shadow : Bool)
  | setRange (offset : ℤ) (data : List UInt8)
  | getMaxValueForRange (offset : UInt32) (count : ℤ) (type : GLenum)

/-- What a buffer holds, for its client. -/
structure Contents where
  size : ℤ
  shadowed : Bool
  byte : ℕ → UInt8

/-- What a call writes: new storage is zero, and a write within the buffer replaces its bytes. -/
def Contents.write (c : Contents) : Label → Contents
  | .setInfo size _ shadow =>
    if size = c.size ∧ shadow = c.shadowed then c else ⟨size, shadow, fun _ => 0⟩
  | .setRange offset data =>
    if 0 ≤ offset ∧ offset + data.length ≤ c.size then
      { c with byte := fun i =>
          if offset.toNat ≤ i then (data[i - offset.toNat]?).getD (c.byte i) else c.byte i }
    else c
  | .getMaxValueForRange _ _ _ => c

def contents (tr : List Label) : Contents := tr.foldl Contents.write ⟨0, false, fun _ => 0⟩

/-- The numbers of `w` bytes that stand in a buffer from the byte `offset` on, `count` of them. -/
def Contents.elements (c : Contents) (w offset count : ℕ) : List ℕ :=
  (List.range count).map fun i => leNat ((List.range w).map fun j => c.byte (offset + w * i + j))

def largest (numbers : List ℕ) : ℕ := numbers.max?.getD 0

/-- The types that `validators()->index_type` and `validators()->get_max_index_type` accept. -/
def IsIndexType (type : GLenum) : Prop :=
  type = GL_UNSIGNED_BYTE ∨ type = GL_UNSIGNED_SHORT ∨ type = GL_UNSIGNED_INT

def bufferInfo (limit : ℤ) (serviceId : UInt32) : TransSys BufferInfo Label where
  init b := b = .new serviceId
  step b l b' :=
    match l with
    | .setInfo size usage shadow => 0 ≤ size ∧ size < limit ∧ b' = b.setInfo size usage shadow
    | .setRange offset data =>
      offset < limit ∧ (data.length : ℤ) < limit ∧ b' = (b.setRange limit offset data).1
    | .getMaxValueForRange offset count type =>
      -2147483648 ≤ count ∧ count < 2147483648 ∧ b' = (b.getMaxValueForRange offset count type).1

theorem contents_append (tr : List Label) (l : Label) : contents (tr ++ [l]) = (contents tr).write l := by
  rw [contents, List.foldl_append]
  rfl

/-! ### The scan -/

variable {limit : ℤ} {b : BufferInfo} {c : Contents}

variable {count : ℤ} {type : GLenum} {maxValue offset : UInt32} {shadow : List UInt8}

theorem largest_eq_foldl (numbers : List ℕ) : largest numbers = numbers.foldl max 0 := by
  cases numbers with
  | nil => rfl
  | cons n numbers =>
    show numbers.foldl max n = numbers.foldl max (max 0 n)
    rw [Nat.zero_max]

theorem Contents.elements_succ (c : Contents) (w offset count : ℕ) : c.elements w offset (count + 1) =
      leNat ((List.range w).map fun j => c.byte (offset + j)) :: c.elements w (offset + w) count := by
  unfold Contents.elements
  rw [List.range_succ_eq_map, List.map_cons, List.map_map, Nat.mul_zero, Nat.add_zero]
  refine congrArg _ (List.map_congr_left fun i _ => ?_)
  rw [Function.comp_apply, Nat.mul_succ, Nat.add_right_comm, Nat.add_assoc offset]

structure CopyOf (c : Contents) (shadow : List UInt8) : Prop where
  length_eq : (shadow.length : ℤ) = c.size
  getElem? : ∀ i < shadow.length, shadow[i]? = some (c.byte i)

theorem CopyOf.take_drop (h : CopyOf c shadow) {w position : ℕ}
    (hle : position + w ≤ shadow.length) :
    (shadow.drop position).take w = (List.range w).map fun j => c.byte (position + j) := by
  refine List.ext_getElem? fun j => ?_
  rw [List.getElem?_take, List.getElem?_drop, List.getElem?_map]
  by_cases hj : j < w
  · rw [if_pos hj, h.getElem? _ (by omega), List.getElem?_range hj]
    rfl
  · rw [if_neg hj, List.getElem?_eq_none (by rw [List.length_range]; omega)]
    rfl

theorem CopyOf.getMaxValue (h : CopyOf c shadow) {w : ℕ} (hw : w ≤ 4) {n position : ℕ}
    (hle : position + w * n ≤ shadow.length) (maxValue : UInt32) :
    (BufferManager.getMaxValue w shadow n position maxValue).toNat =
      (c.elements w position n).foldl max maxValue.toNat := by
  induction n generalizing position maxValue with
  | zero => rfl
  | succ n ih =>
    rw [Nat.mul_succ] at hle
    rw [BufferManager.getMaxValue, ih (by omega), Contents.elements_succ, List.foldl_cons, h.take_drop (by omega)]
    congr 1
    generalize hbytes : (List.range w).map (fun j => c.byte (position + j)) = bytes
    have hlt : leNat bytes < 4294967296 := by
      have hlength : bytes.length = w := by rw [← hbytes, List.length_map, List.length_range]
      calc leNat bytes < 256 ^ bytes.length := leNat_lt bytes
        _ ≤ 256 ^ 4 := Nat.pow_le_pow_right (by decide) (hlength ▸ hw)
    have htoNat : (UInt32.ofNat (leNat bytes)).toNat = leNat bytes := UInt32.toNat_ofNat_of_lt' hlt
    split_ifs with hmax
    all_goals rw [UInt32.lt_iff_toNat_lt, htoNat] at hmax
    · rw [htoNat, Nat.max_eq_right hmax.le]
    · rw [Nat.max_eq_left (not_lt.1 hmax)]

/-- What a result says about the bytes of the buffer. -/
structure MaxOfRange (c : Contents) (offset : UInt32) (count : ℤ) (type : GLenum) (maxValue : UInt32) : Prop where
  le_size : offset.toNat + count * getGLTypeSizeForTexturesAndBuffers type ≤ c.size
  aligned : IsIndexType type → getGLTypeSizeForTexturesAndBuffers type ∣ offset.toNat
  eq_largest : IsIndexType type → maxValue.toNat =
    largest (c.elements (getGLTypeSizeForTexturesAndBuffers type) offset.toNat count.toNat)
  eq_zero : ¬ IsIndexType type → maxValue = 0

theorem getGLTypeSize_lt (type : GLenum) : getGLTypeSizeForTexturesAndBuffers type < 4294967296 := by
  unfold getGLTypeSizeForTexturesAndBuffers
  split_ifs <;> decide

/-- **The tests before the scan**: the range is within the buffer, which is shadowed. -/
theorem scanRange_eq_some (hnonneg : 0 ≤ b.size) (hcount : -2147483648 ≤ count)
    (hcount' : count < 2147483648)
    (h : b.scanRange offset count type = some maxValue) :
    b.shadowed = true ∧ offset.toNat + count * getGLTypeSizeForTexturesAndBuffers type ≤ b.size ∧
      offset.toNat + count.toNat * getGLTypeSizeForTexturesAndBuffers type ≤ b.size ∧
      BufferInfo.scan b.shadow offset count type = some maxValue := by
  unfold BufferInfo.scanRange at h
  obtain ⟨size, hsize, h⟩ := Option.bind_eq_some_iff.1 h
  obtain ⟨total, htotal, h⟩ := Option.bind_eq_some_iff.1 h
  rw [safeMultiplyUint32_eq, exactly_eq_some, UInt32.toNat_ofNat_of_lt' (getGLTypeSize_lt type)] at hsize
  rw [safeAddUint32_eq, exactly_eq_some] at htotal
  split_ifs at h with hfits hshadowed
  rw [UInt32.lt_iff_toNat_lt, not_lt] at hfits
  have hsizeMod := toNat_uint32OfInt b.size
  have hcountMod := toNat_uint32OfInt count
  have hle : (total.toNat : ℤ) ≤ b.size := by omega
  have hwithin : (offset.toNat : ℤ) + count.toNat * getGLTypeSizeForTexturesAndBuffers type ≤ b.size := by
    have hcountLe : count.toNat ≤ (uint32OfInt count).toNat := by omega
    have hmul := Nat.mul_le_mul_right (getGLTypeSizeForTexturesAndBuffers type) hcountLe
    have hcast : (offset.toNat : ℤ) + (count.toNat * getGLTypeSizeForTexturesAndBuffers type : ℕ) ≤ b.size := by omega
    rwa [Nat.cast_mul] at hcast
  have hexact : (offset.toNat : ℤ) + count * getGLTypeSizeForTexturesAndBuffers type ≤ b.size :=
    calc (offset.toNat : ℤ) + count * getGLTypeSizeForTexturesAndBuffers type
        ≤ offset.toNat + count.toNat * getGLTypeSizeForTexturesAndBuffers type :=
          Int.add_le_add_left (Int.mul_le_mul_of_nonneg_right (Int.self_le_toNat count) (Int.natCast_nonneg _)) _
      _ ≤ b.size := hwithin
  exact ⟨by simpa using hshadowed, hexact, hwithin, h⟩

theorem dvd_of_and_eq_zero (n : ℕ) (h : n < 32)
    (hand : ¬ offset &&& UInt32.ofNat (2 ^ n - 1) ≠ 0) : 2 ^ n ∣ offset.toNat := by
  have hpow : 2 ^ n - 1 < 4294967296 :=
    calc 2 ^ n - 1 ≤ 2 ^ n := Nat.sub_le _ _
      _ < 2 ^ 32 := Nat.pow_lt_pow_right (by decide) h
  have hzero := congrArg UInt32.toNat (not_not.1 hand)
  rw [UInt32.toNat_and, UInt32.toNat_ofNat_of_lt' hpow, Nat.and_two_pow_sub_one_eq_mod] at hzero
  exact Nat.dvd_of_mod_eq_zero hzero

theorem CopyOf.maxOfRange (h : CopyOf c shadow) (hexact : offset.toNat + count * getGLTypeSizeForTexturesAndBuffers type ≤ c.size)
    (hwithin : offset.toNat + count.toNat * getGLTypeSizeForTexturesAndBuffers type ≤ c.size)
    (hscan : BufferInfo.scan shadow offset count type = some maxValue) : MaxOfRange c offset count type maxValue := by
  have hle : offset.toNat + getGLTypeSizeForTexturesAndBuffers type * count.toNat ≤ shadow.length := by
    rw [← h.length_eq] at hwithin
    rw [Nat.mul_comm]
    exact_mod_cast hwithin
  have hlargest (w : ℕ) (hw : getGLTypeSizeForTexturesAndBuffers type = w) (hw4 : w ≤ 4) :
      (BufferManager.getMaxValue w shadow count.toNat offset.toNat 0).toNat =
        largest (c.elements w offset.toNat count.toNat) := by
    rw [h.getMaxValue hw4 (hw ▸ hle), largest_eq_foldl]
    rfl
  unfold BufferInfo.scan at hscan
  split_ifs at hscan with hbyte hshort hodd hint hodd
  all_goals cases hscan
  · subst hbyte
    exact ⟨hexact, fun _ => Nat.one_dvd _, fun _ => hlargest 1 rfl (by decide), fun hnot => absurd (.inl rfl) hnot⟩
  · subst hshort
    exact ⟨hexact, fun _ => dvd_of_and_eq_zero 1 (by decide) hodd, fun _ => hlargest 2 rfl (by decide),
      fun hnot => absurd (.inr (.inl rfl)) hnot⟩
  · subst hint
    exact ⟨hexact, fun _ => dvd_of_and_eq_zero 2 (by decide) hodd, fun _ => hlargest 4 rfl (by decide),
      fun hnot => absurd (.inr (.inr rfl)) hnot⟩
  · have hnot : ¬ IsIndexType type := by
      rintro (rfl | rfl | rfl)
      · exact hbyte rfl
      · exact hshort rfl
      · exact hint rfl
    exact ⟨hexact, fun htype => absurd htype hnot, fun htype => absurd htype hnot, fun _ => rfl⟩

/-! ### Runs -/

@[simp]
theorem size_setInfo (b : BufferInfo) (size : ℤ) (usage : GLenum) (shadow : Bool) :
    (b.setInfo size usage shadow).size = size := by
  unfold BufferInfo.setInfo
  by_cases hchanged : size ≠ b.size ∨ shadow ≠ b.shadowed
  · rw [if_pos hchanged]
  · rw [if_neg hchanged]
    exact (not_not.1 (not_or.1 hchanged).1).symm

@[simp]
theorem size_setRange (limit : ℤ) (b : BufferInfo) (offset : ℤ) (data : List UInt8) :
    (b.setRange limit offset data).1.size = b.size := by
  dsimp only [BufferInfo.setRange]
  split_ifs <;> rfl

@[simp]
theorem size_getMaxValueForRange (b : BufferInfo) (offset : UInt32) (count : ℤ) (type : GLenum) :
    (b.getMaxValueForRange offset count type).1.size = b.size := by
  unfold BufferInfo.getMaxValueForRange
  split
  · rfl
  · split <;> rfl

/-- The info has what was written: its copy is right, and so is what it has in the cache. -/
structure Refines (c : Contents) (b : BufferInfo) : Prop where
  size_eq : b.size = c.size
  nonneg : 0 ≤ b.size
  shadowed_eq : b.shadowed = c.shadowed
  copy : b.shadowed = true → CopyOf c b.shadow
  cached : ∀ range maxValue, b.rangeSet.lookup range = some maxValue →
    b.scanRange range.offset range.count range.type = some maxValue

theorem refines_new (serviceId : UInt32) : Refines (contents []) (.new serviceId) where
  size_eq := rfl
  nonneg := le_rfl
  shadowed_eq := rfl
  copy h := by cases h
  cached range maxValue h := by cases h

theorem Refines.setInfo (h : Refines c b) {size : ℤ} (hsize : 0 ≤ size) (usage : GLenum) (shadow : Bool) :
    Refines (c.write (.setInfo size usage shadow)) (b.setInfo size usage shadow) := by
  dsimp only [BufferInfo.setInfo, Contents.write]
  rw [← h.size_eq, ← h.shadowed_eq]
  by_cases hsame : size = b.size ∧ shadow = b.shadowed
  · rw [if_pos hsame, if_neg (not_or.2 ⟨not_not.2 hsame.1, not_not.2 hsame.2⟩)]
    exact ⟨h.size_eq, h.nonneg, h.shadowed_eq, h.copy, h.cached⟩
  · rw [if_pos (not_and_or.1 hsame), if_neg hsame]
    refine ⟨rfl, hsize, rfl, fun hshadow => ?_, fun range maxValue hlookup => by cases hlookup⟩
    dsimp only at hshadow ⊢
    rw [if_pos hshadow]
    refine ⟨by rw [List.length_replicate]; exact Int.toNat_of_nonneg hsize, fun i hi => ?_⟩
    rw [List.length_replicate] at hi
    exact List.getElem?_replicate_of_lt hi

theorem in_range_iff (hnonneg : 0 ≤ b.size) (hlimit : b.size < limit) {offset size : ℤ} (hoffset : offset < limit)
    (hsize : 0 ≤ size) (hsize' : size < limit) :
    ¬ (offset < 0 ∨ toIntptr limit (offset + size) < offset ∨ b.size < toIntptr limit (offset + size)) ↔
      0 ≤ offset ∧ offset + size ≤ b.size := by
  by_cases hneg : offset < 0
  · exact ⟨fun h => absurd (.inl hneg) h, fun h => absurd hneg (not_lt.2 h.1)⟩
  · unfold toIntptr
    rcases lt_or_ge (offset + size) limit with hfits | hwraps
    · rw [Int.emod_eq_of_lt (by omega) (by omega)]
      omega
    · have hmod : (limit + (offset + size)) % (2 * limit) = offset + size - limit := by
        rw [← Int.sub_emod_right, Int.emod_eq_of_lt (by omega) (by omega)]
        omega
      rw [hmod]
      omega

theorem CopyOf.setRange (h : CopyOf c shadow) {offset : ℕ} {data : List UInt8}
    (hfits : offset + data.length ≤ shadow.length) :
    CopyOf { c with byte := fun i => if offset ≤ i then (data[i - offset]?).getD (c.byte i) else c.byte i }
      (shadow.take offset ++ data ++ shadow.drop (offset + data.length)) := by
  have hlength : (shadow.take offset ++ data ++ shadow.drop (offset + data.length)).length = shadow.length := by
    simp only [List.length_append, List.length_take, List.length_drop]
    omega
  refine ⟨by rw [hlength]; exact h.length_eq, fun i hi => ?_⟩
  rw [hlength] at hi
  dsimp only
  have htake : (shadow.take offset).length = offset := by rw [List.length_take]; omega
  rcases lt_or_ge i offset with hbefore | hfrom
  · rw [if_neg (not_le.2 hbefore), List.append_assoc, List.getElem?_append_left (by omega),
      List.getElem?_take_of_lt hbefore, h.getElem? i hi]
  rw [if_pos hfrom]
  rcases lt_or_ge i (offset + data.length) with hin | hafter
  · rw [List.append_assoc, List.getElem?_append_right (by omega), htake, List.getElem?_append_left (by omega),
      List.getElem?_eq_getElem (by omega), Option.getD_some]
  · rw [List.getElem?_append_right (by rw [List.length_append]; omega), List.length_append, htake,
      List.getElem?_drop, Nat.add_sub_cancel' hafter, h.getElem? i hi, List.getElem?_eq_none (by omega),
      Option.getD_none]

theorem Refines.setRange (h : Refines c b) (hlimit : b.size < limit) {offset : ℤ} (hoffset : offset < limit)
    {data : List UInt8} (hdata : (data.length : ℤ) < limit) :
    Refines (c.write (.setRange offset data)) (b.setRange limit offset data).1 := by
  have hiff := in_range_iff h.nonneg hlimit hoffset (Int.natCast_nonneg data.length) hdata
  have hsize := h.size_eq
  dsimp only [BufferInfo.setRange, Contents.write]
  by_cases hrange : 0 ≤ offset ∧ offset + data.length ≤ c.size
  · rw [if_neg (hiff.2 (by omega)), if_pos hrange]
    split_ifs with hshadowed
    · refine ⟨hsize, h.nonneg, h.shadowed_eq, fun _ => ?_, fun range maxValue hlookup => by cases hlookup⟩
      have hcopy := h.copy hshadowed
      have hlength := hcopy.length_eq
      exact hcopy.setRange (by omega)
    · exact ⟨hsize, h.nonneg, h.shadowed_eq, fun hnot => absurd hnot hshadowed, h.cached⟩
  · rw [if_pos (not_not.1 (mt hiff.1 (by omega))), if_neg hrange]
    exact h

theorem Refines.getMaxValueForRange (h : Refines c b) (offset : UInt32) (count : ℤ) (type : GLenum) :
    Refines c (b.getMaxValueForRange offset count type).1 := by
  unfold BufferInfo.getMaxValueForRange
  split
  · exact h
  · split
    · exact h
    · next maxValue hscan =>
      refine ⟨h.size_eq, h.nonneg, h.shadowed_eq, h.copy, fun range maxValue' hlookup => ?_⟩
      dsimp only at hlookup
      by_cases hrange : range = ⟨offset, count, type⟩
      · subst hrange
        rw [AList.lookup_insert] at hlookup
        cases hlookup
        exact hscan
      · rw [AList.lookup_insert_ne hrange] at hlookup
        exact h.cached range maxValue' hlookup

theorem Refines.scanRange_eq (h : Refines c b)
    (hmax : (b.getMaxValueForRange offset count type).2 = some maxValue) :
    b.scanRange offset count type = some maxValue := by
  unfold BufferInfo.getMaxValueForRange at hmax
  split at hmax
  · next hlookup => exact (h.cached _ _ hlookup).trans hmax
  · split at hmax
    · cases hmax
    · next hscan => exact hscan.trans hmax

variable {serviceId : UInt32} {tr : List Label}

theorem refines_run (hlimit : 0 < limit) (h : (bufferInfo limit serviceId).Run tr b) :
    Refines (contents tr) b ∧ b.size < limit := by
  refine h.traceInvariant (I := fun tr b => Refines (contents tr) b ∧ b.size < limit) ?_ ?_
  · rintro b rfl
    exact ⟨refines_new serviceId, hlimit⟩
  · intro tr b l b' hi hst
    obtain ⟨hi, hsize⟩ := hi
    rw [contents_append]
    cases l with
    | setInfo size usage shadow =>
      obtain ⟨hnonneg, hlt, rfl⟩ := hst
      exact ⟨hi.setInfo hnonneg usage shadow, by rwa [size_setInfo]⟩
    | setRange offset data =>
      obtain ⟨hoffset, hdata, rfl⟩ := hst
      exact ⟨hi.setRange hsize hoffset hdata, by rwa [size_setRange]⟩
    | getMaxValueForRange offset count type =>
      obtain ⟨_, _, rfl⟩ := hst
      exact ⟨hi.getMaxValueForRange offset count type, by rwa [size_getMaxValueForRange]⟩

/-- The calls that make a buffer of four bytes, which are not written any more. -/
theorem run_fourBytes : (bufferInfo 2147483648 1).Run [.setInfo 4 GL_STATIC_DRAW true]
      ((BufferInfo.new 1).setInfo 4 GL_STATIC_DRAW true) := by
  have hnew : (bufferInfo 2147483648 1).Run [] (.new 1) := .init rfl
  exact hnew.step (l := Label.setInfo 4 GL_STATIC_DRAW true) ⟨by decide, by decide, rfl⟩

end BufferManager

end Chromium.Gpu
