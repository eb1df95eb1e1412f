import Chromium.Lib.Vint

/-!
# The header of a WebM element

`media/webm/webm_parser.cc`: an element starts with its id and its size, each in a number of variable width.  The id has
four bytes at most and keeps its marker, the size has eight bytes at most and loses it.  A function that reads the bytes
of a buffer gives nothing where it would read behind the buffer.

`parseWebMElementHeader_header`, `parseWebMElementHeader_incomplete`, `parseWebMElementHeader_malformed`: the header that
the bytes start with is read, bytes that are the start of a header only ask for more, and all others are refused.
-/

namespace Chromium.Media.WebM

open Lib
open List (append_assoc cons_append cons_ne_nil length_append length_cons length_pos_iff)

/-! ## The functions -/

def mask (i : ℕ) : UInt8 := 0x80 >>> UInt8.ofNat i

def extraBytes (ch : UInt8) (maxBytes : ℕ) : Option ℕ :=
  (List.range maxBytes).find? fun i => ch &&& mask i = mask i

def readExtra (buf : List UInt8) (extra : ℕ) (num : ℕ) : Option ℕ :=
  (List.range extra).foldlM (fun num i => (buf[1 + i]?).map fun b => num * 256 + b.toNat) num

/-- `ParseWebMElementHeaderField`: its result, and `*num`. -/
def parseWebMElementHeaderField (buf : List UInt8) (size : ℤ) (maxBytes : ℕ) (maskFirstByte : Bool) :
    Option (ℤ × ℕ) :=
  if size < 0 then some (-1, 0)
  else if size = 0 then some (0, 0)
  else
    match buf[0]? with
    | none => none
    | some ch =>
      match extraBytes ch maxBytes with
      | none => some (-1, 0)
      | some extra =>
        let num := (if maskFirstByte then ch &&& ~~~mask extra else ch).toNat
        -- more data is needed
        if 1 + (extra : ℤ) > size then some (0, num)
        else (readExtra buf extra num).map fun num => (1 + extra, num)

/-- `ParseWebMElementHeader`: its result, `*id` and `*element_size`. -/
def parseWebMElementHeader (buf : List UInt8) (size : ℤ) : Option (ℤ × ℕ × ℕ) :=
  if size = 0 then some (0, 0, 0)
  else
    match parseWebMElementHeaderField buf size 4 false with
    | none => none
    | some (numIdBytes, id) =>
      if numIdBytes ≤ 0 then some (numIdBytes, 0, 0)
      else
        match parseWebMElementHeaderField (buf.drop numIdBytes.toNat) (size - numIdBytes) 8 true with
        | none => none
        | some (numSizeBytes, elementSize) =>
          if numSizeBytes ≤ 0 then some (numSizeBytes, id, 0)
          else some (numIdBytes + numSizeBytes, id, elementSize)

/-! ## What they read -/

/-- **A header**: the id and the size, the latter without its marker. -/
structure IsHeader (id size : ℕ) (v w : List UInt8) : Prop where
  id_vint : IsVint v
  id_le : v.length ≤ 4
  id_eq : id = beNat v
  size_vint : IsVint w
  size_le : w.length ≤ 8
  size_eq : size = vintValue w

def FieldIncomplete (maxBytes : ℕ) (c : List UInt8) : Prop :=
  ∃ t, t ≠ [] ∧ IsVint (c ++ t) ∧ (c ++ t).length ≤ maxBytes

/-- **The bytes are the start of a header only.** -/
def HeaderIncomplete (c : List UInt8) : Prop :=
  ∃ id size v w t, t ≠ [] ∧ IsHeader id size v w ∧ c ++ t = v ++ w

def StartsWithHeader (c : List UInt8) : Prop := ∃ id size v w t, IsHeader id size v w ∧ c = v ++ w ++ t

/-! ## One field -/

def fieldValue (maskFirstByte : Bool) (v : List UInt8) : ℕ := if maskFirstByte then vintValue v else beNat v

theorem marker_iff : ∀ n < 256, ∀ k < 8,
    ((UInt8.ofNat n &&& mask k = mask k ∧ ∀ j < k, ¬ UInt8.ofNat n &&& mask j = mask j) ↔ n / 2 ^ (7 - k) = 1) := by
  decide +kernel

theorem toNat_unmask : ∀ n < 256, ∀ k < 8, n / 2 ^ (7 - k) = 1 →
    (UInt8.ofNat n &&& ~~~mask k).toNat = n - 2 ^ (7 - k) := by
  decide +kernel

section

variable {ch b : UInt8} {maxBytes k : ℕ} {maskFirstByte : Bool} {c m v t rest : List UInt8} {size : ℤ}

theorem extraBytes_eq_some_iff (hmax : maxBytes ≤ 8) :
    extraBytes ch maxBytes = some k ↔ k < maxBytes ∧ ch.toNat / 2 ^ (7 - k) = 1 := by
  rw [extraBytes, List.find?_range_eq_some, List.mem_range]
  by_cases hk : k < maxBytes
  · have h := marker_iff ch.toNat ch.toNat_lt k (by omega)
    rw [UInt8.ofNat_toNat] at h
    simp only [decide_eq_true_eq, Bool.not_eq_true', decide_eq_false_iff_not]
    rw [← h]
    exact ⟨fun hfind => ⟨hk, hfind.1, hfind.2.2⟩, fun hfind => ⟨hfind.2.1, hk, hfind.2.2⟩⟩
  · exact ⟨fun hfind => absurd hfind.2.1 hk, fun hfind => absurd hfind.1 hk⟩

theorem readExtra_eq (num : ℕ) :
    readExtra (b :: (rest ++ t)) rest.length num = some (num * 256 ^ rest.length + beNat rest) := by
  induction rest using List.reverseRecOn generalizing t with
  | nil => simp [readExtra]
  | append_singleton rest x ih =>
    have hx : (b :: (rest ++ (x :: t)))[1 + rest.length]? = some x := by
      rw [Nat.add_comm, List.getElem?_cons_succ, List.getElem?_append_right le_rfl, Nat.sub_self]
      rfl
    have hsplit := @ih (x :: t)
    rw [readExtra] at hsplit ⊢
    rw [append_assoc, List.singleton_append, length_append, List.length_singleton, List.range_succ,
      List.foldlM_append, hsplit]
    simp only [List.foldlM_cons, List.foldlM_nil, Option.bind_eq_bind, Option.bind_some, hx, Option.map_some,
      Option.pure_def]
    rw [beNat_concat, pow_succ, Nat.add_mul, Nat.mul_assoc, Nat.add_assoc]

theorem parseWebMElementHeaderField_vint (hmax : maxBytes ≤ 8) (hv : IsVint v) (hle : v.length ≤ maxBytes)
    (hsize : (v.length : ℤ) ≤ size) :
    parseWebMElementHeaderField (v ++ t) size maxBytes maskFirstByte =
      some ((v.length : ℤ), fieldValue maskFirstByte v) := by
  obtain ⟨b, rest, rfl⟩ := List.exists_cons_of_ne_nil hv.ne_nil
  rw [length_cons] at hle hsize ⊢
  have hrest : rest.length ≤ 7 := by omega
  have hone := (isVint_cons_iff hrest).1 hv
  have hextra : extraBytes b maxBytes = some rest.length := (extraBytes_eq_some_iff hmax).2 ⟨by omega, hone⟩
  have hvalue : (if maskFirstByte then b &&& ~~~mask rest.length else b).toNat * 256 ^ rest.length + beNat rest =
      fieldValue maskFirstByte (b :: rest) := by
    cases maskFirstByte
    · exact (beNat_cons b rest).symm
    · have hb : 2 ^ (7 - rest.length) ≤ b.toNat := by
        by_contra hlt
        rw [Nat.div_eq_of_lt (not_le.1 hlt)] at hone
        cases hone
      have hunmask := toNat_unmask b.toNat b.toNat_lt rest.length (by omega) hone
      rw [UInt8.ofNat_toNat] at hunmask
      show (b &&& ~~~mask rest.length).toNat * 256 ^ rest.length + beNat rest = vintValue (b :: rest)
      rw [hunmask, vintValue_cons hrest hb]
  rw [parseWebMElementHeaderField, if_neg (by omega), if_neg (by omega), cons_append, List.getElem?_cons_zero]
  dsimp only
  rw [hextra]
  dsimp only
  rw [if_neg (by omega), readExtra_eq, hvalue, Option.map_some]
  congr 2
  push_cast
  omega

theorem extraBytes_of_isVint (hmax : maxBytes ≤ 8) (h : IsVint (b :: rest)) (hle : rest.length < maxBytes) :
    extraBytes b maxBytes = some rest.length :=
  (extraBytes_eq_some_iff hmax).2 ⟨hle, (isVint_cons_iff (by omega)).1 h⟩

theorem parseWebMElementHeaderField_incomplete (hmax : maxBytes ≤ 8) (h : FieldIncomplete maxBytes c) :
    ∃ num, parseWebMElementHeaderField (c ++ m) c.length maxBytes maskFirstByte = some (0, num) := by
  obtain ⟨t, ht, hvint, hle⟩ := h
  cases c with
  | nil => exact ⟨0, rfl⟩
  | cons b rest =>
    have htpos := length_pos_iff.2 ht
    rw [cons_append, length_cons, length_append] at hle
    have hextra : extraBytes b maxBytes = some (rest ++ t).length :=
      extraBytes_of_isVint hmax hvint (by rw [length_append]; omega)
    refine ⟨(if maskFirstByte then b &&& ~~~mask (rest ++ t).length else b).toNat, ?_⟩
    rw [parseWebMElementHeaderField, if_neg (by omega), if_neg (by rw [length_cons]; omega), cons_append,
      List.getElem?_cons_zero]
    dsimp only
    rw [hextra]
    dsimp only
    rw [if_pos (by rw [length_append, length_cons]; push_cast; omega)]

theorem parseWebMElementHeaderField_malformed (hmax : maxBytes ≤ 8) (hpos : 0 < maxBytes)
    (hincomplete : ¬ FieldIncomplete maxBytes c)
    (hvint : ∀ v t, c = v ++ t → IsVint v → ¬ v.length ≤ maxBytes) :
    ∃ num, parseWebMElementHeaderField (c ++ m) c.length maxBytes maskFirstByte = some (-1, num) := by
  cases c with
  | nil =>
    have h80 : IsVint [0x80] := ⟨cons_ne_nil _ _, by decide, by decide⟩
    exact absurd ⟨[0x80], cons_ne_nil _ _, h80, hpos⟩ hincomplete
  | cons b rest =>
    have hnone : extraBytes b maxBytes = none := by
      cases hextra : extraBytes b maxBytes with
      | none => rfl
      | some k =>
        obtain ⟨hk, hone⟩ := (extraBytes_eq_some_iff hmax).1 hextra
        by_cases hlen : rest.length < k
        · -- zeros complete the number
          have hlength : (rest ++ List.replicate (k - rest.length) 0).length = k := by
            rw [length_append, List.length_replicate]
            omega
          refine absurd ⟨List.replicate (k - rest.length) 0, ?_, ?_, ?_⟩ hincomplete
          · rw [← length_pos_iff, List.length_replicate]
            omega
          · rw [cons_append, isVint_cons_iff (by omega), hlength]
            exact hone
          · rw [cons_append, length_cons, hlength]
            exact hk
        · have htake : (rest.take k).length = k := List.length_take_of_le (not_lt.1 hlen)
          refine absurd ?_ (hvint (b :: rest.take k) (rest.drop k) ?_ ?_)
          · rw [length_cons, htake]
            exact hk
          · rw [cons_append, List.take_append_drop]
          · rw [isVint_cons_iff (by omega), htake]
            exact hone
    refine ⟨0, ?_⟩
    rw [parseWebMElementHeaderField, if_neg (by omega), if_neg (by rw [length_cons]; omega), cons_append,
      List.getElem?_cons_zero]
    dsimp only
    rw [hnone]

end

/-! ## The header -/

variable {id elementSize : ℕ} {c m v w t : List UInt8} {size : ℤ}

theorem isVint_marker : IsVint [0x80] := ⟨cons_ne_nil _ _, by decide, by decide⟩

theorem IsHeader.length_pos (h : IsHeader id elementSize v w) : 0 < (v ++ w).length := by
  have hv := length_pos_iff.2 h.id_vint.ne_nil
  rw [length_append]
  omega

theorem parseWebMElementHeader_header (h : IsHeader id elementSize v w) (hsize : ((v ++ w).length : ℤ) ≤ size) :
    parseWebMElementHeader (v ++ w ++ t) size = some (((v ++ w).length : ℤ), id, elementSize) := by
  have hv := length_pos_iff.2 h.id_vint.ne_nil
  have hw := length_pos_iff.2 h.size_vint.ne_nil
  rw [length_append] at hsize ⊢
  push_cast at hsize ⊢
  have hid := @parseWebMElementHeaderField_vint 4 false v (w ++ t) size (by decide) h.id_vint h.id_le (by omega)
  have hfield := @parseWebMElementHeaderField_vint 8 true w t (size - v.length) (by decide) h.size_vint h.size_le
    (by omega)
  rw [parseWebMElementHeader, if_neg (by omega), append_assoc, hid]
  dsimp only
  rw [if_neg (by omega), Int.toNat_natCast, List.drop_left, hfield]
  dsimp only
  rw [if_neg (by omega), h.id_eq, h.size_eq]
  rfl

theorem parseWebMElementHeader_second {r : ℤ} {num : ℕ} (hv : IsVint v) (hle : v.length ≤ 4)
    (hfield : parseWebMElementHeaderField (c ++ m) c.length 8 true = some (r, num)) (hr : r ≤ 0) :
    parseWebMElementHeader (v ++ c ++ m) (v ++ c).length = some (r, beNat v, 0) := by
  have hpos := length_pos_iff.2 hv.ne_nil
  have hlength : (((v ++ c).length : ℕ) : ℤ) = v.length + c.length := by
    rw [length_append]
    push_cast
    rfl
  have hid := @parseWebMElementHeaderField_vint 4 false v (c ++ m) (v ++ c).length (by decide) hv hle (by omega)
  rw [parseWebMElementHeader, if_neg (by omega), append_assoc, hid]
  dsimp only
  rw [if_neg (by omega), Int.toNat_natCast, List.drop_left, show ((v ++ c).length : ℤ) - v.length = c.length by omega,
    hfield]
  dsimp only
  rw [if_pos hr]
  rfl

theorem parseWebMElementHeader_incomplete (h : HeaderIncomplete c) :
    ∃ id elementSize, parseWebMElementHeader (c ++ m) c.length = some (0, id, elementSize) := by
  obtain ⟨id, elementSize, v, w, t, ht, hheader, heq⟩ := h
  by_cases hlen : c.length < v.length
  · -- within the id
    obtain ⟨t', rfl⟩ : c <+: v :=
      List.prefix_of_prefix_length_le ⟨t, heq⟩ (List.prefix_append v w) (Nat.le_of_lt hlen)
    rw [length_append] at hlen
    have hne : t' ≠ [] := by
      rw [← length_pos_iff]
      omega
    obtain ⟨num, hnum⟩ := @parseWebMElementHeaderField_incomplete 4 false c m (by decide)
      ⟨t', hne, hheader.id_vint, hheader.id_le⟩
    refine ⟨0, 0, ?_⟩
    rw [parseWebMElementHeader]
    by_cases hzero : (c.length : ℤ) = 0
    · rw [if_pos hzero]
    · rw [if_neg hzero, hnum]
      rfl
  · -- within the size
    obtain ⟨c', rfl⟩ : v <+: c :=
      List.prefix_of_prefix_length_le (List.prefix_append v w) ⟨t, heq⟩ (not_lt.1 hlen)
    rw [append_assoc] at heq
    have hsize : w = c' ++ t := (List.append_cancel_left heq).symm
    subst hsize
    obtain ⟨num, hnum⟩ := @parseWebMElementHeaderField_incomplete 8 true c' m (by decide)
      ⟨t, ht, hheader.size_vint, hheader.size_le⟩
    exact ⟨_, _, parseWebMElementHeader_second hheader.id_vint hheader.id_le hnum (Int.le_refl 0)⟩

theorem parseWebMElementHeader_malformed (hincomplete : ¬ HeaderIncomplete c) (hstarts : ¬ StartsWithHeader c) :
    ∃ id elementSize, parseWebMElementHeader (c ++ m) c.length = some (-1, id, elementSize) := by
  have hsize80 : ∀ {v : List UInt8}, IsVint v → v.length ≤ 4 → IsHeader (beNat v) (vintValue [0x80]) v [0x80] :=
    fun hv hle => ⟨hv, hle, rfl, isVint_marker, by decide, rfl⟩
  have hne : c ≠ [] := fun hnil => hincomplete
    ⟨_, _, [0x80], [0x80], [0x80, 0x80], cons_ne_nil _ _, hsize80 isVint_marker (by decide), by rw [hnil]; rfl⟩
  have hpos := length_pos_iff.2 hne
  have hid : ¬ FieldIncomplete 4 c := fun ⟨t, _, hvint, hle⟩ => hincomplete
    ⟨_, _, c ++ t, [0x80], t ++ [0x80], by simp, hsize80 hvint hle, (append_assoc c t [0x80]).symm⟩
  by_cases hvint : ∃ v t, c = v ++ t ∧ IsVint v ∧ v.length ≤ 4
  · obtain ⟨v, c', rfl, hv, hle⟩ := hvint
    have hsize : ¬ FieldIncomplete 8 c' := fun ⟨t, ht, hvint, hle'⟩ => hincomplete
      ⟨_, _, v, c' ++ t, t, ht, ⟨hv, hle, rfl, hvint, hle', rfl⟩, append_assoc v c' t⟩
    obtain ⟨num, hnum⟩ := @parseWebMElementHeaderField_malformed 8 true c' m (by decide) (by decide) hsize
      fun w t heq hw hle' => hstarts ⟨_, _, v, w, t, ⟨hv, hle, rfl, hw, hle', rfl⟩, by rw [heq, append_assoc]⟩
    exact ⟨_, _, parseWebMElementHeader_second hv hle hnum (by decide)⟩
  · obtain ⟨num, hnum⟩ := @parseWebMElementHeaderField_malformed 4 false c m (by decide) (by decide) hid
      fun v t heq hv hle => hvint ⟨v, t, heq, hv, hle⟩
    refine ⟨0, 0, ?_⟩
    rw [parseWebMElementHeader, if_neg (by omega), hnum]
    rfl

end Chromium.Media.WebM
