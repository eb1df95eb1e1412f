import Chromium.Lib.MachineInt
import Chromium.Lib.TransSys
import Chromium.Gpu.Common.CmdFormat
import Mathlib.Data.Finset.Max

/-!
# The command buffer service

`gpu/command_buffer/service/command_buffer_service.cc`.  The service keeps the
get and put offsets of the ring buffer, the error of the reader, and the table
of transfer buffers: a vector of buffers whose element zero is always null, and
the set of the other null elements, which are used again first.

`RegistryInv` is what the two parts of the table have to say about each other.
`registerTransferBuffer` keeps it except in two cases (`RequestOk`): a request
for id `0`, which fills element zero, and a request for an id while there are
`2 ^ 31` elements or more, where the size no longer fits the `int32` it is
compared in.
-/

namespace Chromium.Gpu

open Lib
open List (length_append length_dropLast length_set length_singleton)

/-- `gpu::Buffer`.  A null pointer is `none`. -/
structure Buffer where
  ptr : Option ℕ
  size : ℕ
  sharedMemory : Option ℕ
  deriving DecidableEq, Repr

/-- `Buffer()`. -/
def Buffer.null : Buffer := ⟨none, 0, none⟩

def Buffer.Live (b : Buffer) : Prop := b.sharedMemory.isSome

instance (b : Buffer) : Decidable b.Live := inferInstanceAs (Decidable (_ = true))

@[simp] theorem Buffer.not_live_null : ¬ Buffer.null.Live := by simp [Live, null]

/-- The ids `first`, `first + 1`, …, before `last`. -/
def idsBetween (first last : ℤ) : Finset ℤ :=
  (Finset.range (last - first).toNat).image fun k : ℕ => first + (k : ℤ)

@[simp] theorem mem_idsBetween {first last id : ℤ} :
    id ∈ idsBetween first last ↔ first ≤ id ∧ id < last := by
  unfold idsBetween
  simp only [Finset.mem_image, Finset.mem_range]
  constructor
  · rintro ⟨k, hk, rfl⟩
    omega
  · rintro ⟨hfirst, hlast⟩
    exact ⟨(id - first).toNat, by omega, by omega⟩

/-- A buffer over mapped shared memory, as `RegisterTransferBuffer` makes one. -/
abbrev MappedBuffer := {b : Buffer // b.Live}

structure CommandBufferService where
  numEntries : ℤ
  getOffset : ℤ
  putOffset : ℤ
  token : ℤ
  error : Error
  registeredObjects : List Buffer
  unusedRegisteredObjectElements : Finset ℤ

namespace CommandBufferService

variable {n i : ℕ} {idRequest : ℤ} {b : Buffer} {mapped : Option MappedBuffer}
  {s : CommandBufferService} {unused : Finset ℤ} {l objects : List Buffer}

/-- The constructor, followed by an `Initialize` that maps `numEntries` entries. -/
def new (numEntries : ℤ) : CommandBufferService where
  numEntries := numEntries
  getOffset := 0
  putOffset := 0
  token := 0
  error := .kNoError
  registeredObjects := [Buffer.null]
  unusedRegisteredObjectElements := ∅

/-- `CommandBufferService::Flush`, and `FlushSync`, which only also returns the
state.  The boolean tells whether the put offset was taken and the change
callback is run. -/
def flush (s : CommandBufferService) (putOffset : ℤ) : CommandBufferService × Bool :=
  if putOffset < 0 ∨ putOffset > s.numEntries then
    ({ s with error := .kOutOfBounds }, false)
  else
    ({ s with putOffset := putOffset }, true)

def setGetOffset (s : CommandBufferService) (getOffset : ℤ) : CommandBufferService :=
  { s with getOffset := getOffset }

def setToken (s : CommandBufferService) (token : ℤ) : CommandBufferService :=
  { s with token := token }

def setParseError (s : CommandBufferService) (error : Error) : CommandBufferService :=
  if s.error = .kNoError then { s with error := error } else s

@[simp] theorem setParseError_numEntries (s : CommandBufferService) (e : Error) :
    (s.setParseError e).numEntries = s.numEntries := by
  unfold setParseError
  split_ifs <;> rfl

@[simp] theorem setParseError_getOffset (s : CommandBufferService) (e : Error) :
    (s.setParseError e).getOffset = s.getOffset := by
  unfold setParseError
  split_ifs <;> rfl

@[simp] theorem setParseError_putOffset (s : CommandBufferService) (e : Error) :
    (s.setParseError e).putOffset = s.putOffset := by
  unfold setParseError
  split_ifs <;> rfl

def getTransferBuffer (s : CommandBufferService) (handle : ℤ) : Buffer :=
  if handle < 0 then .null
  else if s.registeredObjects.length ≤ handle.toNat then .null
  else s.registeredObjects.getD handle.toNat .null

/-! ### Transfer buffers -/

/-- The early returns of `RegisterTransferBuffer`: the table is full, the id is
not sane, or the memory could not be shared or mapped (`mapped = none`). -/
def rejected (s : CommandBufferService) (mapped : Option MappedBuffer) (idRequest : ℤ) : Bool :=
  (s.unusedRegisteredObjectElements = ∅ ∧ s.registeredObjects.length > 4294967295) ∨
    (idRequest ≠ -1 ∧ (idRequest > 100 ∨ idRequest < -1)) ∨ mapped.isNone

def resize (l : List Buffer) (n : ℕ) : List Buffer := l.take n ++ List.replicate (n - l.length) .null

/-- The end of `RegisterTransferBuffer`: any id will do. -/
def registerAnywhere (s : CommandBufferService) (buffer : Buffer) : CommandBufferService × ℤ :=
  if h : s.unusedRegisteredObjectElements.Nonempty then
    let handle := s.unusedRegisteredObjectElements.min' h
    ({ s with
        unusedRegisteredObjectElements := s.unusedRegisteredObjectElements.erase handle
        registeredObjects := s.registeredObjects.set handle.toNat buffer }, handle)
  else
    ({ s with registeredObjects := s.registeredObjects ++ [buffer] }, toInt32 s.registeredObjects.length)

/-- `CommandBufferService::RegisterTransferBuffer`.  `mapped` is the buffer over
the duplicated handle, if it could be mapped. -/
def registerTransferBuffer (s : CommandBufferService) (mapped : Option MappedBuffer)
    (idRequest : ℤ) : CommandBufferService × ℤ :=
  if s.rejected mapped idRequest then (s, -1)
  else
    match mapped with
    | none => (s, -1)
    | some ⟨buffer, _⟩ =>
      let curSize := toInt32 s.registeredObjects.length
      if idRequest ≠ -1 ∧ curSize ≤ idRequest then
        -- the vector is padded up to the requested id
        ({ s with
            registeredObjects :=
              (resize s.registeredObjects (idRequest + 1).toNat).set idRequest.toNat buffer
            unusedRegisteredObjectElements :=
              s.unusedRegisteredObjectElements ∪ idsBetween curSize idRequest }, idRequest)
      else if idRequest ≠ -1 ∧ ¬ (s.registeredObjects.getD idRequest.toNat .null).Live then
        ({ s with
            registeredObjects := s.registeredObjects.set idRequest.toNat buffer
            unusedRegisteredObjectElements :=
              s.unusedRegisteredObjectElements.erase idRequest }, idRequest)
      else s.registerAnywhere buffer

/-- The loop of `DestroyTransferBuffer` that takes null objects off the end. -/
def shrink (objects : List Buffer) (unused : Finset ℤ) : List Buffer × Finset ℤ :=
  if 1 < objects.length ∧ ¬ (objects.getLastD .null).Live then
    shrink objects.dropLast (unused.erase (toInt32 objects.dropLast.length))
  else (objects, unused)
termination_by objects.length
decreasing_by simp only [List.length_dropLast]; omega

def destroyTransferBuffer (s : CommandBufferService) (handle : ℤ) : CommandBufferService :=
  if handle ≤ 0 then s
  else if s.registeredObjects.length ≤ handle.toNat then s
  else
    let r := shrink (s.registeredObjects.set handle.toNat .null)
      (insert handle s.unusedRegisteredObjectElements)
    { s with registeredObjects := r.1, unusedRegisteredObjectElements := r.2 }

/-! ### What the table has to satisfy -/

/-- The element `i` of the vector holds a buffer. -/
def LiveAt (objects : List Buffer) (i : ℕ) : Prop := (objects[i]?.getD .null).Live

/-- The vector and the set of unused elements agree. -/
structure Agree (objects : List Buffer) (unused : Finset ℤ) : Prop where
  zero : objects[0]? = some Buffer.null
  unused : ∀ i : ℤ, i ∈ unused ↔ 1 ≤ i ∧ i < objects.length ∧ ¬ LiveAt objects i.toNat

structure RegistryInv (s : CommandBufferService) : Prop where
  agree : Agree s.registeredObjects s.unusedRegisteredObjectElements
  last : s.registeredObjects.length = 1 ∨ LiveAt s.registeredObjects (s.registeredObjects.length - 1)

/-- What the sizes have to satisfy: an element from `2 ^ 31` on has no handle of
its own and is never emptied, and the vector has at most `2 ^ 32` elements. -/
structure SizeInv (s : CommandBufferService) : Prop where
  high : ∀ i, 2147483648 ≤ i → i < s.registeredObjects.length → LiveAt s.registeredObjects i
  length_le : s.registeredObjects.length ≤ 4294967296

/-- The calls of `RegisterTransferBuffer` that do what they should. -/
def RequestOk (s : CommandBufferService) (mapped : Option MappedBuffer) (idRequest : ℤ) : Prop :=
  s.rejected mapped idRequest = true ∨ idRequest = -1 ∨ (idRequest ≠ 0 ∧ s.registeredObjects.length < 2147483648)

/-! ### Live elements of changed vectors -/

theorem liveAt_set {j : ℕ} (hi : i < objects.length) :
    LiveAt (objects.set i b) j ↔ if j = i then b.Live else LiveAt objects j := by
  unfold LiveAt
  rw [List.getElem?_set]
  by_cases hij : i = j
  · rw [if_pos hij, if_pos hi, if_pos hij.symm, Option.getD_some]
  · rw [if_neg hij, if_neg (fun h => hij h.symm)]

theorem liveAt_append {j : ℕ} :
    LiveAt (objects ++ [b]) j ↔ if j = objects.length then b.Live else LiveAt objects j := by
  unfold LiveAt
  rw [List.getElem?_append]
  split_ifs with h1 h2 h2
  · omega
  · rfl
  · simp [h2]
  · rw [List.getElem?_eq_none (by simp; omega), List.getElem?_eq_none (by omega)]

theorem not_liveAt_of_length_le (h : objects.length ≤ i) : ¬ LiveAt objects i := by
  rw [LiveAt, List.getElem?_eq_none h]
  exact Buffer.not_live_null

theorem liveAt_dropLast (h : i + 1 < objects.length) : LiveAt objects.dropLast i ↔ LiveAt objects i := by
  unfold LiveAt
  rw [List.getElem?_dropLast, if_pos (by omega)]

theorem liveAt_getLast : LiveAt objects (objects.length - 1) ↔ (objects.getLastD .null).Live := by
  rw [LiveAt, ← List.getLast?_eq_getElem?, List.getLastD_eq_getLast?]

theorem length_resize (l : List Buffer) (n : ℕ) : (resize l n).length = n := by
  simp only [resize, length_append, List.length_take, List.length_replicate]
  omega

theorem getElem?_resize (hl : l.length ≤ n) (hi : i < l.length) : (resize l n)[i]? = l[i]? := by
  rw [resize, List.take_of_length_le hl, List.getElem?_append_left hi]

theorem liveAt_resize (hl : l.length ≤ n) : LiveAt (resize l n) i ↔ LiveAt l i := by
  by_cases hi : i < l.length
  · unfold LiveAt
    rw [getElem?_resize hl hi]
  · refine iff_of_false ?_ (not_liveAt_of_length_le (by omega))
    unfold LiveAt
    rw [resize, List.take_of_length_le hl, List.getElem?_append_right (by omega), List.getElem?_replicate]
    split_ifs <;> simp

/-! ### The two parts stay in agreement -/

theorem Agree.length_pos (h : Agree objects unused) : 0 < objects.length := by
  by_contra hc
  have := h.zero
  rw [List.getElem?_eq_none (by omega)] at this
  simp at this

theorem Agree.fill (h : Agree objects unused) {i : ℤ}
    (hi : 1 ≤ i) (hlt : i < objects.length) (hb : b.Live) :
    Agree (objects.set i.toNat b) (unused.erase i) where
  zero := by rw [List.getElem?_set_ne (by omega)]; exact h.zero
  unused j := by
    have hset := liveAt_set (j := j.toNat) (b := b) (show i.toNat < objects.length by omega)
    rw [Finset.mem_erase, h.unused, length_set, hset]
    constructor
    · rintro ⟨hne, h1, h2, h3⟩
      exact ⟨h1, h2, by rwa [if_neg (by omega)]⟩
    · rintro ⟨h1, h2, h3⟩
      by_cases hij : j = i
      · rw [if_pos (by rw [hij])] at h3
        exact absurd hb h3
      · rw [if_neg (by omega)] at h3
        exact ⟨hij, h1, h2, h3⟩

theorem Agree.clear (h : Agree objects unused) {i : ℤ} (hi : 1 ≤ i) (hlt : i < objects.length) :
    Agree (objects.set i.toNat .null) (insert i unused) where
  zero := by rw [List.getElem?_set_ne (by omega)]; exact h.zero
  unused j := by
    have hset := liveAt_set (j := j.toNat) (b := .null) (show i.toNat < objects.length by omega)
    rw [Finset.mem_insert, h.unused, length_set, hset]
    constructor
    · rintro (rfl | ⟨h1, h2, h3⟩)
      · exact ⟨hi, hlt, by rw [if_pos rfl]; exact Buffer.not_live_null⟩
      · refine ⟨h1, h2, ?_⟩
        split_ifs
        · exact Buffer.not_live_null
        · exact h3
    · rintro ⟨h1, h2, h3⟩
      by_cases hij : j = i
      · exact .inl hij
      · rw [if_neg (by omega)] at h3
        exact .inr ⟨h1, h2, h3⟩

theorem Agree.append (h : Agree objects unused) (hb : b.Live) : Agree (objects ++ [b]) unused where
  zero := by rw [List.getElem?_append_left h.length_pos]; exact h.zero
  unused j := by
    rw [h.unused, liveAt_append, length_append, length_singleton]
    constructor
    all_goals rintro ⟨h1, h2, h3⟩
    · exact ⟨h1, by omega, by rwa [if_neg (by omega)]⟩
    · by_cases hj : j.toNat = objects.length
      · rw [if_pos hj] at h3
        exact absurd hb h3
      · rw [if_neg hj] at h3
        exact ⟨h1, by omega, h3⟩

theorem Agree.pad (h : Agree objects unused) (hn : objects.length ≤ n) :
    Agree (resize objects n) (unused ∪ idsBetween (objects.length : ℤ) n) where
  zero := by rw [getElem?_resize hn h.length_pos]; exact h.zero
  unused j := by
    have hpos := h.length_pos
    rw [Finset.mem_union, h.unused, mem_idsBetween, liveAt_resize hn, length_resize]
    constructor
    · rintro (⟨h1, h2, h3⟩ | ⟨h1, h2⟩)
      · exact ⟨h1, by omega, h3⟩
      · exact ⟨by omega, h2, not_liveAt_of_length_le (by omega)⟩
    · rintro ⟨h1, h2, h3⟩
      by_cases hj : j < objects.length
      · exact .inl ⟨h1, hj, h3⟩
      · exact .inr ⟨by omega, h2⟩

theorem Agree.dropLast (h : Agree objects unused) (hlen : 1 < objects.length) :
    Agree objects.dropLast (unused.erase objects.dropLast.length) where
  zero := by rw [List.getElem?_dropLast, if_pos (by omega)]; exact h.zero
  unused j := by
    rw [Finset.mem_erase, h.unused, length_dropLast]
    constructor
    · rintro ⟨hne, h1, h2, h3⟩
      exact ⟨h1, by omega, by rwa [liveAt_dropLast (by omega)]⟩
    · rintro ⟨h1, h2, h3⟩
      rw [liveAt_dropLast (by omega)] at h3
      exact ⟨by omega, h1, by omega, h3⟩

theorem liveAt_of_isPrefix {l' : List Buffer} (h : l <+: l') (hi : i < l.length) :
    LiveAt l i ↔ LiveAt l' i := by
  obtain ⟨t, rfl⟩ := h
  unfold LiveAt
  rw [List.getElem?_append_left hi]

/-- **The shrinking loop ends with a live last element**, and only drops elements. -/
theorem shrink_spec (h : Agree objects unused)
    (hhigh : ∀ i, 2147483648 ≤ i → i < objects.length → LiveAt objects i) :
    Agree (shrink objects unused).1 (shrink objects unused).2 ∧
      ((shrink objects unused).1.length = 1 ∨ LiveAt (shrink objects unused).1 ((shrink objects unused).1.length - 1)) ∧
      (shrink objects unused).1 <+: objects := by
  induction hn : objects.length using Nat.strong_induction_on generalizing objects unused with
  | _ n ih =>
    rw [shrink]
    split_ifs with hc
    · obtain ⟨hlen, hnull⟩ := hc
      rw [← liveAt_getLast] at hnull
      have hsmall : objects.length - 1 < 2147483648 := by
        by_contra hge
        exact hnull (hhigh _ (by omega) (by omega))
      have hcast : toInt32 objects.dropLast.length = objects.dropLast.length := by
        rw [length_dropLast]
        exact toInt32_of_mem (by omega) (by omega)
      rw [hcast]
      have hdrop : ∀ i, 2147483648 ≤ i → i < objects.dropLast.length → LiveAt objects.dropLast i := by
        intro i h1 h2
        rw [length_dropLast] at h2
        omega
      obtain ⟨h1, h2, h3⟩ := ih _ (by rw [length_dropLast]; omega) (h.dropLast hlen) hdrop rfl
      exact ⟨h1, h2, h3.trans (List.dropLast_prefix _)⟩
    · refine ⟨h, ?_, List.prefix_refl _⟩
      by_cases h1 : objects.length = 1
      · exact .inl h1
      · have hpos := h.length_pos
        refine .inr (liveAt_getLast.2 ?_)
        by_contra hnl
        exact hc ⟨by omega, hnl⟩

/-! ### The operations keep the invariant -/

theorem registryInv_new (n : ℤ) : RegistryInv (new n) ∧ SizeInv (new n) := by
  refine ⟨⟨⟨rfl, fun i => ?_⟩, .inl rfl⟩, fun i h1 h2 => ?_, ?_⟩
  · simp only [new, Finset.notMem_empty, length_singleton, false_iff]
    omega
  · simp only [new, length_singleton] at h2
    omega
  · simp [new]

/-- **`DestroyTransferBuffer` keeps the table in order**, for every `int32` handle. -/
theorem registryInv_destroyTransferBuffer (h : RegistryInv s)
    (hs : SizeInv s) {handle : ℤ} (hh : handle < 2147483648) :
    RegistryInv (s.destroyTransferBuffer handle) ∧ SizeInv (s.destroyTransferBuffer handle) := by
  unfold destroyTransferBuffer
  split_ifs with h1 h2
  · exact ⟨h, hs⟩
  · exact ⟨h, hs⟩
  · have hagree := h.agree.clear (i := handle) (by omega) (by omega)
    have hset : ∀ i, 2147483648 ≤ i → i < (s.registeredObjects.set handle.toNat .null).length →
        LiveAt (s.registeredObjects.set handle.toNat .null) i := by
      intro i hi hlt
      rw [length_set] at hlt
      rw [liveAt_set (by omega), if_neg (by omega)]
      exact hs.high i hi hlt
    obtain ⟨h3, h4, h5⟩ := shrink_spec hagree hset
    have hle := h5.length_le
    rw [length_set] at hle
    refine ⟨⟨h3, h4⟩, ⟨fun i hi hlt => ?_, by have := hs.length_le; simp only; omega⟩⟩
    rw [liveAt_of_isPrefix h5 hlt]
    exact hset i hi (by rw [length_set]; simp only at hlt; omega)

/-- What a call of `RegisterTransferBuffer` has to leave behind: a table in order,
no handle that named a live buffer before, and every live buffer in its place. -/
structure RegisterSafe (s : CommandBufferService) (mapped : Option MappedBuffer) (idRequest : ℤ) :
    Prop where
  inv : RegistryInv (s.registerTransferBuffer mapped idRequest).1
  fresh : ¬ (s.getTransferBuffer (s.registerTransferBuffer mapped idRequest).2).Live
  frame : ∀ i, LiveAt s.registeredObjects i →
    (s.registerTransferBuffer mapped idRequest).1.registeredObjects[i]? = s.registeredObjects[i]?

theorem live_getTransferBuffer {handle : ℤ} :
    (s.getTransferBuffer handle).Live ↔ 0 ≤ handle ∧ LiveAt s.registeredObjects handle.toNat := by
  unfold getTransferBuffer
  split_ifs with h1 h2
  · exact iff_of_false Buffer.not_live_null (fun h => by omega)
  · exact iff_of_false Buffer.not_live_null (fun h => not_liveAt_of_length_le h2 h.2)
  · rw [List.getD_eq_getElem?_getD]
    exact ⟨fun h => ⟨by omega, h⟩, fun h => h.2⟩

/-- `registerAnywhere` fills an unused element, or appends if there is none. -/
theorem registerAnywhere_cases (h : RegistryInv s)
    (hfull : s.unusedRegisteredObjectElements = ∅ → s.registeredObjects.length ≤ 4294967295)
    (b : MappedBuffer) {p q : Prop} :
    p ∨ (∃ (b' : MappedBuffer) (i : ℤ), 1 ≤ i ∧ i < s.registeredObjects.length ∧ ¬ LiveAt s.registeredObjects i.toNat ∧
      s.registerAnywhere b.1 = ({ s with
            registeredObjects := s.registeredObjects.set i.toNat b'
            unusedRegisteredObjectElements := s.unusedRegisteredObjectElements.erase i }, i)) ∨
    (∃ b' : MappedBuffer, s.registeredObjects.length ≤ 4294967295 ∧ s.registerAnywhere b.1 =
        ({ s with registeredObjects := s.registeredObjects ++ [b'.1] },
          toInt32 s.registeredObjects.length)) ∨ q := by
  unfold registerAnywhere
  split_ifs with hne
  · obtain ⟨h1, h2, h3⟩ := (h.agree.unused _).1 (Finset.min'_mem _ hne)
    refine .inr (.inl ⟨b, _, h1, h2, h3, rfl⟩)
  · have hempty := Finset.not_nonempty_iff_eq_empty.1 hne
    exact .inr (.inr (.inl ⟨b, hfull hempty, rfl⟩))

/-- **What a good call does**: nothing, or it fills an unused element, appends, or
pads the vector up to the requested id. -/
theorem registerTransferBuffer_cases (h : RegistryInv s) (hok : RequestOk s mapped idRequest) :
    s.registerTransferBuffer mapped idRequest = (s, -1) ∨
    (∃ (b : MappedBuffer) (i : ℤ), 1 ≤ i ∧ i < s.registeredObjects.length ∧ ¬ LiveAt s.registeredObjects i.toNat ∧
      s.registerTransferBuffer mapped idRequest = ({ s with
            registeredObjects := s.registeredObjects.set i.toNat b
            unusedRegisteredObjectElements := s.unusedRegisteredObjectElements.erase i }, i)) ∨
    (∃ b : MappedBuffer, s.registeredObjects.length ≤ 4294967295 ∧
      s.registerTransferBuffer mapped idRequest =
        ({ s with registeredObjects := s.registeredObjects ++ [b.1] }, toInt32 s.registeredObjects.length)) ∨
    (∃ b : MappedBuffer, s.registeredObjects.length ≤ idRequest ∧ idRequest ≤ 100 ∧
      s.registerTransferBuffer mapped idRequest = ({ s with
            registeredObjects :=
              (resize s.registeredObjects (idRequest + 1).toNat).set idRequest.toNat b
            unusedRegisteredObjectElements := s.unusedRegisteredObjectElements ∪
              idsBetween (s.registeredObjects.length : ℤ) idRequest }, idRequest)) := by
  unfold registerTransferBuffer
  by_cases hrej : s.rejected mapped idRequest = true
  · rw [if_pos hrej]
    exact .inl rfl
  rw [if_neg hrej]
  have hok' := hok.resolve_left hrej
  simp only [rejected, decide_eq_true_eq, not_or, not_and, gt_iff_lt, not_lt] at hrej
  cases mapped with
  | none => simp at hrej
  | some buffer =>
    obtain ⟨hfull, hid, -⟩ := hrej
    have hpos := h.agree.length_pos
    dsimp only
    by_cases hreq : idRequest = -1
    · -- no id was asked for
      rw [if_neg (by simp [hreq]), if_neg (by simp [hreq])]
      exact registerAnywhere_cases h hfull buffer
    · have hsane := hid hreq
      obtain ⟨hne, hlt⟩ := hok'.resolve_left hreq
      have hcast : toInt32 s.registeredObjects.length = s.registeredObjects.length :=
        toInt32_of_mem (by omega) (by omega)
      by_cases hpad : toInt32 s.registeredObjects.length ≤ idRequest
      · rw [if_pos ⟨hreq, hpad⟩]
        rw [hcast] at hpad ⊢
        exact .inr (.inr (.inr ⟨buffer, hpad, by omega, rfl⟩))
      · rw [if_neg (fun hc => hpad hc.2)]
        rw [hcast] at hpad
        by_cases hlive : (s.registeredObjects.getD idRequest.toNat .null).Live
        · rw [if_neg (fun hc => hc.2 hlive)]
          exact registerAnywhere_cases h hfull buffer
        · rw [if_pos ⟨hreq, hlive⟩]
          rw [List.getD_eq_getElem?_getD] at hlive
          exact .inr (.inl ⟨buffer, idRequest, by omega, by omega, hlive, rfl⟩)

theorem registerSafe_of_requestOk (h : RegistryInv s) (hs : SizeInv s) (hok : RequestOk s mapped idRequest) :
    RegisterSafe s mapped idRequest ∧ SizeInv (s.registerTransferBuffer mapped idRequest).1 := by
  have hpos := h.agree.length_pos
  rcases registerTransferBuffer_cases h hok with e | ⟨b, i, h1, h2, hnl, e⟩ | ⟨b, hle, e⟩ |
    ⟨b, hlen, hid, e⟩
  · -- the call was rejected
    refine ⟨⟨by rwa [e], ?_, fun i _ => by rw [e]⟩, by rwa [e]⟩
    rw [e, live_getTransferBuffer]
    omega
  · -- an unused element is filled
    have hset := fun j => liveAt_set (j := j) (b := b.1)
      (show i.toNat < s.registeredObjects.length by omega)
    refine ⟨⟨?_, ?_, ?_⟩, ?_⟩
    · rw [e]
      refine ⟨h.agree.fill h1 h2 b.2, ?_⟩
      simp only [length_set, hset]
      by_cases hi : s.registeredObjects.length - 1 = i.toNat
      · exact .inr (by rw [if_pos hi]; exact b.2)
      · rw [if_neg hi]
        exact h.last
    · rw [e, live_getTransferBuffer]
      exact fun hc => hnl hc.2
    · intro j hj
      rw [e]
      exact List.getElem?_set_ne (fun hij => hnl (by rwa [hij]))
    · rw [e]
      refine ⟨fun j hj hlt => ?_, by simpa using hs.length_le⟩
      simp only [length_set, hset] at hlt ⊢
      split_ifs
      · exact b.2
      · exact hs.high j hj hlt
  · -- the buffer is appended
    refine ⟨⟨?_, ?_, ?_⟩, ?_⟩
    · rw [e]
      refine ⟨h.agree.append b.2, .inr ?_⟩
      rw [liveAt_append, if_pos (by simp)]
      exact b.2
    · rw [e, live_getTransferBuffer]
      rintro ⟨h1, h2⟩
      refine not_liveAt_of_length_le ?_ h2
      unfold toInt32 at h1 ⊢
      simp only at h1 ⊢
      omega
    · intro j hj
      rw [e]
      refine List.getElem?_append_left ?_
      by_contra hc
      exact not_liveAt_of_length_le (by omega) hj
    · rw [e]
      refine ⟨fun j hj hlt => ?_, by simp only [length_append, length_singleton]; omega⟩
      rw [liveAt_append]
      split_ifs with hj'
      · exact b.2
      · simp only [length_append, length_singleton] at hlt
        exact hs.high j hj (by omega)
  · -- the vector is padded
    have hn : s.registeredObjects.length ≤ (idRequest + 1).toNat := by omega
    have hunused : s.unusedRegisteredObjectElements ∪
          idsBetween (s.registeredObjects.length : ℤ) idRequest =
        (s.unusedRegisteredObjectElements ∪
          idsBetween (s.registeredObjects.length : ℤ) (idRequest + 1).toNat).erase idRequest := by
      ext j
      simp only [Finset.mem_union, Finset.mem_erase, mem_idsBetween, h.agree.unused]
      constructor
      · rintro (⟨h1, h2, h3⟩ | h1)
        · exact ⟨by omega, .inl ⟨h1, h2, h3⟩⟩
        · exact ⟨by omega, .inr (by omega)⟩
      · rintro ⟨hne, h1 | h1⟩
        · exact .inl h1
        · exact .inr (by omega)
    have hagree := (h.agree.pad hn).fill (i := idRequest) (by omega)
      (by rw [length_resize]; omega) b.2
    rw [← hunused] at hagree
    refine ⟨⟨?_, ?_, ?_⟩, ?_⟩
    · rw [e]
      refine ⟨hagree, .inr ?_⟩
      simp only [length_set, length_resize]
      rw [liveAt_set (by rw [length_resize]; omega), if_pos (by omega)]
      exact b.2
    · rw [e, live_getTransferBuffer]
      exact fun hc => not_liveAt_of_length_le (by simp only; omega) hc.2
    · intro j hj
      have hlt : j < s.registeredObjects.length := by
        by_contra hc
        exact not_liveAt_of_length_le (by omega) hj
      rw [e]
      simp only
      rw [List.getElem?_set_ne (by omega), getElem?_resize hn hlt]
    · rw [e]
      refine ⟨fun j hj hlt => ?_, ?_⟩
      · simp only [length_set, length_resize] at hlt
        omega
      · simp only [length_set, length_resize]
        omega

theorem not_agree_set_zero
    (hlen : 0 < objects.length) (hb : b.Live) : ¬ Agree (objects.set 0 b) unused := by
  intro h
  have hz := h.zero
  rw [List.getElem?_set_self hlen] at hz
  obtain rfl : b = Buffer.null := by simpa using hz
  exact Buffer.not_live_null hb

theorem not_registryInv_of_not_requestOk (h : RegistryInv s) (hs : SizeInv s)
    (hok : ¬ RequestOk s mapped idRequest) :
    ¬ RegistryInv (s.registerTransferBuffer mapped idRequest).1 := by
  simp only [RequestOk, not_or, not_and, Bool.not_eq_true] at hok
  obtain ⟨hrej, hreq, hbad⟩ := hok
  have hpos := h.agree.length_pos
  have hle := hs.length_le
  unfold registerTransferBuffer
  rw [if_neg (by rw [hrej]; decide)]
  simp only [rejected, decide_eq_false_iff_not, not_or, not_and, gt_iff_lt, not_lt] at hrej
  obtain ⟨-, hid, hmap⟩ := hrej
  have hsane := hid hreq
  cases mapped with
  | none => simp at hmap
  | some buffer =>
    obtain ⟨b, hb⟩ := buffer
    dsimp only
    by_cases hcur : toInt32 s.registeredObjects.length ≤ idRequest
    · rw [if_pos ⟨hreq, hcur⟩]
      intro hinv
      by_cases h0 : idRequest = 0
      · -- element zero is filled
        subst h0
        exact not_agree_set_zero (by rw [length_resize]; decide) hb hinv.agree
      · -- the wrapped size is below one, and it becomes an unused element
        have hge := hbad h0
        have hmem := (hinv.agree.unused (toInt32 s.registeredObjects.length)).1 (by
          simp only [Finset.mem_union, mem_idsBetween]
          unfold toInt32 at hcur ⊢
          omega)
        have h1 := hmem.1
        unfold toInt32 at h1
        omega
    · rw [if_neg (fun hc => hcur hc.2)]
      have h0 : idRequest = 0 := by
        by_contra h0
        have := hbad h0
        unfold toInt32 at hcur
        omega
      have hzero : s.registeredObjects.getD idRequest.toNat .null = .null := by
        rw [h0, List.getD_eq_getElem?_getD]
        simp [h.agree.zero]
      rw [if_pos ⟨hreq, by rw [hzero]; exact Buffer.not_live_null⟩]
      subst h0
      exact fun hinv => not_agree_set_zero hpos hb hinv.agree

/-! ### Runs -/

inductive TransferCall
  | register (mapped : Option MappedBuffer) (idRequest : ℤ)
  | destroy (handle : ℤ)

/-- The service under any sequence of calls.  Ids and handles are `int32`. -/
def transferBuffers (numEntries : ℤ) : TransSys CommandBufferService TransferCall where
  init s := s = new numEntries
  step s l s' :=
    match l with
    | .register mapped idRequest => s' = (s.registerTransferBuffer mapped idRequest).1
    | .destroy handle => handle < 2147483648 ∧ s' = s.destroyTransferBuffer handle

/-- The call is a `DestroyTransferBuffer` or a good `RegisterTransferBuffer`. -/
def CallOk (s : CommandBufferService) : TransferCall → Prop
  | .register mapped idRequest => RequestOk s mapped idRequest
  | .destroy _ => True

/-- **In every run of good calls the table stays in order**, and a further call
keeps it in order exactly when it is good. -/
theorem transferBuffers_run {n : ℤ} {tr : List TransferCall} {s : CommandBufferService}
    (h : ((transferBuffers n).restrict CallOk).Run tr s) :
    RegistryInv s ∧ ∀ mapped idRequest,
      RegisterSafe s mapped idRequest ↔ RequestOk s mapped idRequest := by
  have hinv : RegistryInv s ∧ SizeInv s := by
    refine h.invariant (I := fun s => RegistryInv s ∧ SizeInv s) ?_ ?_
    · rintro s rfl
      exact registryInv_new n
    · rintro s l s' ⟨hr, hz⟩ ⟨hok, hst⟩
      cases l with
      | register mapped idRequest =>
        obtain rfl := hst
        have := registerSafe_of_requestOk hr hz hok
        exact ⟨this.1.inv, this.2⟩
      | destroy handle =>
        obtain ⟨hlt, rfl⟩ := hst
        exact registryInv_destroyTransferBuffer hr hz hlt
  refine ⟨hinv.1, fun mapped idRequest => ⟨fun hsafe => ?_, fun hok => ?_⟩⟩
  · by_contra hok
    exact not_registryInv_of_not_requestOk hinv.1 hinv.2 hok hsafe.inv
  · exact (registerSafe_of_requestOk hinv.1 hinv.2 hok).1

def onePage : MappedBuffer := ⟨⟨some 65536, 4096, some 1⟩, rfl⟩

/-- The run that registers one page under any id, and then under id `5`. -/
theorem transferBuffers_run_twoPages : let s := ((new 16).registerTransferBuffer onePage (-1)).1
    RegistryInv (s.registerTransferBuffer onePage 5).1 ∧ ∀ mapped idRequest,
      RegisterSafe (s.registerTransferBuffer onePage 5).1 mapped idRequest ↔
        RequestOk (s.registerTransferBuffer onePage 5).1 mapped idRequest := by
  have h1 : ((transferBuffers 16).restrict CallOk).Run [.register onePage (-1)]
      ((new 16).registerTransferBuffer onePage (-1)).1 :=
    .step (.init rfl) ⟨Or.inr (Or.inl rfl), rfl⟩
  have hok : CallOk ((new 16).registerTransferBuffer onePage (-1)).1 (.register onePage 5) :=
    Or.inr (Or.inr ⟨by decide, by decide⟩)
  exact transferBuffers_run (.step h1 ⟨hok, rfl⟩)

/-- **A request for id `0` fills element zero**, so it does not stay null. -/
theorem registerTransferBuffer_idRequest_zero : ((new 16).registerTransferBuffer onePage 0).2 = 0 ∧
      ¬ ∀ tr s, (transferBuffers 16).Run tr s → s.registeredObjects[0]? = some Buffer.null := by
  refine ⟨by decide, fun h => ?_⟩
  have hrun : (transferBuffers 16).Run [.register onePage 0]
      ((new 16).registerTransferBuffer onePage 0).1 := .step (.init rfl) rfl
  have hz := h _ _ hrun
  revert hz
  decide

end CommandBufferService

end Chromium.Gpu
