import Chromium.Gpu.Common.GLES2CmdUtils
import Chromium.Lib.MachineInt
import Chromium.Lib.Strided
import Chromium.Lib.TransSys

/-!
# The vertex attributes

`gpu/command_buffer/service/vertex_attrib_manager.cc`, and
`GLES2DecoderImpl::HandleVertexAttribPointer` of `gles2_cmd_decoder.cc`, which is the
only place that sets the parameters of an attribute.  Before a draw call
`IsDrawValid` asks `CanAccess` whether the buffer of an attribute has the element.

An attribute keeps a reference to the info of its buffer, which changes when the
buffer gets new data or is deleted, so the infos of the buffers are a map from
references.
-/

namespace Chromium.Gpu

open Lib

/-- The arguments of `SetGLError`. -/
structure GLError where
  error : GLenum
  msg : String
  deriving DecidableEq, Repr

structure BufferInfo where
  serviceId : UInt32
  size : ℤ
  deriving DecidableEq, Repr

def BufferInfo.isDeleted (b : BufferInfo) : Bool := b.serviceId = 0

structure VertexAttribInfo where
  enabled : Bool
  size : ℤ
  type : GLenum
  offset : ℤ
  normalized : UInt8
  glStride : ℤ
  realStride : ℤ
  buffer : Option ℕ
  deriving DecidableEq, Repr

namespace VertexAttribInfo

def new : VertexAttribInfo := ⟨false, 4, GL_FLOAT, 0, 0, 0, 16, none⟩

def canAccess (info : VertexAttribInfo) (buffers : ℕ → BufferInfo) (index : UInt32) : Bool :=
  if !info.enabled then true
  else
    match info.buffer with
    | none => false
    | some b =>
      if (buffers b).isDeleted then false
      else
        let bufferSize := (buffers b).size
        if bufferSize < info.offset ∨ info.realStride = 0 then false
        else
          let usableSize := uint32OfInt (bufferSize - info.offset)
          let realStride := uint32OfInt info.realStride
          let elementSize := getGLTypeSizeForTexturesAndBuffers info.type * info.size.toNat
          let numElements := usableSize / realStride + if elementSize ≤ (usableSize % realStride).toNat then 1 else 0
          index < numElements

end VertexAttribInfo

structure VertexAttribManager where
  infos : List VertexAttribInfo
  numFixedAttribs : ℤ

namespace VertexAttribManager

/-- `VertexAttribManager::Initialize`. -/
def new (maxVertexAttribs : ℕ) : VertexAttribManager := ⟨List.replicate maxVertexAttribs .new, 0⟩

def enable (m : VertexAttribManager) (index : UInt32) (enable : Bool) : VertexAttribManager × Bool :=
  match m.infos[index.toNat]? with
  | none => (m, false)
  | some info =>
    ({ m with infos := m.infos.set index.toNat { info with enabled := enable } }, true)

def setAttribInfo (m : VertexAttribManager) (index : UInt32) (buffer : Option ℕ) (size : ℤ)
    (type : GLenum) (normalized : UInt8) (glStride realStride offset : ℤ) : VertexAttribManager :=
  match m.infos[index.toNat]? with
  | none => m
  | some info =>
    let numFixedAttribs := if info.type = GL_FIXED then m.numFixedAttribs - 1 else m.numFixedAttribs
    { infos := m.infos.set index.toNat
        { info with buffer, size, type, normalized, glStride, realStride, offset }
      numFixedAttribs := if type = GL_FIXED then numFixedAttribs + 1 else numFixedAttribs }

end VertexAttribManager

structure VertexAttribPointer where
  indx : UInt32
  size : ℤ
  type : GLenum
  normalized : UInt32
  stride : ℤ
  offset : UInt32

/-- What the decoder keeps for the vertex attributes. -/
structure AttribDecoder where
  vertexAttribManager : VertexAttribManager
  boundArrayBuffer : Option ℕ
  /-- `validators_->vertex_attrib_type`. -/
  vertexAttribType : List GLenum
  /-- The infos of all buffers. -/
  buffers : ℕ → BufferInfo

/-- `validators_->vertex_attrib_size`. -/
def vertexAttribSize : List ℤ := [1, 2, 3, 4]

namespace AttribDecoder

/-- The decoder after `Initialize`. -/
def new (maxVertexAttribs : ℕ) (buffers : ℕ → BufferInfo) : AttribDecoder :=
  ⟨.new maxVertexAttribs, none, [GL_BYTE, GL_UNSIGNED_BYTE, GL_SHORT, GL_UNSIGNED_SHORT, GL_FLOAT], buffers⟩

/-- `GLES2DecoderImpl::HandleVertexAttribPointer`: the new attributes, or what it calls
`SetGLError` with. -/
def handleVertexAttribPointer (d : AttribDecoder) (c : VertexAttribPointer) :
    Except GLError VertexAttribManager :=
  if d.boundArrayBuffer.all fun b => (d.buffers b).isDeleted then
    .error ⟨GL_INVALID_VALUE, "glVertexAttribPointer: no array buffer bound"⟩
  else
    let offset := int32OfUInt32 c.offset
    if c.type ∉ d.vertexAttribType then
      .error ⟨GL_INVALID_ENUM, "glVertexAttribPointer: type GL_INVALID_ENUM"⟩
    else if c.size ∉ vertexAttribSize then
      .error ⟨GL_INVALID_VALUE, "glVertexAttribPointer: size GL_INVALID_VALUE"⟩
    else if d.vertexAttribManager.infos.length ≤ c.indx.toNat then
      .error ⟨GL_INVALID_VALUE, "glVertexAttribPointer: index out of range"⟩
    else if c.stride < 0 then
      .error ⟨GL_INVALID_VALUE, "glVertexAttribPointer: stride < 0"⟩
    else if 255 < c.stride then
      .error ⟨GL_INVALID_VALUE, "glVertexAttribPointer: stride > 255"⟩
    else if offset < 0 then
      .error ⟨GL_INVALID_VALUE, "glVertexAttribPointer: offset < 0"⟩
    else
      let componentSize : ℤ := getGLTypeSizeForTexturesAndBuffers c.type
      if 0 < offset % componentSize then
        .error ⟨GL_INVALID_OPERATION, "glVertexAttribPointer: offset not valid for type"⟩
      else if 0 < c.stride % componentSize then
        .error ⟨GL_INVALID_OPERATION, "glVertexAttribPointer: stride not valid for type"⟩
      else
        .ok (d.vertexAttribManager.setAttribInfo c.indx d.boundArrayBuffer c.size c.type
          c.normalized.toUInt8 c.stride
          (if c.stride ≠ 0 then c.stride else componentSize * c.size) offset)

end AttribDecoder

/-! ### The parameters of an attribute -/

def VertexAttribInfo.elementSize (info : VertexAttribInfo) : ℤ :=
  getGLTypeSizeForTexturesAndBuffers info.type * info.size

structure AttribOk (info : VertexAttribInfo) : Prop where
  size_pos : 0 < info.size
  offset_nonneg : 0 ≤ info.offset
  stride_pos : 0 < info.realStride
  stride_le : info.realStride ≤ 255
  element_pos : 0 < info.elementSize
  element_le : info.elementSize ≤ 16

theorem attribOk_new : AttribOk .new := by
  constructor <;> decide

def TypesOk (types : List GLenum) : Prop :=
  ∀ type ∈ types, 0 < getGLTypeSizeForTexturesAndBuffers type ∧ getGLTypeSizeForTexturesAndBuffers type ≤ 4

def VertexAttribInfo.bufferSize (info : VertexAttribInfo) (buffers : ℕ → BufferInfo) : Option ℤ :=
  match info.buffer with
  | none => none
  | some b => if (buffers b).isDeleted then none else some (buffers b).size

def ElementFits (buffers : ℕ → BufferInfo) (info : VertexAttribInfo) (index : UInt32) : Prop :=
  ∃ size, info.bufferSize buffers = some size ∧ info.offset + index.toNat * info.realStride + info.elementSize ≤ size

/-- `CanAccess` is right about the index. -/
def AccessRight (buffers : ℕ → BufferInfo) (info : VertexAttribInfo) (index : UInt32) : Prop :=
  (info.canAccess buffers index = true → ElementFits buffers info index) ∧
    ((∀ j ≤ index, ElementFits buffers info j) → info.canAccess buffers index = true)

/-- The bytes of the buffer behind the offset fit 32 bits, and the elements are no longer
than the stride, or there is less than a stride, or what they exceed the stride by
fits behind the last whole stride. -/
def StrideOk (buffers : ℕ → BufferInfo) (info : VertexAttribInfo) : Prop :=
  ∀ size, info.bufferSize buffers = some size → info.offset ≤ size → size - info.offset < 4294967296 ∧
      (info.elementSize ≤ info.realStride ∨ size - info.offset < info.realStride ∨
        info.elementSize ≤ info.realStride + (size - info.offset) % info.realStride)

/-! ### `CanAccess` in numbers -/

/-- An attribute with a live buffer, in natural numbers: `n` bytes lie behind the offset. -/
structure Layout (buffers : ℕ → BufferInfo) (info : VertexAttribInfo) (n stride len : ℕ) : Prop where
  size : info.bufferSize buffers = some (info.offset + n)
  stride_eq : info.realStride = stride
  len_eq : info.elementSize = len
  stride_pos : 0 < stride
  stride_le : stride ≤ 255
  len_pos : 0 < len
  len_le : len ≤ 16

variable {buffers : ℕ → BufferInfo} {info : VertexAttribInfo}

variable {n stride len : ℕ} {size : ℤ}

theorem AttribOk.layout (h : AttribOk info) (hsize : info.bufferSize buffers = some size)
    (hle : info.offset ≤ size) : ∃ n stride len, Layout buffers info n stride len := by
  have hs := h.stride_pos
  have hl := h.element_pos
  have hs' := h.stride_le
  have hl' := h.element_le
  refine ⟨(size - info.offset).toNat, info.realStride.toNat, info.elementSize.toNat, ?_⟩
  constructor
  · rw [hsize]
    congr 1
    omega
  all_goals omega

theorem bufferSize_eq_some (h : info.bufferSize buffers = some size) :
    ∃ b, info.buffer = some b ∧ (buffers b).isDeleted = false ∧ (buffers b).size = size := by
  unfold VertexAttribInfo.bufferSize at h
  split at h
  · cases h
  · next b hb =>
    split at h
    · cases h
    · next hd => exact ⟨b, hb, by simpa using hd, Option.some.inj h⟩

theorem canAccess_of_none (he : info.enabled = true) (h : info.bufferSize buffers = none)
    (index : UInt32) : info.canAccess buffers index = false := by
  unfold VertexAttribInfo.bufferSize at h
  rw [VertexAttribInfo.canAccess, he]
  split at h
  · simp
  · split at h
    · next hd => simp [hd]
    · cases h

theorem canAccess_of_size_lt (he : info.enabled = true)
    (hsize : info.bufferSize buffers = some size) (h : size < info.offset) (index : UInt32) :
    info.canAccess buffers index = false := by
  obtain ⟨b, hb, hd, rfl⟩ := bufferSize_eq_some hsize
  unfold VertexAttribInfo.canAccess
  simp [he, hb, hd, h]

theorem toNat_numElements (usableSize realStride : UInt32) (hs : 0 < realStride.toNat)
    (hl : 0 < len) :
    (usableSize / realStride + if len ≤ (usableSize % realStride).toNat then 1 else 0).toNat =
      stridedCount usableSize.toNat realStride.toNat len := by
  have hle := stridedCount_le (n := usableSize.toNat) hs hl
  have hlt := usableSize.toNat_lt
  rw [UInt32.toNat_add, UInt32.toNat_div, UInt32.toNat_mod]
  unfold stridedCount at hle ⊢
  split_ifs at hle ⊢ <;> exact Nat.mod_eq_of_lt (hle.trans_lt hlt)

/-- **`CanAccess` compares the index with the strided count of the truncated size.** -/
theorem Layout.canAccess_iff (h : Layout buffers info n stride len)
    (he : info.enabled = true) (hpos : 0 < info.size) (index : UInt32) :
    info.canAccess buffers index = true ↔ index.toNat < stridedCount (n % 4294967296) stride len := by
  obtain ⟨b, hb, hd, hsize⟩ := bufferSize_eq_some h.size
  have hs := h.stride_pos
  have hs' := h.stride_le
  have hle : ¬ (info.offset + (n : ℤ) < info.offset ∨ info.realStride = 0) := by
    rw [h.stride_eq]
    omega
  have hn : (uint32OfInt (info.offset + n - info.offset)).toNat = n % 4294967296 := by
    have := toNat_uint32OfInt (info.offset + n - info.offset)
    omega
  have hstride : (uint32OfInt info.realStride).toNat = stride := by
    have := toNat_uint32OfInt info.realStride
    rw [h.stride_eq] at this ⊢
    omega
  have hlen : getGLTypeSizeForTexturesAndBuffers info.type * info.size.toNat = len := by
    have heq := h.len_eq
    rw [VertexAttribInfo.elementSize, ← Int.toNat_of_nonneg hpos.le] at heq
    exact_mod_cast heq
  have hcount := toNat_numElements (uint32OfInt (info.offset + n - info.offset))
    (uint32OfInt info.realStride) (by rw [hstride]; exact hs) h.len_pos
  rw [hn, hstride] at hcount
  unfold VertexAttribInfo.canAccess
  simp only [he, hb, hd, hsize, hlen, hle, Bool.not_true, if_false, Bool.false_eq_true, decide_eq_true_eq]
  rw [UInt32.lt_iff_toNat_lt, hcount]

theorem Layout.fits_iff (h : Layout buffers info n stride len)
    (index : UInt32) : ElementFits buffers info index ↔ index.toNat * stride + len ≤ n := by
  rw [ElementFits, h.size, h.stride_eq, h.len_eq]
  constructor
  · rintro ⟨size, heq, hle⟩
    cases heq
    have : ((index.toNat * stride + len : ℕ) : ℤ) ≤ n := by
      push_cast
      omega
    exact_mod_cast this
  · intro hle
    have : ((index.toNat * stride + len : ℕ) : ℤ) ≤ n := by exact_mod_cast hle
    push_cast at this
    exact ⟨_, rfl, by omega⟩

theorem Layout.accessRight_iff (h : Layout buffers info n stride len)
    (he : info.enabled = true) (hpos : 0 < info.size) (index : UInt32) :
    AccessRight buffers info index ↔ (index.toNat < stridedCount (n % 4294967296) stride len ↔
        index.toNat * stride + len ≤ n) := by
  rw [AccessRight, h.canAccess_iff he hpos, h.fits_iff]
  refine ⟨fun ⟨h1, h2⟩ => ⟨h1, fun hfit => h2 fun j hj => ?_⟩, fun hiff => ⟨hiff.1, fun hall => ?_⟩⟩
  · rw [h.fits_iff]
    have := Nat.mul_le_mul_right stride (UInt32.le_iff_toNat_le.1 hj)
    omega
  · exact hiff.2 ((h.fits_iff index).1 (hall index (UInt32.le_refl index)))

/-- **When `CanAccess` is right about every index.** -/
theorem Layout.forall_accessRight_iff (h : Layout buffers info n stride len)
    (he : info.enabled = true) (hpos : 0 < info.size) :
    (∀ index, AccessRight buffers info index) ↔
      n < 4294967296 ∧ (len ≤ stride ∨ n < stride ∨ len ≤ stride + n % stride) := by
  have hs := h.stride_pos
  have hs' := h.stride_le
  have hl := h.len_pos
  have hl' := h.len_le
  simp only [h.accessRight_iff he hpos]
  by_cases hn : n < 4294967296
  · rw [Nat.mod_eq_of_lt hn]
    have hcount := stridedCount_le (n := n) hs hl
    have hall : (∀ index : UInt32, index.toNat < stridedCount n stride len ↔ index.toNat * stride + len ≤ n) ↔
        ∀ i, i < stridedCount n stride len ↔ i * stride + len ≤ n := by
      refine ⟨fun h i => ?_, fun h index => h _⟩
      by_cases hi : i < 4294967296
      · have := h (UInt32.ofNat i)
        rwa [UInt32.toNat_ofNat_of_lt' hi] at this
      · -- an index of more than 32 bits lies behind the last element
        have : i ≤ i * stride := Nat.le_mul_of_pos_right i hs
        omega
    rw [hall, stridedCount_right_iff hs]
    exact (and_iff_right hn).symm
  · refine iff_of_false (fun hall => ?_) fun hc => hn hc.1
    -- the truncated size hides the element behind the last one counted
    have hcount := stridedCount_le (n := n % 4294967296) hs hl
    have hmul := stridedCount_mul_le (n % 4294967296) stride len
    have := (hall (UInt32.ofNat (stridedCount (n % 4294967296) stride len))).2
    rw [UInt32.toNat_ofNat_of_lt' (by show _ < 4294967296; omega)] at this
    exact absurd (this (by omega)) (Nat.lt_irrefl _)

/-- **`CanAccess` is right about every index exactly under `StrideOk`.** -/
theorem accessRight_iff_strideOk (h : AttribOk info) (he : info.enabled = true) :
    (∀ index, AccessRight buffers info index) ↔ StrideOk buffers info := by
  cases hsize : info.bufferSize buffers with
  | none =>
    refine iff_of_true (fun index => ?_) fun size hs => ?_
    · refine ⟨fun hc => ?_, fun hall => ?_⟩
      · rw [canAccess_of_none he hsize] at hc
        cases hc
      · obtain ⟨_, hs, _⟩ := hall index (UInt32.le_refl index)
        rw [hsize] at hs
        cases hs
    · rw [hsize] at hs
      cases hs
  | some size =>
    by_cases hle : info.offset ≤ size
    · obtain ⟨n, stride, len, hlayout⟩ := h.layout hsize hle
      rw [hlayout.forall_accessRight_iff he h.size_pos]
      rw [StrideOk, hlayout.size, hlayout.stride_eq, hlayout.len_eq]
      constructor
      · rintro ⟨hn, hc⟩ size' hs _
        cases hs
        rw [add_sub_cancel_left]
        exact ⟨by omega, by exact_mod_cast hc⟩
      · intro hall
        obtain ⟨hn, hc⟩ := hall _ rfl (by omega)
        rw [add_sub_cancel_left] at hn hc
        exact ⟨by omega, by exact_mod_cast hc⟩
    · have hlt : size < info.offset := by omega
      refine iff_of_true (fun index => ?_) fun size' hs hle' => ?_
      · refine ⟨fun hc => ?_, fun hall => ?_⟩
        · rw [canAccess_of_size_lt he hsize hlt] at hc
          cases hc
        · obtain ⟨size', hs, hfit⟩ := hall index (UInt32.le_refl index)
          rw [hsize] at hs
          cases hs
          have hmul : 0 ≤ (index.toNat : ℤ) * info.realStride := Int.mul_nonneg (by omega) h.stride_pos.le
          have := h.element_pos
          omega
      · rw [hsize] at hs
        cases hs
        exact absurd hle' hle

/-! ### Runs of the decoder -/

namespace AttribDecoder

variable {d : AttribDecoder}

variable {c : VertexAttribPointer}

structure Accepted (d : AttribDecoder) (c : VertexAttribPointer) : Prop where
  type : c.type ∈ d.vertexAttribType
  size : c.size ∈ vertexAttribSize
  stride_nonneg : 0 ≤ c.stride
  stride_le : c.stride ≤ 255
  offset_nonneg : 0 ≤ int32OfUInt32 c.offset

/-- **What `HandleVertexAttribPointer` does with a command it accepts.** -/
theorem handleVertexAttribPointer_ok {m : VertexAttribManager}
    (h : d.handleVertexAttribPointer c = .ok m) :
    Accepted d c ∧ m = d.vertexAttribManager.setAttribInfo c.indx d.boundArrayBuffer c.size c.type
      c.normalized.toUInt8 c.stride
      (if c.stride ≠ 0 then c.stride
        else getGLTypeSizeForTexturesAndBuffers c.type * c.size) (int32OfUInt32 c.offset) := by
  dsimp only [handleVertexAttribPointer] at h
  generalize (if c.stride ≠ 0 then c.stride
    else getGLTypeSizeForTexturesAndBuffers c.type * c.size) = realStride at h ⊢
  split_ifs at h with _ htype hsize _ hneg hle hoff _ _
  exact ⟨⟨htype, hsize, not_lt.1 hneg, not_lt.1 hle, not_lt.1 hoff⟩, (Except.ok.inj h).symm⟩

theorem Accepted.attribOk (h : Accepted d c)
    (htypes : TypesOk d.vertexAttribType) (enabled : Bool) (buffer : Option ℕ) (normalized : UInt8) :
    AttribOk ⟨enabled, c.size, c.type, int32OfUInt32 c.offset, normalized, c.stride,
      if c.stride ≠ 0 then c.stride else getGLTypeSizeForTexturesAndBuffers c.type * c.size,
      buffer⟩ := by
  obtain ⟨hpos, hle⟩ := htypes c.type h.type
  have hneg := h.stride_nonneg
  have hmax := h.stride_le
  have hsize : c.size = 1 ∨ c.size = 2 ∨ c.size = 3 ∨ c.size = 4 := by
    simpa [vertexAttribSize] using h.size
  have helement : 0 < (getGLTypeSizeForTexturesAndBuffers c.type : ℤ) * c.size ∧
      (getGLTypeSizeForTexturesAndBuffers c.type : ℤ) * c.size ≤ 16 := by
    rcases hsize with hs | hs | hs | hs <;> rw [hs] <;> omega
  refine ⟨?_, h.offset_nonneg, ?_, ?_, helement.1, helement.2⟩
  all_goals dsimp only
  · omega
  · split_ifs <;> omega
  · split_ifs <;> omega

/-- The commands of the client, and what happens to the buffers. -/
inductive Label
  | enable (index : UInt32) (enable : Bool)
  | vertexAttribPointer (c : VertexAttribPointer)
  | bindArrayBuffer (buffer : Option ℕ)
  | setBuffer (buffer : ℕ) (info : BufferInfo)
  | supportFixedAttribs

/-- The vertex attributes under any commands, while the buffers get data and are deleted. -/
def attribDecoder (maxVertexAttribs : ℕ) : TransSys AttribDecoder Label where
  init d := ∃ buffers, d = new maxVertexAttribs buffers
  step d l d' :=
    match l with
    | .enable index enable =>
      d' = { d with vertexAttribManager := (d.vertexAttribManager.enable index enable).1 }
    | .vertexAttribPointer c =>
      match d.handleVertexAttribPointer c with
      | .ok m => d' = { d with vertexAttribManager := m }
      | .error _ => d' = d
    | .bindArrayBuffer buffer => d' = { d with boundArrayBuffer := buffer }
    | .setBuffer buffer info => d' = { d with buffers := Function.update d.buffers buffer info }
    | .supportFixedAttribs => d' = { d with vertexAttribType := d.vertexAttribType ++ [GL_FIXED] }

/-- The invariant: the parameters of every attribute are fine. -/
structure AttribsInv (d : AttribDecoder) : Prop where
  infos : ∀ info ∈ d.vertexAttribManager.infos, AttribOk info
  types : TypesOk d.vertexAttribType

theorem attribsInv_new (maxVertexAttribs : ℕ) (buffers : ℕ → BufferInfo) :
    AttribsInv (new maxVertexAttribs buffers) where
  infos info hinfo := by
    rw [List.eq_of_mem_replicate hinfo]
    exact attribOk_new
  types := by
    show ∀ type ∈ [GL_BYTE, GL_UNSIGNED_BYTE, GL_SHORT, GL_UNSIGNED_SHORT, GL_FLOAT],
      0 < getGLTypeSizeForTexturesAndBuffers type ∧ getGLTypeSizeForTexturesAndBuffers type ≤ 4
    simp only [List.forall_mem_cons, List.not_mem_nil, false_implies, implies_true, and_true]
    decide

theorem AttribsInv.enable (h : AttribsInv d) (index : UInt32) (enable : Bool) :
    AttribsInv { d with vertexAttribManager := (d.vertexAttribManager.enable index enable).1 } := by
  refine ⟨fun info hinfo => ?_, h.types⟩
  dsimp only [VertexAttribManager.enable] at hinfo
  split at hinfo
  · exact h.infos info hinfo
  · next old hold =>
    rcases List.mem_or_eq_of_mem_set hinfo with hinfo | rfl
    · exact h.infos info hinfo
    · obtain ⟨h1, h2, h3, h4, h5, h6⟩ := h.infos old (List.mem_of_getElem? hold)
      exact ⟨h1, h2, h3, h4, h5, h6⟩

theorem AttribsInv.vertexAttribPointer (h : AttribsInv d)
    {m : VertexAttribManager} (hc : d.handleVertexAttribPointer c = .ok m) :
    AttribsInv { d with vertexAttribManager := m } := by
  obtain ⟨haccepted, rfl⟩ := handleVertexAttribPointer_ok hc
  refine ⟨fun info hinfo => ?_, h.types⟩
  dsimp only [VertexAttribManager.setAttribInfo] at hinfo
  split at hinfo
  · exact h.infos info hinfo
  · rcases List.mem_or_eq_of_mem_set hinfo with hinfo | rfl
    · exact h.infos info hinfo
    · exact haccepted.attribOk h.types _ _ _

theorem attribsInv_run {maxVertexAttribs : ℕ} {tr : List Label}
    (h : (attribDecoder maxVertexAttribs).Run tr d) : AttribsInv d := by
  refine h.invariant (I := AttribsInv) ?_ fun d l d' hi hst => ?_
  · rintro d ⟨buffers, rfl⟩
    exact attribsInv_new maxVertexAttribs buffers
  · cases l with
    | enable index enable =>
      obtain rfl := hst
      exact hi.enable index enable
    | vertexAttribPointer c =>
      dsimp only [attribDecoder] at hst
      split at hst
      · next m hm =>
        subst hst
        exact hi.vertexAttribPointer hm
      · subst hst
        exact hi
    | bindArrayBuffer buffer | setBuffer buffer info =>
      obtain rfl := hst
      exact ⟨hi.infos, hi.types⟩
    | supportFixedAttribs =>
      obtain rfl := hst
      refine ⟨hi.infos, fun type htype => ?_⟩
      rcases List.mem_append.1 htype with htype | htype
      · exact hi.types type htype
      · rw [List.mem_singleton.1 htype]
        decide

/-- **`CanAccess`.**  In every run it is right about every index of an enabled attribute
exactly under `StrideOk`. -/
theorem canAccess_run {maxVertexAttribs : ℕ} {tr : List Label}
    (h : (attribDecoder maxVertexAttribs).Run tr d) {info : VertexAttribInfo}
    (hinfo : info ∈ d.vertexAttribManager.infos) (he : info.enabled = true) :
    (∀ index, AccessRight d.buffers info index) ↔ StrideOk d.buffers info :=
  accessRight_iff_strideOk ((attribsInv_run h).infos info hinfo) he

def sixteenInfo (enabled : Bool) (stride : ℤ) : VertexAttribInfo :=
  ⟨enabled, 4, GL_FLOAT, 0, 0, stride, if stride ≠ 0 then stride else 16, some 0⟩

/-- The decoder with that attribute over a buffer of `16` bytes. -/
def sixteenBytes (enabled : Bool) (stride : ℤ) : AttribDecoder where
  vertexAttribManager := ⟨[sixteenInfo enabled stride], 0⟩
  boundArrayBuffer := some 0
  vertexAttribType := [GL_BYTE, GL_UNSIGNED_BYTE, GL_SHORT, GL_UNSIGNED_SHORT, GL_FLOAT]
  buffers _ := ⟨1, 16⟩

theorem run_sixteenBytes {stride : ℤ} (h : stride = 0 ∨ stride = 4) :
    (attribDecoder 1).Run [.bindArrayBuffer (some 0),
      .vertexAttribPointer ⟨0, 4, GL_FLOAT, 0, stride, 0⟩, .enable 0 true]
      (sixteenBytes true stride) := by
  have h0 : (attribDecoder 1).Run [] (new 1 fun _ => ⟨1, 16⟩) := .init ⟨_, rfl⟩
  have h1 := h0.step (l := Label.bindArrayBuffer (some 0)) rfl
  have h2 : (attribDecoder 1).Run [.bindArrayBuffer (some 0),
      .vertexAttribPointer ⟨0, 4, GL_FLOAT, 0, stride, 0⟩] (sixteenBytes false stride) :=
    h1.step (l := Label.vertexAttribPointer ⟨0, 4, GL_FLOAT, 0, stride, 0⟩)
      (by rcases h with rfl | rfl <;> rfl)
  exact h2.step (l := Label.enable 0 true) rfl

theorem canAccess_run_tight : AccessRight (sixteenBytes true 0).buffers (sixteenInfo true 0) 1 := by
  refine (canAccess_run (run_sixteenBytes (Or.inl rfl)) List.mem_cons_self rfl).mpr ?_ 1
  intro size hsize _
  obtain rfl : (16 : ℤ) = size := Option.some.inj hsize
  exact ⟨by decide, Or.inl (by decide)⟩

/-- **With a stride of four bytes element `3` of four floats is not in the buffer.** -/
theorem canAccess_stride_four :
    ¬ ∀ (tr : List Label) (d : AttribDecoder), (attribDecoder 1).Run tr d →
      ∀ info ∈ d.vertexAttribManager.infos, info.enabled = true →
        ∀ index, AccessRight d.buffers info index := by
  intro h
  have hright := h _ _ (run_sixteenBytes (Or.inr rfl)) (sixteenInfo true 4) List.mem_cons_self rfl 3
  obtain ⟨size, hsize, hfit⟩ := hright.1 (by decide +kernel)
  obtain rfl : (16 : ℤ) = size := Option.some.inj hsize
  exact absurd hfit (by decide)

end AttribDecoder

end Chromium.Gpu
