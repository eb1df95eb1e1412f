import Chromium.Gpu.Service.BufferManager
import Chromium.Gpu.Service.VertexAttribManager

/-!
# The simulation of fixed point attributes

`GLES2DecoderImpl::SimulateFixedAttribs` of `gpu/command_buffer/service/gles2_cmd_decoder.cc`.  A driver that is
not an OpenGL ES one has no attributes of the type `GL_FIXED`.  Before a draw call the vertices of each enabled
one are converted to floats, into one buffer for all of them.

A first loop over the enabled attributes computes the size of that buffer and a second one fills it.  What it
reads is the copy of the attribute's own buffer (`BufferManager.BufferInfo`), which is not there for every buffer,
and it reads it from the offset on as if the vertices stood next to each other.
-/

namespace Chromium.Gpu

open Lib
open List (length_map mem_cons mem_cons_of_mem mem_cons_self)
open Option (bind_eq_bind bind_eq_some_iff bind_some)

def GL_NO_ERROR : GLenum := 0
def GL_OUT_OF_MEMORY : GLenum := 0x0505

/-! ### The numbers -/

/-- The number of 24 bits that is nearest to `n`, and on a tie the even one. -/
def roundTo24Bits (n : ℕ) : ℕ :=
  let unit := 2 ^ (Nat.log2 n + 1 - 24)
  let quot := n / unit
  (if unit < 2 * (n % unit) ∨ (unit = 2 * (n % unit) ∧ quot % 2 = 1) then quot + 1 else quot) * unit

/-- `static_cast<float>(x) / 65536.0f`. -/
def fixedToFloat (x : ℤ) : ℚ := (x.sign * roundTo24Bits x.natAbs : ℤ) / 65536

/-- The `int32` at a position, when it is within the bytes. -/
def int32At (bytes : List UInt8) (position : ℕ) : Option ℤ :=
  if position + 4 ≤ bytes.length then some (toInt32 (leNat ((bytes.drop position).take 4))) else none

/-- The loop of the conversion, `n` numbers from a position on.  There is no result when it reads past the end of
the copy. -/
def convert (src : List UInt8) : ℕ → ℕ → Option (List ℚ)
  | 0, _ => some []
  | n + 1, position => do
    let x ← int32At src position
    let rest ← convert src n (position + 4)
    some (fixedToFloat x :: rest)

/-! ### The function -/

/-- What `SimulateFixedAttribs` reads. -/
structure FixedDraw where
  vertexAttribManager : VertexAttribManager
  /-- `GetEnabledVertexAttribInfos`, by their indices. -/
  enabledVertexAttribs : List ℕ
  buffers : ℕ → BufferManager.BufferInfo
  /-- `current_program_->GetAttribInfoByLocation` finds an attribute. -/
  attribInfoByLocation : ℕ → Bool
  /-- `gfx::GetGLImplementation()` is `kGLImplementationEGLGLES2`. -/
  eglGLES2 : Bool
  fixedAttribBufferSize : ℤ
  /-- What `glGetError` returns after `glBufferData`. -/
  bufferDataError : GLenum

/-- The calls of `glBufferSubData` and `glVertexAttribPointer` for an attribute.  A float that was not written is
`none`. -/
structure FixedUpload where
  index : ℕ
  size : ℤ
  offset : ℤ
  bytes : ℤ
  data : List (Option ℚ)

/-- How `SimulateFixedAttribs` ends; `undefined` when it reads through a pointer that is not within the copy of a
buffer. -/
inductive Simulation
  | notSimulated
  | error (e : GLError)
  | undefined
  | simulated (sizeNeeded : UInt32) (uploads : List FixedUpload)

namespace FixedDraw

/-- `vertex_attrib_infos_[index]`. -/
def info (s : FixedDraw) (index : ℕ) : VertexAttribInfo := s.vertexAttribManager.infos.getD index .new

def bufferInfos (s : FixedDraw) (b : ℕ) : BufferInfo := ⟨(s.buffers b).serviceId, (s.buffers b).size⟩

def isFixedAttrib (s : FixedDraw) (maxVertexAccessed : UInt32) (index : ℕ) : Bool :=
  s.attribInfoByLocation index && (s.info index).canAccess s.bufferInfos maxVertexAccessed &&
    (s.info index).type == GL_FIXED

def elementsNeeded (s : FixedDraw) (maxVertexAccessed numVertices : UInt32) : List ℕ → UInt32 → Option UInt32
  | [], elements => some elements
  | index :: infos, elements =>
    if s.isFixedAttrib maxVertexAccessed index then do
      let elementsUsed ← safeMultiplyUint32 numVertices (uint32OfInt (s.info index).size)
      let elements ← safeAddUint32 elements elementsUsed
      s.elementsNeeded maxVertexAccessed numVertices infos elements
    else s.elementsNeeded maxVertexAccessed numVertices infos elements

def copyAttrib (limit : ℤ) (s : FixedDraw) (numVertices : UInt32) (index : ℕ) (offset : ℤ) : Option FixedUpload := do
  let info := s.info index
  let numElements := info.size * 4
  let size := int32OfUInt32 (uint32OfInt numElements * numVertices)
  let buffer ← info.buffer
  let src ← (s.buffers buffer).getRange limit info.offset size
  let floats ← convert src numElements.toNat 0
  let data := floats.map some ++ List.replicate (size.toNat - floats.length) none
  some ⟨index, info.size, offset, size, data.take (size.toNat / 4)⟩

def copyAttribs (limit : ℤ) (s : FixedDraw) (maxVertexAccessed numVertices : UInt32) :
    List ℕ → ℤ → Option (List FixedUpload)
  | [], _ => some []
  | index :: infos, offset =>
    if s.isFixedAttrib maxVertexAccessed index then do
      let upload ← s.copyAttrib limit numVertices index offset
      let uploads ← s.copyAttribs limit maxVertexAccessed numVertices infos (offset + upload.bytes)
      some (upload :: uploads)
    else s.copyAttribs limit maxVertexAccessed numVertices infos offset

def simulateFixedAttribs (limit : ℤ) (s : FixedDraw) (maxVertexAccessed : UInt32) : Simulation :=
  if s.eglGLES2 then .notSimulated
  else if s.vertexAttribManager.numFixedAttribs = 0 then .notSimulated
  else
    let numVertices := maxVertexAccessed + 1
    if numVertices = 0 then .error ⟨GL_OUT_OF_MEMORY, "glDrawXXX: Simulating attrib 0"⟩
    else
      match s.elementsNeeded maxVertexAccessed numVertices s.enabledVertexAttribs 0 with
      | none => .error ⟨GL_OUT_OF_MEMORY, "glDrawXXX: simulating GL_FIXED attribs"⟩
      | some elementsNeeded =>
        match safeMultiplyUint32 elementsNeeded 4 with
        | none => .error ⟨GL_OUT_OF_MEMORY, "glDrawXXX: simulating GL_FIXED attribs"⟩
        | some sizeNeeded =>
          if 0x7FFFFFFF < sizeNeeded then
            .error ⟨GL_OUT_OF_MEMORY, "glDrawXXX: simulating GL_FIXED attribs"⟩
          else if s.fixedAttribBufferSize < int32OfUInt32 sizeNeeded ∧ s.bufferDataError ≠ GL_NO_ERROR then
            .error ⟨GL_OUT_OF_MEMORY, "glDrawXXX: simulating GL_FIXED attribs"⟩
          else
            match s.copyAttribs limit maxVertexAccessed numVertices s.enabledVertexAttribs 0 with
            | none => .undefined
            | some uploads => .simulated sizeNeeded uploads

end FixedDraw

/-! ### The attributes that are enabled -/

/-- The attributes of the decoder, with the list of those that are enabled. -/
structure ListedDecoder where
  decoder : AttribDecoder
  enabledVertexAttribs : List ℕ

/-- `VertexAttribManager::Enable` and `VertexAttribInfo::SetList`: an attribute is moved to the end of its new
list. -/
def setList (m : VertexAttribManager) (index : UInt32) (enable : Bool) (enabled : List ℕ) : List ℕ :=
  match m.infos[index.toNat]? with
  | none => enabled
  | some info =>
    if info.enabled ≠ enable then
      if enable then enabled ++ [index.toNat] else enabled.erase index.toNat
    else enabled

def listedDecoder (maxVertexAttribs : ℕ) : TransSys ListedDecoder AttribDecoder.Label where
  init s := (AttribDecoder.attribDecoder maxVertexAttribs).init s.decoder ∧ s.enabledVertexAttribs = []
  step s l s' :=
    (AttribDecoder.attribDecoder maxVertexAttribs).step s.decoder l s'.decoder ∧
      s'.enabledVertexAttribs = match l with
        | .enable index enable =>
          setList s.decoder.vertexAttribManager index enable s.enabledVertexAttribs
        | _ => s.enabledVertexAttribs

theorem attribDecoder_run {maxVertexAttribs : ℕ} {tr : List AttribDecoder.Label} {s : ListedDecoder}
    (h : (listedDecoder maxVertexAttribs).Run tr s) :
    (AttribDecoder.attribDecoder maxVertexAttribs).Run tr s.decoder := by
  induction h with
  | init h => exact .init h.1
  | step _ hst ih => exact ih.step hst.1

def Enabled (m : VertexAttribManager) (index : ℕ) : Prop :=
  ∃ info, m.infos[index]? = some info ∧ info.enabled = true

structure ListsRight (m : VertexAttribManager) (enabled : List ℕ) : Prop where
  nodup : enabled.Nodup
  mem_iff : ∀ index, index ∈ enabled ↔ Enabled m index
  numFixedAttribs : m.numFixedAttribs = m.infos.countP fun info => info.type == GL_FIXED

theorem listsRight_new (maxVertexAttribs : ℕ) : ListsRight (.new maxVertexAttribs) [] := by
  refine ⟨List.nodup_nil, fun index => ⟨nofun, ?_⟩, ?_⟩
  · rintro ⟨info, hinfo, henabled⟩
    rw [List.eq_of_mem_replicate (List.mem_of_getElem? hinfo)] at henabled
    cases henabled
  · have hnone : (VertexAttribManager.new maxVertexAttribs).infos.countP (fun info => info.type == GL_FIXED) = 0 := by
      rw [List.countP_eq_zero]
      intro info hinfo
      rw [List.eq_of_mem_replicate hinfo]
      decide
    rw [hnone]
    rfl

theorem isFixed_le_countP {infos : List VertexAttribInfo} {i : ℕ} {info : VertexAttribInfo}
    (hinfo : infos[i]? = some info) :
    (if (info.type == GL_FIXED) = true then 1 else 0) ≤ infos.countP fun info => info.type == GL_FIXED := by
  split_ifs with hfixed
  · exact List.countP_pos_iff.2 ⟨info, List.mem_of_getElem? hinfo, hfixed⟩
  · exact Nat.zero_le _

theorem ListsRight.enable {m : VertexAttribManager} {enabled : List ℕ} (h : ListsRight m enabled) (index : UInt32)
    (enable : Bool) : ListsRight (m.enable index enable).1 (setList m index enable enabled) := by
  unfold VertexAttribManager.enable setList
  cases hinfo : m.infos[index.toNat]? with
  | none => exact h
  | some info =>
    dsimp only
    obtain ⟨hlt, hget⟩ := List.getElem?_eq_some_iff.1 hinfo
    have henabled (i : ℕ) : Enabled { m with infos := m.infos.set index.toNat { info with enabled := enable } } i ↔
        if i = index.toNat then enable = true else Enabled m i := by
      dsimp only [Enabled]
      split_ifs with hi
      · rw [hi, List.getElem?_set_self hlt]
        simp
      · rw [List.getElem?_set_ne (Ne.symm hi)]
    have hmem : index.toNat ∈ enabled ↔ info.enabled = true := by
      rw [h.mem_iff]
      rw [Enabled, hinfo]
      simp
    have hcount : m.numFixedAttribs =
        (m.infos.set index.toNat { info with enabled := enable }).countP fun info => info.type == GL_FIXED := by
      rw [h.numFixedAttribs, List.countP_set hlt, hget]
      dsimp only
      rw [Nat.sub_add_cancel (isFixed_le_countP hinfo)]
    by_cases hchanged : info.enabled = enable
    · rw [if_neg (not_not.2 hchanged)]
      refine ⟨h.nodup, fun i => ?_, hcount⟩
      rw [henabled]
      split_ifs with hi
      · rw [hi, hmem, hchanged]
      · exact h.mem_iff i
    · rw [if_pos hchanged]
      cases enable with
      | true =>
        have hnot : index.toNat ∉ enabled := fun h => hchanged (hmem.1 h)
        refine ⟨?_, fun i => ?_, hcount⟩
        · rw [if_pos rfl, List.nodup_append]
          refine ⟨h.nodup, List.nodup_singleton _, fun i hi j hj => ?_⟩
          rw [List.mem_singleton.1 hj]
          exact fun heq => hnot (heq ▸ hi)
        · rw [henabled, if_pos rfl, List.mem_append, List.mem_singleton, h.mem_iff]
          split_ifs with hi
          · exact ⟨fun _ => rfl, fun _ => .inr hi⟩
          · exact ⟨fun hor => hor.resolve_right hi, .inl⟩
      | false =>
        refine ⟨?_, fun i => ?_, hcount⟩
        · rw [if_neg Bool.false_ne_true]
          exact h.nodup.erase _
        · rw [henabled, if_neg Bool.false_ne_true, h.nodup.mem_erase_iff, h.mem_iff]
          split_ifs with hi
          · exact ⟨fun hand => absurd hi hand.1, fun hfalse => hfalse.elim⟩
          · exact ⟨fun hand => hand.2, fun hi' => ⟨hi, hi'⟩⟩

theorem ListsRight.setAttribInfo {m : VertexAttribManager} {enabled : List ℕ} (h : ListsRight m enabled)
    (index : UInt32) (buffer : Option ℕ) (size : ℤ) (type : GLenum) (normalized : UInt8)
    (glStride realStride offset : ℤ) :
    ListsRight (m.setAttribInfo index buffer size type normalized glStride realStride offset) enabled := by
  unfold VertexAttribManager.setAttribInfo
  cases hinfo : m.infos[index.toNat]? with
  | none => exact h
  | some info =>
    dsimp only
    obtain ⟨hlt, hget⟩ := List.getElem?_eq_some_iff.1 hinfo
    refine ⟨h.nodup, fun i => ?_, ?_⟩
    · rw [h.mem_iff]
      dsimp only [Enabled]
      by_cases hi : i = index.toNat
      · rw [hi, List.getElem?_set_self hlt, hinfo]
        simp
      · rw [List.getElem?_set_ne (Ne.symm hi)]
    · have hpos := isFixed_le_countP hinfo
      have hcount := h.numFixedAttribs
      rw [List.countP_set hlt, hget]
      simp only [beq_iff_eq] at hpos hcount ⊢
      split_ifs at hpos ⊢ <;> omega

theorem listsRight_run {maxVertexAttribs : ℕ} {tr : List AttribDecoder.Label} {s : ListedDecoder}
    (h : (listedDecoder maxVertexAttribs).Run tr s) :
    ListsRight s.decoder.vertexAttribManager s.enabledVertexAttribs := by
  refine h.invariant (I := fun s => ListsRight s.decoder.vertexAttribManager s.enabledVertexAttribs) ?_ ?_
  · rintro ⟨decoder, enabled⟩ ⟨⟨buffers, hdecoder⟩, henabled⟩
    dsimp only at hdecoder henabled ⊢
    subst hdecoder henabled
    exact listsRight_new maxVertexAttribs
  · rintro ⟨decoder, enabled⟩ l ⟨decoder', enabled'⟩ hi ⟨hst, henabled⟩
    dsimp only at hi hst henabled ⊢
    subst henabled
    cases l with
    | enable index enable =>
      obtain rfl := hst
      exact hi.enable index enable
    | vertexAttribPointer c =>
      dsimp only [AttribDecoder.attribDecoder] at hst
      split at hst
      · next m hm =>
        subst hst
        obtain ⟨_, rfl⟩ := AttribDecoder.handleVertexAttribPointer_ok hm
        exact hi.setAttribInfo _ _ _ _ _ _ _ _
      · subst hst
        exact hi
    | bindArrayBuffer buffer | setBuffer buffer info | supportFixedAttribs =>
      obtain rfl := hst
      exact hi

namespace FixedDraw

/-! ### When it is right -/

variable {limit : ℤ} {s : FixedDraw} {m : UInt32} {index : ℕ}

/-- The state is one that the commands of a client lead to. -/
structure Reached (limit : ℤ) (s : FixedDraw) : Prop where
  limit_le : 2147483648 ≤ limit
  decoder : ∃ maxVertexAttribs tr d, (listedDecoder maxVertexAttribs).Run tr d ∧
    d.decoder.vertexAttribManager = s.vertexAttribManager ∧ d.enabledVertexAttribs = s.enabledVertexAttribs
  buffers : ∀ b, (s.buffers b).serviceId ≠ 0 →
    ∃ tr, (BufferManager.bufferInfo limit (s.buffers b).serviceId).Run tr (s.buffers b)

/-- An enabled attribute of the type `GL_FIXED` that the program uses and whose buffer has the vertex. -/
structure IsFixed (s : FixedDraw) (m : UInt32) (index : ℕ) : Prop where
  enabled : Enabled s.vertexAttribManager index
  fixed : s.isFixedAttrib m index = true

def numComponents (s : FixedDraw) (index : ℕ) : ℕ := (s.info index).size.toNat

/-- The component `c` of the vertex `v` of an attribute. -/
def component (s : FixedDraw) (index v c : ℕ) : Option ℤ := do
  let b ← (s.info index).buffer
  int32At (s.buffers b).shadow ((s.info index).offset + v * (s.info index).realStride + 4 * c).toNat

/-- What is claimed of the calls: they hold the vertices of every attribute, and their regions do not overlap and
lie within the buffer. -/
structure Converted (s : FixedDraw) (m sizeNeeded : UInt32) (uploads : List FixedUpload) : Prop where
  values : ∀ index, IsFixed s m index → ∃ u ∈ uploads, u.index = index ∧
    ∀ v ≤ m.toNat, ∀ c < s.numComponents index, ∃ x, s.component index v c = some x ∧
      u.data[v * s.numComponents index + c]? = some (some (fixedToFloat x))
  disjoint : uploads.Pairwise fun u u' => u.offset + u.bytes ≤ u'.offset
  within : ∀ u ∈ uploads, 0 ≤ u.offset ∧ u.offset + u.bytes ≤ sizeNeeded.toNat

def Right (s : FixedDraw) (m : UInt32) : Simulation → Prop
  | .notSimulated => s.eglGLES2 = true ∨ ∀ index, ¬ IsFixed s m index
  | .error _ => True
  | .undefined => False
  | .simulated sizeNeeded uploads => Converted s m sizeNeeded uploads

def totalComponents (s : FixedDraw) (m : UInt32) (infos : List ℕ) : ℕ :=
  ((infos.filter (s.isFixedAttrib m)).map s.numComponents).sum

/-- No test before the loop that copies fails. -/
structure Reaches (s : FixedDraw) (m : UInt32) : Prop where
  not_eglGLES2 : s.eglGLES2 = false
  vertices : m.toNat + 1 < 4294967296
  size : 4 * ((m.toNat + 1) * s.totalComponents m s.enabledVertexAttribs) ≤ 0x7FFFFFFF
  bufferData : ((4 * ((m.toNat + 1) * s.totalComponents m s.enabledVertexAttribs) : ℕ) : ℤ) ≤ s.fixedAttribBufferSize ∨
    s.bufferDataError = GL_NO_ERROR

/-- There are at most four vertices and they stand where the loop reads them, in the copy of a buffer that has one
and that goes on for four vertices. -/
structure Packed (s : FixedDraw) (m : UInt32) (index : ℕ) : Prop where
  vertices : m.toNat < 4
  copy : ∃ b, (s.info index).buffer = some b ∧ (s.buffers b).shadowed = true ∧
    (s.info index).offset + 16 * s.numComponents index ≤ (s.buffers b).size ∧
    ∀ v ≤ m.toNat, ∀ c < s.numComponents index, ∃ x, s.component index v c = some x ∧
      (int32At (s.buffers b).shadow
        ((s.info index).offset.toNat + 4 * (v * s.numComponents index + c))).map fixedToFloat = some (fixedToFloat x)

/-! ### An attribute -/

/-- What the tests of the decoder and the calls on its buffer make sure of. -/
structure AttribReady (limit : ℤ) (s : FixedDraw) (index b : ℕ) : Prop where
  size_pos : 1 ≤ s.numComponents index
  size_le : s.numComponents index ≤ 4
  size_eq : (s.info index).size = s.numComponents index
  offset_nonneg : 0 ≤ (s.info index).offset
  offset_le : (s.info index).offset ≤ (s.buffers b).size
  buffer : (s.info index).buffer = some b
  size_lt : (s.buffers b).size < limit
  length_eq : (s.buffers b).shadowed = true → ((s.buffers b).shadow.length : ℤ) = (s.buffers b).size

theorem info_of_enabled (h : Enabled s.vertexAttribManager index) :
    s.info index ∈ s.vertexAttribManager.infos ∧ (s.info index).enabled = true := by
  obtain ⟨info, hinfo, henabled⟩ := h
  have heq : s.info index = info := by
    rw [FixedDraw.info, List.getD_eq_getElem?_getD, hinfo, Option.getD_some]
  rw [heq]
  exact ⟨List.mem_of_getElem? hinfo, henabled⟩

theorem Reached.attribReady (h : Reached limit s) (hindex : IsFixed s m index) : ∃ b, AttribReady limit s index b := by
  obtain ⟨maxVertexAttribs, tr, d, hrun, hmanager, _⟩ := h.decoder
  obtain ⟨hmem, henabled⟩ := info_of_enabled hindex.enabled
  rw [← hmanager] at hmem
  have hok := (AttribDecoder.attribsInv_run (attribDecoder_run hrun)).infos _ hmem
  have hfixed := hindex.fixed
  unfold isFixedAttrib at hfixed
  simp only [Bool.and_eq_true, beq_iff_eq] at hfixed
  obtain ⟨⟨_, hcan⟩, htype⟩ := hfixed
  have helement : (s.info index).elementSize = 4 * (s.info index).size := by
    rw [VertexAttribInfo.elementSize, htype]
    rfl
  have hpos := hok.size_pos
  have hle := hok.element_le
  rw [VertexAttribInfo.canAccess, if_neg (by simp [henabled])] at hcan
  cases hbuffer : (s.info index).buffer with
  | none =>
    rw [hbuffer] at hcan
    cases hcan
  | some b =>
    rw [hbuffer] at hcan
    dsimp only at hcan
    by_cases hdeleted : (s.bufferInfos b).isDeleted = true
    · rw [if_pos hdeleted] at hcan
      cases hcan
    rw [if_neg hdeleted] at hcan
    by_cases hout : (s.bufferInfos b).size < (s.info index).offset ∨ (s.info index).realStride = 0
    · rw [if_pos hout] at hcan
      cases hcan
    have hlive : (s.buffers b).serviceId ≠ 0 := by
      intro hzero
      refine hdeleted ?_
      unfold BufferInfo.isDeleted bufferInfos
      rw [hzero]
      rfl
    obtain ⟨trb, hrunb⟩ := h.buffers b hlive
    obtain ⟨hrefines, hlt⟩ := BufferManager.refines_run (by have := h.limit_le; omega) hrunb
    refine ⟨b, ?_, ?_, ?_, hok.offset_nonneg, ?_, hbuffer, hlt, fun hshadowed => ?_⟩
    · unfold numComponents
      omega
    · unfold numComponents
      omega
    · unfold numComponents
      omega
    · have hnot := (not_or.1 hout).1
      exact not_lt.1 hnot
    · rw [(hrefines.copy hshadowed).length_eq, hrefines.size_eq]

theorem convert_eq_some {src : List UInt8} {n position : ℕ} {floats : List ℚ}
    (h : convert src n position = some floats) :
    floats.length = n ∧ (n ≠ 0 → position + 4 * n ≤ src.length) ∧
      ∀ i < n, floats[i]? = (int32At src (position + 4 * i)).map fixedToFloat := by
  induction n generalizing position floats with
  | zero =>
    cases h
    exact ⟨rfl, fun hne => absurd rfl hne, fun i hi => absurd hi (Nat.not_lt_zero i)⟩
  | succ n ih =>
    obtain ⟨x, hx, h⟩ := bind_eq_some_iff.1 h
    obtain ⟨rest, hrest, h⟩ := bind_eq_some_iff.1 h
    cases h
    obtain ⟨hlength, hfits, hget⟩ := ih hrest
    have hfirst : position + 4 ≤ src.length := by
      by_contra hnot
      rw [int32At, if_neg hnot] at hx
      cases hx
    refine ⟨congrArg (· + 1) hlength, fun _ => ?_, fun i hi => ?_⟩
    · cases n with
      | zero => exact hfirst
      | succ n =>
        have hle := hfits n.succ_ne_zero
        omega
    · cases i with
      | zero =>
        rw [Nat.mul_zero, Nat.add_zero, hx]
        rfl
      | succ i =>
        rw [List.getElem?_cons_succ, hget i (Nat.lt_of_succ_lt_succ hi), Nat.mul_succ, ← Nat.add_assoc,
          Nat.add_right_comm]

theorem exists_convert {src : List UInt8} {n position : ℕ} (h : position + 4 * n ≤ src.length) :
    ∃ floats, convert src n position = some floats := by
  induction n generalizing position with
  | zero => exact ⟨[], rfl⟩
  | succ n ih =>
    obtain ⟨rest, hrest⟩ := @ih (position + 4) (by omega)
    have hx : int32At src position = some (toInt32 (leNat ((src.drop position).take 4))) := if_pos (by omega)
    rw [convert, hx, hrest]
    exact ⟨_, rfl⟩

/-- The loop that converts an attribute stays in the copy of its buffer. -/
structure CopyOk (s : FixedDraw) (n index b : ℕ) : Prop where
  shadowed : (s.buffers b).shadowed = true
  range_le : (s.info index).offset + 4 * (s.numComponents index * n) ≤ (s.buffers b).size
  loop_le : (s.info index).offset + 16 * s.numComponents index ≤ (s.buffers b).size

/-- What is handed on for an attribute: its first four vertices as they stand next to each other. -/
structure IsUpload (s : FixedDraw) (n index b : ℕ) (offset : ℤ) (u : FixedUpload) : Prop where
  index_eq : u.index = index
  offset_eq : u.offset = offset
  bytes_eq : u.bytes = 4 * (s.numComponents index * n)
  data : ∀ i < s.numComponents index * n, u.data[i]? = some (if i < 4 * s.numComponents index then
      (int32At (s.buffers b).shadow ((s.info index).offset.toNat + 4 * i)).map fixedToFloat
    else none)

theorem int32At_drop (bytes : List UInt8) (n position : ℕ) (h : n ≤ bytes.length) :
    int32At (bytes.drop n) position = int32At bytes (n + position) := by
  rw [int32At, List.length_drop, List.drop_drop]
  refine if_congr ?_ rfl rfl
  omega

theorem size_eq {numVertices : UInt32} {b : ℕ} (h : AttribReady limit s index b)
    (hle : 4 * (s.numComponents index * numVertices.toNat) ≤ 0x7FFFFFFF) :
    int32OfUInt32 (uint32OfInt ((s.info index).size * 4) * numVertices) =
      4 * (s.numComponents index * numVertices.toNat) := by
  have hcomponents : (uint32OfInt ((s.info index).size * 4)).toNat = 4 * s.numComponents index := by
    have htoNat := toNat_uint32OfInt ((s.info index).size * 4)
    have hsize := h.size_eq
    have hsmall := h.size_le
    omega
  have hproduct : (uint32OfInt ((s.info index).size * 4) * numVertices).toNat =
      4 * (s.numComponents index * numVertices.toNat) := by
    rw [UInt32.toNat_mul, hcomponents, Nat.mul_assoc, Nat.mod_eq_of_lt (by omega)]
  rw [int32OfUInt32_of_lt (by omega), hproduct, Nat.cast_mul, Nat.cast_mul]
  rfl

/-- **A turn of the loop that copies** has a result when it stays in the copy of the buffer. -/
theorem copyAttrib_spec {numVertices : UInt32} {b : ℕ} (hlimit : 2147483648 ≤ limit) (h : AttribReady limit s index b)
    (hle : 4 * (s.numComponents index * numVertices.toNat) ≤ 0x7FFFFFFF) (offset : ℤ) :
    (CopyOk s numVertices.toNat index b → ∃ u, s.copyAttrib limit numVertices index offset = some u) ∧
      ∀ u, s.copyAttrib limit numVertices index offset = some u →
        CopyOk s numVertices.toNat index b ∧ IsUpload s numVertices.toNat index b offset u := by
  have hnonneg := h.offset_nonneg
  have hoffset := h.offset_le
  have hsizeLt := h.size_lt
  have hsize := size_eq h hle
  have hrange := @BufferManager.in_range_iff limit (s.buffers b) (by omega) hsizeLt (s.info index).offset
    (4 * (s.numComponents index * numVertices.toNat)) (by omega) (by omega) (by omega)
  have hnumElements : ((s.info index).size * 4).toNat = 4 * s.numComponents index := by
    have := h.size_eq
    omega
  dsimp only [copyAttrib]
  rw [hsize, h.buffer, hnumElements, bind_eq_bind, bind_some]
  constructor
  · rintro ⟨hshadowed, hrangeLe, hloop⟩
    have hlength := h.length_eq hshadowed
    have hget : (s.buffers b).getRange limit (s.info index).offset (4 * (s.numComponents index * numVertices.toNat)) =
        some ((s.buffers b).shadow.drop (s.info index).offset.toNat) := by
      unfold BufferManager.BufferInfo.getRange
      rw [if_neg (by simp [hshadowed]), if_neg (hrange.2 ⟨hnonneg, hrangeLe⟩)]
    obtain ⟨floats, hfloats⟩ := @exists_convert ((s.buffers b).shadow.drop (s.info index).offset.toNat)
      (4 * s.numComponents index) 0 (by rw [List.length_drop]; omega)
    rw [hget, bind_eq_bind, bind_some, hfloats]
    exact ⟨_, rfl⟩
  · intro u hu
    obtain ⟨src, hget, hu⟩ := bind_eq_some_iff.1 hu
    obtain ⟨floats, hfloats, hu⟩ := bind_eq_some_iff.1 hu
    cases hu
    unfold BufferManager.BufferInfo.getRange at hget
    split_ifs at hget with hshadowed hout
    cases hget
    have hshadowed' : (s.buffers b).shadowed = true := by simpa using hshadowed
    have hlength := h.length_eq hshadowed'
    obtain ⟨_, hrangeLe⟩ := hrange.1 hout
    obtain ⟨hfloatsLength, hfits, hfloatsGet⟩ := convert_eq_some hfloats
    have hcomponents := h.size_pos
    have hfits' := hfits (by omega)
    rw [List.length_drop] at hfits'
    refine ⟨⟨hshadowed', hrangeLe, by omega⟩, rfl, rfl, rfl, fun i hi => ?_⟩
    dsimp only
    have hcount : (4 * (s.numComponents index * numVertices.toNat : ℤ)).toNat =
        4 * (s.numComponents index * numVertices.toNat) := by
      rw [← Nat.cast_mul]
      omega
    rw [hcount, List.getElem?_take_of_lt (by omega)]
    split_ifs with hfour
    · rw [List.getElem?_append_left (by rw [length_map]; omega), List.getElem?_map, hfloatsGet i hfour,
        int32At_drop _ _ _ (by omega), Nat.zero_add]
      have hsome : ∃ x, int32At (s.buffers b).shadow ((s.info index).offset.toNat + 4 * i) = some x :=
        ⟨_, if_pos (by omega)⟩
      obtain ⟨x, hx⟩ := hsome
      rw [hx]
      rfl
    · rw [List.getElem?_append_right (by rw [length_map]; omega), length_map, List.getElem?_replicate_of_lt]
      omega

/-! ### All attributes -/

theorem exactly_bind {a total : ℕ} {f : UInt32 → Option UInt32} (hle : a ≤ total)
    (hf : ∀ x : UInt32, x.toNat = a → f x = exactly total) : (exactly a).bind f = exactly total := by
  by_cases hfits : a < 4294967296
  · rw [exactly_of_lt hfits, bind_some]
    exact hf _ (UInt32.toNat_ofNat_of_lt' hfits)
  · rw [exactly_of_le (not_lt.1 hfits), exactly_of_le ((not_lt.1 hfits).trans hle), Option.bind_none]

theorem totalComponents_cons (infos : List ℕ) : s.totalComponents m (index :: infos) =
      (if s.isFixedAttrib m index then s.numComponents index else 0) + s.totalComponents m infos := by
  unfold totalComponents
  rw [List.filter_cons]
  split_ifs with hfixed
  · rw [List.map_cons, List.sum_cons]
  · rw [Nat.zero_add]

def AllReady (limit : ℤ) (s : FixedDraw) (m : UInt32) (infos : List ℕ) : Prop :=
  ∀ index ∈ infos, s.isFixedAttrib m index = true → ∃ b, AttribReady limit s index b

/-- **The first loop counts the components of all vertices**, or fails when they are too many. -/
theorem elementsNeeded_eq {numVertices : UInt32} {infos : List ℕ} (h : AllReady limit s m infos)
    (elements : UInt32) :
    s.elementsNeeded m numVertices infos elements =
      exactly (elements.toNat + numVertices.toNat * s.totalComponents m infos) := by
  induction infos generalizing elements with
  | nil => exact (exactly_toNat elements).symm
  | cons index infos ih =>
    have hrest := ih fun i hi => h i (mem_cons_of_mem _ hi)
    rw [totalComponents_cons]
    unfold elementsNeeded
    split_ifs with hfixed
    · obtain ⟨b, hready⟩ := h index mem_cons_self hfixed
      have hsize : (uint32OfInt (s.info index).size).toNat = s.numComponents index := by
        have htoNat := toNat_uint32OfInt (s.info index).size
        have heq := hready.size_eq
        have hsmall := hready.size_le
        omega
      rw [safeMultiplyUint32_eq, hsize, Nat.mul_add, ← Nat.add_assoc]
      refine exactly_bind (by omega) fun used hused => ?_
      rw [safeAddUint32_eq]
      refine exactly_bind (by omega) fun sum hsum => ?_
      rw [hrest, hsum, hused]
    · rw [hrest, Nat.zero_add]

/-- The calls for some attributes, from an offset on. -/
structure Uploads (s : FixedDraw) (m : UInt32) (n : ℕ) (infos : List ℕ) (offset : ℤ) (uploads : List FixedUpload) :
    Prop where
  complete : ∀ index ∈ infos, s.isFixedAttrib m index = true → ∃ u ∈ uploads, u.index = index
  isUpload : ∀ u ∈ uploads, ∃ b u_offset, (s.info u.index).buffer = some b ∧ CopyOk s n u.index b ∧
    IsUpload s n u.index b u_offset u
  within : ∀ u ∈ uploads, offset ≤ u.offset ∧ u.offset + u.bytes ≤ offset + 4 * (n * s.totalComponents m infos)
  disjoint : uploads.Pairwise fun u u' => u.offset + u.bytes ≤ u'.offset

/-- **The second loop fills what the first one counted**, when it has a result. -/
theorem copyAttribs_spec {numVertices : UInt32} {infos : List ℕ} (hlimit : 2147483648 ≤ limit)
    (h : AllReady limit s m infos)
    (hle : 4 * (numVertices.toNat * s.totalComponents m infos) ≤ 0x7FFFFFFF) (offset : ℤ) :
    ((∀ index ∈ infos, s.isFixedAttrib m index = true → ∀ b, (s.info index).buffer = some b →
        CopyOk s numVertices.toNat index b) →
      ∃ uploads, s.copyAttribs limit m numVertices infos offset = some uploads) ∧
    ∀ uploads, s.copyAttribs limit m numVertices infos offset = some uploads →
      Uploads s m numVertices.toNat infos offset uploads := by
  induction infos generalizing offset with
  | nil =>
    refine ⟨fun _ => ⟨[], rfl⟩, fun uploads huploads => ?_⟩
    cases huploads
    exact ⟨fun index hindex => (nomatch hindex), fun u hu => (nomatch hu),
      fun u hu => (nomatch hu), List.Pairwise.nil⟩
  | cons index infos ih =>
    have hall : AllReady limit s m infos := fun i hi => h i (mem_cons_of_mem _ hi)
    rw [totalComponents_cons] at hle
    unfold copyAttribs
    split_ifs at hle ⊢ with hfixed
    · rw [Nat.mul_add, Nat.mul_comm _ (s.numComponents index)] at hle
      obtain ⟨b, hready⟩ := h index mem_cons_self hfixed
      have hfits : 4 * (s.numComponents index * numVertices.toNat) ≤ 0x7FFFFFFF := by omega
      obtain ⟨hsome, hspec⟩ := copyAttrib_spec hlimit hready hfits offset
      constructor
      · intro hok
        obtain ⟨u, hu⟩ := hsome (hok index mem_cons_self hfixed b hready.buffer)
        obtain ⟨uploads, huploads⟩ := (ih hall (by omega) (offset + u.bytes)).1
          fun i hi => hok i (mem_cons_of_mem _ hi)
        rw [hu, bind_eq_bind, bind_some, huploads]
        exact ⟨_, rfl⟩
      · intro uploads huploads
        obtain ⟨u, hu, huploads⟩ := bind_eq_some_iff.1 huploads
        obtain ⟨rest, hrest, huploads⟩ := bind_eq_some_iff.1 huploads
        cases huploads
        obtain ⟨hok, hupload⟩ := hspec u hu
        have hrest' := (ih hall (by omega) (offset + u.bytes)).2 rest hrest
        have hbytes := hupload.bytes_eq
        have hoffset := hupload.offset_eq
        have htotal : (numVertices.toNat * s.totalComponents m (index :: infos) : ℤ) =
            s.numComponents index * numVertices.toNat + numVertices.toNat * s.totalComponents m infos := by
          rw [totalComponents_cons, if_pos hfixed, Nat.cast_add, Int.mul_add, Int.mul_comm]
        have hbytesNonneg : 0 ≤ u.bytes := by
          rw [hbytes]
          exact Int.mul_nonneg (by decide) (Int.mul_nonneg (Int.natCast_nonneg _) (Int.natCast_nonneg _))
        refine ⟨?_, ?_, ?_, ?_⟩
        · intro i hi hfixed'
          rcases mem_cons.1 hi with rfl | hi
          · exact ⟨u, mem_cons_self, hupload.index_eq⟩
          · obtain ⟨u', hu', heq⟩ := hrest'.complete i hi hfixed'
            exact ⟨u', mem_cons_of_mem _ hu', heq⟩
        · intro u' hu'
          rcases mem_cons.1 hu' with rfl | hu'
          · rw [hupload.index_eq]
            exact ⟨b, offset, hready.buffer, hok, hupload⟩
          · exact hrest'.isUpload u' hu'
        · intro u' hu'
          rw [htotal]
          rcases mem_cons.1 hu' with rfl | hu'
          · exact ⟨hoffset.ge, by omega⟩
          · have hwithin := hrest'.within u' hu'
            exact ⟨by omega, by omega⟩
        · refine List.pairwise_cons.2 ⟨fun u' hu' => ?_, hrest'.disjoint⟩
          rw [hoffset]
          exact (hrest'.within u' hu').1
    · rw [Nat.zero_add] at hle
      obtain ⟨hsome, hspec⟩ := ih hall hle offset
      refine ⟨fun hok => hsome fun i hi => hok i (mem_cons_of_mem _ hi), fun uploads huploads => ?_⟩
      have huploads' := hspec uploads huploads
      refine ⟨fun i hi hfixed' => ?_, huploads'.isUpload, ?_, huploads'.disjoint⟩
      · rcases mem_cons.1 hi with rfl | hi
        · exact absurd hfixed' hfixed
        · exact huploads'.complete i hi hfixed'
      · rw [totalComponents_cons, if_neg hfixed, Nat.zero_add]
        exact huploads'.within

theorem values_iff {n b : ℕ} {offset : ℤ} {u : FixedUpload} (hready : AttribReady limit s index b)
    (hn : n = m.toNat + 1) (hok : CopyOk s n index b) (hupload : IsUpload s n index b offset u) :
    (∀ v ≤ m.toNat, ∀ c < s.numComponents index, ∃ x, s.component index v c = some x ∧
      u.data[v * s.numComponents index + c]? = some (some (fixedToFloat x))) ↔ Packed s m index := by
  have hpos := hready.size_pos
  have hdata (v c : ℕ) (hv : v ≤ m.toNat) (hc : c < s.numComponents index) :
      u.data[v * s.numComponents index + c]? = some (if v * s.numComponents index + c < 4 * s.numComponents index then
        (int32At (s.buffers b).shadow
          ((s.info index).offset.toNat + 4 * (v * s.numComponents index + c))).map fixedToFloat
        else none) := by
    refine hupload.data _ ?_
    calc v * s.numComponents index + c < v * s.numComponents index + s.numComponents index := by omega
      _ = s.numComponents index * (v + 1) := by rw [Nat.mul_succ, Nat.mul_comm]
      _ ≤ s.numComponents index * n := Nat.mul_le_mul_left _ (by omega)
  have hfour (v c : ℕ) (hc : c < s.numComponents index) :
      v * s.numComponents index + c < 4 * s.numComponents index ↔ v < 4 := by
    constructor
    · intro hlt
      by_contra hnot
      have hmul := Nat.mul_le_mul_right (s.numComponents index) (not_lt.1 hnot)
      omega
    · intro hv
      calc v * s.numComponents index + c < v * s.numComponents index + s.numComponents index := by omega
        _ = (v + 1) * s.numComponents index := (Nat.succ_mul _ _).symm
        _ ≤ 4 * s.numComponents index := Nat.mul_le_mul_right _ hv
  constructor
  · intro h
    have hm : m.toNat < 4 := by
      obtain ⟨x, _, hx⟩ := h m.toNat le_rfl 0 hpos
      rw [hdata _ _ le_rfl hpos] at hx
      by_contra hnot
      rw [if_neg fun hlt => hnot ((hfour _ _ hpos).1 hlt)] at hx
      cases hx
    refine ⟨hm, b, hready.buffer, hok.shadowed, hok.loop_le, fun v hv c hc => ?_⟩
    obtain ⟨x, hcomponent, hx⟩ := h v hv c hc
    rw [hdata v c hv hc, if_pos ((hfour v c hc).2 (by omega))] at hx
    exact ⟨x, hcomponent, Option.some.inj hx⟩
  · rintro ⟨hm, b', hb', _, _, hpacked⟩ v hv c hc
    obtain rfl : b = b' := Option.some.inj (hready.buffer.symm.trans hb')
    obtain ⟨x, hcomponent, hx⟩ := hpacked v hv c hc
    refine ⟨x, hcomponent, ?_⟩
    rw [hdata v c hv hc, if_pos ((hfour v c hc).2 (by omega)), hx]

theorem elementsNeeded_zero {numVertices : UInt32} {infos : List ℕ} (h : AllReady limit s m infos) :
    s.elementsNeeded m numVertices infos 0 = exactly (numVertices.toNat * s.totalComponents m infos) := by
  rw [elementsNeeded_eq h]
  exact congrArg exactly (Nat.zero_add _)

theorem safeMultiplyUint32_four (a : UInt32) : safeMultiplyUint32 a 4 = exactly (4 * a.toNat) := by
  rw [safeMultiplyUint32_eq]
  exact congrArg exactly (Nat.mul_comm _ _)

/-- **The tests before the loop that copies** are those of `Reaches`. -/
theorem simulateFixedAttribs_eq (hready : AllReady limit s m s.enabledVertexAttribs)
    (hnumFixed : s.vertexAttribManager.numFixedAttribs ≠ 0) (hgl : s.eglGLES2 = false) :
    (Reaches s m → s.simulateFixedAttribs limit m =
      match s.copyAttribs limit m (m + 1) s.enabledVertexAttribs 0 with
      | none => .undefined
      | some uploads =>
        .simulated (UInt32.ofNat (4 * ((m.toNat + 1) * s.totalComponents m s.enabledVertexAttribs))) uploads) ∧
    (¬ Reaches s m → ∃ e, s.simulateFixedAttribs limit m = .error e) := by
  rw [simulateFixedAttribs, hgl, if_neg Bool.false_ne_true, if_neg hnumFixed]
  dsimp only
  by_cases hvertices : m.toNat + 1 < 4294967296
  swap
  · have hzero : m + 1 = 0 := by
      refine UInt32.toNat.inj ?_
      have hlt := m.toNat_lt
      rw [UInt32.toNat_add]
      show (m.toNat + 1) % 4294967296 = 0
      omega
    rw [if_pos hzero]
    exact ⟨fun h => absurd h.vertices hvertices, fun _ => ⟨_, rfl⟩⟩
  have hnum : (m + 1).toNat = m.toNat + 1 := by
    rw [UInt32.toNat_add]
    exact Nat.mod_eq_of_lt hvertices
  have hne : ¬ m + 1 = 0 := by
    intro hzero
    rw [hzero] at hnum
    exact absurd hnum (Nat.succ_ne_zero _).symm
  rw [if_neg hne, elementsNeeded_zero hready, hnum]
  obtain ⟨elements, helements⟩ : ∃ elements, (m.toNat + 1) * s.totalComponents m s.enabledVertexAttribs = elements :=
    ⟨_, rfl⟩
  rw [helements]
  by_cases hsize : 4 * elements ≤ 0x7FFFFFFF
  · have hmul : safeMultiplyUint32 (UInt32.ofNat elements) 4 = some (UInt32.ofNat (4 * elements)) := by
      rw [safeMultiplyUint32_four, UInt32.toNat_ofNat_of_lt' (by simp [UInt32.size]; omega)]
      exact exactly_of_lt (by omega)
    have htoNat : (UInt32.ofNat (4 * elements)).toNat = 4 * elements :=
      UInt32.toNat_ofNat_of_lt' (by simp [UInt32.size]; omega)
    have hint : int32OfUInt32 (UInt32.ofNat (4 * elements)) = (4 * elements : ℕ) := by
      rw [int32OfUInt32_of_lt (by omega), htoNat]
    have hnot : ¬ (0x7FFFFFFF : UInt32) < UInt32.ofNat (4 * elements) := by
      rw [UInt32.lt_iff_toNat_lt, htoNat]
      exact not_lt.2 hsize
    rw [exactly_of_lt (by omega)]
    dsimp only
    rw [hmul]
    dsimp only
    rw [if_neg hnot, hint]
    by_cases hdata : s.fixedAttribBufferSize < (4 * elements : ℕ) ∧ s.bufferDataError ≠ GL_NO_ERROR
    · rw [if_pos hdata]
      refine ⟨fun h => ?_, fun _ => ⟨_, rfl⟩⟩
      have hbuffer := h.bufferData
      rw [helements] at hbuffer
      rcases hbuffer with hle | heq
      · exact absurd hdata.1 (not_lt.2 hle)
      · exact absurd heq hdata.2
    · rw [if_neg hdata]
      refine ⟨fun _ => rfl, fun h => absurd ?_ h⟩
      refine ⟨hgl, hvertices, by rw [helements]; exact hsize, ?_⟩
      rw [helements]
      rcases not_and_or.1 hdata with hle | heq
      · exact .inl (not_lt.1 hle)
      · exact .inr (not_not.1 heq)
  · have hnot : ¬ Reaches s m := fun h => hsize (helements ▸ h.size)
    refine ⟨fun h => absurd h hnot, fun _ => ?_⟩
    by_cases helem : elements < 4294967296
    · rw [exactly_of_lt helem]
      dsimp only
      rw [safeMultiplyUint32_four, UInt32.toNat_ofNat_of_lt' helem]
      by_cases hproduct : 4 * elements < 4294967296
      · have hgreater : (0x7FFFFFFF : UInt32) < UInt32.ofNat (4 * elements) := by
          rw [UInt32.lt_iff_toNat_lt, UInt32.toNat_ofNat_of_lt' hproduct]
          exact not_le.1 hsize
        rw [exactly_of_lt hproduct]
        dsimp only
        rw [if_pos hgreater]
        exact ⟨_, rfl⟩
      · rw [exactly_of_le (not_lt.1 hproduct)]
        exact ⟨_, rfl⟩
    · rw [exactly_of_le (not_lt.1 helem)]
      exact ⟨_, rfl⟩

/-- **`SimulateFixedAttribs`.**  For every state the commands lead to and every draw call, what it hands on is right
exactly when, if it gets to copy at all, the vertices of every fixed point attribute are packed. -/
theorem simulateFixedAttribs_iff (h : Reached limit s) (m : UInt32) :
    Right s m (s.simulateFixedAttribs limit m) ↔ (Reaches s m → ∀ index, IsFixed s m index → Packed s m index) := by
  obtain ⟨maxVertexAttribs, tr, d, hrun, hmanager, hlist⟩ := h.decoder
  have hlists := listsRight_run hrun
  rw [hmanager, hlist] at hlists
  have hready : AllReady limit s m s.enabledVertexAttribs := fun index hindex hfixed =>
    h.attribReady ⟨(hlists.mem_iff index).mp hindex, hfixed⟩
  by_cases hgl : s.eglGLES2 = true
  · have hreaches : ¬ Reaches s m := fun hr => by
      rw [hr.not_eglGLES2] at hgl
      cases hgl
    unfold simulateFixedAttribs
    rw [if_pos hgl]
    exact ⟨fun _ hr => absurd hr hreaches, fun _ => Or.inl hgl⟩
  have hgl' : s.eglGLES2 = false := Bool.not_eq_true _ ▸ hgl
  by_cases hnumFixed : s.vertexAttribManager.numFixedAttribs = 0
  · have hnone : ∀ index, ¬ IsFixed s m index := by
      intro index hindex
      have hcount := hlists.numFixedAttribs
      have htype := hindex.fixed
      unfold isFixedAttrib at htype
      rw [Bool.and_eq_true] at htype
      have hpos : 0 < s.vertexAttribManager.infos.countP fun info => info.type == GL_FIXED :=
        List.countP_pos_iff.mpr ⟨_, (info_of_enabled hindex.enabled).1, htype.2⟩
      omega
    unfold simulateFixedAttribs
    rw [if_neg hgl, if_pos hnumFixed]
    exact ⟨fun _ _ index hindex => absurd hindex (hnone index), fun _ => Or.inr hnone⟩
  obtain ⟨hyes, hno⟩ := simulateFixedAttribs_eq hready hnumFixed hgl'
  by_cases hreaches : Reaches s m
  swap
  · obtain ⟨e, he⟩ := hno hreaches
    rw [he]
    exact ⟨fun _ hr => absurd hr hreaches, fun _ => trivial⟩
  rw [hyes hreaches]
  have hnum : (m + 1).toNat = m.toNat + 1 := by
    rw [UInt32.toNat_add]
    exact Nat.mod_eq_of_lt hreaches.vertices
  have hsizeLe := hreaches.size
  obtain ⟨hsome, hspec⟩ := copyAttribs_spec h.limit_le hready (by rw [hnum]; exact hsizeLe) 0
  constructor
  · intro hright _ index hindex
    cases huploads : s.copyAttribs limit m (m + 1) s.enabledVertexAttribs 0 with
    | none =>
      rw [huploads] at hright
      exact hright.elim
    | some uploads =>
      rw [huploads] at hright
      obtain ⟨u, hu, rfl, hvalues⟩ := hright.values index hindex
      obtain ⟨b, offset, hbuffer, hok, hupload⟩ := (hspec uploads huploads).isUpload u hu
      obtain ⟨b', hready'⟩ := h.attribReady hindex
      obtain rfl : b = b' := Option.some.inj (hbuffer.symm.trans hready'.buffer)
      exact (values_iff hready' hnum hok hupload).mp hvalues
  · intro hpacked
    have hpacked := hpacked hreaches
    have hfixed (index : ℕ) (hindex : index ∈ s.enabledVertexAttribs) (hfix : s.isFixedAttrib m index = true) :
        IsFixed s m index := ⟨(hlists.mem_iff index).mp hindex, hfix⟩
    obtain ⟨uploads, huploads⟩ := hsome fun index hindex hfix b hbuffer => by
      obtain ⟨hm, b', hb', hshadowed, hloop, _⟩ := hpacked index (hfixed index hindex hfix)
      obtain rfl : b = b' := Option.some.inj (hbuffer.symm.trans hb')
      refine ⟨hshadowed, ?_, hloop⟩
      have hmul : s.numComponents index * (m + 1).toNat ≤ s.numComponents index * 4 :=
        Nat.mul_le_mul_left _ (by omega)
      omega
    rw [huploads]
    have hall := hspec uploads huploads
    refine ⟨fun index hindex => ?_, hall.disjoint, fun u hu => ?_⟩
    · obtain ⟨u, hu, rfl⟩ := hall.complete index ((hlists.mem_iff index).mpr hindex.enabled) hindex.fixed
      obtain ⟨b, offset, hbuffer, hok, hupload⟩ := hall.isUpload u hu
      obtain ⟨b', hready'⟩ := h.attribReady hindex
      obtain rfl : b = b' := Option.some.inj (hbuffer.symm.trans hready'.buffer)
      exact ⟨u, hu, rfl, (values_iff hready' hnum hok hupload).mpr (hpacked _ hindex)⟩
    · obtain ⟨hfrom, hto⟩ := hall.within u hu
      have htoNat : (UInt32.ofNat (4 * ((m.toNat + 1) * s.totalComponents m s.enabledVertexAttribs))).toNat =
          4 * ((m.toNat + 1) * s.totalComponents m s.enabledVertexAttribs) :=
        UInt32.toNat_ofNat_of_lt' (by simp [UInt32.size]; omega)
      rw [hnum] at hto
      rw [htoNat]
      refine ⟨hfrom, ?_⟩
      rw [Nat.cast_mul, Nat.cast_mul]
      omega

def oneFixed (enabled : Bool) : VertexAttribManager := ⟨[⟨enabled, 1, GL_FIXED, 0, 0, 0, 4, some 0⟩], 1⟩

def fixedDecoder (buffer : Option ℕ) : AttribDecoder :=
  { AttribDecoder.new 1 fun _ => ⟨1, 16⟩ with
    boundArrayBuffer := buffer
    vertexAttribType := [GL_BYTE, GL_UNSIGNED_BYTE, GL_SHORT, GL_UNSIGNED_SHORT, GL_FLOAT, GL_FIXED] }

theorem run_oneFixed : (listedDecoder 1).Run [.supportFixedAttribs, .bindArrayBuffer (some 0),
      .vertexAttribPointer ⟨0, 1, GL_FIXED, 0, 0, 0⟩, .enable 0 true]
      ⟨{ fixedDecoder (some 0) with vertexAttribManager := oneFixed true }, [0]⟩ := by
  have h0 : (listedDecoder 1).Run [] ⟨.new 1 fun _ => ⟨1, 16⟩, []⟩ := .init ⟨⟨_, rfl⟩, rfl⟩
  have h1 : (listedDecoder 1).Run [.supportFixedAttribs] ⟨fixedDecoder none, []⟩ :=
    h0.step (l := AttribDecoder.Label.supportFixedAttribs) ⟨rfl, rfl⟩
  have h2 : (listedDecoder 1).Run [.supportFixedAttribs, .bindArrayBuffer (some 0)] ⟨fixedDecoder (some 0), []⟩ :=
    h1.step (l := AttribDecoder.Label.bindArrayBuffer (some 0)) ⟨rfl, rfl⟩
  have h3 : (listedDecoder 1).Run [.supportFixedAttribs, .bindArrayBuffer (some 0),
      .vertexAttribPointer ⟨0, 1, GL_FIXED, 0, 0, 0⟩]
      ⟨{ fixedDecoder (some 0) with vertexAttribManager := oneFixed false }, []⟩ :=
    h2.step (l := AttribDecoder.Label.vertexAttribPointer ⟨0, 1, GL_FIXED, 0, 0, 0⟩) ⟨rfl, rfl⟩
  exact h3.step (l := AttribDecoder.Label.enable 0 true) ⟨rfl, rfl⟩

/-- A copy of `n` numbers. -/
def numbersBuffer (n : ℕ) : BufferManager.BufferInfo :=
  (((BufferManager.BufferInfo.new 1).setInfo (4 * n) GL_STATIC_DRAW true).setRange 2147483648 0
    (arrayBytes 4 ((List.range n).map fun i => 65536 * i))).1

def oneComponent (n : ℕ) : FixedDraw where
  vertexAttribManager := oneFixed true
  enabledVertexAttribs := [0]
  buffers _ := numbersBuffer n
  attribInfoByLocation _ := true
  eglGLES2 := false
  fixedAttribBufferSize := 0
  bufferDataError := GL_NO_ERROR

theorem reached_oneComponent {n : ℕ} (hn : 4 * n < 2147483648) : Reached 2147483648 (oneComponent n) := by
  refine ⟨le_rfl, ⟨1, _, _, run_oneFixed, rfl, rfl⟩, fun b _ => ?_⟩
  have hid : (numbersBuffer n).serviceId = 1 := by
    dsimp only [numbersBuffer, BufferManager.BufferInfo.setRange, BufferManager.BufferInfo.setInfo]
    split_ifs <;> rfl
  have h0 : (BufferManager.bufferInfo 2147483648 1).Run [] (.new 1) := .init rfl
  have h1 := h0.step (l := BufferManager.Label.setInfo (4 * n) GL_STATIC_DRAW true) ⟨by omega, by omega, rfl⟩
  have h2 : (BufferManager.bufferInfo 2147483648 1).Run _ (numbersBuffer n) :=
    h1.step (l := BufferManager.Label.setRange 0 (arrayBytes 4 ((List.range n).map fun i => 65536 * i)))
      ⟨by decide, by rw [length_arrayBytes, length_map, List.length_range]; omega, rfl⟩
  show ∃ tr, (BufferManager.bufferInfo 2147483648 (numbersBuffer n).serviceId).Run tr (numbersBuffer n)
  rw [hid]
  exact ⟨_, h2⟩

theorem simulateFixedAttribs_oneComponent :
    Right (oneComponent 4) 3 ((oneComponent 4).simulateFixedAttribs 2147483648 3) := by
  refine (simulateFixedAttribs_iff (reached_oneComponent (by decide)) 3).mpr fun _ index hindex => ?_
  obtain ⟨info, hinfo, _⟩ := hindex.enabled
  have hzero : index = 0 := Nat.lt_one_iff.mp (List.getElem?_eq_some_iff.mp hinfo).1
  subst hzero
  refine ⟨by decide, 0, rfl, rfl, by decide +kernel, fun v hv c hc => ?_⟩
  have hv : v ≤ 3 := hv
  have hc : c < 1 := hc
  match v, c, hv, hc with
  | 0, 0, _, _ | 1, 0, _, _ | 2, 0, _, _ | 3, 0, _, _ => exact ⟨_, rfl, rfl⟩

/-- **The fifth vertex is not converted.** -/
theorem simulateFixedAttribs_fifth :
    ¬ ∀ (limit : ℤ) (s : FixedDraw) (m : UInt32), Reached limit s → Right s m (s.simulateFixedAttribs limit m) := by
  intro h
  have hright := h _ _ 4 (@reached_oneComponent 5 (by decide))
  have hdata : ∃ sizeNeeded u, (oneComponent 5).simulateFixedAttribs 2147483648 4 = .simulated sizeNeeded [u] ∧
      u.data[4]? = some none := ⟨_, _, rfl, rfl⟩
  obtain ⟨sizeNeeded, u, heq, hu⟩ := hdata
  rw [heq] at hright
  have hfixed : IsFixed (oneComponent 5) 4 0 := ⟨⟨_, rfl, rfl⟩, rfl⟩
  obtain ⟨u', hmem, _, hvalues⟩ := hright.values 0 hfixed
  obtain rfl := List.mem_singleton.mp hmem
  obtain ⟨x, _, hx⟩ := hvalues 4 le_rfl 0 (by decide)
  have hnone := hu.symm.trans hx
  cases hnone

end FixedDraw

end Chromium.Gpu
