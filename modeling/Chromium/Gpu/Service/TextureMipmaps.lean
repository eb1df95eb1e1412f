import Chromium.Gpu.Service.TextureManager
import Mathlib.Data.Nat.Log

/-!
# The mip levels of a texture

`TextureInfo::MarkMipmapsGenerated`, `CanGenerateMipmaps` and `Update` of
`gpu/command_buffer/service/texture_manager.cc`.  The loop that sets the mip levels and the loop that checks
them halve the sizes each for itself, and `Update` keeps what it finds in two flags until the next change.

Level `k` of a side of `size` is `mipSize size k`.  The calls of `MarkMipmapsGenerated` are `mipCalls`, and
`MipInv` is what holds of a texture after any calls.
-/

namespace Chromium.Gpu

open Lib
open List (foldl_cons mem_cons_of_mem mem_cons_self mem_map mem_range)

/-! ### The number of levels -/

/-- A turn of the loop of `Log2Floor`. -/
def log2FloorTurn (s : ℤ × UInt32) (shift : ℕ) : ℤ × UInt32 :=
  let x := s.2 >>> UInt32.ofNat shift
  if x ≠ 0 then (s.1 + shift, x) else s

/-- **A turn keeps the logarithm**, and what is left of the number has half as many bits. -/
theorem log2FloorTurn_spec {s : ℤ × UInt32} {shift : ℕ} (hshift : shift ≤ 16) (hs : s.2 ≠ 0)
    (hlt : s.2.toNat < 2 ^ (2 * shift)) :
    (log2FloorTurn s shift).2 ≠ 0 ∧ (log2FloorTurn s shift).2.toNat < 2 ^ shift ∧
      (log2FloorTurn s shift).1 + Nat.log 2 (log2FloorTurn s shift).2.toNat = s.1 + Nat.log 2 s.2.toNat := by
  have hquot : (s.2 >>> UInt32.ofNat shift).toNat = s.2.toNat / 2 ^ shift := by
    rw [UInt32.toNat_shiftRight, UInt32.toNat_ofNat_of_lt' (by simp [UInt32.size]; omega), Nat.mod_eq_of_lt (by omega),
      Nat.shiftRight_eq_div_pow]
  dsimp only [log2FloorTurn]
  split_ifs with hx
  · have hge : 2 ^ shift ≤ s.2.toNat := by
      by_contra hnot
      refine hx (UInt32.toNat.inj ?_)
      rw [hquot, Nat.div_eq_of_lt (not_le.1 hnot)]
      rfl
    refine ⟨hx, ?_, ?_⟩
    · rw [hquot, Nat.div_lt_iff_lt_mul (Nat.two_pow_pos shift), ← Nat.pow_add, ← Nat.two_mul]
      exact hlt
    · have hlog : shift ≤ Nat.log 2 s.2.toNat := Nat.le_log_of_pow_le (by decide) hge
      dsimp only
      rw [hquot, Nat.log_div_base_pow]
      omega
  · refine ⟨hs, ?_, rfl⟩
    have hzero : s.2.toNat / 2 ^ shift = 0 := by
      rw [← hquot, not_not.1 hx]
      rfl
    exact (Nat.div_eq_zero_iff_lt (Nat.two_pow_pos shift)).1 hzero

theorem log2Floor_eq {n : UInt32} (h : n ≠ 0) : log2Floor n = Nat.log 2 n.toNat := by
  have hfold : log2Floor n = ([16, 8, 4, 2, 1].foldl log2FloorTurn (0, n)).1 := if_neg h
  obtain ⟨h16, hlt16, hlog16⟩ := @log2FloorTurn_spec (0, n) 16 le_rfl h n.toNat_lt
  obtain ⟨h8, hlt8, hlog8⟩ := @log2FloorTurn_spec _ 8 (by decide) h16 hlt16
  obtain ⟨h4, hlt4, hlog4⟩ := @log2FloorTurn_spec _ 4 (by decide) h8 hlt8
  obtain ⟨h2, hlt2, hlog2⟩ := @log2FloorTurn_spec _ 2 (by decide) h4 hlt4
  obtain ⟨h1, hlt1, hlog1⟩ := @log2FloorTurn_spec _ 1 (by decide) h2 hlt2
  rw [hfold]
  simp only [foldl_cons, List.foldl_nil]
  rw [pow_one] at hlt1
  rw [Nat.log_of_lt hlt1] at hlog1
  dsimp only at hlog16
  omega

theorem computeMipMapCount_eq {width height depth : ℤ} (hpos : 0 < max (max width height) depth)
    (hlt : max (max width height) depth < 2147483648) :
    computeMipMapCount width height depth = 1 + Nat.log 2 (max (max width height) depth).toNat := by
  have htoNat := toNat_uint32OfInt (max (max width height) depth)
  rw [Int.emod_eq_of_lt hpos.le (by omega)] at htoNat
  have hne : uint32OfInt (max (max width height) depth) ≠ 0 := by
    intro hzero
    rw [hzero] at htoNat
    exact hpos.ne htoNat
  have hmax : (uint32OfInt (max (max width height) depth)).toNat = (max (max width height) depth).toNat := by omega
  rw [computeMipMapCount, log2Floor_eq hne, hmax]

/-! ### The levels -/

def mipSize (size : ℤ) (level : ℕ) : ℤ := max 1 (size / 2 ^ level)

theorem mipSize_one (size : ℤ) : max (1 : ℤ) (size >>> (1 : ℕ)) = mipSize size 1 := by
  rw [mipSize, Int.shiftRight_eq_div_pow]
  rfl

theorem mipSize_succ (size : ℤ) (level : ℕ) :
    max (1 : ℤ) (mipSize size level >>> (1 : ℕ)) = mipSize size (level + 1) := by
  unfold mipSize
  have hhalf : size / 2 ^ (level + 1) = size / 2 ^ level / 2 := by
    rw [pow_succ, Int.ediv_ediv_of_nonneg (Int.pow_nonneg (by decide))]
  rw [hhalf, Int.shiftRight_eq_div_pow]
  generalize size / 2 ^ level = half
  omega

def mipLevel (level0 : LevelInfo) (level : ℕ) : LevelInfo :=
  { level0 with
    valid := true
    width := mipSize level0.width level
    height := mipSize level0.height level
    depth := mipSize level0.depth level }

/-- A level is an image of the halved sizes with the formats of the first. -/
structure IsMip (level0 : LevelInfo) (level : ℕ) (info : LevelInfo) : Prop where
  valid : info.valid = true
  width_eq : info.width = mipSize level0.width level
  height_eq : info.height = mipSize level0.height level
  depth_eq : info.depth = mipSize level0.depth level
  internalFormat_eq : info.internalFormat = level0.internalFormat
  format_eq : info.format = level0.format
  type_eq : info.type = level0.type

theorem isMip_iff {level0 info : LevelInfo} {level : ℕ} :
    IsMip level0 level info ↔ ¬ (!info.valid || info.width != mipSize level0.width level ||
      info.height != mipSize level0.height level || info.depth != mipSize level0.depth level ||
      info.internalFormat != level0.internalFormat || info.format != level0.format ||
      info.type != level0.type) = true := by
  simp only [Bool.or_eq_true, Bool.not_eq_true', bne_iff_ne, not_or, ne_eq, not_not, Bool.not_eq_false, and_assoc]
  constructor <;> exact fun ⟨h1, h2, h3, h4, h5, h6, h7⟩ => ⟨h1, h2, h3, h4, h5, h6, h7⟩

theorem isMip_mipLevel (level0 : LevelInfo) (level : ℕ) : IsMip level0 level (mipLevel level0 level) :=
  ⟨rfl, rfl, rfl, rfl, rfl, rfl, rfl⟩

/-- The first level of a face has the sizes and the formats of that of the first face. -/
structure IsLevel0 (firstFace info : LevelInfo) : Prop where
  valid : info.valid = true
  width_eq : info.width = firstFace.width
  height_eq : info.height = firstFace.height
  depth_eq : info.depth = 1
  internalFormat_eq : info.internalFormat = firstFace.internalFormat
  format_eq : info.format = firstFace.format
  type_eq : info.type = firstFace.type

namespace TextureInfo

variable {features : FeatureFlags} {t : TextureInfo}

variable {face level : ℕ} (calls : List LevelCall) {firstFace : LevelInfo} (c : LevelCall)

theorem mipsComplete_iff (level0 : LevelInfo) (face : List LevelInfo) {n : ℕ} {width height depth : ℤ}
    (hwidth : max (1 : ℤ) (width >>> (1 : ℕ)) = mipSize level0.width level)
    (hheight : max (1 : ℤ) (height >>> (1 : ℕ)) = mipSize level0.height level)
    (hdepth : max (1 : ℤ) (depth >>> (1 : ℕ)) = mipSize level0.depth level) :
    mipsComplete level0 face n level width height depth = true ↔
      ∀ k < n, IsMip level0 (level + k) (face.getD (level + k) .new) := by
  induction n generalizing level width height depth with
  | zero => simp [mipsComplete]
  | succ n ih =>
    dsimp only [mipsComplete]
    rw [hwidth, hheight, hdepth]
    have hnext := ih (mipSize_succ level0.width level) (mipSize_succ level0.height level)
      (mipSize_succ level0.depth level)
    have hsplit : (∀ k < n + 1, IsMip level0 (level + k) (face.getD (level + k) .new)) ↔
        IsMip level0 level (face.getD level .new) ∧
          ∀ k < n, IsMip level0 (level + 1 + k) (face.getD (level + 1 + k) .new) := by
      constructor
      · intro h
        refine ⟨h 0 n.succ_pos, fun k hk => ?_⟩
        have hmip := h (k + 1) (Nat.succ_lt_succ hk)
        rwa [← Nat.add_assoc, Nat.add_right_comm] at hmip
      · rintro ⟨hfirst, hrest⟩ k hk
        cases k with
        | zero => exact hfirst
        | succ k =>
          have hmip := hrest k (Nat.lt_of_succ_lt_succ hk)
          rwa [Nat.add_right_comm, Nat.add_assoc] at hmip
    rw [hsplit, ← hnext]
    by_cases hmip : IsMip level0 level (face.getD level .new)
    · rw [if_neg (isMip_iff.1 hmip)]
      exact ⟨fun h => ⟨hmip, h⟩, fun h => h.2⟩
    · rw [if_pos (not_not.1 (mt isMip_iff.2 hmip))]
      exact ⟨nofun, fun h => absurd h.1 hmip⟩

/-! ### What `Update` finds -/

theorem isLevel0_iff {info : LevelInfo} :
    IsLevel0 firstFace info ↔ ¬ (!info.valid || info.width != firstFace.width || info.height != firstFace.height ||
      info.depth != 1 || info.internalFormat != firstFace.internalFormat || info.format != firstFace.format ||
      info.type != firstFace.type) = true := by
  simp only [Bool.or_eq_true, Bool.not_eq_true', bne_iff_ne, not_or, ne_eq, not_not, Bool.not_eq_false, and_assoc]
  constructor <;> exact fun ⟨h1, h2, h3, h4, h5, h6, h7⟩ => ⟨h1, h2, h3, h4, h5, h6, h7⟩

def FaceMips (levelsNeeded : ℤ) (face : List LevelInfo) : Prop :=
  ∀ k < (levelsNeeded - 1).toNat, IsMip (face.getD 0 .new) (1 + k) (face.getD (1 + k) .new)

theorem faceMips_iff {levelsNeeded : ℤ} {face : List LevelInfo} :
    mipsComplete (face.getD 0 .new) face (levelsNeeded - 1).toNat 1 (face.getD 0 .new).width (face.getD 0 .new).height
      (face.getD 0 .new).depth = true ↔ FaceMips levelsNeeded face :=
  mipsComplete_iff _ _ (mipSize_one _) (mipSize_one _) (mipSize_one _)

/-- **A turn of the outer loop of `Update`**; that it does nothing when both flags are false does not matter. -/
theorem updateFace_iff {levelsNeeded : ℤ} {complete : Bool × Bool} {face : List LevelInfo} :
    ((updateFace levelsNeeded firstFace complete face).1 = true ↔ complete.1 = true ∧ FaceMips levelsNeeded face) ∧
    ((updateFace levelsNeeded firstFace complete face).2 = true ↔
      complete.2 = true ∧ IsLevel0 firstFace (face.getD 0 .new)) := by
  obtain ⟨textureComplete, cubeComplete⟩ := complete
  unfold updateFace
  by_cases hstop : (!(cubeComplete || textureComplete)) = true
  · have hboth : cubeComplete = false ∧ textureComplete = false := by simpa using hstop
    simp [hboth]
  · simp only [if_neg hstop]
    rw [isLevel0_iff, ← faceMips_iff]
    constructor <;> split_ifs <;> simp_all

theorem foldl_updateFace_iff {levelsNeeded : ℤ} {complete : Bool × Bool}
    {faces : List (List LevelInfo)} :
    ((faces.foldl (updateFace levelsNeeded firstFace) complete).1 = true ↔
      complete.1 = true ∧ ∀ face ∈ faces, FaceMips levelsNeeded face) ∧
    ((faces.foldl (updateFace levelsNeeded firstFace) complete).2 = true ↔
      complete.2 = true ∧ ∀ face ∈ faces, IsLevel0 firstFace (face.getD 0 .new)) := by
  induction faces generalizing complete with
  | nil => simp
  | cons face faces ih =>
    obtain ⟨hmips, hlevel0⟩ := @ih (updateFace levelsNeeded firstFace complete face)
    rw [foldl_cons, hmips, hlevel0, updateFace_iff.1, updateFace_iff.2, List.forall_mem_cons, List.forall_mem_cons,
      and_assoc, and_assoc]
    exact ⟨Iff.rfl, Iff.rfl⟩

/-- The filters are those that a type without linear filters is complete with. -/
def Nearest (t : TextureInfo) : Prop := t.minFilter = GL_NEAREST_MIPMAP_NEAREST ∧ t.magFilter = GL_NEAREST

def FilterOk (features : FeatureFlags) (t : TextureInfo) : Prop :=
  ((t.levelInfo 0 0).type = GL_FLOAT → features.enableTextureFloatLinear = false → Nearest t) ∧
    ((t.levelInfo 0 0).type = GL_HALF_FLOAT_OES → features.enableTextureHalfFloatLinear = false → Nearest t)

def levelsNeeded (t : TextureInfo) : ℤ :=
  computeMipMapCount (t.levelInfo 0 0).width (t.levelInfo 0 0).height (t.levelInfo 0 0).depth

theorem textureComplete_update (hne : t.levelInfos ≠ []) :
    (update features t).textureComplete = true ↔ (t.levelsNeeded - 1 ≤ t.maxLevelSet ∧ 0 ≤ t.maxLevelSet) ∧
      ((t.levelInfo 0 0).width ≠ 0 ∧ (t.levelInfo 0 0).height ≠ 0) ∧ FilterOk features t ∧
      ∀ face ∈ t.levelInfos, FaceMips t.levelsNeeded face := by
  unfold update
  rw [if_neg (by simpa using hne)]
  dsimp only
  rw [foldl_updateFace_iff.1, ← levelsNeeded]
  dsimp only
  have hflag {a b : Bool} {c : Prop} [Decidable c] {d : Bool} :
      (if a = true then false else if b = true then false else if c then false else d) = true ↔
        d = true ∧ ¬ c ∧ ¬ a = true ∧ ¬ b = true := by
    split_ifs <;> simp_all
  have hfilter (type : GLenum) (enable : Bool) : ¬ ((t.levelInfo 0 0).type == type && !enable &&
        !!(t.minFilter != GL_NEAREST_MIPMAP_NEAREST || t.magFilter != GL_NEAREST)) = true ↔
        ((t.levelInfo 0 0).type = type → enable = false → Nearest t) := by
    unfold Nearest
    simp
  rw [hflag, hfilter, hfilter, not_or, Bool.and_eq_true, decide_eq_true_eq, decide_eq_true_eq]
  exact ⟨fun ⟨⟨hlevel, hsize, hfloat, hhalf⟩, hmips⟩ => ⟨hlevel, hsize, ⟨hfloat, hhalf⟩, hmips⟩,
    fun ⟨hlevel, hsize, ⟨hfloat, hhalf⟩, hmips⟩ => ⟨⟨hlevel, hsize, hfloat, hhalf⟩, hmips⟩⟩

theorem cubeComplete_update (hne : t.levelInfos ≠ []) : (update features t).cubeComplete = true ↔
      t.levelInfos.length = 6 ∧ (t.levelInfo 0 0).width = (t.levelInfo 0 0).height ∧
      ∀ face ∈ t.levelInfos, IsLevel0 (t.levelInfo 0 0) (face.getD 0 .new) := by
  rw [update, if_neg (by simpa using hne)]
  dsimp only
  rw [foldl_updateFace_iff.2, Bool.and_eq_true, beq_iff_eq, beq_iff_eq, and_assoc]

theorem update_flags (npot textureComplete cubeComplete : Bool) :
    update features { t with npot, textureComplete, cubeComplete } = update features t := rfl

theorem update_update : update features (update features t) = update features t := by
  have hflags : ∃ npot textureComplete cubeComplete,
      update features t = { t with npot, textureComplete, cubeComplete } := by
    unfold update
    split_ifs <;> exact ⟨_, _, _, rfl⟩
  obtain ⟨npot, textureComplete, cubeComplete, hupdate⟩ := hflags
  rw [hupdate, update_flags, hupdate]

/-! ### The calls of `MarkMipmapsGenerated` -/

/-- A call of `SetLevelInfo`. -/
structure LevelCall where
  target : GLenum
  level : ℕ
  info : LevelInfo

def LevelCall.apply (features : FeatureFlags) (t : TextureInfo) (c : LevelCall) : TextureInfo :=
  t.setLevelInfo features c.target c.level c.info.internalFormat c.info.width c.info.height c.info.depth c.info.border
    c.info.format c.info.type

def numLevels (t : TextureInfo) (face : ℕ) : ℕ := (t.levelInfos.getD face []).length

/-- A call is within the vectors of the texture. -/
structure LevelCall.InRange (t : TextureInfo) (c : LevelCall) : Prop where
  face_lt : glTargetToFaceIndex c.target < t.levelInfos.length
  level_lt : c.level < t.numLevels (glTargetToFaceIndex c.target)

/-- The target that `MarkMipmapsGenerated` gives a face. -/
def faceTarget (t : TextureInfo) (index : ℕ) : GLenum :=
  if t.target = GL_TEXTURE_2D then GL_TEXTURE_2D else faceIndexToGLTarget index

/-- `ComputeMipMapCount` of a first level. -/
def numMips (info : LevelInfo) : ℤ := computeMipMapCount info.width info.height info.depth

def faceCalls (target : GLenum) (level0 : LevelInfo) : List LevelCall :=
  (List.range' 1 (numMips level0 - 1).toNat).map fun level => ⟨target, level, mipLevel level0 level⟩

/-- The calls of `MarkMipmapsGenerated`, in order. -/
def mipCalls (t : TextureInfo) : List LevelCall :=
  (List.range t.levelInfos.length).flatMap fun index => faceCalls (t.faceTarget index) (t.levelInfo index 0)

theorem generateMips_eq (target : GLenum) (level0 : LevelInfo) {n : ℕ} {width height depth : ℤ}
    (hwidth : max (1 : ℤ) (width >>> (1 : ℕ)) = mipSize level0.width level)
    (hheight : max (1 : ℤ) (height >>> (1 : ℕ)) = mipSize level0.height level)
    (hdepth : max (1 : ℤ) (depth >>> (1 : ℕ)) = mipSize level0.depth level) :
    generateMips features target level0 n level width height depth t =
      ((List.range' level n).map fun level => LevelCall.mk target level (mipLevel level0 level)).foldl
        (LevelCall.apply features) t := by
  induction n generalizing level width height depth t with
  | zero => rfl
  | succ n ih =>
    dsimp only [generateMips]
    rw [hwidth, hheight, hdepth, List.range'_succ, List.map_cons, foldl_cons]
    exact ih (mipSize_succ level0.width level) (mipSize_succ level0.height level) (mipSize_succ level0.depth level)

@[simp] theorem target_apply : (c.apply features t).target = t.target := target_update

theorem levelInfos_apply :
    (c.apply features t).levelInfos = t.levelInfos.modify (glTargetToFaceIndex c.target) fun face =>
      face.set c.level { c.info with valid := true } := levelInfos_update

@[simp] theorem length_levelInfos_apply :
    (c.apply features t).levelInfos.length = t.levelInfos.length := by
  rw [levelInfos_apply, List.length_modify]

theorem face_apply (face : ℕ) : (c.apply features t).levelInfos.getD face [] =
      if glTargetToFaceIndex c.target = face then
        (t.levelInfos.getD face []).set c.level { c.info with valid := true }
      else t.levelInfos.getD face [] := by
  rw [levelInfos_apply, List.getD_eq_getElem?_getD, List.getElem?_modify, List.getD_eq_getElem?_getD]
  cases t.levelInfos[face]? with
  | none | some levels => split_ifs <;> rfl

@[simp] theorem numLevels_apply (face : ℕ) : (c.apply features t).numLevels face = t.numLevels face := by
  rw [numLevels, face_apply]
  split_ifs
  · exact List.length_set
  · rfl

theorem levelInfo_apply_of_ne {c : LevelCall}
    (h : ¬ (glTargetToFaceIndex c.target = face ∧ c.level = level)) :
    (c.apply features t).levelInfo face level = t.levelInfo face level := by
  unfold levelInfo
  rw [face_apply]
  split_ifs with hface
  · rw [List.getD_eq_getElem?_getD, List.getElem?_set_ne fun hlevel => h ⟨hface, hlevel⟩,
      ← List.getD_eq_getElem?_getD]
  · rfl

theorem levelInfo_apply {c : LevelCall} (h : c.InRange t) :
    (c.apply features t).levelInfo (glTargetToFaceIndex c.target) c.level = { c.info with valid := true } := by
  have hlevel := h.level_lt
  unfold numLevels at hlevel
  unfold levelInfo
  rw [face_apply, if_pos rfl, List.getD_eq_getElem?_getD, List.getElem?_set_self hlevel, Option.getD_some]

theorem LevelCall.InRange.apply {c c' : LevelCall} (h : c.InRange t) : c.InRange (c'.apply features t) where
  face_lt := by
    rw [length_levelInfos_apply]
    exact h.face_lt
  level_lt := by
    rw [numLevels_apply]
    exact h.level_lt

def applyAll (features : FeatureFlags) (t : TextureInfo) (calls : List LevelCall) : TextureInfo :=
  calls.foldl (LevelCall.apply features) t

@[simp] theorem target_applyAll : (t.applyAll features calls).target = t.target := by
  unfold applyAll
  induction calls generalizing t with
  | nil => rfl
  | cons c calls ih => rw [foldl_cons, ih, target_apply]

@[simp] theorem length_levelInfos_applyAll :
    (t.applyAll features calls).levelInfos.length = t.levelInfos.length := by
  unfold applyAll
  induction calls generalizing t with
  | nil => rfl
  | cons c calls ih => rw [foldl_cons, ih, length_levelInfos_apply]

theorem levelInfo_applyAll_of_ne {calls : List LevelCall}
    (h : ∀ c ∈ calls, ¬ (glTargetToFaceIndex c.target = face ∧ c.level = level)) :
    (t.applyAll features calls).levelInfo face level = t.levelInfo face level := by
  unfold applyAll
  induction calls generalizing t with
  | nil => rfl
  | cons c calls ih =>
    rw [foldl_cons, ih fun c' hc' => h c' (mem_cons_of_mem _ hc'),
      levelInfo_apply_of_ne (h c mem_cons_self)]

/-- **A level has what the calls give it**, when they all give it the same. -/
theorem levelInfo_applyAll {calls : List LevelCall} (hrange : ∀ c ∈ calls, c.InRange t)
    {info : LevelInfo} (hvalid : info.valid = true)
    (hsame : ∀ c ∈ calls, glTargetToFaceIndex c.target = face → c.level = level → c.info = info)
    (hcall : ∃ c ∈ calls, glTargetToFaceIndex c.target = face ∧ c.level = level) :
    (t.applyAll features calls).levelInfo face level = info := by
  unfold applyAll
  induction calls generalizing t with
  | nil =>
    obtain ⟨c, hc, _⟩ := hcall
    cases hc
  | cons c calls ih =>
    rw [foldl_cons]
    by_cases hrest : ∃ c' ∈ calls, glTargetToFaceIndex c'.target = face ∧ c'.level = level
    · exact ih (fun c' hc' => (hrange c' (mem_cons_of_mem _ hc')).apply)
        (fun c' hc' => hsame c' (mem_cons_of_mem _ hc')) hrest
    · have hnone : ∀ c' ∈ calls, ¬ (glTargetToFaceIndex c'.target = face ∧ c'.level = level) := by
        intro c' hc' hboth
        exact hrest ⟨c', hc', hboth⟩
      have hfirst : glTargetToFaceIndex c.target = face ∧ c.level = level := by
        obtain ⟨c', hc', hboth⟩ := hcall
        rcases List.mem_cons.1 hc' with rfl | hc'
        · exact hboth
        · exact absurd hboth (hnone c' hc')
      obtain ⟨rfl, rfl⟩ := hfirst
      have hinfo := hsame c mem_cons_self rfl rfl
      rw [← applyAll, levelInfo_applyAll_of_ne hnone, levelInfo_apply (hrange c mem_cons_self), hinfo, ← hvalid]

/-- The inner loop of `MarkMipmapsGenerated` makes the calls for its face. -/
theorem generateMips_faceCalls (target : GLenum) (level0 : LevelInfo) :
    generateMips features target level0 (numMips level0 - 1).toNat 1 level0.width level0.height level0.depth t =
      t.applyAll features (faceCalls target level0) :=
  generateMips_eq target level0 (mipSize_one _) (mipSize_one _) (mipSize_one _)

theorem applyAll_append (calls' : List LevelCall) :
    t.applyAll features (calls ++ calls') = (t.applyAll features calls).applyAll features calls' :=
  List.foldl_append

/-- **`MarkMipmapsGenerated` is its calls.** -/
theorem markMipmapsGenerated_eq (h : t.canGenerateMipmaps features = true) :
    t.markMipmapsGenerated features = (t.applyAll features t.mipCalls, true) := by
  have hlevel (index : ℕ) (s : TextureInfo) : ∀ c ∈ faceCalls (t.faceTarget index) (s.levelInfo index 0),
      ∀ face, ¬ (glTargetToFaceIndex c.target = face ∧ c.level = 0) := by
    intro c hc face hboth
    obtain ⟨level, hlevel, rfl⟩ := mem_map.1 hc
    have hone := (List.mem_range'_1.1 hlevel).1
    exact absurd hboth.2 (by dsimp only; omega)
  have hfold (indices : List ℕ) (s : TextureInfo) (htarget : s.target = t.target)
      (hzero : ∀ face, s.levelInfo face 0 = t.levelInfo face 0) :
      indices.foldl (fun t index =>
        generateMips features (if t.target = GL_TEXTURE_2D then GL_TEXTURE_2D else faceIndexToGLTarget index)
          (t.levelInfo index 0) (numMips (t.levelInfo index 0) - 1).toNat 1 (t.levelInfo index 0).width
          (t.levelInfo index 0).height (t.levelInfo index 0).depth t) s =
        s.applyAll features (indices.flatMap fun index => faceCalls (t.faceTarget index) (t.levelInfo index 0)) := by
    induction indices generalizing s with
    | nil => rfl
    | cons index indices ih =>
      have hstep := ih (s.applyAll features (faceCalls (t.faceTarget index) (s.levelInfo index 0)))
        (by rw [target_applyAll, htarget])
        (fun face => by
          rw [levelInfo_applyAll_of_ne fun c hc => hlevel index s c hc face]
          exact hzero face)
      rw [foldl_cons, generateMips_faceCalls, List.flatMap_cons, applyAll_append, htarget, ← faceTarget, ← hzero]
      exact hstep
  rw [markMipmapsGenerated, h, Bool.not_true, if_neg Bool.false_ne_true]
  exact congrArg (·, true) (hfold _ t rfl fun _ => rfl)

/-! ### What holds of a texture after any calls -/

theorem update_eq : update features t = { t with
      npot := (update features t).npot
      textureComplete := (update features t).textureComplete
      cubeComplete := (update features t).cubeComplete } := by
  unfold update
  split_ifs <;> rfl

theorem forall_faces {p : List LevelInfo → Prop} :
    (∀ face ∈ t.levelInfos, p face) ↔ ∀ face < t.levelInfos.length, p (t.levelInfos.getD face []) := by
  rw [List.forall_mem_iff_getElem]
  refine forall₂_congr fun face hface => ?_
  rw [List.getD_eq_getElem?_getD, List.getElem?_eq_getElem hface, Option.getD_some]

/-- What is known of a level that was set. -/
structure LevelOk (maxSize maxLevelSet : ℤ) (level : ℕ) (info : LevelInfo) : Prop where
  valid : info.valid = true
  width : 0 ≤ info.width ∧ info.width ≤ maxSize
  height : 0 ≤ info.height ∧ info.height ≤ maxSize
  depth : 0 ≤ info.depth ∧ info.depth ≤ maxSize
  level_le : level ≤ maxLevelSet

/-- The flags are those that `Update` finds, and the levels are in the bounds of the target. -/
structure MipInv (features : FeatureFlags) (maxSize : ℤ) (levels : ℕ) (t : TextureInfo) : Prop where
  length_eq : t.levelInfos.length = if t.target = GL_TEXTURE_CUBE_MAP then 6 else 1
  numLevels_eq : ∀ face < t.levelInfos.length, t.numLevels face = levels
  updated : update features t = t
  level : ∀ face level, t.levelInfo face level = .new ∨ LevelOk maxSize t.maxLevelSet level (t.levelInfo face level)

variable {maxSize : ℤ} {levels : ℕ}

theorem MipInv.ne_nil (h : MipInv features maxSize levels t) : t.levelInfos ≠ [] := by
  intro hnil
  have hlength := h.length_eq
  rw [hnil] at hlength
  split_ifs at hlength

theorem LevelOk.mono {maxLevelSet maxLevelSet' : ℤ} {level : ℕ} {info : LevelInfo}
    (h : LevelOk maxSize maxLevelSet level info) (hle : maxLevelSet ≤ maxLevelSet') :
    LevelOk maxSize maxLevelSet' level info :=
  { h with level_le := h.level_le.trans hle }

theorem MipInv.update (h : MipInv features maxSize levels t) {t' : TextureInfo} (hinfos : t'.levelInfos = t.levelInfos)
    (htarget : t'.target = t.target) (hmax : t'.maxLevelSet = t.maxLevelSet) :
    MipInv features maxSize levels (TextureInfo.update features t') where
  length_eq := by
    rw [levelInfos_update, target_update, hinfos, htarget]
    exact h.length_eq
  numLevels_eq := by
    unfold numLevels
    rw [levelInfos_update, hinfos]
    exact h.numLevels_eq
  updated := update_update
  level := by
    unfold levelInfo
    rw [levelInfos_update, maxLevelSet_update, hinfos, hmax]
    exact h.level

@[simp] theorem maxLevelSet_apply (c : LevelCall) :
    (c.apply features t).maxLevelSet = max t.maxLevelSet c.level := maxLevelSet_update

structure LevelCall.InSize (maxSize : ℤ) (c : LevelCall) : Prop where
  width : 0 ≤ c.info.width ∧ c.info.width ≤ maxSize
  height : 0 ≤ c.info.height ∧ c.info.height ≤ maxSize
  depth : 0 ≤ c.info.depth ∧ c.info.depth ≤ maxSize

theorem MipInv.apply (h : MipInv features maxSize levels t) {c : LevelCall} (hrange : c.InRange t)
    (hsize : c.InSize maxSize) : MipInv features maxSize levels (c.apply features t) where
  length_eq := by
    rw [length_levelInfos_apply, target_apply]
    exact h.length_eq
  numLevels_eq face hface := by
    rw [length_levelInfos_apply] at hface
    rw [numLevels_apply]
    exact h.numLevels_eq face hface
  updated := update_update
  level face level := by
    rw [maxLevelSet_apply]
    by_cases hnamed : glTargetToFaceIndex c.target = face ∧ c.level = level
    · obtain ⟨rfl, rfl⟩ := hnamed
      rw [levelInfo_apply hrange]
      exact .inr ⟨rfl, hsize.width, hsize.height, hsize.depth, le_max_right _ _⟩
    · rw [levelInfo_apply_of_ne hnamed]
      exact (h.level face level).imp_right fun hok => hok.mono (le_max_left _ _)

theorem MipInv.applyAll (h : MipInv features maxSize levels t) {calls : List LevelCall}
    (hrange : ∀ c ∈ calls, c.InRange t) (hsize : ∀ c ∈ calls, c.InSize maxSize) :
    MipInv features maxSize levels (t.applyAll features calls) := by
  unfold TextureInfo.applyAll
  induction calls generalizing t with
  | nil => exact h
  | cons c calls ih =>
    rw [foldl_cons]
    exact ih (h.apply (hrange c mem_cons_self) (hsize c mem_cons_self))
      (fun c' hc' => (hrange c' (mem_cons_of_mem _ hc')).apply)
      (fun c' hc' => hsize c' (mem_cons_of_mem _ hc'))

/-- When `CanGenerateMipmaps` says so, the first levels are alike. -/
theorem isLevel0_of_canGenerateMipmaps (h : t.canGenerateMipmaps features = true) :
    t.target ≠ GL_TEXTURE_EXTERNAL_OES ∧
      ∀ face < t.levelInfos.length, IsLevel0 (t.levelInfo 0 0) (t.levelInfo face 0) := by
  unfold canGenerateMipmaps at h
  split_ifs at h with hnot
  have htarget : t.target ≠ GL_TEXTURE_EXTERNAL_OES := by
    intro hexternal
    rw [hexternal] at hnot
    simp at hnot
  refine ⟨htarget, ?_⟩
  dsimp only at h
  rw [List.all_eq_true, forall_faces] at h
  intro face hface
  have hall := h face hface
  simp only [Bool.not_eq_true', Bool.or_eq_false_iff, bne_eq_false_iff_eq, Bool.not_eq_false'] at hall
  obtain ⟨⟨⟨⟨⟨⟨hvalid, hwidth⟩, hheight⟩, hdepth⟩, hformat⟩, hinternalFormat⟩, htype⟩ := hall
  exact ⟨hvalid, hwidth, hheight, hdepth, hinternalFormat, hformat, htype⟩

/-! ### The calls of `MarkMipmapsGenerated` are within the vectors -/

theorem mem_mipCalls {c : LevelCall} (h : c ∈ t.mipCalls) :
    ∃ face < t.levelInfos.length, ∃ level : ℕ, 1 ≤ level ∧ (level : ℤ) < numMips (t.levelInfo face 0) ∧
      c = ⟨t.faceTarget face, level, mipLevel (t.levelInfo face 0) level⟩ := by
  obtain ⟨face, hface, hc⟩ := List.mem_flatMap.1 h
  obtain ⟨level, hlevel, rfl⟩ := mem_map.1 hc
  obtain ⟨hone, hlt⟩ := List.mem_range'_1.1 hlevel
  exact ⟨face, mem_range.1 hface, level, hone, by omega, rfl⟩

theorem mem_mipCalls_of_lt {face level : ℕ} (hface : face < t.levelInfos.length) (hone : 1 ≤ level)
    (hlt : (level : ℤ) < numMips (t.levelInfo face 0)) :
    (⟨t.faceTarget face, level, mipLevel (t.levelInfo face 0) level⟩ : LevelCall) ∈ t.mipCalls := by
  refine List.mem_flatMap.2 ⟨face, mem_range.2 hface, mem_map.2 ⟨level, ?_, rfl⟩⟩
  exact List.mem_range'_1.2 ⟨hone, by omega⟩

/-- `FaceIndexToGLTarget` gives a face the target that `GLTargetToFaceIndex` finds it by. -/
theorem MipInv.faceTarget (h : MipInv features maxSize levels t) {face : ℕ} (hface : face < t.levelInfos.length) :
    glTargetToFaceIndex (t.faceTarget face) = face := by
  rw [h.length_eq] at hface
  unfold TextureInfo.faceTarget
  by_cases h2D : t.target = GL_TEXTURE_2D
  · have hcube : t.target ≠ GL_TEXTURE_CUBE_MAP := by
      rw [h2D]
      decide
    rw [if_neg hcube, Nat.lt_one_iff] at hface
    rw [if_pos h2D, hface]
    rfl
  · have hsix : face < 6 := by split_ifs at hface <;> omega
    rw [if_neg h2D]
    match face, hsix with
    | 0, _ | 1, _ | 2, _ | 3, _ | 4, _ | 5, _ => rfl

theorem mipSize_le (hmax : 0 < maxSize) {size : ℤ} (hsize : 0 ≤ size) (hle : size ≤ maxSize) (level : ℕ) :
    0 ≤ mipSize size level ∧ mipSize size level ≤ maxSize := by
  unfold mipSize
  have hdiv : size / 2 ^ level ≤ size := Int.ediv_le_self _ hsize
  omega

/-- **The levels that are needed are in the vector**, as its length is the count for the largest size. -/
theorem numMips_le (hmax : 0 < maxSize) (hlt : maxSize < 2147483648)
    (hlevels : computeMipMapCount maxSize maxSize maxSize = levels) {info : LevelInfo} {maxLevelSet : ℤ} {level : ℕ}
    (hok : LevelOk maxSize maxLevelSet level info) : numMips info ≤ levels := by
  obtain ⟨_, hwidth, hheight, hdepth, _⟩ := hok
  rw [← hlevels, computeMipMapCount_eq (by omega) (by omega), max_self, max_self]
  unfold numMips
  by_cases hpos : 0 < max (max info.width info.height) info.depth
  · rw [computeMipMapCount_eq hpos (by omega)]
    have hlog := Nat.log_mono_right (b := 2)
      (show (max (max info.width info.height) info.depth).toNat ≤ maxSize.toNat by omega)
    omega
  · have hzero : max (max info.width info.height) info.depth = 0 := by omega
    rw [computeMipMapCount, hzero]
    have hnone : 1 + log2Floor (uint32OfInt 0) = 0 := rfl
    omega

theorem MipInv.levelOk (h : MipInv features maxSize levels t) {face level : ℕ}
    (hvalid : (t.levelInfo face level).valid = true) :
    LevelOk maxSize t.maxLevelSet level (t.levelInfo face level) := by
  rcases h.level face level with hnew | hok
  · rw [hnew] at hvalid
    cases hvalid
  · exact hok

/-- **No level outside the vectors is touched**, and the sizes of the calls are in the bounds. -/
theorem MipInv.mipCalls (h : MipInv features maxSize levels t) (hmax : 0 < maxSize) (hlt : maxSize < 2147483648)
    (hlevels : computeMipMapCount maxSize maxSize maxSize = levels)
    (hlevel0 : ∀ face < t.levelInfos.length, (t.levelInfo face 0).valid = true) {c : LevelCall}
    (hc : c ∈ t.mipCalls) : c.InRange t ∧ c.InSize maxSize := by
  obtain ⟨face, hface, level, hone, hlevel, rfl⟩ := mem_mipCalls hc
  have hok := h.levelOk (hlevel0 face hface)
  have hle := numMips_le hmax hlt hlevels hok
  have hindex := h.faceTarget hface
  refine ⟨⟨hindex.symm ▸ hface, ?_⟩, mipSize_le hmax hok.width.1 hok.width.2 level,
    mipSize_le hmax hok.height.1 hok.height.2 level, mipSize_le hmax hok.depth.1 hok.depth.2 level⟩
  show level < t.numLevels (glTargetToFaceIndex (t.faceTarget face))
  rw [hindex, h.numLevels_eq face hface]
  omega

/-! ### The flags after `MarkMipmapsGenerated` -/

/-- What `MarkMipmapsGenerated` does to a texture when it returns true. -/
structure MipmapsGenerated (features : FeatureFlags) (t t' : TextureInfo) : Prop where
  calls : t' = t.applyAll features t.mipCalls
  in_range : ∀ c ∈ t.mipCalls, c.InRange t
  textureComplete_iff : t'.textureComplete = true ↔
    ((t.levelInfo 0 0).width ≠ 0 ∧ (t.levelInfo 0 0).height ≠ 0) ∧ FilterOk features t
  cubeComplete_eq : t'.cubeComplete = t.cubeComplete

/-- What `texture_complete()` says of the levels. -/
structure CompleteChain (t : TextureInfo) : Prop where
  valid : (t.levelInfo 0 0).valid = true
  size_ne : (t.levelInfo 0 0).width ≠ 0 ∧ (t.levelInfo 0 0).height ≠ 0
  mips : ∀ face < t.levelInfos.length, ∀ level, 1 ≤ level →
    level < 1 + Nat.log 2 (max (max (t.levelInfo 0 0).width (t.levelInfo 0 0).height) (t.levelInfo 0 0).depth).toNat →
      IsMip (t.levelInfo face 0) level (t.levelInfo face level)
  faces : t.cubeComplete = true → ∀ face < t.levelInfos.length, IsLevel0 (t.levelInfo 0 0) (t.levelInfo face 0)

theorem filters_applyAll (calls : List LevelCall) :
    (t.applyAll features calls).minFilter = t.minFilter ∧ (t.applyAll features calls).magFilter = t.magFilter := by
  unfold applyAll
  induction calls generalizing t with
  | nil => exact ⟨rfl, rfl⟩
  | cons c calls ih =>
    have hmin : (c.apply features t).minFilter = t.minFilter := minFilter_update
    have hmag : (c.apply features t).magFilter = t.magFilter := by
      unfold LevelCall.apply setLevelInfo
      rw [update_eq]
    rw [foldl_cons, (@ih _).1, (@ih _).2, hmin, hmag]
    exact ⟨rfl, rfl⟩

theorem MipInv.textureComplete_iff (h : MipInv features maxSize levels t) :
    t.textureComplete = true ↔ (t.levelsNeeded - 1 ≤ t.maxLevelSet ∧ 0 ≤ t.maxLevelSet) ∧
      ((t.levelInfo 0 0).width ≠ 0 ∧ (t.levelInfo 0 0).height ≠ 0) ∧ FilterOk features t ∧
      ∀ face < t.levelInfos.length, ∀ k < (t.levelsNeeded - 1).toNat,
        IsMip (t.levelInfo face 0) (1 + k) (t.levelInfo face (1 + k)) := by
  have hupdate := @textureComplete_update features t h.ne_nil
  rw [h.updated, forall_faces] at hupdate
  exact hupdate

theorem MipInv.cubeComplete_iff (h : MipInv features maxSize levels t) :
    t.cubeComplete = true ↔ t.levelInfos.length = 6 ∧ (t.levelInfo 0 0).width = (t.levelInfo 0 0).height ∧
      ∀ face < t.levelInfos.length, IsLevel0 (t.levelInfo 0 0) (t.levelInfo face 0) := by
  have hupdate := @cubeComplete_update features t h.ne_nil
  rw [h.updated, forall_faces] at hupdate
  exact hupdate

/-- `MarkMipmapsGenerated` returns true only if `CanGenerateMipmaps` does. -/
theorem canGenerateMipmaps_of_markMipmapsGenerated {t' : TextureInfo}
    (hmark : t.markMipmapsGenerated features = (t', true)) : t.canGenerateMipmaps features = true := by
  by_contra hnot
  rw [markMipmapsGenerated, if_pos (by simpa using hnot)] at hmark
  cases hmark

theorem levelInfo_mipCalls (face : ℕ) : (t.applyAll features t.mipCalls).levelInfo face 0 = t.levelInfo face 0 := by
  refine levelInfo_applyAll_of_ne fun c hc hnamed => ?_
  obtain ⟨_, _, level, hone, _, rfl⟩ := mem_mipCalls hc
  exact absurd hnamed.2 (by dsimp only; omega)

/-- **The calls leave the mips of the first level** in the vector of each face. -/
theorem MipInv.isMip_mipCalls (h : MipInv features maxSize levels t) (hrange : ∀ c ∈ t.mipCalls, c.InRange t)
    (hlevel0 : ∀ face < t.levelInfos.length, IsLevel0 (t.levelInfo 0 0) (t.levelInfo face 0)) {face k : ℕ}
    (hface : face < t.levelInfos.length) (hk : k < (t.levelsNeeded - 1).toNat) :
    IsMip (t.levelInfo face 0) (1 + k) ((t.applyAll features t.mipCalls).levelInfo face (1 + k)) := by
  have hnum : numMips (t.levelInfo face 0) = t.levelsNeeded := by
    have hfirst := hlevel0 0 (Nat.zero_lt_of_lt hface)
    have hthis := hlevel0 face hface
    unfold numMips levelsNeeded
    rw [hthis.width_eq, hthis.height_eq, hthis.depth_eq, hfirst.depth_eq]
  have hcall := mem_mipCalls_of_lt hface (Nat.le_add_right 1 k) (by omega)
  rw [levelInfo_applyAll hrange (isMip_mipLevel (t.levelInfo face 0) (1 + k)).valid ?_
    ⟨_, hcall, h.faceTarget hface, rfl⟩]
  · exact isMip_mipLevel _ _
  · intro c hc hindex hlevel
    obtain ⟨face', hface', level', _, _, rfl⟩ := mem_mipCalls hc
    dsimp only at hindex hlevel ⊢
    rw [h.faceTarget hface'] at hindex
    rw [hindex, hlevel]

theorem filterOk_mipCalls : FilterOk features (t.applyAll features t.mipCalls) ↔ FilterOk features t := by
  obtain ⟨hmin, hmag⟩ := @filters_applyAll features t t.mipCalls
  unfold FilterOk Nearest
  rw [levelInfo_mipCalls, hmin, hmag]

theorem MipInv.mipmapsGenerated (h : MipInv features maxSize levels t) (hmax : 0 < maxSize) (hlt : maxSize < 2147483648)
    (hlevels : computeMipMapCount maxSize maxSize maxSize = levels) {t' : TextureInfo}
    (hmark : t.markMipmapsGenerated features = (t', true)) : MipmapsGenerated features t t' := by
  have hcan := canGenerateMipmaps_of_markMipmapsGenerated hmark
  obtain ⟨_, hlevel0⟩ := isLevel0_of_canGenerateMipmaps hcan
  have hcalls {c : LevelCall} (hc : c ∈ t.mipCalls) : c.InRange t ∧ c.InSize maxSize :=
    h.mipCalls hmax hlt hlevels (fun face hface => (hlevel0 face hface).valid) hc
  rw [markMipmapsGenerated_eq hcan] at hmark
  obtain rfl : t.applyAll features t.mipCalls = t' := congrArg Prod.fst hmark
  have h' := h.applyAll (fun c hc => (hcalls hc).1) (fun c hc => (hcalls hc).2)
  have hmips {face k : ℕ} := @h.isMip_mipCalls _ _ _ _ (fun c hc => (hcalls hc).1) hlevel0 face k
  refine ⟨rfl, fun c hc => (hcalls hc).1, ?_, ?_⟩
  · have hneeded : (t.applyAll features t.mipCalls).levelsNeeded = t.levelsNeeded := by
      unfold levelsNeeded
      rw [levelInfo_mipCalls]
    have hpos : 0 < t.levelInfos.length := List.length_pos_iff.2 h.ne_nil
    have hzero : 0 ≤ (t.applyAll features t.mipCalls).maxLevelSet := by
      have hvalid : ((t.applyAll features t.mipCalls).levelInfo 0 0).valid = true := by
        rw [levelInfo_mipCalls]
        exact (hlevel0 0 hpos).valid
      exact (h'.levelOk hvalid).level_le
    have hset : t.levelsNeeded - 1 ≤ (t.applyAll features t.mipCalls).maxLevelSet := by
      by_cases hmany : 1 < t.levelsNeeded
      · have hlast := @hmips 0 ((t.levelsNeeded - 1).toNat - 1) hpos (by omega)
        have hle := (h'.levelOk hlast.valid).level_le
        omega
      · omega
    rw [h'.textureComplete_iff, hneeded, filterOk_mipCalls, levelInfo_mipCalls, length_levelInfos_applyAll]
    constructor
    · rintro ⟨_, hsize, hfilter, _⟩
      exact ⟨hsize, hfilter⟩
    · rintro ⟨hsize, hfilter⟩
      refine ⟨⟨hset, hzero⟩, hsize, hfilter, fun face hface k hk => ?_⟩
      rw [levelInfo_mipCalls]
      exact hmips hface hk
  · have hiff : (t.applyAll features t.mipCalls).cubeComplete = true ↔ t.cubeComplete = true := by
      rw [h'.cubeComplete_iff, h.cubeComplete_iff, length_levelInfos_applyAll]
      simp only [levelInfo_mipCalls]
    exact Bool.eq_iff_iff.2 hiff

theorem MipInv.completeChain (h : MipInv features maxSize levels t) (hlt : maxSize < 2147483648)
    (hcomplete : t.textureComplete = true) : CompleteChain t := by
  obtain ⟨_, hsize, _, hmips⟩ := h.textureComplete_iff.1 hcomplete
  have hvalid : (t.levelInfo 0 0).valid = true := by
    rcases h.level 0 0 with hnew | hok
    · rw [hnew] at hsize
      exact absurd rfl hsize.1
    · exact hok.valid
  obtain ⟨_, hwidth, hheight, hdepth, _⟩ := h.levelOk hvalid
  have hneeded : t.levelsNeeded = 1 + Nat.log 2
      (max (max (t.levelInfo 0 0).width (t.levelInfo 0 0).height) (t.levelInfo 0 0).depth).toNat :=
    computeMipMapCount_eq (by omega) (by omega)
  refine ⟨hvalid, hsize, fun face hface level hone hlevel => ?_, fun hcube => (h.cubeComplete_iff.1 hcube).2.2⟩
  have hmip := hmips face hface (level - 1) (by omega)
  rwa [Nat.add_sub_cancel' hone] at hmip

/-! ### Runs -/

section Runs

variable (features : FeatureFlags) (maxTextureSize maxCubeMapTextureSize : ℤ)

def maxSizeForTarget (target : GLenum) : ℤ :=
  if target = GL_TEXTURE_2D ∨ target = GL_TEXTURE_EXTERNAL_OES then maxTextureSize else maxCubeMapTextureSize

def validForTarget (target : GLenum) (level width height depth : ℤ) : Bool :=
  let maxSize := maxSizeForTarget maxTextureSize maxCubeMapTextureSize target
  0 ≤ level && 0 ≤ width && 0 ≤ height && 0 ≤ depth &&
    level < (TextureManager.new maxTextureSize maxCubeMapTextureSize).maxLevelsForTarget target &&
    width ≤ maxSize && height ≤ maxSize && depth ≤ maxSize &&
    (level == 0 || features.npotOk ||
      (!isNPOT (uint32OfInt width) && !isNPOT (uint32OfInt height) && !isNPOT (uint32OfInt depth))) &&
    (target != GL_TEXTURE_CUBE_MAP || (width == height && depth == 1)) &&
    (target != GL_TEXTURE_2D || depth == 1)

/-- The targets of the calls that reach a texture that is bound to `target`. -/
def faceTargets (target : GLenum) : List GLenum :=
  if target = GL_TEXTURE_CUBE_MAP then (List.range kNumFaces).map faceIndexToGLTarget else [target]

inductive Call
  | setLevelInfo (target : GLenum) (level : ℤ) (internalFormat : GLenum) (width height depth border : ℤ)
      (format type : GLenum)
  | setParameter (pname : GLenum) (param : ℤ)
  | markMipmapsGenerated

def textureInfo : TransSys TextureInfo Call where
  init t := 0 < maxTextureSize ∧ maxTextureSize < 2147483648 ∧
    0 < maxCubeMapTextureSize ∧ maxCubeMapTextureSize < 2147483648 ∧
      ∃ (serviceId : UInt32) (target : GLenum),
        (target = GL_TEXTURE_2D ∨ target = GL_TEXTURE_CUBE_MAP ∨ target = GL_TEXTURE_EXTERNAL_OES) ∧
        t = (new serviceId).setTarget target
          ((TextureManager.new maxTextureSize maxCubeMapTextureSize).maxLevelsForTarget target)
  step t l t' :=
    match l with
    | .setLevelInfo target level internalFormat width height depth border format type =>
      target ∈ faceTargets t.target ∧
        validForTarget features maxTextureSize maxCubeMapTextureSize target level width height depth = true ∧
        t' = t.setLevelInfo features target level internalFormat width height depth border format type
    | .setParameter pname param => t' = (t.setParameter features pname param).1
    | .markMipmapsGenerated => t' = (t.markMipmapsGenerated features).1

end Runs

variable {maxTextureSize maxCubeMapTextureSize : ℤ}

structure RunInv (features : FeatureFlags) (maxTextureSize maxCubeMapTextureSize : ℤ) (t : TextureInfo) : Prop where
  textureSize : 0 < maxTextureSize ∧ maxTextureSize < 2147483648
  cubeMapSize : 0 < maxCubeMapTextureSize ∧ maxCubeMapTextureSize < 2147483648
  target : t.target = GL_TEXTURE_2D ∨ t.target = GL_TEXTURE_CUBE_MAP ∨ t.target = GL_TEXTURE_EXTERNAL_OES
  mip : MipInv features (maxSizeForTarget maxTextureSize maxCubeMapTextureSize t.target)
    ((TextureManager.new maxTextureSize maxCubeMapTextureSize).maxLevelsForTarget t.target).toNat t

theorem RunInv.bounds (h : RunInv features maxTextureSize maxCubeMapTextureSize t) :
    0 < maxSizeForTarget maxTextureSize maxCubeMapTextureSize t.target ∧
      maxSizeForTarget maxTextureSize maxCubeMapTextureSize t.target < 2147483648 ∧
      (t.target ≠ GL_TEXTURE_EXTERNAL_OES →
        computeMipMapCount (maxSizeForTarget maxTextureSize maxCubeMapTextureSize t.target)
          (maxSizeForTarget maxTextureSize maxCubeMapTextureSize t.target)
          (maxSizeForTarget maxTextureSize maxCubeMapTextureSize t.target) =
          ((TextureManager.new maxTextureSize maxCubeMapTextureSize).maxLevelsForTarget t.target).toNat) := by
  obtain ⟨htex, htex'⟩ := h.textureSize
  obtain ⟨hcube, hcube'⟩ := h.cubeMapSize
  have htexCount := TextureManager.computeMipMapCount_pos htex htex'
  have hcubeCount := TextureManager.computeMipMapCount_pos hcube hcube'
  rcases h.target with htarget | htarget | htarget
  all_goals rw [htarget]
  · exact ⟨htex, htex', fun _ => (Int.toNat_of_nonneg htexCount.le).symm⟩
  · exact ⟨hcube, hcube', fun _ => (Int.toNat_of_nonneg hcubeCount.le).symm⟩
  · exact ⟨htex, htex', fun hne => absurd rfl hne⟩

theorem RunInv.faceTargets (h : RunInv features maxTextureSize maxCubeMapTextureSize t) {target : GLenum}
    (htarget : target ∈ faceTargets t.target) :
    glTargetToFaceIndex target < t.levelInfos.length ∧
      maxSizeForTarget maxTextureSize maxCubeMapTextureSize target =
        maxSizeForTarget maxTextureSize maxCubeMapTextureSize t.target ∧
      (TextureManager.new maxTextureSize maxCubeMapTextureSize).maxLevelsForTarget target =
        (TextureManager.new maxTextureSize maxCubeMapTextureSize).maxLevelsForTarget t.target := by
  rw [h.mip.length_eq]
  unfold TextureInfo.faceTargets at htarget
  rcases h.target with ht | ht | ht
  · rw [ht, if_neg (by decide), List.mem_singleton] at htarget
    rw [ht, htarget]
    exact ⟨by decide, rfl, rfl⟩
  · rw [ht, if_pos rfl] at htarget
    obtain ⟨face, hface, rfl⟩ := mem_map.1 htarget
    rw [mem_range] at hface
    rw [ht]
    match face, hface with
    | 0, _ | 1, _ | 2, _ | 3, _ | 4, _ | 5, _ => exact ⟨by decide, rfl, rfl⟩
  · rw [ht, if_neg (by decide), List.mem_singleton] at htarget
    rw [ht, htarget]
    exact ⟨by decide, rfl, rfl⟩

theorem levelInfo_setTarget_new (serviceId : UInt32) (target : GLenum) (maxLevels : ℤ) :
    let t := (new serviceId).setTarget target maxLevels
    t.target = target ∧ t.levelInfos.length = (if target = GL_TEXTURE_CUBE_MAP then 6 else 1) ∧
      (∀ face < t.levelInfos.length, t.numLevels face = maxLevels.toNat) ∧
      (∀ face level, t.levelInfo face level = .new) ∧ t.maxLevelSet = -1 ∧ t.npot = false ∧
      t.textureComplete = false ∧ t.cubeComplete = false := by
  obtain ⟨numFaces, hnum⟩ : ∃ n, (if target = GL_TEXTURE_CUBE_MAP then 6 else 1) = n := ⟨_, rfl⟩
  have hinfos : ((new serviceId).setTarget target maxLevels).levelInfos =
      List.replicate numFaces (List.replicate maxLevels.toNat .new) := by
    rw [setTarget, hnum]
    split_ifs <;> simp [resize, new]
  have hface (face : ℕ) (hlt : face < numFaces) :
      ((new serviceId).setTarget target maxLevels).levelInfos.getD face [] = List.replicate maxLevels.toNat .new := by
    rw [hinfos, List.getD_eq_getElem?_getD, List.getElem?_replicate_of_lt hlt, Option.getD_some]
  dsimp only
  rw [hnum]
  refine ⟨?_, by rw [hinfos, List.length_replicate], fun face hlt => ?_, fun face level => ?_, ?_⟩
  · unfold setTarget
    split_ifs <;> rfl
  · rw [hinfos, List.length_replicate] at hlt
    rw [numLevels, hface face hlt, List.length_replicate]
  · unfold levelInfo
    rw [hinfos, List.getD_eq_getElem?_getD, List.getD_eq_getElem?_getD, List.getElem?_replicate]
    split_ifs
    · rw [Option.getD_some, List.getElem?_replicate]
      split_ifs <;> rfl
    · rfl
  · unfold setTarget
    split_ifs <;> exact ⟨rfl, rfl, rfl, rfl⟩

/-- The flags of a texture that has no images are those that `Update` finds. -/
theorem update_of_new (hne : t.levelInfos ≠ []) (hnew : ∀ face level, t.levelInfo face level = .new)
    (hmax : t.maxLevelSet = -1) (hnpot : t.npot = false) (htexture : t.textureComplete = false)
    (hcube : t.cubeComplete = false) : update features t = t := by
  have hpos : 0 < t.levelInfos.length := List.length_pos_iff.2 hne
  have htexture' : (update features t).textureComplete = t.textureComplete := by
    rw [htexture, ← Bool.not_eq_true, textureComplete_update hne, hmax]
    exact fun h => nomatch h.1.2
  have hcube' : (update features t).cubeComplete = t.cubeComplete := by
    rw [hcube, ← Bool.not_eq_true, cubeComplete_update hne, forall_faces]
    intro h
    have hvalid := (h.2.2 0 hpos).valid
    rw [← levelInfo, hnew] at hvalid
    cases hvalid
  have hnpot' : (update features t).npot = t.npot := by
    rw [update, hnpot, if_neg (by simpa using hne)]
    dsimp only
    rw [List.any_eq_false, forall_faces]
    intro face _
    rw [← levelInfo, hnew]
    decide
  rw [update_eq, htexture', hcube', hnpot']

theorem runInv_init {t : TextureInfo} (h : (textureInfo features maxTextureSize maxCubeMapTextureSize).init t) :
    RunInv features maxTextureSize maxCubeMapTextureSize t := by
  obtain ⟨h1, h2, h3, h4, serviceId, target, htarget, rfl⟩ := h
  obtain ⟨heq, hlength, hlevels, hnew, hmax, hnpot, htexture, hcube⟩ := levelInfo_setTarget_new serviceId target
    ((TextureManager.new maxTextureSize maxCubeMapTextureSize).maxLevelsForTarget target)
  have hne : ((new serviceId).setTarget target
      ((TextureManager.new maxTextureSize maxCubeMapTextureSize).maxLevelsForTarget target)).levelInfos ≠ [] := by
    intro hnil
    rw [hnil] at hlength
    split_ifs at hlength
  exact {
    textureSize := ⟨h1, h2⟩
    cubeMapSize := ⟨h3, h4⟩
    target := by rwa [heq]
    mip := {
      length_eq := by rwa [heq]
      numLevels_eq := by rwa [heq]
      updated := update_of_new hne hnew hmax hnpot htexture hcube
      level := fun face level => .inl (hnew face level) } }

/-- A call of `SetLevelInfo` that passed `ValidForTarget`. -/
theorem RunInv.setLevelInfo (h : RunInv features maxTextureSize maxCubeMapTextureSize t) {target : GLenum}
    {level width height depth : ℤ} (htarget : target ∈ TextureInfo.faceTargets t.target)
    (hvalid : validForTarget features maxTextureSize maxCubeMapTextureSize target level width height depth = true)
    (internalFormat : GLenum) (border : ℤ) (format type : GLenum) :
    RunInv features maxTextureSize maxCubeMapTextureSize
      (t.setLevelInfo features target level internalFormat width height depth border format type) := by
  obtain ⟨hface, hsize, hlevels⟩ := h.faceTargets htarget
  simp only [validForTarget, Bool.and_eq_true, decide_eq_true_eq, hsize, hlevels] at hvalid
  obtain ⟨⟨⟨⟨⟨⟨⟨⟨⟨⟨hlevel, hwidth⟩, hheight⟩, hdepth⟩, hlevel'⟩, hwidth'⟩, hheight'⟩, hdepth'⟩, _⟩, _⟩, _⟩ := hvalid
  obtain ⟨n, rfl⟩ := Int.eq_ofNat_of_zero_le hlevel
  have hrange : LevelCall.InRange t ⟨target, n, ⟨true, internalFormat, width, height, depth, border, format, type⟩⟩ := by
    refine ⟨hface, ?_⟩
    rw [h.mip.numLevels_eq _ hface]
    dsimp only
    omega
  have hmip := h.mip.apply hrange ⟨⟨hwidth, hwidth'⟩, ⟨hheight, hheight'⟩, ⟨hdepth, hdepth'⟩⟩
  have htarget' : (t.setLevelInfo features target n internalFormat width height depth border format type).target =
      t.target := target_update
  exact ⟨h.textureSize, h.cubeMapSize, by rw [htarget']; exact h.target, by rw [htarget']; exact hmip⟩

theorem RunInv.setParameter (h : RunInv features maxTextureSize maxCubeMapTextureSize t) (pname : GLenum) (param : ℤ) :
    RunInv features maxTextureSize maxCubeMapTextureSize (t.setParameter features pname param).1 := by
  have hupdate (t' : TextureInfo) (hinfos : t'.levelInfos = t.levelInfos) (htarget : t'.target = t.target)
      (hmax : t'.maxLevelSet = t.maxLevelSet) :
      RunInv features maxTextureSize maxCubeMapTextureSize (TextureInfo.update features t') := by
    refine ⟨h.textureSize, h.cubeMapSize, ?_, ?_⟩
    all_goals rw [target_update, htarget]
    · exact h.target
    · exact h.mip.update hinfos htarget hmax
  dsimp only [TextureInfo.setParameter]
  split_ifs
  all_goals first
    | exact h
    | exact hupdate _ rfl rfl rfl

theorem RunInv.markMipmapsGenerated (h : RunInv features maxTextureSize maxCubeMapTextureSize t) :
    RunInv features maxTextureSize maxCubeMapTextureSize (t.markMipmapsGenerated features).1 := by
  by_cases hcan : t.canGenerateMipmaps features = true
  · obtain ⟨hexternal, hlevel0⟩ := isLevel0_of_canGenerateMipmaps hcan
    obtain ⟨hmax, hlt, hlevels⟩ := h.bounds
    have hcalls {c : LevelCall} (hc : c ∈ t.mipCalls) :=
      h.mip.mipCalls hmax hlt (hlevels hexternal) (fun face hface => (hlevel0 face hface).valid) hc
    rw [markMipmapsGenerated_eq hcan]
    refine ⟨h.textureSize, h.cubeMapSize, ?_, ?_⟩
    · rw [target_applyAll]
      exact h.target
    · rw [target_applyAll]
      exact h.mip.applyAll (fun c hc => (hcalls hc).1) (fun c hc => (hcalls hc).2)
  · rw [TextureInfo.markMipmapsGenerated, if_pos (by simpa using hcan)]
    exact h

theorem runInv_run {tr : List Call} (h : (textureInfo features maxTextureSize maxCubeMapTextureSize).Run tr t) :
    RunInv features maxTextureSize maxCubeMapTextureSize t := by
  refine h.invariant (I := fun t => RunInv features maxTextureSize maxCubeMapTextureSize t)
    (fun _ => runInv_init) ?_
  intro t l t' hi hst
  cases l with
  | setLevelInfo target level internalFormat width height depth border format type =>
    obtain ⟨hmem, hvalid, rfl⟩ := hst
    exact hi.setLevelInfo hmem hvalid internalFormat border format type
  | setParameter pname param =>
    obtain rfl := hst
    exact hi.setParameter pname param
  | markMipmapsGenerated =>
    obtain rfl := hst
    exact hi.markMipmapsGenerated

/-- **The two loops agree after any calls.**  When `MarkMipmapsGenerated` returns true it has touched no level
outside the vectors, left `cube_complete()` alone and made the texture complete, if the first level is not empty
and may be filtered.  A texture that is complete has the levels of every face, and, when `cube_complete()` says
so too, its first levels. -/
theorem mipmaps_run {tr : List Call} (h : (textureInfo features maxTextureSize maxCubeMapTextureSize).Run tr t) :
    (∀ t', t.markMipmapsGenerated features = (t', true) → MipmapsGenerated features t t') ∧
      (t.textureComplete = true → CompleteChain t) := by
  have hinv := runInv_run h
  obtain ⟨hmax, hlt, hlevels⟩ := hinv.bounds
  refine ⟨fun t' hmark => ?_, hinv.mip.completeChain hlt⟩
  have hcan := canGenerateMipmaps_of_markMipmapsGenerated hmark
  exact hinv.mip.mipmapsGenerated hmax hlt (hlevels (isLevel0_of_canGenerateMipmaps hcan).1) hmark

/-- A texture of a manager with small sizes, and one image for its first face. -/
def oneImage (target face : GLenum) (width height : ℤ) : TextureInfo :=
  ((new 1).setTarget target ((TextureManager.new 8 8).maxLevelsForTarget target)).setLevelInfo .new face 0 GL_RGBA
    width height 1 0 GL_RGBA GL_UNSIGNED_BYTE

theorem run_oneImage {target face : GLenum} {width height : ℤ}
    (htarget : target = GL_TEXTURE_2D ∨ target = GL_TEXTURE_CUBE_MAP ∨ target = GL_TEXTURE_EXTERNAL_OES)
    (hface : face ∈ faceTargets
      ((new 1).setTarget target ((TextureManager.new 8 8).maxLevelsForTarget target)).target)
    (hvalid : validForTarget .new 8 8 face 0 width height 1 = true) :
    (textureInfo .new 8 8).Run [.setLevelInfo face 0 GL_RGBA width height 1 0 GL_RGBA GL_UNSIGNED_BYTE]
      (oneImage target face width height) := by
  have hbound : (textureInfo .new 8 8).Run []
      ((new 1).setTarget target ((TextureManager.new 8 8).maxLevelsForTarget target)) :=
    .init ⟨by decide, by decide, by decide, by decide, 1, target, htarget, rfl⟩
  exact hbound.step (l := Call.setLevelInfo face 0 GL_RGBA width height 1 0 GL_RGBA GL_UNSIGNED_BYTE)
    ⟨hface, hvalid, rfl⟩

theorem mipmaps_run_oneImage : MipmapsGenerated .new (oneImage GL_TEXTURE_2D GL_TEXTURE_2D 4 2)
        ((oneImage GL_TEXTURE_2D GL_TEXTURE_2D 4 2).markMipmapsGenerated .new).1 ∧
      CompleteChain (oneImage GL_TEXTURE_2D GL_TEXTURE_2D 1 1) := by
  have hfour := @run_oneImage GL_TEXTURE_2D GL_TEXTURE_2D 4 2 (Or.inl rfl)
    (show GL_TEXTURE_2D ∈ faceTargets GL_TEXTURE_2D by decide) (by decide +kernel)
  have hone := @run_oneImage GL_TEXTURE_2D GL_TEXTURE_2D 1 1 (Or.inl rfl)
    (show GL_TEXTURE_2D ∈ faceTargets GL_TEXTURE_2D by decide) (by decide +kernel)
  exact ⟨(mipmaps_run hfour).1 _ (by decide +kernel), (mipmaps_run hone).2 (by decide +kernel)⟩

/-- **An empty texture has its mips generated and is not complete, and a cube map with one face of one pixel is
complete.** -/
theorem textureComplete_oneImage :
    ¬ (∀ (tr : List Call) (t t' : TextureInfo), (textureInfo .new 8 8).Run tr t →
        t.markMipmapsGenerated .new = (t', true) → FilterOk .new t → t'.textureComplete = true) ∧
    ¬ (∀ (tr : List Call) (t : TextureInfo), (textureInfo .new 8 8).Run tr t → t.textureComplete = true →
        ∀ face < t.levelInfos.length, ∀ level : ℕ, (level : ℤ) < t.levelsNeeded →
          (t.levelInfo face level).valid = true) := by
  constructor
  · intro h
    have hempty := @run_oneImage GL_TEXTURE_2D GL_TEXTURE_2D 0 0 (Or.inl rfl)
      (show GL_TEXTURE_2D ∈ faceTargets GL_TEXTURE_2D by decide) (by decide +kernel)
    have hcomplete := h _ _ ((oneImage GL_TEXTURE_2D GL_TEXTURE_2D 0 0).markMipmapsGenerated .new).1 hempty
      (by decide +kernel)
      ⟨fun htype => absurd htype (by decide +kernel), fun htype => absurd htype (by decide +kernel)⟩
    revert hcomplete
    decide +kernel
  · intro h
    have hcube := @run_oneImage GL_TEXTURE_CUBE_MAP GL_TEXTURE_CUBE_MAP_POSITIVE_X 1 1 (Or.inr (Or.inl rfl))
      (show GL_TEXTURE_CUBE_MAP_POSITIVE_X ∈ faceTargets GL_TEXTURE_CUBE_MAP by decide) (by decide +kernel)
    have hvalid := h _ _ hcube (by decide +kernel) 1 (by decide +kernel) 0 (by decide +kernel)
    revert hvalid
    decide +kernel

end TextureInfo

end Chromium.Gpu
