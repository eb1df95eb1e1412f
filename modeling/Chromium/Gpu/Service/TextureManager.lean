import Chromium.Gpu.Common.GLES2CmdUtils
import Chromium.Lib.CountMap
import Chromium.Lib.MachineInt
import Chromium.Lib.TransSys

/-!
# The texture manager

`gpu/command_buffer/service/texture_manager.cc`.  The manager keeps the infos of all
textures, and counts those that can not be rendered: before a draw call, when there is
any, the decoder binds a black texture in the place of each of them.

The counter is not computed from the infos.  Every call that changes an info takes it
out of the count before and puts it back in afterwards (`TextureManager.counted`).
-/

namespace Chromium.Gpu

open Lib

/-- The flags of `FeatureInfo` that the textures depend on. -/
structure FeatureFlags where
  oesEglImageExternal : Bool
  npotOk : Bool
  enableTextureFloatLinear : Bool
  enableTextureHalfFloatLinear : Bool
  deriving DecidableEq, Repr

/-- The constructor of `FeatureFlags`. -/
def FeatureFlags.new : FeatureFlags := ⟨false, false, false, false⟩

/-- `validators()->texture_min_filter_mode`. -/
def textureMinFilterMode : List GLenum :=
  [GL_NEAREST, GL_LINEAR, GL_NEAREST_MIPMAP_NEAREST, GL_LINEAR_MIPMAP_NEAREST,
    GL_NEAREST_MIPMAP_LINEAR, GL_LINEAR_MIPMAP_LINEAR]

/-- `validators()->texture_mag_filter_mode`. -/
def textureMagFilterMode : List GLenum := [GL_NEAREST, GL_LINEAR]

/-- `validators()->texture_wrap_mode`. -/
def textureWrapMode : List GLenum := [GL_CLAMP_TO_EDGE, GL_MIRRORED_REPEAT, GL_REPEAT]

def log2Floor (n : UInt32) : ℤ :=
  if n = 0 then -1
  else
    ([16, 8, 4, 2, 1].foldl (fun (s : ℤ × UInt32) (shift : ℕ) =>
      let x := s.2 >>> UInt32.ofNat shift
      if x ≠ 0 then (s.1 + shift, x) else s) (0, n)).1

def computeMipMapCount (width height depth : ℤ) : ℤ :=
  1 + log2Floor (uint32OfInt (max (max width height) depth))

def glTargetToFaceIndex (target : GLenum) : ℕ :=
  if target = GL_TEXTURE_2D ∨ target = GL_TEXTURE_EXTERNAL_OES then 0
  else if target = GL_TEXTURE_CUBE_MAP_POSITIVE_X then 0
  else if target = GL_TEXTURE_CUBE_MAP_NEGATIVE_X then 1
  else if target = GL_TEXTURE_CUBE_MAP_POSITIVE_Y then 2
  else if target = GL_TEXTURE_CUBE_MAP_NEGATIVE_Y then 3
  else if target = GL_TEXTURE_CUBE_MAP_POSITIVE_Z then 4
  else if target = GL_TEXTURE_CUBE_MAP_NEGATIVE_Z then 5
  else 0

def faceIndexToGLTarget (index : ℕ) : GLenum :=
  match index with
  | 0 => GL_TEXTURE_CUBE_MAP_POSITIVE_X
  | 1 => GL_TEXTURE_CUBE_MAP_NEGATIVE_X
  | 2 => GL_TEXTURE_CUBE_MAP_POSITIVE_Y
  | 3 => GL_TEXTURE_CUBE_MAP_NEGATIVE_Y
  | 4 => GL_TEXTURE_CUBE_MAP_POSITIVE_Z
  | 5 => GL_TEXTURE_CUBE_MAP_NEGATIVE_Z
  | _ => 0

structure LevelInfo where
  valid : Bool
  internalFormat : GLenum
  width : ℤ
  height : ℤ
  depth : ℤ
  border : ℤ
  format : GLenum
  type : GLenum
  deriving DecidableEq, Repr

def LevelInfo.new : LevelInfo := ⟨false, 0, 0, 0, 0, 0, 0, 0⟩

structure TextureInfo where
  levelInfos : List (List LevelInfo)
  serviceId : UInt32
  deleted : Bool
  target : GLenum
  minFilter : GLenum
  magFilter : GLenum
  wrapS : GLenum
  wrapT : GLenum
  maxLevelSet : ℤ
  textureComplete : Bool
  cubeComplete : Bool
  npot : Bool
  deriving DecidableEq, Repr

namespace TextureInfo

def new (serviceId : UInt32) : TextureInfo where
  levelInfos := []
  serviceId := serviceId
  deleted := false
  target := 0
  minFilter := GL_NEAREST_MIPMAP_LINEAR
  magFilter := GL_LINEAR
  wrapS := GL_REPEAT
  wrapT := GL_REPEAT
  maxLevelSet := -1
  textureComplete := false
  cubeComplete := false
  npot := false

/-- `level_infos_[face][level]`. -/
def levelInfo (t : TextureInfo) (face level : ℕ) : LevelInfo :=
  (t.levelInfos.getD face []).getD level .new

def needsMips (t : TextureInfo) : Bool := t.minFilter != GL_NEAREST && t.minFilter != GL_LINEAR

def canRender (features : FeatureFlags) (t : TextureInfo) : Bool :=
  if t.target = 0 ∨ t.deleted then false
  else if t.npot && !features.npotOk then
    !t.needsMips && t.wrapS == GL_CLAMP_TO_EDGE && t.wrapT == GL_CLAMP_TO_EDGE
  else if t.needsMips then
    if t.target = GL_TEXTURE_2D then t.textureComplete else t.textureComplete && t.cubeComplete
  else true

/-- The inner loop of `Update`: the levels from `level` on, `n` of them, halve the
dimensions and have the formats of the level zero. -/
def mipsComplete (level0 : LevelInfo) (face : List LevelInfo) : ℕ → ℕ → ℤ → ℤ → ℤ → Bool
  | 0, _, _, _, _ => true
  | n + 1, level, width, height, depth =>
    let width := max (1 : ℤ) (width >>> (1 : ℕ))
    let height := max (1 : ℤ) (height >>> (1 : ℕ))
    let depth := max (1 : ℤ) (depth >>> (1 : ℕ))
    let info := face.getD level .new
    if !info.valid || info.width != width || info.height != height || info.depth != depth ||
        info.internalFormat != level0.internalFormat || info.format != level0.format ||
        info.type != level0.type then
      false
    else mipsComplete level0 face n (level + 1) width height depth

/-- A turn of the outer loop of `Update`; it does nothing any more when both are false. -/
def updateFace (levelsNeeded : ℤ) (firstFace : LevelInfo) (complete : Bool × Bool)
    (face : List LevelInfo) : Bool × Bool :=
  let (textureComplete, cubeComplete) := complete
  if !(cubeComplete || textureComplete) then complete
  else
    let level0 := face.getD 0 .new
    let cubeComplete :=
      if !level0.valid || level0.width != firstFace.width || level0.height != firstFace.height ||
          level0.depth != 1 || level0.internalFormat != firstFace.internalFormat ||
          level0.format != firstFace.format || level0.type != firstFace.type then
        false
      else cubeComplete
    let textureComplete :=
      if mipsComplete level0 face (levelsNeeded - 1).toNat 1 level0.width level0.height
          level0.depth then
        textureComplete
      else false
    (textureComplete, cubeComplete)

def update (features : FeatureFlags) (t : TextureInfo) : TextureInfo :=
  if t.levelInfos.isEmpty then
    { t with npot := false, textureComplete := false, cubeComplete := false }
  else
    let npot := t.levelInfos.any fun face =>
      let info := face.getD 0 .new
      isNPOT (uint32OfInt info.width) || isNPOT (uint32OfInt info.height) ||
        isNPOT (uint32OfInt info.depth)
    let firstFace := t.levelInfo 0 0
    let levelsNeeded := computeMipMapCount firstFace.width firstFace.height firstFace.depth
    let textureComplete := levelsNeeded - 1 ≤ t.maxLevelSet && 0 ≤ t.maxLevelSet
    let cubeComplete := t.levelInfos.length == 6 && firstFace.width == firstFace.height
    let textureComplete :=
      if firstFace.width = 0 ∨ firstFace.height = 0 then false else textureComplete
    let nearest :=
      !(t.minFilter != GL_NEAREST_MIPMAP_NEAREST || t.magFilter != GL_NEAREST)
    let textureComplete :=
      if firstFace.type == GL_FLOAT && !features.enableTextureFloatLinear && !nearest then false
      else if firstFace.type == GL_HALF_FLOAT_OES && !features.enableTextureHalfFloatLinear &&
          !nearest then
        false
      else textureComplete
    let complete :=
      t.levelInfos.foldl (updateFace levelsNeeded firstFace) (textureComplete, cubeComplete)
    { t with npot := npot, textureComplete := complete.1, cubeComplete := complete.2 }

def resize {α : Type} (l : List α) (n : ℕ) (a : α) : List α :=
  l.take n ++ List.replicate (n - l.length) a

def setTarget (t : TextureInfo) (target : GLenum) (maxLevels : ℤ) : TextureInfo :=
  let numFaces := if target = GL_TEXTURE_CUBE_MAP then 6 else 1
  let levelInfos := (resize t.levelInfos numFaces []).map fun face =>
    resize face maxLevels.toNat .new
  let t := { t with target, levelInfos }
  if target = GL_TEXTURE_EXTERNAL_OES then
    { t with minFilter := GL_LINEAR, wrapS := GL_CLAMP_TO_EDGE, wrapT := GL_CLAMP_TO_EDGE }
  else t

/-- `TextureInfo::SetLevelInfo`.  The face and the level are those of a vector in the
texture. -/
def setLevelInfo (features : FeatureFlags) (t : TextureInfo) (target : GLenum) (level : ℤ)
    (internalFormat : GLenum) (width height depth border : ℤ) (format type : GLenum) :
    TextureInfo :=
  let info : LevelInfo := ⟨true, internalFormat, width, height, depth, border, format, type⟩
  update features
    { t with
      levelInfos := t.levelInfos.modify (glTargetToFaceIndex target) fun face =>
        face.set level.toNat info
      maxLevelSet := max t.maxLevelSet level }

def canGenerateMipmaps (features : FeatureFlags) (t : TextureInfo) : Bool :=
  if (t.npot && !features.npotOk) || t.levelInfos.isEmpty || t.deleted ||
      t.target == GL_TEXTURE_EXTERNAL_OES then
    false
  else
    let first := t.levelInfo 0 0
    t.levelInfos.all fun face =>
      let info := face.getD 0 .new
      !(!info.valid || info.width != first.width || info.height != first.height ||
        info.depth != 1 || info.format != first.format ||
        info.internalFormat != first.internalFormat || info.type != first.type)

/-- The inner loop of `MarkMipmapsGenerated`: the levels from `level` on, `n` of them. -/
def generateMips (features : FeatureFlags) (target : GLenum) (info1 : LevelInfo) :
    ℕ → ℤ → ℤ → ℤ → ℤ → TextureInfo → TextureInfo
  | 0, _, _, _, _, t => t
  | n + 1, level, width, height, depth, t =>
    let width := max (1 : ℤ) (width >>> (1 : ℕ))
    let height := max (1 : ℤ) (height >>> (1 : ℕ))
    let depth := max (1 : ℤ) (depth >>> (1 : ℕ))
    generateMips features target info1 n (level + 1) width height depth
      (t.setLevelInfo features target level info1.internalFormat width height depth info1.border
        info1.format info1.type)

def markMipmapsGenerated (features : FeatureFlags) (t : TextureInfo) : TextureInfo × Bool :=
  if !t.canGenerateMipmaps features then (t, false)
  else
    ((List.range t.levelInfos.length).foldl (fun t index =>
      let info1 := t.levelInfo index 0
      let numMips := computeMipMapCount info1.width info1.height info1.depth
      generateMips features
        (if t.target = GL_TEXTURE_2D then GL_TEXTURE_2D else faceIndexToGLTarget index) info1
        (numMips - 1).toNat 1 info1.width info1.height info1.depth t) t, true)

def setParameter (features : FeatureFlags) (t : TextureInfo) (pname : GLenum) (param : ℤ) :
    TextureInfo × Bool :=
  let value := uint32OfInt param
  if t.target = GL_TEXTURE_EXTERNAL_OES ∧ pname = GL_TEXTURE_MIN_FILTER ∧
      value ≠ GL_NEAREST ∧ value ≠ GL_LINEAR then
    (t, false)
  else if t.target = GL_TEXTURE_EXTERNAL_OES ∧
      (pname = GL_TEXTURE_WRAP_S ∨ pname = GL_TEXTURE_WRAP_T) ∧ value ≠ GL_CLAMP_TO_EDGE then
    (t, false)
  else if pname = GL_TEXTURE_MIN_FILTER then
    if value ∉ textureMinFilterMode then (t, false)
    else (update features { t with minFilter := value }, true)
  else if pname = GL_TEXTURE_MAG_FILTER then
    if value ∉ textureMagFilterMode then (t, false)
    else (update features { t with magFilter := value }, true)
  else if pname = GL_TEXTURE_WRAP_S then
    if value ∉ textureWrapMode then (t, false)
    else (update features { t with wrapS := value }, true)
  else if pname = GL_TEXTURE_WRAP_T then
    if value ∉ textureWrapMode then (t, false)
    else (update features { t with wrapT := value }, true)
  else if pname = GL_TEXTURE_MAX_ANISOTROPY_EXT then (update features t, true)
  else (t, false)

/-- The one black pixel that `Initialize` gives a face of a default texture. -/
def setBlackPixel (t : TextureInfo) (target : GLenum) : TextureInfo :=
  t.setLevelInfo .new target 0 GL_RGBA 1 1 1 0 GL_RGBA GL_UNSIGNED_BYTE

end TextureInfo

/-- A texture a call can name: one the client made, or a default one. -/
inductive TextureRef
  | texture (clientId : UInt32)
  | defaultTexture2D
  | defaultTextureCubeMap
  | defaultTextureExternalOes
  deriving DecidableEq, Repr

structure TextureManager where
  textureInfos : AList fun _ : UInt32 => TextureInfo
  maxLevels : ℤ
  maxCubeMapLevels : ℤ
  numUnrenderableTextures : ℤ
  defaultTexture2D : Option TextureInfo
  defaultTextureCubeMap : Option TextureInfo
  defaultTextureExternalOes : Option TextureInfo

namespace TextureManager

def new (maxTextureSize maxCubeMapTextureSize : ℤ) : TextureManager where
  textureInfos := ∅
  maxLevels := computeMipMapCount maxTextureSize maxTextureSize maxTextureSize
  maxCubeMapLevels :=
    computeMipMapCount maxCubeMapTextureSize maxCubeMapTextureSize maxCubeMapTextureSize
  numUnrenderableTextures := 0
  defaultTexture2D := none
  defaultTextureCubeMap := none
  defaultTextureExternalOes := none

def getInfo (m : TextureManager) : TextureRef → Option TextureInfo
  | .texture clientId => m.textureInfos.lookup clientId
  | .defaultTexture2D => m.defaultTexture2D
  | .defaultTextureCubeMap => m.defaultTextureCubeMap
  | .defaultTextureExternalOes => m.defaultTextureExternalOes

/-- The info a call names is now `info`. -/
def setInfo (m : TextureManager) (ref : TextureRef) (info : TextureInfo) : TextureManager :=
  match ref with
  | .texture clientId => { m with textureInfos := m.textureInfos.insert clientId info }
  | .defaultTexture2D => { m with defaultTexture2D := some info }
  | .defaultTextureCubeMap => { m with defaultTextureCubeMap := some info }
  | .defaultTextureExternalOes => { m with defaultTextureExternalOes := some info }

def maxLevelsForTarget (m : TextureManager) (target : GLenum) : ℤ :=
  if target = GL_TEXTURE_2D then m.maxLevels
  else if target = GL_TEXTURE_EXTERNAL_OES then 1
  else m.maxCubeMapLevels

def counted (features : FeatureFlags) (m : TextureManager) (ref : TextureRef)
    (change : TextureInfo → TextureInfo) : TextureManager :=
  match m.getInfo ref with
  | none => m
  | some info =>
    let num := m.numUnrenderableTextures
    let num := if !info.canRender features then num - 1 else num
    let info := change info
    let num := if !info.canRender features then num + 1 else num
    { m.setInfo ref info with numUnrenderableTextures := num }

def setInfoTarget (features : FeatureFlags) (m : TextureManager) (ref : TextureRef)
    (target : GLenum) : TextureManager :=
  m.counted features ref fun info => info.setTarget target (m.maxLevelsForTarget target)

def setLevelInfo (features : FeatureFlags) (m : TextureManager) (ref : TextureRef)
    (target : GLenum) (level : ℤ) (internalFormat : GLenum) (width height depth border : ℤ)
    (format type : GLenum) : TextureManager :=
  m.counted features ref fun info =>
    info.setLevelInfo features target level internalFormat width height depth border format type

def setParameter (features : FeatureFlags) (m : TextureManager) (ref : TextureRef)
    (pname : GLenum) (param : ℤ) : TextureManager × Bool :=
  (m.counted features ref fun info => (info.setParameter features pname param).1,
    (m.getInfo ref).any fun info => (info.setParameter features pname param).2)

def markMipmapsGenerated (features : FeatureFlags) (m : TextureManager) (ref : TextureRef) :
    TextureManager × Bool :=
  (m.counted features ref fun info => (info.markMipmapsGenerated features).1,
    (m.getInfo ref).any fun info => (info.markMipmapsGenerated features).2)

/-- `TextureManager::CreateTextureInfo`, for an id that is not in use. -/
def createTextureInfo (features : FeatureFlags) (m : TextureManager) (clientId serviceId : UInt32) :
    TextureManager :=
  let info := TextureInfo.new serviceId
  let num := m.numUnrenderableTextures
  { m with
    textureInfos := m.textureInfos.insert clientId info
    numUnrenderableTextures := if !info.canRender features then num + 1 else num }

/-- `TextureManager::RemoveTextureInfo`.  What still holds the info sees it deleted. -/
def removeTextureInfo (features : FeatureFlags) (m : TextureManager) (clientId : UInt32) :
    TextureManager :=
  match m.textureInfos.lookup clientId with
  | none => m
  | some info =>
    let num := m.numUnrenderableTextures
    { m with
      textureInfos := m.textureInfos.erase clientId
      numUnrenderableTextures := if !info.canRender features then num - 1 else num }

def haveUnrenderableTextures (m : TextureManager) : Bool := 0 < m.numUnrenderableTextures

def setBlackPixel (m : TextureManager) (ref : TextureRef) (target : GLenum) : TextureManager :=
  match m.getInfo ref with
  | none => m
  | some info => m.setInfo ref (info.setBlackPixel target)

/-- `TextureManager::Initialize`, where `ids` and `externalIds` are from `glGenTextures`. -/
def initTextures (features : FeatureFlags) (m : TextureManager) (ids externalIds : ℕ → UInt32) :
    TextureManager :=
  let m := m.setInfo .defaultTexture2D (.new (ids 1))
  let m := m.setInfoTarget features .defaultTexture2D GL_TEXTURE_2D
  let m := m.setBlackPixel .defaultTexture2D GL_TEXTURE_2D
  let m := m.setInfo .defaultTextureCubeMap (.new (ids 3))
  let m := m.setInfoTarget features .defaultTextureCubeMap GL_TEXTURE_CUBE_MAP
  let m := (List.range kNumFaces).foldl (fun m index =>
    m.setBlackPixel .defaultTextureCubeMap (indexToGLFaceTarget index)) m
  if features.oesEglImageExternal then
    let m := m.setInfo .defaultTextureExternalOes (.new (externalIds 0))
    let m := m.setInfoTarget features .defaultTextureExternalOes GL_TEXTURE_EXTERNAL_OES
    m.setBlackPixel .defaultTextureExternalOes GL_TEXTURE_EXTERNAL_OES
  else m

end TextureManager

/-! ### The default textures -/

namespace TextureInfo

variable {features : FeatureFlags} {t : TextureInfo}

def blackPixel : LevelInfo := ⟨true, GL_RGBA, 1, 1, 1, 0, GL_RGBA, GL_UNSIGNED_BYTE⟩

theorem updateFace_black {face : List LevelInfo} (h : face.getD 0 .new = blackPixel)
    (complete : Bool × Bool) : updateFace 1 blackPixel complete face = complete := by
  obtain ⟨textureComplete, cubeComplete⟩ := complete
  dsimp only [updateFace]
  rw [h]
  cases textureComplete <;> cases cubeComplete <;> rfl

theorem update_black (hne : t.levelInfos ≠ [])
    (hall : ∀ face ∈ t.levelInfos, face.getD 0 .new = blackPixel) (hmax : 0 ≤ t.maxLevelSet) :
    update features t =
      { t with npot := false, textureComplete := true, cubeComplete := t.levelInfos.length == 6 } := by
  obtain ⟨first, rest, hfaces⟩ := List.exists_cons_of_ne_nil hne
  have hfirst : t.levelInfo 0 0 = blackPixel := by
    rw [levelInfo, hfaces]
    exact hall first (by rw [hfaces]; exact List.mem_cons_self)
  have hnpot : (t.levelInfos.any fun face =>
      isNPOT (uint32OfInt (face.getD 0 .new).width) ||
        isNPOT (uint32OfInt (face.getD 0 .new).height) ||
          isNPOT (uint32OfInt (face.getD 0 .new).depth)) = false := by
    rw [List.any_eq_false]
    intro face hface
    rw [hall face hface]
    decide
  have hlevels : computeMipMapCount blackPixel.width blackPixel.height blackPixel.depth = 1 := by
    decide
  have hfold : ∀ (faces : List (List LevelInfo)) (complete : Bool × Bool),
      (∀ face ∈ faces, face.getD 0 .new = blackPixel) →
        faces.foldl (updateFace 1 blackPixel) complete = complete := by
    intro faces
    induction faces with
    | nil => exact fun _ _ => rfl
    | cons face faces ih =>
      intro complete h
      rw [List.foldl_cons, updateFace_black (h face List.mem_cons_self)]
      exact ih complete fun face' hface' => h face' (List.mem_cons_of_mem _ hface')
  rw [update, if_neg (by simpa using hne)]
  simp only [hfirst, hnpot, hlevels]
  rw [hfold _ _ hall]
  simp [blackPixel, hmax, GL_UNSIGNED_BYTE, GL_FLOAT, GL_HALF_FLOAT_OES]

@[simp] theorem levelInfos_update : (update features t).levelInfos = t.levelInfos := by
  unfold update
  split_ifs <;> rfl

@[simp] theorem target_update : (update features t).target = t.target := by
  unfold update
  split_ifs <;> rfl

@[simp] theorem deleted_update : (update features t).deleted = t.deleted := by
  unfold update
  split_ifs <;> rfl

@[simp] theorem minFilter_update : (update features t).minFilter = t.minFilter := by
  unfold update
  split_ifs <;> rfl

@[simp] theorem maxLevelSet_update : (update features t).maxLevelSet = t.maxLevelSet := by
  unfold update
  split_ifs <;> rfl

theorem canRender_update_black {features' : FeatureFlags} (htarget : t.target ≠ 0)
    (hdeleted : t.deleted = false) (hne : t.levelInfos ≠ [])
    (hall : ∀ face ∈ t.levelInfos, face.getD 0 .new = blackPixel) (hmax : 0 ≤ t.maxLevelSet)
    (h : t.target = GL_TEXTURE_2D ∨ t.levelInfos.length = 6 ∨ t.needsMips = false) :
    (update features' t).canRender features = true := by
  rw [update_black hne hall hmax]
  rw [canRender, if_neg (by simp [htarget, hdeleted]), if_neg (by simp)]
  by_cases hmips : t.needsMips = true
  · by_cases h2D : t.target = GL_TEXTURE_2D
    · simp [h2D]
    · have hcube : t.levelInfos.length = 6 := by
        rcases h.resolve_left h2D with hcube | hc
        · exact hcube
        · rw [hc] at hmips
          cases hmips
      simp [h2D, hcube]
  · exact if_neg hmips

/-- The new default texture of a target with at least one level. -/
structure FreshDefault (t : TextureInfo) (target : GLenum) : Prop where
  target_eq : t.target = target
  deleted : t.deleted = false
  maxLevelSet : t.maxLevelSet = -1
  npot : t.npot = false
  textureComplete : t.textureComplete = false
  faces : ∃ n rest, t.levelInfos = List.replicate n (.new :: rest) ∧ n = if target = GL_TEXTURE_CUBE_MAP then 6 else 1
  needsMips : t.needsMips = !(target == GL_TEXTURE_EXTERNAL_OES)

theorem freshDefault_setTarget (serviceId : UInt32) (target : GLenum) {maxLevels : ℤ}
    (h : 0 < maxLevels) : FreshDefault ((new serviceId).setTarget target maxLevels) target := by
  obtain ⟨n, hn⟩ : ∃ n, maxLevels.toNat = n + 1 := ⟨maxLevels.toNat - 1, by omega⟩
  have hrow : resize ([] : List LevelInfo) maxLevels.toNat .new = .new :: List.replicate n .new := by
    simp [resize, hn, List.replicate_succ]
  unfold setTarget
  by_cases hexternal : target = GL_TEXTURE_EXTERNAL_OES
  · subst hexternal
    refine ⟨rfl, rfl, rfl, rfl, rfl, ⟨1, List.replicate n .new, ?_, rfl⟩, rfl⟩
    rw [List.replicate_one, ← hrow]
    rfl
  · simp only [if_neg hexternal]
    refine ⟨rfl, rfl, rfl, rfl, rfl, ⟨_, List.replicate n .new, ?_, rfl⟩, ?_⟩
    · rw [← hrow]
      simp [resize, new]
    · rw [beq_false_of_ne hexternal]
      rfl

theorem FreshDefault.canRender {target : GLenum} (h : FreshDefault t target) (htarget : target ≠ 0) :
    t.canRender features = (target == GL_TEXTURE_EXTERNAL_OES) := by
  rw [TextureInfo.canRender, h.target_eq, h.deleted, h.npot, h.needsMips, h.textureComplete]
  by_cases hexternal : target = GL_TEXTURE_EXTERNAL_OES
  · simp [hexternal]
    decide
  · simp [hexternal, htarget]

/-- **After its faces got the black pixel a default texture can be rendered.** -/
theorem FreshDefault.canRender_setBlackPixel {target : GLenum} (h : FreshDefault t target)
    (htarget : target ≠ 0) (hface : glTargetToFaceIndex target = 0)
    (hcube : target ≠ GL_TEXTURE_CUBE_MAP)
    (h2D : target = GL_TEXTURE_2D ∨ target = GL_TEXTURE_EXTERNAL_OES) :
    (t.setBlackPixel target).canRender features = true := by
  obtain ⟨n, rest, hfaces, hn⟩ := h.faces
  rw [if_neg hcube] at hn
  subst hn
  unfold setBlackPixel setLevelInfo
  rw [hfaces, hface]
  refine canRender_update_black (by rw [h.target_eq]; exact htarget) h.deleted (by simp) ?_
    (le_max_right _ _) ?_
  · simp [blackPixel]
  · rcases h2D with rfl | rfl
    · exact .inl h.target_eq
    · exact .inr (.inr h.needsMips)

theorem FreshDefault.canRender_foldl_setBlackPixel (h : FreshDefault t GL_TEXTURE_CUBE_MAP) :
    (((List.range kNumFaces).map indexToGLFaceTarget).foldl setBlackPixel t).canRender features =
      true := by
  obtain ⟨n, rest, hfaces, hn⟩ := h.faces
  rw [if_pos rfl] at hn
  subst hn
  unfold setBlackPixel setLevelInfo
  refine canRender_update_black ?_ ?_ ?_ ?_ (le_max_right _ _) ?_
  · simp [h.target_eq]
    decide
  · simp [h.deleted]
  · simp [hfaces]
  · have hrows : ((List.range kNumFaces).map indexToGLFaceTarget).foldl (fun faces target =>
        faces.modify (glTargetToFaceIndex target) fun face => face.set (0 : ℤ).toNat blackPixel)
          t.levelInfos = List.replicate 6 (blackPixel :: rest) := by
      rw [hfaces]
      rfl
    intro face hface
    simp only [levelInfos_update] at hface
    change face ∈ ((List.range kNumFaces).map indexToGLFaceTarget).foldl (fun faces target =>
      faces.modify (glTargetToFaceIndex target) fun face => face.set (0 : ℤ).toNat blackPixel)
        t.levelInfos at hface
    rw [hrows] at hface
    rw [List.eq_of_mem_replicate hface]
    rfl
  · refine .inr (.inl ?_)
    simp [hfaces]

end TextureInfo

/-! ### The counter -/

namespace TextureManager

variable {features : FeatureFlags} {m : TextureManager}

/-- `1` for a texture that can not be rendered. -/
def unrenderable (features : FeatureFlags) (info : TextureInfo) : ℤ :=
  if info.canRender features then 0 else 1

def defaults (m : TextureManager) : List TextureInfo :=
  m.defaultTexture2D.toList ++ m.defaultTextureCubeMap.toList ++ m.defaultTextureExternalOes.toList

def unrenderableTextures (features : FeatureFlags) (m : TextureManager) : ℤ :=
  countEntries (fun info => !info.canRender features) m.textureInfos

def unrenderableDefaults (features : FeatureFlags) (m : TextureManager) : ℤ :=
  m.defaults.countP fun info => !info.canRender features

def drift (features : FeatureFlags) (m : TextureManager) : ℤ :=
  m.numUnrenderableTextures - m.unrenderableTextures features - m.unrenderableDefaults features

variable (features) in
theorem unrenderable_eq (info : TextureInfo) :
    ((if (!info.canRender features) = true then 1 else 0 : ℕ) : ℤ) = unrenderable features info := by
  unfold unrenderable
  cases info.canRender features <;> rfl

@[simp] theorem getInfo_setInfo (ref : TextureRef) (info : TextureInfo) :
    (m.setInfo ref info).getInfo ref = some info := by
  cases ref with
  | texture clientId => exact AList.lookup_insert m.textureInfos
  | defaultTexture2D | defaultTextureCubeMap | defaultTextureExternalOes => rfl

@[simp] theorem setInfo_setInfo (ref : TextureRef) (info info' : TextureInfo) :
    (m.setInfo ref info).setInfo ref info' = m.setInfo ref info' := by
  cases ref with
  | texture clientId => simp [setInfo]
  | defaultTexture2D | defaultTextureCubeMap | defaultTextureExternalOes => rfl

theorem maxLevelsForTarget_setInfo (ref : TextureRef) (info : TextureInfo) (target : GLenum) :
    (m.setInfo ref info).maxLevelsForTarget target = m.maxLevelsForTarget target := by
  cases ref <;> rfl

theorem numUnrenderableTextures_setInfo (ref : TextureRef) (info : TextureInfo) :
    (m.setInfo ref info).numUnrenderableTextures = m.numUnrenderableTextures := by
  cases ref <;> rfl

theorem drift_setInfo (ref : TextureRef) (info : TextureInfo) : (m.setInfo ref info).drift features =
      m.drift features + (m.getInfo ref).elim 0 (unrenderable features) -
        unrenderable features info := by
  have hnew := unrenderable_eq features info
  unfold drift unrenderableTextures unrenderableDefaults defaults
  cases hold : m.getInfo ref with
  | none =>
    cases ref with
    | texture clientId =>
      have hnot : clientId ∉ m.textureInfos := AList.lookup_eq_none.1 hold
      have hcount := countEntries_insert_of_notMem (b := info)
        (p := fun info : TextureInfo => !info.canRender features) hnot
      simp only [setInfo, Option.elim_none]
      omega
    | defaultTexture2D | defaultTextureCubeMap | defaultTextureExternalOes =>
      simp only [getInfo] at hold
      simp only [setInfo, hold, Option.toList_some, Option.toList_none, List.countP_append,
        List.countP_singleton, List.countP_nil, Option.elim_none]
      omega
  | some old =>
    have hold' := unrenderable_eq features old
    cases ref with
    | texture clientId =>
      have hcount := countEntries_insert info
        (p := fun info : TextureInfo => !info.canRender features) hold
      simp only [setInfo, Option.elim_some]
      omega
    | defaultTexture2D | defaultTextureCubeMap | defaultTextureExternalOes =>
      simp only [getInfo] at hold
      simp only [setInfo, hold, Option.toList_some, List.countP_append, List.countP_singleton, Option.elim_some]
      omega

theorem drift_with (num : ℤ) :
    ({ m with numUnrenderableTextures := num } : TextureManager).drift features =
      m.drift features + num - m.numUnrenderableTextures := by
  dsimp only [drift, unrenderableTextures, unrenderableDefaults, defaults]
  omega

theorem counted_of {ref : TextureRef} {info : TextureInfo} (h : m.getInfo ref = some info)
    (change : TextureInfo → TextureInfo) :
    m.counted features ref change = { m.setInfo ref (change info) with
        numUnrenderableTextures := m.numUnrenderableTextures - unrenderable features info +
          unrenderable features (change info) } := by
  unfold counted unrenderable
  rw [h]
  cases hbefore : info.canRender features <;>
    cases hafter : (change info).canRender features <;> simp [hbefore, hafter]

theorem drift_counted (ref : TextureRef) (change : TextureInfo → TextureInfo) :
    (m.counted features ref change).drift features = m.drift features := by
  cases h : m.getInfo ref with
  | none => rw [counted, h]
  | some info =>
    rw [counted_of h, drift_with, drift_setInfo, numUnrenderableTextures_setInfo, h, Option.elim_some]
    omega

theorem canRender_new (serviceId : UInt32) : (TextureInfo.new serviceId).canRender features = false := rfl

theorem drift_createTextureInfo {clientId : UInt32} (h : clientId ∉ m.textureInfos)
    (serviceId : UInt32) :
    (m.createTextureInfo features clientId serviceId).drift features = m.drift features := by
  have heq : m.createTextureInfo features clientId serviceId =
      { m.setInfo (.texture clientId) (.new serviceId) with
        numUnrenderableTextures := m.numUnrenderableTextures + 1 } := rfl
  have hnone : m.getInfo (.texture clientId) = none := AList.lookup_eq_none.2 h
  rw [heq, drift_with, drift_setInfo, numUnrenderableTextures_setInfo, hnone, Option.elim_none]
  rw [unrenderable, canRender_new, if_neg (by decide)]
  omega

theorem drift_removeTextureInfo (clientId : UInt32) :
    (m.removeTextureInfo features clientId).drift features = m.drift features := by
  unfold removeTextureInfo
  split
  · rfl
  · next info h =>
    have hcount := countEntries_erase (p := fun info : TextureInfo => !info.canRender features) h
    dsimp only [drift, unrenderableTextures, unrenderableDefaults, defaults]
    cases hrender : info.canRender features <;> simp [hrender] at hcount ⊢ <;> omega

/-! ### `Initialize` -/

theorem log2Floor_nonneg {n : UInt32} (h : n ≠ 0) : 0 ≤ log2Floor n := by
  rw [log2Floor, if_neg h]
  simp only [List.foldl_cons, List.foldl_nil]
  split_ifs <;> simp

theorem computeMipMapCount_pos {size : ℤ} (h0 : 0 < size) (h1 : size < 2147483648) :
    0 < computeMipMapCount size size size := by
  rw [computeMipMapCount, max_self, max_self]
  have hne : uint32OfInt size ≠ 0 := by
    intro hc
    have := toNat_uint32OfInt size
    rw [hc] at this
    simp at this
    omega
  have := log2Floor_nonneg hne
  omega

theorem setInfoTarget_setInfo_new (ref : TextureRef) (serviceId : UInt32) (target : GLenum) :
    (m.setInfo ref (.new serviceId)).setInfoTarget features ref target =
      { m.setInfo ref ((TextureInfo.new serviceId).setTarget target
          (m.maxLevelsForTarget target)) with
        numUnrenderableTextures := m.numUnrenderableTextures - 1 +
          unrenderable features ((TextureInfo.new serviceId).setTarget target
            (m.maxLevelsForTarget target)) } := by
  unfold setInfoTarget
  rw [counted_of (getInfo_setInfo ref _), setInfo_setInfo, numUnrenderableTextures_setInfo, maxLevelsForTarget_setInfo]
  rfl

theorem foldl_setBlackPixel (ref : TextureRef) (num : ℤ) (faces : List GLenum)
    (info : TextureInfo) :
    faces.foldl (fun m face => m.setBlackPixel ref face)
        { m.setInfo ref info with numUnrenderableTextures := num } =
      { m.setInfo ref (faces.foldl TextureInfo.setBlackPixel info) with
        numUnrenderableTextures := num } := by
  induction faces generalizing info with
  | nil => rfl
  | cons face faces ih =>
    have hstep : TextureManager.setBlackPixel
        { m.setInfo ref info with numUnrenderableTextures := num } ref face =
        { m.setInfo ref (info.setBlackPixel face) with numUnrenderableTextures := num } := by
      cases ref with
      | texture clientId => simp [setBlackPixel, getInfo, setInfo]
      | defaultTexture2D | defaultTextureCubeMap | defaultTextureExternalOes => rfl
    rw [List.foldl_cons, hstep, ih, List.foldl_cons]

/-- How `Initialize` makes a default texture, with the faces that get a black pixel. -/
def addDefault (features : FeatureFlags) (m : TextureManager) (ref : TextureRef)
    (serviceId : UInt32) (target : GLenum) (faces : List GLenum) : TextureManager :=
  faces.foldl (fun m face => m.setBlackPixel ref face)
    ((m.setInfo ref (.new serviceId)).setInfoTarget features ref target)

theorem initTextures_eq (ids externalIds : ℕ → UInt32) : m.initTextures features ids externalIds =
      let m := m.addDefault features .defaultTexture2D (ids 1) GL_TEXTURE_2D [GL_TEXTURE_2D]
      let m := m.addDefault features .defaultTextureCubeMap (ids 3) GL_TEXTURE_CUBE_MAP
        ((List.range kNumFaces).map indexToGLFaceTarget)
      if features.oesEglImageExternal then
        m.addDefault features .defaultTextureExternalOes (externalIds 0) GL_TEXTURE_EXTERNAL_OES
          [GL_TEXTURE_EXTERNAL_OES]
      else m := by
  unfold initTextures addDefault
  simp only [List.foldl_map, List.foldl_cons, List.foldl_nil]

theorem addDefault_eq (ref : TextureRef) (serviceId : UInt32) (target : GLenum)
    (faces : List GLenum) :
    m.addDefault features ref serviceId target faces =
      { m.setInfo ref (faces.foldl TextureInfo.setBlackPixel ((TextureInfo.new serviceId).setTarget
          target (m.maxLevelsForTarget target))) with
        numUnrenderableTextures := m.numUnrenderableTextures - 1 +
          unrenderable features ((TextureInfo.new serviceId).setTarget target
            (m.maxLevelsForTarget target)) } := by
  rw [addDefault, setInfoTarget_setInfo_new, foldl_setBlackPixel]

theorem mem_defaults_setInfo {ref : TextureRef} {info info' : TextureInfo}
    (h : info' ∈ (m.setInfo ref info).defaults) : info' = info ∨ info' ∈ m.defaults := by
  unfold defaults at h ⊢
  cases ref <;> simp [setInfo] at h ⊢ <;> tauto

/-- The drift, and no default texture that can not be rendered. -/
structure Ready (features : FeatureFlags) (m : TextureManager) (drift : ℤ) : Prop where
  drift_eq : m.drift features = drift
  canRender : ∀ info ∈ m.defaults, info.canRender features = true

/-- **A new default texture**: `SetInfoTarget` takes a texture out of the count that was never
in it, and puts it back in unless it can be rendered already. -/
theorem Ready.addDefault {drift : ℤ} (h : Ready features m drift) (ref : TextureRef)
    (hnone : m.getInfo ref = none) (serviceId : UInt32) (target : GLenum) (faces : List GLenum)
    {t : TextureInfo}
    (ht : (TextureInfo.new serviceId).setTarget target (m.maxLevelsForTarget target) = t)
    (hfaces : (faces.foldl TextureInfo.setBlackPixel t).canRender features = true) :
    Ready features (m.addDefault features ref serviceId target faces)
      (drift - 1 + unrenderable features t) := by
  rw [addDefault_eq, ht]
  refine ⟨?_, fun info hinfo => ?_⟩
  · rw [drift_with, drift_setInfo, numUnrenderableTextures_setInfo, hnone, h.drift_eq]
    have hzero : unrenderable features (faces.foldl TextureInfo.setBlackPixel t) = 0 := if_pos hfaces
    rw [hzero]
    simp only [Option.elim_none]
    omega
  · rcases mem_defaults_setInfo hinfo with rfl | hinfo
    · exact hfaces
    · exact h.canRender info hinfo

/-- **What `Initialize` leaves**: every default texture can be rendered, and the counter is
one too low when there is a default texture for external images. -/
theorem ready_initTextures {maxTextureSize maxCubeMapTextureSize : ℤ}
    (h2D : 0 < (new maxTextureSize maxCubeMapTextureSize).maxLevels)
    (hcube : 0 < (new maxTextureSize maxCubeMapTextureSize).maxCubeMapLevels)
    (ids externalIds : ℕ → UInt32) :
    Ready features
      ((new maxTextureSize maxCubeMapTextureSize).initTextures features ids externalIds)
      (if features.oesEglImageExternal then -1 else 0) := by
  obtain ⟨t2D, ht2D⟩ : ∃ t, (TextureInfo.new (ids 1)).setTarget GL_TEXTURE_2D
    (new maxTextureSize maxCubeMapTextureSize).maxLevels = t := ⟨_, rfl⟩
  obtain ⟨tCube, htCube⟩ : ∃ t, (TextureInfo.new (ids 3)).setTarget GL_TEXTURE_CUBE_MAP
    (new maxTextureSize maxCubeMapTextureSize).maxCubeMapLevels = t := ⟨_, rfl⟩
  obtain ⟨tExternal, htExternal⟩ : ∃ t, (TextureInfo.new (externalIds 0)).setTarget
    GL_TEXTURE_EXTERNAL_OES 1 = t := ⟨_, rfl⟩
  have f2D := ht2D ▸ TextureInfo.freshDefault_setTarget (ids 1) GL_TEXTURE_2D h2D
  have fCube := htCube ▸ TextureInfo.freshDefault_setTarget (ids 3) GL_TEXTURE_CUBE_MAP hcube
  have fExternal := htExternal ▸ TextureInfo.freshDefault_setTarget (externalIds 0)
    GL_TEXTURE_EXTERNAL_OES Int.one_pos
  have h0 : Ready features (new maxTextureSize maxCubeMapTextureSize) 0 :=
    ⟨rfl, fun info hinfo => by cases hinfo⟩
  have h1 := h0.addDefault .defaultTexture2D rfl (ids 1) GL_TEXTURE_2D [GL_TEXTURE_2D] ht2D
    (f2D.canRender_setBlackPixel (by decide) (by decide) (by decide) (.inl rfl))
  have h2 := h1.addDefault .defaultTextureCubeMap (by rw [addDefault_eq]; rfl) (ids 3)
    GL_TEXTURE_CUBE_MAP ((List.range kNumFaces).map indexToGLFaceTarget)
    (by rw [addDefault_eq]; exact htCube) fCube.canRender_foldl_setBlackPixel
  have h3 := h2.addDefault .defaultTextureExternalOes (by rw [addDefault_eq, addDefault_eq]; rfl)
    (externalIds 0) GL_TEXTURE_EXTERNAL_OES [GL_TEXTURE_EXTERNAL_OES] htExternal
    (fExternal.canRender_setBlackPixel (by decide) (by decide) (by decide) (.inr rfl))
  have u2D : unrenderable features t2D = 1 := if_neg (by rw [f2D.canRender (by decide)]; decide)
  have uCube : unrenderable features tCube = 1 := if_neg (by rw [fCube.canRender (by decide)]; decide)
  have uExternal : unrenderable features tExternal = 0 :=
    if_pos (by rw [fExternal.canRender (by decide)]; decide)
  rw [u2D] at h1 h2 h3
  rw [uCube] at h2 h3
  rw [uExternal] at h3
  rw [initTextures_eq]
  split_ifs
  · exact h3
  · exact h2

/-! ### Runs -/

/-- The calls after `Initialize`. -/
inductive Label
  | createTextureInfo (clientId serviceId : UInt32)
  | setInfoTarget (ref : TextureRef) (target : GLenum)
  | setLevelInfo (ref : TextureRef) (target : GLenum) (level : ℤ) (internalFormat : GLenum)
      (width height depth border : ℤ) (format type : GLenum)
  | setParameter (ref : TextureRef) (pname : GLenum) (param : ℤ)
  | markMipmapsGenerated (ref : TextureRef)
  | removeTextureInfo (clientId : UInt32)

def textureManager (features : FeatureFlags) : TransSys TextureManager Label where
  init m := ∃ (maxTextureSize maxCubeMapTextureSize : ℤ) (ids externalIds : ℕ → UInt32),
    0 < maxTextureSize ∧ maxTextureSize < 2147483648 ∧
      0 < maxCubeMapTextureSize ∧ maxCubeMapTextureSize < 2147483648 ∧
        m = (new maxTextureSize maxCubeMapTextureSize).initTextures features ids externalIds
  step m l m' :=
    match l with
    | .createTextureInfo clientId serviceId =>
      clientId ∉ m.textureInfos ∧ m' = m.createTextureInfo features clientId serviceId
    | .setInfoTarget ref target =>
      (m.getInfo ref).isSome ∧ m' = m.setInfoTarget features ref target
    | .setLevelInfo ref target level internalFormat width height depth border format type =>
      (m.getInfo ref).isSome ∧ m' = m.setLevelInfo features ref target level internalFormat width
        height depth border format type
    | .setParameter ref pname param =>
      (m.getInfo ref).isSome ∧ m' = (m.setParameter features ref pname param).1
    | .markMipmapsGenerated ref =>
      (m.getInfo ref).isSome ∧ m' = (m.markMipmapsGenerated features ref).1
    | .removeTextureInfo clientId => m' = m.removeTextureInfo features clientId

def OnDefault (l : Label) : Prop :=
  match l with
  | .setInfoTarget ref _ | .setLevelInfo ref _ _ _ _ _ _ _ _ _ | .setParameter ref _ _
  | .markMipmapsGenerated ref => ∀ clientId, ref ≠ .texture clientId
  | _ => False

theorem drift_step {m' : TextureManager} {l : Label}
    (h : (textureManager features).step m l m') : m'.drift features = m.drift features := by
  cases l with
  | createTextureInfo clientId serviceId =>
    obtain ⟨hnot, rfl⟩ := h
    exact drift_createTextureInfo hnot serviceId
  | setInfoTarget ref target
  | setLevelInfo ref target level internalFormat width height depth border format type
  | setParameter ref pname param | markMipmapsGenerated ref =>
    obtain ⟨_, rfl⟩ := h
    exact drift_counted ref _
  | removeTextureInfo clientId =>
    obtain rfl := h
    exact drift_removeTextureInfo clientId

theorem defaults_counted_texture (clientId : UInt32) (change : TextureInfo → TextureInfo) :
    (m.counted features (.texture clientId) change).defaults = m.defaults := by
  unfold counted
  split <;> rfl

theorem defaults_step {m' : TextureManager} {l : Label}
    (h : (textureManager features).step m l m') (hl : ¬ OnDefault l) :
    m'.defaults = m.defaults := by
  cases l with
  | createTextureInfo clientId serviceId =>
    obtain ⟨_, rfl⟩ := h
    rfl
  | setInfoTarget ref target
  | setLevelInfo ref target level internalFormat width height depth border format type
  | setParameter ref pname param | markMipmapsGenerated ref =>
    obtain ⟨_, rfl⟩ := h
    obtain ⟨clientId, rfl⟩ : ∃ clientId, ref = .texture clientId := by simpa [OnDefault] using hl
    exact defaults_counted_texture clientId _
  | removeTextureInfo clientId =>
    obtain rfl := h
    unfold removeTextureInfo
    split <;> rfl

theorem ready_init {m : TextureManager} (h : (textureManager features).init m) :
    Ready features m (if features.oesEglImageExternal then -1 else 0) := by
  obtain ⟨maxTextureSize, maxCubeMapTextureSize, ids, externalIds, h0, h1, h2, h3, rfl⟩ := h
  exact ready_initTextures (computeMipMapCount_pos h0 h1) (computeMipMapCount_pos h2 h3) ids
    externalIds

variable {tr : List Label}

/-- **The drift of every run is the one of `Initialize`.** -/
theorem drift_run (h : (textureManager features).Run tr m) :
    m.drift features = if features.oesEglImageExternal then -1 else 0 :=
  h.invariant (I := fun m => m.drift features = if features.oesEglImageExternal then -1 else 0)
    (fun _ hinit => (ready_init hinit).drift_eq) fun _ _ _ hi hst => (drift_step hst).trans hi

theorem unrenderableDefaults_run (h : (textureManager features).Run tr m)
    (htr : ∀ l ∈ tr, ¬ OnDefault l) : m.unrenderableDefaults features = 0 := by
  have hall : (∀ l ∈ tr, ¬ OnDefault l) → ∀ info ∈ m.defaults, info.canRender features = true := by
    refine h.traceInvariant (I := fun tr m => (∀ l ∈ tr, ¬ OnDefault l) →
      ∀ info ∈ m.defaults, info.canRender features = true) ?_ fun tr m l m' hi hst htr => ?_
    · exact fun m hinit _ => (ready_init hinit).canRender
    · rw [defaults_step hst (htr l (List.mem_append_right _ List.mem_cons_self))]
      exact hi fun l' hl' => htr l' (List.mem_append_left _ hl')
  rw [unrenderableDefaults, List.countP_eq_zero.2 fun info hinfo => by simp [hall htr info hinfo]]
  rfl

structure CounterRight (features : FeatureFlags) (m : TextureManager) : Prop where
  counter : m.numUnrenderableTextures = m.unrenderableTextures features
  haveUnrenderable : m.haveUnrenderableTextures = true ↔ ∃ e ∈ m.textureInfos.entries, e.2.canRender features = false

theorem counterRight_iff_counter :
    CounterRight features m ↔ m.numUnrenderableTextures = m.unrenderableTextures features := by
  refine ⟨fun h => h.counter, fun h => ⟨h, ?_⟩⟩
  have hpos := countEntries_pos (p := fun info : TextureInfo => !info.canRender features)
    (m := m.textureInfos)
  simp only [Bool.not_eq_true'] at hpos
  rw [haveUnrenderableTextures, decide_eq_true_eq, h, ← hpos]
  unfold unrenderableTextures
  omega

/-- **The counter of unrenderable textures.**  In every run it is right exactly when the
default textures that can not be rendered are as many as `Initialize` took out of the
count, so in a run that does not act on a default texture exactly when there is no default
texture for external images. -/
theorem counterRight_iff (h : (textureManager features).Run tr m) :
    (CounterRight features m ↔ m.unrenderableDefaults features = if features.oesEglImageExternal then 1 else 0) ∧
    ((∀ l ∈ tr, ¬ OnDefault l) →
      (CounterRight features m ↔ features.oesEglImageExternal = false)) := by
  have hdrift := drift_run h
  unfold drift at hdrift
  have hiff : CounterRight features m ↔
      m.unrenderableDefaults features = if features.oesEglImageExternal then 1 else 0 := by
    rw [counterRight_iff_counter]
    split_ifs at hdrift ⊢ <;> omega
  refine ⟨hiff, fun htr => ?_⟩
  rw [hiff, unrenderableDefaults_run h htr]
  cases features.oesEglImageExternal <;> simp

def oneTexture (features : FeatureFlags) : TextureManager :=
  ((new 64 16).initTextures features (fun _ => 1) fun _ => 1).createTextureInfo features 1 10

theorem run_oneTexture (features : FeatureFlags)
    (h : (1 : UInt32) ∉ ((new 64 16).initTextures features (fun _ => 1) fun _ => 1).textureInfos) :
    (textureManager features).Run [.createTextureInfo 1 10] (oneTexture features) := by
  have h0 : (textureManager features).Run []
      ((new 64 16).initTextures features (fun _ => 1) fun _ => 1) :=
    .init ⟨64, 16, fun _ => 1, fun _ => 1, by decide, by decide, by decide, by decide, rfl⟩
  exact h0.step (l := Label.createTextureInfo 1 10) ⟨h, rfl⟩

theorem counterRight_iff_oneTexture : CounterRight .new (oneTexture .new) := by
  have hrun := run_oneTexture .new (by decide +kernel)
  exact ((counterRight_iff hrun).2 (by simp [OnDefault])).mpr rfl

/-- **With a default texture for external images one unrenderable texture is not noticed.** -/
theorem haveUnrenderableTextures_external :
    ¬ ∀ (features : FeatureFlags) (tr : List Label) (m : TextureManager),
      (textureManager features).Run tr m → (∀ l ∈ tr, ¬ OnDefault l) →
        (m.haveUnrenderableTextures = true ↔
          ∃ e ∈ m.textureInfos.entries, e.2.canRender features = false) := by
  intro h
  have hrun := run_oneTexture ⟨true, false, false, false⟩ (by decide +kernel)
  have hiff := h _ _ _ hrun (by simp [OnDefault])
  revert hiff
  decide +kernel

end TextureManager

end Chromium.Gpu
