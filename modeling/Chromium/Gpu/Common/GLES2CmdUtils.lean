import Mathlib.Data.UInt

/-!
# Constants and utilities of GLES2

The constants of `gpu/GLES2/gl2.h` and `gl2ext.h` that the service uses here, and
functions of `gpu/command_buffer/common/gles2_cmd_utils.cc`.
-/

namespace Chromium.Gpu

abbrev GLenum := UInt32

def GL_INVALID_ENUM : GLenum := 0x0500
def GL_INVALID_VALUE : GLenum := 0x0501
def GL_INVALID_OPERATION : GLenum := 0x0502

def GL_BYTE : GLenum := 0x1400
def GL_UNSIGNED_BYTE : GLenum := 0x1401
def GL_SHORT : GLenum := 0x1402
def GL_UNSIGNED_SHORT : GLenum := 0x1403
def GL_INT : GLenum := 0x1404
def GL_UNSIGNED_INT : GLenum := 0x1405
def GL_FLOAT : GLenum := 0x1406
def GL_FIXED : GLenum := 0x140C
def GL_HALF_FLOAT_OES : GLenum := 0x8D61
def GL_RGBA : GLenum := 0x1908

def GL_TEXTURE_2D : GLenum := 0x0DE1
def GL_TEXTURE_CUBE_MAP : GLenum := 0x8513
def GL_TEXTURE_CUBE_MAP_POSITIVE_X : GLenum := 0x8515
def GL_TEXTURE_CUBE_MAP_NEGATIVE_X : GLenum := 0x8516
def GL_TEXTURE_CUBE_MAP_POSITIVE_Y : GLenum := 0x8517
def GL_TEXTURE_CUBE_MAP_NEGATIVE_Y : GLenum := 0x8518
def GL_TEXTURE_CUBE_MAP_POSITIVE_Z : GLenum := 0x8519
def GL_TEXTURE_CUBE_MAP_NEGATIVE_Z : GLenum := 0x851A
def GL_TEXTURE_EXTERNAL_OES : GLenum := 0x8D65

def GL_TEXTURE_MAG_FILTER : GLenum := 0x2800
def GL_TEXTURE_MIN_FILTER : GLenum := 0x2801
def GL_TEXTURE_WRAP_S : GLenum := 0x2802
def GL_TEXTURE_WRAP_T : GLenum := 0x2803
def GL_TEXTURE_MAX_ANISOTROPY_EXT : GLenum := 0x84FE

def GL_NEAREST : GLenum := 0x2600
def GL_LINEAR : GLenum := 0x2601
def GL_NEAREST_MIPMAP_NEAREST : GLenum := 0x2700
def GL_LINEAR_MIPMAP_NEAREST : GLenum := 0x2701
def GL_NEAREST_MIPMAP_LINEAR : GLenum := 0x2702
def GL_LINEAR_MIPMAP_LINEAR : GLenum := 0x2703
def GL_REPEAT : GLenum := 0x2901
def GL_CLAMP_TO_EDGE : GLenum := 0x812F
def GL_MIRRORED_REPEAT : GLenum := 0x8370

def getGLTypeSizeForTexturesAndBuffers (type : GLenum) : ℕ :=
  if type = GL_BYTE then 1
  else if type = GL_UNSIGNED_BYTE then 1
  else if type = GL_SHORT then 2
  else if type = GL_UNSIGNED_SHORT then 2
  else if type = GL_INT then 4
  else if type = GL_UNSIGNED_INT then 4
  else if type = GL_FLOAT then 4
  else if type = GL_FIXED then 4
  else 0

def isNPOT (value : UInt32) : Bool := 0 < value && value &&& (value - 1) != 0

def kNumFaces : ℕ := 6

def indexToGLFaceTarget (index : ℕ) : GLenum :=
  [GL_TEXTURE_CUBE_MAP_POSITIVE_X, GL_TEXTURE_CUBE_MAP_NEGATIVE_X,
    GL_TEXTURE_CUBE_MAP_POSITIVE_Y, GL_TEXTURE_CUBE_MAP_NEGATIVE_Y,
    GL_TEXTURE_CUBE_MAP_POSITIVE_Z, GL_TEXTURE_CUBE_MAP_NEGATIVE_Z].getD index 0

end Chromium.Gpu
