import Chromium.Lib.MachineInt
import Chromium.Media.WebMHeader
import Mathlib.Data.Nat.Bitwise

/-!
# Parsing WebM elements

`media/webm/webm_parser.cc`: `WebMParseListElement` reads a list element and tells a client what is in it.  The tables say
which elements a list has, at which level and of which type; an element that they do not have is passed over.

`Elements` says what the content of a list is, without the parser: complete elements that the tables allow, each
with its callbacks in order.  It also follows contents that end inside an element (`whole` is false then).

`webMParseListElement_spec`: what the parser returns, and what it tells, for every buffer.  Where a list ends inside an
element, or a list within another one is empty, the parser does not call `OnListEnd`; nothing is said about this.
-/

namespace Chromium.Media.WebM

open Lib
open List (append_assoc append_nil drop_left length_append length_pos_iff)
open Option (map_some)

/-! ## The tables -/

inductive ElementType
  | LIST | UINT | FLOAT | BINARY | STRING | SBLOCK | SKIP
  deriving DecidableEq, Repr

structure ElementIdInfo where
  level : ℤ
  type : ElementType
  id : ℕ
  deriving DecidableEq, Repr

structure ListElementInfo where
  id : ℕ
  idInfo : List ElementIdInfo
  deriving DecidableEq, Repr

def kWebMIdCluster : ℕ := 0x1f43b675
def kWebMIdInfo : ℕ := 0x1549A966
def kWebMIdTracks : ℕ := 0x1654AE6B
def kWebMIdTrackEntry : ℕ := 0xAE
def kWebMIdVideo : ℕ := 0xE0
def kWebMIdAudio : ℕ := 0xE1
def kWebMIdBlockGroup : ℕ := 0xA0

def kClusterIds : List ElementIdInfo := [
  ⟨2, .UINT, 0xE7⟩, -- `kWebMIdTimecode`
  ⟨2, .SBLOCK, 0xA3⟩, -- `kWebMIdSimpleBlock`
  ⟨2, .LIST, kWebMIdBlockGroup⟩]

def kInfoIds : List ElementIdInfo := [
  ⟨2, .SKIP, 0x73A4⟩, -- `kWebMIdSegmentUID`
  ⟨2, .UINT, 0x2AD7B1⟩, -- `kWebMIdTimecodeScale`
  ⟨2, .FLOAT, 0x4489⟩, -- `kWebMIdDuration`
  ⟨2, .SKIP, 0x4461⟩, -- `kWebMIdDateUTC`
  ⟨2, .SKIP, 0x7BA9⟩, -- `kWebMIdTitle`
  ⟨2, .SKIP, 0x4D80⟩, -- `kWebMIdMuxingApp`
  ⟨2, .SKIP, 0x5741⟩] -- `kWebMIdWritingApp`

def kTracksIds : List ElementIdInfo := [⟨2, .LIST, kWebMIdTrackEntry⟩]

def kTrackEntryIds : List ElementIdInfo := [
  ⟨3, .UINT, 0xD7⟩, -- `kWebMIdTrackNumber`
  ⟨3, .SKIP, 0x73C5⟩, -- `kWebMIdTrackUID`
  ⟨3, .UINT, 0x83⟩, -- `kWebMIdTrackType`
  ⟨3, .SKIP, 0xB9⟩, -- `kWebMIdFlagEnabled`
  ⟨3, .SKIP, 0x88⟩, -- `kWebMIdFlagDefault`
  ⟨3, .SKIP, 0x55AA⟩, -- `kWebMIdFlagForced`
  ⟨3, .UINT, 0x9C⟩, -- `kWebMIdFlagLacing`
  ⟨3, .UINT, 0x23E383⟩, -- `kWebMIdDefaultDuration`
  ⟨3, .SKIP, 0x536E⟩, -- `kWebMIdName`
  ⟨3, .SKIP, 0x22B59C⟩, -- `kWebMIdLanguage`
  ⟨3, .STRING, 0x86⟩, -- `kWebMIdCodecID`
  ⟨3, .BINARY, 0x63A2⟩, -- `kWebMIdCodecPrivate`
  ⟨3, .SKIP, 0x258688⟩, -- `kWebMIdCodecName`
  ⟨3, .LIST, kWebMIdVideo⟩,
  ⟨3, .LIST, kWebMIdAudio⟩]

def kVideoIds : List ElementIdInfo := [
  ⟨4, .SKIP, 0x9A⟩, -- `kWebMIdFlagInterlaced`
  ⟨4, .SKIP, 0x53B8⟩, -- `kWebMIdStereoMode`
  ⟨4, .UINT, 0xB0⟩, -- `kWebMIdPixelWidth`
  ⟨4, .UINT, 0xBA⟩, -- `kWebMIdPixelHeight`
  ⟨4, .SKIP, 0x54AA⟩, -- `kWebMIdPixelCropBottom`
  ⟨4, .SKIP, 0x54BB⟩, -- `kWebMIdPixelCropTop`
  ⟨4, .SKIP, 0x54CC⟩, -- `kWebMIdPixelCropLeft`
  ⟨4, .SKIP, 0x54DD⟩, -- `kWebMIdPixelCropRight`
  ⟨4, .SKIP, 0x54B0⟩, -- `kWebMIdDisplayWidth`
  ⟨4, .SKIP, 0x54BA⟩, -- `kWebMIdDisplayHeight`
  ⟨4, .SKIP, 0x54B2⟩, -- `kWebMIdDisplayUnit`
  ⟨4, .SKIP, 0x54B3⟩] -- `kWebMIdAspectRatioType`

def kAudioIds : List ElementIdInfo := [
  ⟨4, .SKIP, 0xB5⟩, -- `kWebMIdSamplingFrequency`
  ⟨4, .SKIP, 0x78B5⟩, -- `kWebMIdOutputSamplingFrequency`
  ⟨4, .UINT, 0x9F⟩, -- `kWebMIdChannels`
  ⟨4, .SKIP, 0x6264⟩] -- `kWebMIdBitDepth`

def kListElementInfo : List ListElementInfo := [⟨kWebMIdCluster, kClusterIds⟩, ⟨kWebMIdInfo, kInfoIds⟩,
  ⟨kWebMIdTracks, kTracksIds⟩,
  ⟨kWebMIdTrackEntry, kTrackEntryIds⟩,
  ⟨kWebMIdVideo, kVideoIds⟩,
  ⟨kWebMIdAudio, kAudioIds⟩]

def kMaxLevelDepth : ℤ := 6

def findIdInfo (id : ℕ) (idInfo : List ElementIdInfo) : Option ElementIdInfo := idInfo.find? (·.id = id)

def findListInfo (id : ℕ) : Option ListElementInfo := kListElementInfo.find? (·.id = id)

/-! ## The client -/

/-- The bits of a floating point number, of four bytes or of eight. -/
inductive FloatBits
  | float (bits : UInt32)
  | double (bits : UInt64)
  deriving DecidableEq, Repr

/-- The callbacks of `WebMParserClient`. -/
inductive Callback
  | onListStart (id : ℕ)
  | onListEnd (id : ℕ)
  | onUInt (id : ℕ) (val : ℤ)
  | onFloat (id : ℕ) (val : FloatBits)
  | onBinary (id : ℕ) (data : List UInt8)
  | onString (id : ℕ) (str : List UInt8)
  | onSimpleBlock (trackNum : ℕ) (timecode : ℤ) (flags : ℕ) (data : List UInt8)
  deriving DecidableEq, Repr

/-- `WebMParserClient`: what it returns from a callback, after the earlier ones. -/
abbrev WebMParserClient : Type := List Callback → Callback → Bool

def tell (client : WebMParserClient) (log : List Callback) (callback : Callback) (result : ℤ) :
    ℤ × List Callback :=
  (if client log callback then result else -1, log ++ [callback])

/-! ## The parser -/

def readBytes (buf : List UInt8) (size : ℤ) : Option (List UInt8) :=
  if size ≤ buf.length then some (buf.take size.toNat) else none

def parseSimpleBlock (client : WebMParserClient) (buf : List UInt8) (size : ℤ) (log : List Callback) :
    Option (ℤ × List Callback) :=
  if size < 4 then some (-1, log)
  else
    match readBytes buf size with
    | some (b₀ :: b₁ :: b₂ :: b₃ :: frameData) =>
      -- large track numbers are not supported
      if b₀ &&& 0x80 ≠ 0x80 then some (-1, log)
      else
        let trackNum := (b₀ &&& 0x7f).toNat
        let timecode := b₁.toNat * 256 + b₂.toNat
        let flags := b₃.toNat
        if (flags >>> 1) &&& 3 ≠ 0 then some (-1, log)
        else
          -- the sign of the timecode
          let timecode : ℤ := if timecode &&& 0x8000 ≠ 0 then timecode - 65536 else timecode
          some (tell client log (.onSimpleBlock trackNum timecode flags frameData) size)
    | _ => none

def parseUInt (client : WebMParserClient) (buf : List UInt8) (size : ℤ) (id : ℕ) (log : List Callback) :
    Option (ℤ × List Callback) :=
  if size ≤ 0 ∨ size > 8 then some (-1, log)
  else (readBytes buf size).map fun bytes => tell client log (.onUInt id (toInt64 (beNat bytes))) size

def parseFloat (client : WebMParserClient) (buf : List UInt8) (size : ℤ) (id : ℕ) (log : List Callback) :
    Option (ℤ × List Callback) :=
  if size ≠ 4 ∧ size ≠ 8 then some (-1, log)
  else
    (readBytes buf size).map fun bytes =>
      let value := if size = 4 then FloatBits.float (.ofNat (beNat bytes)) else .double (.ofNat (beNat bytes))
      tell client log (.onFloat id value) size

mutual

def parseElementList (client : WebMParserClient) (buf : List UInt8) (size : ℤ) (id : ℕ) (level : ℤ)
    (log : List Callback) : Option (ℤ × List Callback) :=
  match findListInfo id with
  | none => some (-1, log)
  | some listInfo =>
    if client log (.onListStart id) then
      match parseElements client listInfo.idInfo buf size (level + 1) (log ++ [.onListStart id]) with
      | none => none
      | some (result, log) =>
        if result ≤ 0 then some (result, log) else some (tell client log (.onListEnd id) result)
    else some (-1, log ++ [.onListStart id])
termination_by (size.toNat, 2)

def parseElements (client : WebMParserClient) (idInfo : List ElementIdInfo) (buf : List UInt8) (size level : ℤ)
    (log : List Callback) : Option (ℤ × List Callback) :=
  if level > kMaxLevelDepth then some (-1, log)
  else parseElementsLoop client idInfo level buf size 0 log
termination_by (size.toNat, 1)

/-- The loop of `ParseElements`. -/
def parseElementsLoop (client : WebMParserClient) (idInfo : List ElementIdInfo) (level : ℤ) (cur : List UInt8)
    (curSize used : ℤ) (log : List Callback) : Option (ℤ × List Callback) :=
  if curSize ≤ 0 then some (used, log)
  else
    match parseWebMElementHeader cur curSize with
    | none => none
    | some (result, id, elementSize) =>
      if result ≤ 0 then some (result, log)
      -- the element is larger than the remaining data
      else if (elementSize : ℤ) > curSize - result then some (0, log)
      else
        match findIdInfo id idInfo with
        | none =>
          parseElementsLoop client idInfo level ((cur.drop result.toNat).drop elementSize)
            (curSize - result - elementSize) (used + result + elementSize) log
        | some info =>
          if info.level ≠ level then some (-1, log)
          else
            match parseElement client info.type id level (cur.drop result.toNat) elementSize log with
            | none => none
            | some (false, log) => some (-1, log)
            | some (true, log) =>
              parseElementsLoop client idInfo level ((cur.drop result.toNat).drop elementSize)
                (curSize - result - elementSize) (used + result + elementSize) log
termination_by (curSize.toNat, 0)

/-- The `switch` of `ParseElements`: whether the element is accepted. -/
def parseElement (client : WebMParserClient) (type : ElementType) (id : ℕ) (level : ℤ) (cur : List UInt8)
    (elementSize : ℕ) (log : List Callback) : Option (Bool × List Callback) :=
  match type with
  | .SBLOCK => (parseSimpleBlock client cur elementSize log).map fun r => (0 < r.1, r.2)
  | .LIST => (parseElementList client cur elementSize id level log).map fun r => (0 ≤ r.1, r.2)
  | .UINT => (parseUInt client cur elementSize id log).map fun r => (0 < r.1, r.2)
  | .FLOAT => (parseFloat client cur elementSize id log).map fun r => (0 < r.1, r.2)
  | .BINARY =>
    (readBytes cur elementSize).map fun data => (client log (.onBinary id data), log ++ [.onBinary id data])
  | .STRING =>
    (readBytes cur elementSize).map fun data => (client log (.onString id data), log ++ [.onString id data])
  | .SKIP => some (true, log)
termination_by (elementSize, 3)

end

def webMParseListElement (client : WebMParserClient) (buf : List UInt8) (size : ℤ) (id : ℕ) (level : ℤ) :
    Option (ℤ × List Callback) :=
  if size < 0 then some (-1, [])
  else if size = 0 then some (0, [])
  else
    match parseWebMElementHeader buf size with
    | none => none
    | some (result, elementId, elementSize) =>
      if result ≤ 0 then some (result, [])
      else if elementId ≠ id then some (-1, [])
      else if (elementSize : ℤ) > size - result then some (0, [])
      else if 0 < elementSize then
        match parseElementList client (buf.drop result.toNat) elementSize elementId level [] with
        | none => none
        | some (contentResult, log) =>
          if contentResult ≤ 0 then some (contentResult, log) else some (result + contentResult, log)
      else some (result, [])

/-! ## What the content of a list is -/

/-- **What the client is told of an element that is no list**; nothing where the payload has not its type. -/
def leafCalls (type : ElementType) (id : ℕ) (payload : List UInt8) : Option (List Callback) :=
  match type with
  | .LIST => none
  | .SKIP => some []
  | .BINARY => some [.onBinary id payload]
  | .STRING => some [.onString id payload]
  | .UINT =>
    if 0 < payload.length ∧ payload.length ≤ 8 then some [.onUInt id (toInt64 (beNat payload))] else none
  | .FLOAT =>
    if payload.length = 4 then some [.onFloat id (.float (.ofNat (beNat payload)))]
    else if payload.length = 8 then some [.onFloat id (.double (.ofNat (beNat payload)))]
    else none
  | .SBLOCK =>
    match payload with
    | b₀ :: b₁ :: b₂ :: b₃ :: frameData =>
      if 128 ≤ b₀.toNat ∧ b₃.toNat / 2 % 4 = 0 then
        let timecode := b₁.toNat * 256 + b₂.toNat
        some [.onSimpleBlock (b₀.toNat % 128) (if timecode < 32768 then timecode else timecode - 65536) b₃.toNat
          frameData]
      else none
    | _ => none

/-- **The content of a list**, with its callbacks in order: elements that the tables allow.  It is `whole` when neither
it nor a list in it ends inside an element, and `filled` when no list in it is empty. -/
inductive Elements : List ElementIdInfo → ℤ → List UInt8 → List Callback → (whole filled : Bool) → Prop
  | nil {idInfo : List ElementIdInfo} {level : ℤ} (hlevel : level ≤ kMaxLevelDepth) :
      Elements idInfo level [] [] true true
  | endsInHeader {idInfo : List ElementIdInfo} {level : ℤ} {c : List UInt8} (hlevel : level ≤ kMaxLevelDepth)
      (hne : c ≠ []) (hc : HeaderIncomplete c) : Elements idInfo level c [] false true
  | endsInContent {idInfo : List ElementIdInfo} {level : ℤ} {id n : ℕ} {v w rest : List UInt8}
      (hlevel : level ≤ kMaxLevelDepth) (hheader : IsHeader id n v w) (hn : rest.length < n) :
      Elements idInfo level (v ++ w ++ rest) [] false true
  | unknown {idInfo : List ElementIdInfo} {level : ℤ} {id : ℕ} {v w payload rest : List UInt8}
      {calls : List Callback} {whole filled : Bool} (hheader : IsHeader id payload.length v w)
      (hid : findIdInfo id idInfo = none) (hrest : Elements idInfo level rest calls whole filled) :
      Elements idInfo level (v ++ w ++ (payload ++ rest)) calls whole filled
  | leaf {idInfo : List ElementIdInfo} {level : ℤ} {id : ℕ} {v w payload rest : List UInt8} {info : ElementIdInfo}
      {calls calls' : List Callback} {whole filled : Bool} (hheader : IsHeader id payload.length v w)
      (hid : findIdInfo id idInfo = some info) (hlevel : info.level = level)
      (hcalls : leafCalls info.type id payload = some calls)
      (hrest : Elements idInfo level rest calls' whole filled) :
      Elements idInfo level (v ++ w ++ (payload ++ rest)) (calls ++ calls') whole filled
  | list {idInfo : List ElementIdInfo} {level : ℤ} {id : ℕ} {v w payload rest : List UInt8} {info : ElementIdInfo}
      {listInfo : ListElementInfo} {calls calls' : List Callback} {whole whole' filled filled' : Bool}
      (hheader : IsHeader id payload.length v w) (hid : findIdInfo id idInfo = some info)
      (hlevel : info.level = level) (htype : info.type = .LIST) (hlist : findListInfo id = some listInfo)
      (hpayload : Elements listInfo.idInfo (level + 1) payload calls whole filled)
      (hrest : Elements idInfo level rest calls' whole' filled') :
      Elements idInfo level (v ++ w ++ (payload ++ rest)) (.onListStart id :: (calls ++ .onListEnd id :: calls'))
        (whole && whole') (!payload.isEmpty && filled && filled')

section

variable {idInfo : List ElementIdInfo} {level : ℤ} {id n : ℕ} {c m v w payload rest : List UInt8}
  {calls : List Callback} {whole filled : Bool}

theorem Elements.level_le (h : Elements idInfo level c calls whole filled) : level ≤ kMaxLevelDepth := by
  induction h with
  | nil hlevel | endsInHeader hlevel | endsInContent hlevel => exact hlevel
  | unknown _ _ _ ih | leaf _ _ _ _ _ ih | list _ _ _ _ _ _ _ _ ih => exact ih

theorem content_cases (c : List UInt8) :
    HeaderIncomplete c ∨ (¬ HeaderIncomplete c ∧ ¬ StartsWithHeader c) ∨
      (∃ id n v w rest, IsHeader id n v w ∧ c = v ++ w ++ rest ∧ rest.length < n) ∨
      ∃ id v w payload rest, IsHeader id payload.length v w ∧ c = v ++ w ++ (payload ++ rest) := by
  by_cases hincomplete : HeaderIncomplete c
  · exact .inl hincomplete
  by_cases hstarts : StartsWithHeader c
  · obtain ⟨id, n, v, w, rest, hheader, heq⟩ := hstarts
    by_cases hn : rest.length < n
    · exact .inr (.inr (.inl ⟨id, n, v, w, rest, hheader, heq, hn⟩))
    · have htake : (rest.take n).length = n := List.length_take_of_le (not_lt.1 hn)
      exact .inr (.inr (.inr ⟨id, v, w, rest.take n, rest.drop n, by rw [htake]; exact hheader,
        by rw [List.take_append_drop]; exact heq⟩))
  · exact .inr (.inl ⟨hincomplete, hstarts⟩)

/-! ## The steps of the loop -/

variable {client : WebMParserClient} {log : List Callback} {used : ℤ}

theorem parseElementsLoop_nil :
    parseElementsLoop client idInfo level m 0 used log = some (used, log) := by
  rw [parseElementsLoop, if_pos (Int.le_refl 0)]

theorem parseElementsLoop_incomplete (hne : c ≠ []) (h : HeaderIncomplete c) :
    parseElementsLoop client idInfo level (c ++ m) c.length used log = some (0, log) := by
  have hpos := length_pos_iff.2 hne
  obtain ⟨id, n, hparse⟩ := @parseWebMElementHeader_incomplete c m h
  rw [parseElementsLoop, if_neg (by omega), hparse]
  dsimp only
  rw [if_pos (Int.le_refl 0)]

theorem parseElementsLoop_malformed (hne : c ≠ []) (hincomplete : ¬ HeaderIncomplete c) (hstarts : ¬ StartsWithHeader c) :
    parseElementsLoop client idInfo level (c ++ m) c.length used log = some (-1, log) := by
  have hpos := length_pos_iff.2 hne
  obtain ⟨id, n, hparse⟩ := @parseWebMElementHeader_malformed c m hincomplete hstarts
  rw [parseElementsLoop, if_neg (by omega), hparse]
  dsimp only
  rw [if_pos (by decide)]

theorem parseElementsLoop_overrun (hheader : IsHeader id n v w) (hn : rest.length < n) :
    parseElementsLoop client idInfo level (v ++ w ++ rest ++ m) (v ++ w ++ rest).length used log = some (0, log) := by
  have hpos := hheader.length_pos
  have hlength : ((v ++ w ++ rest).length : ℤ) = (v ++ w).length + rest.length := by
    rw [length_append]
    push_cast
    rfl
  have hparse := @parseWebMElementHeader_header id n v w (rest ++ m) (v ++ w ++ rest).length hheader (by omega)
  rw [parseElementsLoop, if_neg (by omega), append_assoc (v ++ w), hparse]
  dsimp only
  rw [if_neg (by omega), if_pos (by omega)]

theorem parseElementsLoop_element (hheader : IsHeader id payload.length v w) :
    parseElementsLoop client idInfo level (v ++ w ++ (payload ++ rest) ++ m) (v ++ w ++ (payload ++ rest)).length used
        log =
      match findIdInfo id idInfo with
      | none =>
        parseElementsLoop client idInfo level (rest ++ m) rest.length (used + (v ++ w ++ payload).length) log
      | some info =>
        if info.level ≠ level then some (-1, log)
        else
          match parseElement client info.type id level (payload ++ (rest ++ m)) payload.length log with
          | none => none
          | some (false, log) => some (-1, log)
          | some (true, log) =>
            parseElementsLoop client idInfo level (rest ++ m) rest.length (used + (v ++ w ++ payload).length) log := by
  have hpos := hheader.length_pos
  have hlength : ((v ++ w ++ (payload ++ rest)).length : ℤ) = (v ++ w).length + payload.length + rest.length := by
    simp only [length_append]
    push_cast
    omega
  have hused : ((v ++ w ++ payload).length : ℤ) = (v ++ w).length + payload.length := by
    rw [length_append]
    push_cast
    rfl
  have hparse := @parseWebMElementHeader_header id payload.length v w (payload ++ (rest ++ m))
    (v ++ w ++ (payload ++ rest)).length hheader (by omega)
  rw [parseElementsLoop, if_neg (by omega), append_assoc (v ++ w), append_assoc payload, hparse]
  dsimp only
  rw [if_neg (by omega), if_neg (by omega), Int.toNat_natCast, drop_left, drop_left,
    show ((v ++ w ++ (payload ++ rest)).length : ℤ) - (v ++ w).length - payload.length = rest.length by omega, hused,
    Int.add_assoc]

/-! ## Elements that are no list -/

theorem readBytes_append (payload m : List UInt8) : readBytes (payload ++ m) payload.length = some payload := by
  rw [readBytes, if_pos (by rw [length_append]; push_cast; omega), Int.toNat_natCast, List.take_left]

theorem tell_eq (hclient : ∀ log callback, client log callback = true) (callback : Callback) (result : ℤ) :
    tell client log callback result = (result, log ++ [callback]) := by
  rw [tell, if_pos (hclient log callback)]

theorem toNat_and_128 : ∀ n < 256, ((UInt8.ofNat n &&& 0x80 = 0x80 ↔ 128 ≤ n) ∧
    (UInt8.ofNat n &&& 0x7f).toNat = n % 128 ∧ ((n >>> 1) &&& 3 = n / 2 % 4)) := by
  decide +kernel

theorem timecode_sign {n : ℕ} (h : n < 65536) :
    (if n &&& 0x8000 ≠ 0 then (n : ℤ) - 65536 else n) = if n < 32768 then (n : ℤ) else n - 65536 := by
  have hand : n &&& 0x8000 = (n.testBit 15).toNat * 2 ^ 15 := Nat.and_two_pow n 15
  rw [hand, Nat.testBit_eq_decide_div_mod_eq]
  by_cases hlt : n < 32768
  · rw [show n / 2 ^ 15 % 2 = 0 by omega, if_pos hlt]
    rfl
  · rw [show n / 2 ^ 15 % 2 = 1 by omega, if_neg hlt]
    rfl

theorem parseSimpleBlock_eq (hclient : ∀ log callback, client log callback = true) (id : ℕ) :
    parseSimpleBlock client (payload ++ m) payload.length log =
      some (match leafCalls .SBLOCK id payload with
        | none => (-1, log)
        | some calls => ((payload.length : ℤ), log ++ calls)) := by
  rw [parseSimpleBlock, readBytes_append]
  match payload with
  | [] | [_] | [_, _] | [_, _, _] => rfl
  | b₀ :: b₁ :: b₂ :: b₃ :: frameData =>
    have h₀ := toNat_and_128 b₀.toNat b₀.toNat_lt
    have h₃ := toNat_and_128 b₃.toNat b₃.toNat_lt
    rw [UInt8.ofNat_toNat] at h₀
    have htime := @timecode_sign (b₁.toNat * 256 + b₂.toNat) (by
      have h₁ := b₁.toNat_lt
      have h₂ := b₂.toNat_lt
      omega)
    rw [if_neg (by simp only [List.length_cons]; push_cast; omega)]
    dsimp only [leafCalls]
    rw [h₃.2.2, h₀.2.1, htime]
    by_cases htrack : 128 ≤ b₀.toNat
    · rw [if_neg (not_not.2 (h₀.1.2 htrack))]
      by_cases hlacing : b₃.toNat / 2 % 4 = 0
      · have hboth : 128 ≤ b₀.toNat ∧ b₃.toNat / 2 % 4 = 0 := ⟨htrack, hlacing⟩
        rw [if_neg (not_not.2 hlacing), if_pos hboth, tell_eq hclient]
      · rw [if_pos hlacing, if_neg fun h => hlacing h.2]
    · rw [if_pos (fun h => htrack (h₀.1.1 h)), if_neg fun h => htrack h.1]

/-- **An element that is no list** is accepted where it has its type. -/
theorem parseElement_leaf {type : ElementType} (hclient : ∀ log callback, client log callback = true)
    (htype : type ≠ .LIST) :
    parseElement client type id level (payload ++ m) payload.length log =
      some (match leafCalls type id payload with
        | none => (false, log)
        | some calls => (true, log ++ calls)) := by
  cases type with
  | LIST => exact absurd rfl htype
  | SKIP =>
    rw [parseElement, leafCalls]
    simp
  | BINARY | STRING =>
    rw [parseElement, readBytes_append, map_some, hclient]
    rfl
  | UINT =>
    rw [parseElement, parseUInt]
    dsimp only [leafCalls]
    by_cases hsize : 0 < payload.length ∧ payload.length ≤ 8
    · rw [if_neg (by omega), if_pos hsize, readBytes_append, map_some, map_some, tell_eq hclient]
      dsimp only
      rw [decide_eq_true (by omega)]
    · rw [if_pos (by omega), if_neg hsize]
      rfl
  | FLOAT =>
    rw [parseElement, parseFloat]
    dsimp only [leafCalls]
    by_cases hfour : payload.length = 4
    · rw [if_neg (by omega), if_pos hfour, readBytes_append, map_some, map_some, tell_eq hclient,
        if_pos (by omega)]
      dsimp only
      rw [decide_eq_true (by omega)]
    · by_cases height : payload.length = 8
      · rw [if_neg (by omega), if_neg hfour, if_pos height, readBytes_append, map_some, map_some,
          tell_eq hclient, if_neg (by omega)]
        dsimp only
        rw [decide_eq_true (by omega)]
      · rw [if_pos (by omega), if_neg hfour, if_neg height]
        rfl
  | SBLOCK =>
    rw [parseElement, parseSimpleBlock_eq hclient id, map_some]
    match payload with
    | [] | [_] | [_, _] | [_, _, _] => rfl
    | b₀ :: b₁ :: b₂ :: b₃ :: frameData =>
      cases leafCalls .SBLOCK id (b₀ :: b₁ :: b₂ :: b₃ :: frameData) with
      | none => rfl
      | some calls =>
        dsimp only
        rw [decide_eq_true (by simp only [List.length_cons]; push_cast; omega)]

/-! ## Lists -/

variable {info : ElementIdInfo} {listInfo : ListElementInfo} {buf : List UInt8} {size : ℤ}

theorem parseElementList_eq (hclient : ∀ log callback, client log callback = true)
    (hlist : findListInfo id = some listInfo) (hlevel : level + 1 ≤ kMaxLevelDepth) :
    parseElementList client buf size id level log =
      match parseElementsLoop client listInfo.idInfo (level + 1) buf size 0 (log ++ [.onListStart id]) with
      | none => none
      | some (result, log) =>
        if result ≤ 0 then some (result, log) else some (result, log ++ [.onListEnd id]) := by
  rw [parseElementList, hlist]
  dsimp only
  rw [if_pos (hclient _ _), parseElements, if_neg (not_lt.2 hlevel)]
  cases parseElementsLoop client listInfo.idInfo (level + 1) buf size 0 (log ++ [.onListStart id]) with
  | none => rfl
  | some r =>
    dsimp only
    rw [tell_eq hclient]

theorem parseElementList_refused (hclient : ∀ log callback, client log callback = true)
    (h : findListInfo id = none ∨ kMaxLevelDepth < level + 1) :
    ∃ log', parseElementList client buf size id level log = some (-1, log') := by
  rw [parseElementList]
  cases hlist : findListInfo id with
  | none => exact ⟨log, rfl⟩
  | some listInfo =>
    have hlevel : kMaxLevelDepth < level + 1 := h.resolve_left (by rw [hlist]; exact Option.some_ne_none _)
    dsimp only
    rw [if_pos (hclient _ _), parseElements, if_pos hlevel]
    exact ⟨_, rfl⟩

theorem length_element (used : ℤ) (v w payload rest : List UInt8) :
    used + (v ++ w ++ payload).length + rest.length = used + (v ++ w ++ (payload ++ rest)).length := by
  simp only [length_append]
  push_cast
  omega

def Parses (client : WebMParserClient) (idInfo : List ElementIdInfo) (level : ℤ) (c : List UInt8)
    (calls : List Callback) (whole filled : Bool) : Prop :=
  ∀ (m : List UInt8) (used : ℤ) (log : List Callback), 0 ≤ used →
    ∃ result log', parseElementsLoop client idInfo level (c ++ m) c.length used log = some (result, log') ∧
      (result = 0 ∨ result = used + c.length) ∧ (whole = true → result = used + c.length) ∧
      (whole = true → filled = true → log' = log ++ calls)

theorem Parses.parseElementList (hclient : ∀ log callback, client log callback = true)
    (h : Parses client listInfo.idInfo (level + 1) payload calls whole filled)
    (hlist : findListInfo id = some listInfo) (hlevel : level + 1 ≤ kMaxLevelDepth) (m : List UInt8)
    (log : List Callback) :
    ∃ result log', parseElementList client (payload ++ m) payload.length id level log = some (result, log') ∧
      (result = 0 ∨ result = payload.length) ∧ (whole = true → result = payload.length) ∧
      (whole = true → filled = true → payload ≠ [] → log' = log ++ .onListStart id :: (calls ++ [.onListEnd id])) := by
  obtain ⟨result, log', hloop, hresult, hwhole, hcalls⟩ := h m 0 (log ++ [.onListStart id]) (Int.le_refl 0)
  rw [Int.zero_add] at hresult hwhole
  rw [parseElementList_eq hclient hlist hlevel, hloop]
  dsimp only
  by_cases hpos : result ≤ 0
  · rw [if_pos hpos]
    refine ⟨result, log', rfl, hresult, hwhole, fun hw _ hne => ?_⟩
    -- the content is not empty, so its length is not zero
    have hlength := length_pos_iff.2 hne
    have heq := hwhole hw
    omega
  · rw [if_neg hpos]
    refine ⟨result, _, rfl, hresult, hwhole, fun hw hf _ => ?_⟩
    rw [hcalls hw hf]
    simp

theorem Elements.parses (hclient : ∀ log callback, client log callback = true)
    (h : Elements idInfo level c calls whole filled) : Parses client idInfo level c calls whole filled := by
  induction h with
  | nil hlevel =>
    intro m used log hused
    exact ⟨used, log, parseElementsLoop_nil, .inr (Int.add_zero used).symm, fun _ => (Int.add_zero used).symm,
      fun _ _ => (append_nil log).symm⟩
  | endsInHeader hlevel hne hc =>
    intro m used log hused
    exact ⟨0, log, parseElementsLoop_incomplete hne hc, .inl rfl, nofun, nofun⟩
  | endsInContent hlevel hheader hn =>
    intro m used log hused
    exact ⟨0, log, parseElementsLoop_overrun hheader hn, .inl rfl, nofun, nofun⟩
  | @unknown idInfo level id v w payload rest calls whole filled hheader hid hrest ih =>
    intro m used log hused
    obtain ⟨result, log', hloop, hresult, hwhole, hcalls⟩ := ih m (used + (v ++ w ++ payload).length) log (by omega)
    rw [length_element] at hresult hwhole
    refine ⟨result, log', ?_, hresult, hwhole, hcalls⟩
    rw [parseElementsLoop_element hheader, hid]
    exact hloop
  | @leaf idInfo level id v w payload rest info calls calls' whole filled hheader hid hlevel hleaf hrest ih =>
    intro m used log hused
    obtain ⟨result, log', hloop, hresult, hwhole, hcalls⟩ :=
      ih m (used + (v ++ w ++ payload).length) (log ++ calls) (by omega)
    have htype : info.type ≠ .LIST := by
      intro htype
      rw [htype] at hleaf
      exact Option.some_ne_none _ hleaf.symm
    rw [length_element] at hresult hwhole
    refine ⟨result, log', ?_, hresult, hwhole, fun hw hf => ?_⟩
    · rw [parseElementsLoop_element hheader, hid]
      dsimp only
      rw [if_neg (not_not.2 hlevel), parseElement_leaf hclient htype, hleaf]
      exact hloop
    · rw [hcalls hw hf, append_assoc]
  | @list idInfo level id v w payload rest info listInfo calls calls' whole whole' filled filled' hheader hid hlevel htype
      hlist hpayload hrest ihPayload ihRest =>
    intro m used log hused
    obtain ⟨inner, logInner, hinner, hinnerResult, hinnerWhole, hinnerCalls⟩ :=
      Parses.parseElementList hclient ihPayload hlist hpayload.level_le (rest ++ m) log
    obtain ⟨result, log', hloop, hresult, hwhole, hcalls⟩ :=
      ihRest m (used + (v ++ w ++ payload).length) logInner (by omega)
    rw [length_element] at hresult hwhole
    refine ⟨result, log', ?_, hresult, fun hw => hwhole (Bool.and_eq_true_iff.1 hw).2, fun hw hf => ?_⟩
    · rw [parseElementsLoop_element hheader, hid]
      dsimp only
      rw [if_neg (not_not.2 hlevel), htype, parseElement, hinner, map_some]
      dsimp only
      rw [decide_eq_true (by omega)]
      exact hloop
    · obtain ⟨hw₁, hw₂⟩ := Bool.and_eq_true_iff.1 hw
      obtain ⟨hf₁, hf₂⟩ := Bool.and_eq_true_iff.1 hf
      obtain ⟨hne, hf₁⟩ := Bool.and_eq_true_iff.1 hf₁
      rw [hcalls hw₂ hf₂, hinnerCalls hw₁ hf₁ (by simpa using hne)]
      simp

def Refuses (client : WebMParserClient) (idInfo : List ElementIdInfo) (level : ℤ) (c : List UInt8) : Prop :=
  ∀ (m : List UInt8) (used : ℤ) (log : List Callback),
    ∃ log', parseElementsLoop client idInfo level (c ++ m) c.length used log = some (-1, log')

theorem Refuses.parseElementList (hclient : ∀ log callback, client log callback = true)
    (h : Refuses client listInfo.idInfo (level + 1) payload) (hlist : findListInfo id = some listInfo)
    (hlevel : level + 1 ≤ kMaxLevelDepth) (m : List UInt8) (log : List Callback) :
    ∃ log', parseElementList client (payload ++ m) payload.length id level log = some (-1, log') := by
  obtain ⟨log', hloop⟩ := h m 0 (log ++ [.onListStart id])
  rw [parseElementList_eq hclient hlist hlevel, hloop]
  dsimp only
  rw [if_pos (by decide)]
  exact ⟨log', rfl⟩

theorem refuses_of_element (hheader : IsHeader id payload.length v w) (hid : findIdInfo id idInfo = some info)
    (hlevel : info.level = level)
    (h : ∀ m log, ∃ log', parseElement client info.type id level (payload ++ m) payload.length log = some (false, log')) :
    Refuses client idInfo level (v ++ w ++ (payload ++ rest)) := by
  intro m used log
  obtain ⟨log', helement⟩ := h (rest ++ m) log
  refine ⟨log', ?_⟩
  rw [parseElementsLoop_element hheader, hid]
  dsimp only
  rw [if_neg (not_not.2 hlevel), helement]

theorem refuses_of_rest (hheader : IsHeader id payload.length v w) (hid : findIdInfo id idInfo = some info)
    (hlevel : info.level = level)
    (h : ∀ m log, ∃ log', parseElement client info.type id level (payload ++ m) payload.length log = some (true, log'))
    (hrest : Refuses client idInfo level rest) : Refuses client idInfo level (v ++ w ++ (payload ++ rest)) := by
  intro m used log
  obtain ⟨log', helement⟩ := h (rest ++ m) log
  rw [parseElementsLoop_element hheader, hid]
  dsimp only
  rw [if_neg (not_not.2 hlevel), helement]
  exact hrest m _ log'

theorem elements_or_refuses (hclient : ∀ log callback, client log callback = true) (hlevel : level ≤ kMaxLevelDepth) :
    (∃ calls whole filled, Elements idInfo level c calls whole filled) ∨ Refuses client idInfo level c := by
  induction hn : c.length using Nat.strong_induction_on generalizing c idInfo level with
  | _ n ih =>
    by_cases hne : c = []
    · exact .inl ⟨[], true, true, hne ▸ .nil hlevel⟩
    rcases content_cases c with hincomplete | ⟨hincomplete, hstarts⟩ | ⟨id, size, v, w, rest, hheader, rfl, hsize⟩ |
      ⟨id, v, w, payload, rest, hheader, rfl⟩
    · exact .inl ⟨[], false, true, .endsInHeader hlevel hne hincomplete⟩
    · exact .inr fun m used log => ⟨log, parseElementsLoop_malformed hne hincomplete hstarts⟩
    · exact .inl ⟨[], false, true, .endsInContent hlevel hheader hsize⟩
    -- a complete element
    have hpos := hheader.length_pos
    simp only [length_append] at hn hpos
    have hrest : (∃ calls whole filled, Elements idInfo level rest calls whole filled) ∨
        Refuses client idInfo level rest := ih rest.length (by omega) hlevel rfl
    cases hid : findIdInfo id idInfo with
    | none =>
      rcases hrest with ⟨calls, whole, filled, hrest⟩ | hrest
      · exact .inl ⟨calls, whole, filled, .unknown hheader hid hrest⟩
      · refine .inr fun m used log => ?_
        rw [parseElementsLoop_element hheader, hid]
        exact hrest m _ log
    | some info =>
      by_cases hinfo : info.level = level
      · by_cases htype : info.type = .LIST
        · -- a list
          by_cases hbad : findListInfo id = none ∨ kMaxLevelDepth < level + 1
          · refine .inr (refuses_of_element hheader hid hinfo fun m log => ?_)
            obtain ⟨log', hlog⟩ := @parseElementList_refused level id client log (payload ++ m) payload.length hclient hbad
            rw [htype, parseElement, hlog]
            exact ⟨log', rfl⟩
          obtain ⟨listInfo, hlist⟩ := Option.ne_none_iff_exists'.1 fun hnone => hbad (.inl hnone)
          have hdeep : level + 1 ≤ kMaxLevelDepth := not_lt.1 fun hlt => hbad (.inr hlt)
          have hpayload : (∃ calls whole filled, Elements listInfo.idInfo (level + 1) payload calls whole filled) ∨
              Refuses client listInfo.idInfo (level + 1) payload := ih payload.length (by omega) hdeep rfl
          rcases hpayload with ⟨calls, whole, filled, hpayload⟩ | hpayload
          · rcases hrest with ⟨calls', whole', filled', hrest⟩ | hrest
            · exact .inl ⟨_, _, _, .list hheader hid hinfo htype hlist hpayload hrest⟩
            · refine .inr (refuses_of_rest hheader hid hinfo (fun m log => ?_) hrest)
              obtain ⟨result, log', hlog, hresult, -⟩ :=
                (hpayload.parses hclient).parseElementList hclient hlist hdeep m log
              rw [htype, parseElement, hlog, map_some]
              exact ⟨log', by rw [decide_eq_true (by omega)]⟩
          · refine .inr (refuses_of_element hheader hid hinfo fun m log => ?_)
            obtain ⟨log', hlog⟩ := hpayload.parseElementList hclient hlist hdeep m log
            rw [htype, parseElement, hlog]
            exact ⟨log', rfl⟩
        · -- an element that is no list
          cases hleaf : leafCalls info.type id payload with
          | none =>
            refine .inr (refuses_of_element hheader hid hinfo fun m log => ⟨log, ?_⟩)
            rw [parseElement_leaf hclient htype, hleaf]
          | some calls =>
            rcases hrest with ⟨calls', whole, filled, hrest⟩ | hrest
            · exact .inl ⟨_, _, _, .leaf hheader hid hinfo hleaf hrest⟩
            · refine .inr (refuses_of_rest hheader hid hinfo (fun m log => ⟨log ++ calls, ?_⟩) hrest)
              rw [parseElement_leaf hclient htype, hleaf]
      · refine .inr fun m used log => ⟨log, ?_⟩
        rw [parseElementsLoop_element hheader, hid]
        dsimp only
        rw [if_pos hinfo]

/-! ## Nothing behind the content is read -/

theorem parseElementsLoop_local (hclient : ∀ log callback, client log callback = true) (m' : List UInt8) :
    parseElementsLoop client idInfo level (c ++ m) c.length used log =
      parseElementsLoop client idInfo level (c ++ m') c.length used log := by
  induction hn : c.length using Nat.strong_induction_on generalizing c idInfo level m m' used log with
  | _ n ih =>
    rw [← hn]
    by_cases hne : c = []
    · subst hne
      exact parseElementsLoop_nil.trans parseElementsLoop_nil.symm
    rcases content_cases c with hincomplete | ⟨hincomplete, hstarts⟩ | ⟨id, size, v, w, rest, hheader, rfl, hsize⟩ |
      ⟨id, v, w, payload, rest, hheader, rfl⟩
    · rw [parseElementsLoop_incomplete hne hincomplete, parseElementsLoop_incomplete hne hincomplete]
    · rw [parseElementsLoop_malformed hne hincomplete hstarts, parseElementsLoop_malformed hne hincomplete hstarts]
    · rw [parseElementsLoop_overrun hheader hsize, parseElementsLoop_overrun hheader hsize]
    have hpos := hheader.length_pos
    simp only [length_append] at hn hpos
    have hrest : ∀ used log, parseElementsLoop client idInfo level (rest ++ m) rest.length used log =
        parseElementsLoop client idInfo level (rest ++ m') rest.length used log :=
      fun used log => ih rest.length (by omega) m' rfl
    have helement : ∀ info : ElementIdInfo,
        parseElement client info.type id level (payload ++ (rest ++ m)) payload.length log =
          parseElement client info.type id level (payload ++ (rest ++ m')) payload.length log := by
      intro info
      by_cases htype : info.type = .LIST
      · have hpayload : ∀ (idInfo : List ElementIdInfo) (level : ℤ) (log : List Callback),
            parseElementsLoop client idInfo level (payload ++ (rest ++ m)) payload.length 0 log =
              parseElementsLoop client idInfo level (payload ++ (rest ++ m')) payload.length 0 log :=
          fun idInfo level log => ih payload.length (by omega) (rest ++ m') rfl
        rw [htype, parseElement, parseElement, parseElementList, parseElementList]
        cases findListInfo id with
        | none => rfl
        | some listInfo =>
          dsimp only
          rw [parseElements, parseElements, hpayload]
      · rw [parseElement_leaf hclient htype, parseElement_leaf hclient htype]
    rw [parseElementsLoop_element hheader, parseElementsLoop_element hheader]
    simp only [hrest, helement]

theorem parseElementList_local (hclient : ∀ log callback, client log callback = true) (m' : List UInt8) :
    parseElementList client (payload ++ m) payload.length id level log =
      parseElementList client (payload ++ m') payload.length id level log := by
  rw [parseElementList, parseElementList]
  cases findListInfo id with
  | none => rfl
  | some listInfo =>
    dsimp only
    rw [parseElements, parseElements, parseElementsLoop_local hclient m']

/-! ## The whole element -/

/-- **What the parser returns and tells** of the element that a buffer starts with. -/
structure ListElement (listInfo : ListElementInfo) (level : ℤ) (buf : List UInt8) (result : ℤ)
    (calls : List Callback) : Prop where
  /-- More data is needed for the header, -/
  incomplete : HeaderIncomplete buf → result = 0
  /-- or for the element. -/
  overrun : ∀ {n : ℕ} {v w rest : List UInt8}, IsHeader listInfo.id n v w → buf = v ++ w ++ rest → rest.length < n →
    result = 0
  /-- There is no header, -/
  malformed : ¬ HeaderIncomplete buf → ¬ StartsWithHeader buf → result = -1
  /-- or one of another element. -/
  otherId : ∀ {id n : ℕ} {v w rest : List UInt8}, IsHeader id n v w → buf = v ++ w ++ rest → id ≠ listInfo.id →
    result = -1
  /-- The list is empty. -/
  empty : ∀ {v w rest : List UInt8}, IsHeader listInfo.id 0 v w → buf = v ++ w ++ rest →
    result = (v ++ w).length ∧ calls = []
  /-- Its content is complete elements that the tables allow. -/
  content : ∀ {v w c rest : List UInt8} {inner : List Callback} {filled : Bool}, IsHeader listInfo.id c.length v w →
    buf = v ++ w ++ (c ++ rest) → c ≠ [] → Elements listInfo.idInfo (level + 1) c inner true filled →
    result = (v ++ w ++ c).length ∧
      (filled = true → calls = .onListStart listInfo.id :: (inner ++ [.onListEnd listInfo.id]))
  /-- It is not, also where it ends inside an element. -/
  refused : ∀ {v w c rest : List UInt8}, IsHeader listInfo.id c.length v w → buf = v ++ w ++ (c ++ rest) → c ≠ [] →
    (∀ inner whole filled, ¬ Elements listInfo.idInfo (level + 1) c inner whole filled) → result = -1

theorem webMParseListElement_incomplete (h : HeaderIncomplete c) :
    webMParseListElement client c c.length id level = some (0, []) := by
  by_cases hne : c = []
  · subst hne
    rfl
  · have hpos := length_pos_iff.2 hne
    obtain ⟨elementId, n, hparse⟩ := @parseWebMElementHeader_incomplete c [] h
    rw [append_nil] at hparse
    rw [webMParseListElement, if_neg (by omega), if_neg (by omega), hparse]
    rfl

theorem webMParseListElement_malformed (hincomplete : ¬ HeaderIncomplete c) (hstarts : ¬ StartsWithHeader c) :
    webMParseListElement client c c.length id level = some (-1, []) := by
  have hne : c ≠ [] := by
    rintro rfl
    have hmarker : IsHeader 128 0 [0x80] [0x80] := ⟨isVint_marker, by decide, rfl, isVint_marker, by decide, rfl⟩
    exact hincomplete ⟨128, 0, [0x80], [0x80], [0x80, 0x80], List.cons_ne_nil _ _, hmarker, rfl⟩
  have hpos := length_pos_iff.2 hne
  obtain ⟨elementId, n, hparse⟩ := @parseWebMElementHeader_malformed c [] hincomplete hstarts
  rw [append_nil] at hparse
  rw [webMParseListElement, if_neg (by omega), if_neg (by omega), hparse]
  rfl

theorem webMParseListElement_header {elementId : ℕ} (hheader : IsHeader elementId n v w) :
    webMParseListElement client (v ++ w ++ rest) (v ++ w ++ rest).length id level = if elementId ≠ id then some (-1, [])
      else if rest.length < n then some (0, [])
      else if 0 < n then
        match parseElementList client rest n elementId level [] with
        | none => none
        | some (contentResult, log) =>
          if contentResult ≤ 0 then some (contentResult, log) else some ((v ++ w).length + contentResult, log)
      else some (((v ++ w).length : ℤ), []) := by
  have hpos := hheader.length_pos
  have hlength : ((v ++ w ++ rest).length : ℤ) = (v ++ w).length + rest.length := by
    rw [length_append]
    push_cast
    rfl
  have hparse := @parseWebMElementHeader_header elementId n v w rest (v ++ w ++ rest).length hheader (by omega)
  rw [webMParseListElement, if_neg (by omega), if_neg (by omega), hparse]
  dsimp only
  rw [if_neg (by omega), Int.toNat_natCast, drop_left]
  by_cases hid : elementId ≠ id
  · rw [if_pos hid, if_pos hid]
  · rw [if_neg hid, if_neg hid]
    by_cases hn : rest.length < n
    · rw [if_pos (by omega), if_pos hn]
    · rw [if_neg (by omega), if_neg hn]

theorem webMParseListElement_content (hheader : IsHeader id c.length v w) (hne : c ≠ []) :
    webMParseListElement client (v ++ w ++ (c ++ rest)) (v ++ w ++ (c ++ rest)).length id level =
      match parseElementList client (c ++ rest) c.length id level [] with
      | none => none
      | some (contentResult, log) =>
        if contentResult ≤ 0 then some (contentResult, log) else some ((v ++ w).length + contentResult, log) := by
  rw [webMParseListElement_header hheader, if_neg (not_not.2 rfl),
    if_neg (by rw [length_append]; omega), if_pos (length_pos_iff.2 hne)]

/-- What is returned for a list that the tables allow, or that ends inside an element. -/
theorem webMParseListElement_of_elements (hclient : ∀ log callback, client log callback = true)
    (hheader : IsHeader id c.length v w) (hne : c ≠ []) (hlist : findListInfo id = some listInfo)
    (h : Elements listInfo.idInfo (level + 1) c calls whole filled) (rest : List UInt8) :
    ∃ result log', webMParseListElement client (v ++ w ++ (c ++ rest)) (v ++ w ++ (c ++ rest)).length id level =
        some (result, log') ∧
      (result = 0 ∨ result = (v ++ w ++ c).length) ∧ (whole = true → result = (v ++ w ++ c).length) ∧
      (whole = true → filled = true → log' = .onListStart id :: (calls ++ [.onListEnd id])) := by
  have hpos := length_pos_iff.2 hne
  have hlength : ((v ++ w ++ c).length : ℤ) = (v ++ w).length + c.length := by
    rw [length_append]
    push_cast
    rfl
  obtain ⟨result, log', hlog, hresult, hwhole, hcalls⟩ :=
    (h.parses hclient).parseElementList hclient hlist h.level_le rest []
  rw [webMParseListElement_content hheader hne, hlog]
  dsimp only
  by_cases hzero : result ≤ 0
  · rw [if_pos hzero]
    refine ⟨result, log', rfl, .inl (by omega), fun hw => ?_, fun hw hf => hcalls hw hf hne⟩
    have heq := hwhole hw
    omega
  · rw [if_neg hzero]
    exact ⟨_, log', rfl, .inr (by omega), fun hw => by rw [hwhole hw, hlength], fun hw hf => hcalls hw hf hne⟩

theorem webMParseListElement_of_refuses (hclient : ∀ log callback, client log callback = true)
    (hheader : IsHeader id c.length v w) (hne : c ≠ []) (hlist : findListInfo id = some listInfo)
    (h : ∀ calls whole filled, ¬ Elements listInfo.idInfo (level + 1) c calls whole filled) (rest : List UInt8) :
    ∃ log', webMParseListElement client (v ++ w ++ (c ++ rest)) (v ++ w ++ (c ++ rest)).length id level =
      some (-1, log') := by
  rw [webMParseListElement_content hheader hne]
  by_cases hlevel : level + 1 ≤ kMaxLevelDepth
  · rcases @elements_or_refuses listInfo.idInfo (level + 1) c client hclient hlevel with
      ⟨calls, whole, filled, helements⟩ | hrefuses
    · exact absurd helements (h calls whole filled)
    · obtain ⟨log', hlog⟩ := hrefuses.parseElementList hclient hlist hlevel rest []
      exact ⟨log', by rw [hlog]; rfl⟩
  · obtain ⟨log', hlog⟩ := @parseElementList_refused level id client [] (c ++ rest) c.length hclient
      (.inr (not_le.1 hlevel))
    exact ⟨log', by rw [hlog]; rfl⟩

theorem findListInfo_of_mem : ∀ listInfo ∈ kListElementInfo, findListInfo listInfo.id = some listInfo := by decide

theorem listElement_of_eq {result : ℤ} (hclient : ∀ log callback, client log callback = true)
    (hlist : findListInfo listInfo.id = some listInfo)
    (h : webMParseListElement client buf buf.length listInfo.id level = some (result, calls)) :
    ListElement listInfo level buf result calls where
  incomplete hincomplete := by
    rw [webMParseListElement_incomplete hincomplete] at h
    injection h with h
    exact (congrArg Prod.fst h).symm
  overrun hheader heq hn := by
    subst heq
    rw [webMParseListElement_header hheader, if_neg (not_not.2 rfl), if_pos hn] at h
    injection h with h
    exact (congrArg Prod.fst h).symm
  malformed hincomplete hstarts := by
    rw [webMParseListElement_malformed hincomplete hstarts] at h
    injection h with h
    exact (congrArg Prod.fst h).symm
  otherId hheader heq hid := by
    subst heq
    rw [webMParseListElement_header hheader, if_pos hid] at h
    injection h with h
    exact (congrArg Prod.fst h).symm
  empty hheader heq := by
    subst heq
    rw [webMParseListElement_header hheader, if_neg (not_not.2 rfl), if_neg (Nat.not_lt_zero _),
      if_neg (Nat.lt_irrefl 0)] at h
    injection h with h
    exact ⟨(congrArg Prod.fst h).symm, (congrArg Prod.snd h).symm⟩
  content hheader heq hne helements := by
    subst heq
    obtain ⟨result', log', hresult, -, hwhole, hcalls⟩ :=
      webMParseListElement_of_elements hclient hheader hne hlist helements _
    rw [hresult] at h
    injection h with h
    injection h with hr hc
    subst hr hc
    exact ⟨hwhole rfl, hcalls rfl⟩
  refused hheader heq hne hnone := by
    subst heq
    obtain ⟨log', hresult⟩ := webMParseListElement_of_refuses hclient hheader hne hlist hnone _
    rw [hresult] at h
    injection h with h
    exact (congrArg Prod.fst h).symm

/-- **`WebMParseListElement`** returns something for every buffer, and what it returns is right; if it has used some
bytes, the others do not count. -/
theorem webMParseListElement_spec (hclient : ∀ log callback, client log callback = true)
    (hlist : listInfo ∈ kListElementInfo) (buf : List UInt8) (level : ℤ) :
    ∃ result calls, webMParseListElement client buf buf.length listInfo.id level = some (result, calls) ∧
      ListElement listInfo level buf result calls ∧
      (0 < result → ∀ rest, webMParseListElement client (buf.take result.toNat ++ rest)
        (buf.take result.toNat ++ rest).length listInfo.id level = some (result, calls)) := by
  have hfind := findListInfo_of_mem listInfo hlist
  suffices h : ∃ result calls, webMParseListElement client buf buf.length listInfo.id level = some (result, calls) ∧
      (0 < result → ∀ rest, webMParseListElement client (buf.take result.toNat ++ rest)
        (buf.take result.toNat ++ rest).length listInfo.id level = some (result, calls)) by
    obtain ⟨result, calls, heq, hlocal⟩ := h
    exact ⟨result, calls, heq, listElement_of_eq hclient hfind heq, hlocal⟩
  rcases content_cases buf with hincomplete | ⟨hincomplete, hstarts⟩ | ⟨id, n, v, w, rest, hheader, rfl, hn⟩ |
    ⟨id, v, w, c, rest, hheader, rfl⟩
  · exact ⟨0, [], webMParseListElement_incomplete hincomplete, fun h => absurd h (by decide)⟩
  · exact ⟨-1, [], webMParseListElement_malformed hincomplete hstarts, fun h => absurd h (by decide)⟩
  · rw [webMParseListElement_header hheader]
    by_cases hid : id ≠ listInfo.id
    · exact ⟨-1, [], if_pos hid, fun h => absurd h (by decide)⟩
    · exact ⟨0, [], by rw [if_neg hid, if_pos hn], fun h => absurd h (by decide)⟩
  · by_cases hid : id ≠ listInfo.id
    · exact ⟨-1, [], by rw [webMParseListElement_header hheader, if_pos hid], fun h => absurd h (by decide)⟩
    obtain rfl := not_not.mp hid
    by_cases hne : c = []
    · -- an empty list
      subst hne
      have hheader' : IsHeader listInfo.id 0 v w := hheader
      have hempty : ∀ rest, webMParseListElement client (v ++ w ++ rest) (v ++ w ++ rest).length listInfo.id level =
          some (((v ++ w).length : ℤ), []) := by
        intro rest
        rw [webMParseListElement_header hheader', if_neg (not_not.mpr rfl), if_neg (Nat.not_lt_zero _),
          if_neg (Nat.lt_irrefl 0)]
      refine ⟨_, _, hempty rest, fun _ rest' => ?_⟩
      rw [List.nil_append, Int.toNat_natCast, List.take_left]
      exact hempty rest'
    by_cases helements : ∃ calls whole filled, Elements listInfo.idInfo (level + 1) c calls whole filled
    · obtain ⟨calls, whole, filled, helements⟩ := helements
      obtain ⟨result, log', heq, hresult, -⟩ :=
        webMParseListElement_of_elements hclient hheader hne hfind helements rest
      refine ⟨result, log', heq, fun hpos rest' => ?_⟩
      rw [hresult.resolve_left (by omega), Int.toNat_natCast, ← List.append_assoc (v ++ w), List.take_left,
        List.append_assoc (v ++ w), webMParseListElement_content hheader hne, parseElementList_local hclient rest,
        ← webMParseListElement_content hheader hne, heq, hresult.resolve_left (by omega)]
    · obtain ⟨log', heq⟩ := webMParseListElement_of_refuses hclient hheader hne hfind
        (fun calls whole filled h => helements ⟨calls, whole, filled, h⟩) rest
      exact ⟨-1, log', heq, fun h => absurd h (by decide)⟩

def clusterBytes : List UInt8 := [0x1f, 0x43, 0xb6, 0x75, 0x83, 0xe7, 0x81, 5, 9]

theorem webMParseListElement_spec_cluster :
    ∃ result calls, webMParseListElement (fun _ _ => true) clusterBytes clusterBytes.length kWebMIdCluster 1 =
        some (result, calls) ∧
      ListElement ⟨kWebMIdCluster, kClusterIds⟩ 1 clusterBytes result calls ∧
      (0 < result → ∀ rest, webMParseListElement (fun _ _ => true) (clusterBytes.take result.toNat ++ rest)
        (clusterBytes.take result.toNat ++ rest).length kWebMIdCluster 1 = some (result, calls)) := by
  have hmem : (⟨kWebMIdCluster, kClusterIds⟩ : ListElementInfo) ∈ kListElementInfo := List.mem_cons_self
  exact webMParseListElement_spec (fun _ _ => rfl) hmem clusterBytes 1

/-- **An element of another id is refused before all of it is there.** -/
theorem webMParseListElement_codecID :
    (∃ id n v w rest, IsHeader id n v w ∧ [0x86, 0x81] = v ++ w ++ rest ∧ rest.length < n) ∧
      webMParseListElement (fun _ _ => true) [0x86, 0x81] 2 kWebMIdCluster 1 = some (-1, []) := by
  have hid : IsVint [0x86] := ⟨List.cons_ne_nil _ _, by decide, by decide⟩
  have hsize : IsVint [0x81] := ⟨List.cons_ne_nil _ _, by decide, by decide⟩
  have hheader : IsHeader 0x86 1 [0x86] [0x81] := ⟨hid, by decide, rfl, hsize, by decide, rfl⟩
  refine ⟨⟨0x86, 1, [0x86], [0x81], [], hheader, rfl, by decide⟩, ?_⟩
  show webMParseListElement _ ([0x86] ++ [0x81] ++ []) ([0x86] ++ [0x81] ++ []).length _ _ = _
  exact (webMParseListElement_header hheader).trans (if_pos (by decide))

end

end Chromium.Media.WebM
