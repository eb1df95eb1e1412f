import Chromium.Net.Base.UploadFiles

/-!
# What is handed out of an upload

What is in the buffer and what is still to be read are together what is left of the body.  Each turn of `FillBuf` keeps
them, except for one: `FillBuf` compares how much of a file is left as an `int`, so a read of `r` bytes where `r + 2³²`,
or `r` and a larger multiple, are left looks like the last one, and the rest of the file is skipped (`Truncates`).
-/

namespace Chromium.Net.Upload

open Lib
open List (append_assoc length_append length_take)

/-! ## What is to be sent -/

/-- The first `n` of the bytes, with zeros where there are fewer. -/
def padTo (bytes : List UInt8) (n : ℕ) : List UInt8 := bytes.take n ++ List.replicate (n - bytes.length) 0

theorem length_padTo (bytes : List UInt8) (n : ℕ) : (padTo bytes n).length = n := by
  rw [padTo, length_append, length_take, List.length_replicate]
  omega

theorem padTo_zero (bytes : List UInt8) : padTo bytes 0 = [] := List.eq_nil_of_length_eq_zero (length_padTo bytes 0)

theorem padTo_eq_take_append (bytes : List UInt8) {r n : ℕ} (hr : r ≤ bytes.length) (hn : r ≤ n) :
    padTo bytes n = bytes.take r ++ padTo (bytes.drop r) (n - r) := by
  have htake : bytes.take n = bytes.take r ++ (bytes.drop r).take (n - r) := by
    rw [← List.take_add, Nat.add_sub_cancel' hn]
  have hlength : n - r - (bytes.drop r).length = n - bytes.length := by
    rw [List.length_drop]
    omega
  rw [padTo, padTo, htake, hlength, append_assoc]

theorem padTo_nil (n : ℕ) : padTo [] n = List.replicate n 0 := by
  rw [padTo, List.take_nil, List.nil_append, List.length_nil, Nat.sub_zero]

theorem padTo_nil_eq_append {r n : ℕ} (hn : r ≤ n) : padTo [] n = List.replicate r 0 ++ padTo [] (n - r) := by
  rw [padTo_nil, padTo_nil, List.replicate_append_replicate, Nat.add_sub_cancel' hn]

def Element.contribution : Element → List UInt8
  | bytes data => data
  | file f => padTo (f.newFileStreamForReading.getD []) f.getContentLength

theorem Element.length_contribution (element : Element) : element.contribution.length = element.getContentLength := by
  cases element with
  | bytes data => rfl
  | file f => exact length_padTo _ _

def body (elements : List Element) : List UInt8 := elements.flatMap Element.contribution

theorem length_body (elements : List Element) :
    (body elements).length = (elements.map Element.getContentLength).sum := by
  induction elements with
  | nil => rfl
  | cons element elements ih =>
    rw [body, List.flatMap_cons, length_append, List.map_cons, List.sum_cons, element.length_contribution, ← ih]
    rfl

namespace UploadDataStream

variable {source : ℕ → ℕ} {u u' : UploadDataStream} {data : List UInt8} {f : UploadFile}

def pendingOf (u : UploadDataStream) : List Element → List UInt8
  | [] => []
  | .bytes data :: rest => data.drop u.nextElementOffset ++ body rest
  | .file f :: rest =>
    padTo ((u.openFile f).nextElementStream.getD []) (u.openFile f).nextElementRemaining ++ body rest

def pending (u : UploadDataStream) : List UInt8 := pendingOf u (u.elements.drop u.nextElement)

def left (u : UploadDataStream) : List UInt8 := u.buf ++ u.pending

def OffsetOk (offset : ℕ) : Option Element → Prop
  | some (.bytes data) => offset ≤ data.length
  | _ => True

/-- **The buffer and the place in the elements.** -/
structure Ok (u : UploadDataStream) : Prop where
  buf_le : u.buf.length ≤ kBufSize
  nextElement_le : u.nextElement ≤ u.elements.length
  offsetOk : OffsetOk u.nextElementOffset u.elements[u.nextElement]?

def Truncates (source : ℕ → ℕ) (u : UploadDataStream) : Prop :=
  ∃ f, u.elements[u.nextElement]? = some (.file f) ∧ 4294967296 < (u.openFile f).nextElementRemaining ∧
    (u.openFile f).nextElementRemaining % 4294967296 = ((u.openFile f).readFile source
        (min (u.openFile f).nextElementRemaining (kBufSize - (u.openFile f).buf.length))).2

structure Turned (source : ℕ → ℕ) (u u' : UploadDataStream) : Prop where
  ok : Ok u'
  elements : u'.elements = u.elements
  totalSize : u'.totalSize = u.totalSize
  currentPosition : u'.currentPosition = u.currentPosition
  eof : u'.eof = u.eof
  turns : u'.turns < u.turns
  kept : ¬Truncates source u → u'.left = u.left
  length_lt : Truncates source u → u'.left.length < u.left.length

theorem drop_eq_cons {element : Element} (helement : u.elements[u.nextElement]? = some element) :
    u.elements.drop u.nextElement = element :: u.elements.drop (u.nextElement + 1) := by
  obtain ⟨hlt, hget⟩ := List.getElem?_eq_some_iff.1 helement
  rw [List.drop_eq_getElem_cons hlt, hget]

theorem pending_bytes (helement : u.elements[u.nextElement]? = some (.bytes data)) :
    u.pending = data.drop u.nextElementOffset ++ body (u.elements.drop (u.nextElement + 1)) := by
  rw [pending, drop_eq_cons helement]
  rfl

theorem pending_file (helement : u.elements[u.nextElement]? = some (.file f)) :
    u.pending = padTo ((u.openFile f).nextElementStream.getD []) (u.openFile f).nextElementRemaining ++
      body (u.elements.drop (u.nextElement + 1)) := by
  rw [pending, drop_eq_cons helement]
  rfl

theorem pending_advance (u : UploadDataStream) : u.advance.pending = body (u.elements.drop (u.nextElement + 1)) := by
  change pendingOf u.advance (u.elements.drop (u.nextElement + 1)) = _
  rcases u.elements.drop (u.nextElement + 1) with - | ⟨element, rest⟩
  · rfl
  · cases element with
    | bytes data | file f => rfl

theorem offsetOk_zero (element : Option Element) : OffsetOk 0 element := by
  rcases element with - | element
  · exact trivial
  · cases element with
    | bytes data => exact Nat.zero_le _
    | file f => exact trivial

theorem ok_advance (hbuf : u.buf.length ≤ kBufSize) (hlt : u.nextElement < u.elements.length) : Ok u.advance :=
  ⟨hbuf, hlt, offsetOk_zero _⟩

/-! ## One turn -/

theorem not_truncates_bytes (helement : u.elements[u.nextElement]? = some (.bytes data)) : ¬Truncates source u := by
  rintro ⟨f, hfile, -⟩
  rw [helement] at hfile
  cases hfile

theorem turned_copyBytes (h : Ok u) (hturn : u.HasTurn) (helement : u.elements[u.nextElement]? = some (.bytes data)) :
    Turned source u (u.copyBytes data) := by
  obtain ⟨hroom, hlt⟩ := hturn
  have hoffset : u.nextElementOffset ≤ data.length := by
    have hok := h.offsetOk
    rwa [helement] at hok
  have hbefore : u.left = u.buf ++ (data.drop u.nextElementOffset ++ body (u.elements.drop (u.nextElement + 1))) := by
    rw [left, pending_bytes helement]
  dsimp only [copyBytes]
  obtain ⟨k, hk⟩ : ∃ k, k = min (data.length - u.nextElementOffset) (kBufSize - u.buf.length) := ⟨_, rfl⟩
  have htaken : ((data.drop u.nextElementOffset).take k).length = k := by
    rw [length_take, List.length_drop]
    omega
  have hbuf : (u.buf ++ (data.drop u.nextElementOffset).take k).length ≤ kBufSize := by
    rw [length_append, htaken]
    omega
  rw [← hk]
  by_cases hall : k = data.length - u.nextElementOffset
  · rw [if_pos hall]
    have hwhole : (data.drop u.nextElementOffset).take k = data.drop u.nextElementOffset :=
      List.take_of_length_le (by rw [List.length_drop, hall])
    refine ⟨ok_advance hbuf hlt, rfl, rfl, rfl, rfl, ?_, fun _ => ?_, fun htrunc => absurd htrunc (not_truncates_bytes helement)⟩
    · dsimp only [turns, advance]
      rw [length_append]
      omega
    · rw [left, pending_advance, hbefore]
      dsimp only [advance]
      rw [hwhole, append_assoc]
  · rw [if_neg hall]
    refine ⟨⟨hbuf, h.nextElement_le, ?_⟩, rfl, rfl, rfl, rfl, ?_, fun _ => ?_,
      fun htrunc => absurd htrunc (not_truncates_bytes helement)⟩
    · change OffsetOk (u.nextElementOffset + k) u.elements[u.nextElement]?
      rw [helement]
      exact show u.nextElementOffset + k ≤ data.length by omega
    · dsimp only [turns]
      rw [length_append, htaken]
      omega
    · rw [left, pending_bytes (u := { u with
          buf := u.buf ++ (data.drop u.nextElementOffset).take k
          nextElementOffset := u.nextElementOffset + k }) helement, hbefore]
      dsimp only
      rw [append_assoc, ← append_assoc (List.take k _), ← List.drop_drop, List.take_append_drop]

/-- What a read of a file puts into the buffer. -/
structure ReadsFile (u : UploadDataStream) (count : ℕ) (u' : UploadDataStream) (rv : ℕ) (filled : List UInt8) : Prop where
  rv_eq : rv = filled.length
  pos : 0 < rv
  le : rv ≤ count
  buf : u'.buf = u.buf ++ filled
  rest : ∀ n, count ≤ n →
    filled ++ padTo (u'.nextElementStream.getD []) (n - rv) = padTo (u.nextElementStream.getD []) n
  elements : u'.elements = u.elements
  nextElement : u'.nextElement = u.nextElement
  nextElementOffset : u'.nextElementOffset = u.nextElementOffset
  remaining : u'.nextElementRemaining = u.nextElementRemaining
  totalSize : u'.totalSize = u.totalSize
  currentPosition : u'.currentPosition = u.currentPosition
  eof : u'.eof = u.eof

theorem getD_map_drop (stream : Option (List UInt8)) (n : ℕ) : (stream.map (List.drop n)).getD [] = (stream.getD []).drop n := by
  cases stream with
  | none => exact List.drop_nil.symm
  | some bytes => rfl

/-- **A read gives the next bytes**, or zeros behind the end of the file. -/
theorem readsFile (source : ℕ → ℕ) (u : UploadDataStream) {count : ℕ} (hcount : 0 < count) :
    ∃ filled, ReadsFile u count (u.readFile source count).1 (u.readFile source count).2 filled := by
  obtain ⟨bytes, hbytes⟩ : ∃ bytes, bytes = u.readBytes source count := ⟨_, rfl⟩
  obtain ⟨available, havailable⟩ : ∃ available, available = u.nextElementStream.getD [] := ⟨_, rfl⟩
  have htake : bytes = available.take (readSize source u count available.length) := by
    rw [hbytes, readBytes, ← havailable]
  rw [readFile, if_neg hcount.ne', ← hbytes]
  dsimp only
  by_cases hnil : bytes = []
  · have hnone : available = [] := by
      by_contra hsome
      have hpos := List.length_pos_iff.2 hsome
      have hlength := congrArg List.length htake
      rw [hnil, List.length_nil, length_take, readSize] at hlength
      omega
    rw [if_pos hnil]
    refine ⟨List.replicate count 0, ⟨rfl, ?_, ?_, rfl, fun n hn => ?_, rfl, rfl, rfl, rfl, rfl, rfl, rfl⟩⟩
    · rwa [List.length_replicate]
    · rw [List.length_replicate]
    · rw [getD_map_drop, ← havailable, hnone, List.drop_nil, List.length_replicate, ← padTo_nil_eq_append hn]
  · have hlength : bytes.length = readSize source u count available.length := by
      rw [htake, length_take, readSize]
      omega
    have hle : bytes.length ≤ count := by
      rw [hlength, readSize]
      omega
    have hle' : bytes.length ≤ available.length := by
      rw [hlength, readSize]
      omega
    rw [if_neg hnil]
    refine ⟨bytes, ⟨rfl, List.length_pos_iff.2 hnil, hle, rfl, fun n hn => ?_, rfl, rfl, rfl, rfl, rfl, rfl, rfl⟩⟩
    rw [getD_map_drop, ← havailable, padTo_eq_take_append available hle' (hle.trans hn), hlength, ← htake]

/-- Opening a file changes nothing else. -/
structure Opens (u u' : UploadDataStream) : Prop where
  elements : u'.elements = u.elements
  buf : u'.buf = u.buf
  nextElement : u'.nextElement = u.nextElement
  nextElementOffset : u'.nextElementOffset = u.nextElementOffset
  totalSize : u'.totalSize = u.totalSize
  currentPosition : u'.currentPosition = u.currentPosition
  eof : u'.eof = u.eof

theorem opens_openFile (u : UploadDataStream) (f : UploadFile) : Opens u (u.openFile f) := by
  unfold openFile
  split <;> exact ⟨rfl, rfl, rfl, rfl, rfl, rfl, rfl⟩

theorem openFile_of_ne_zero (h : u.nextElementRemaining ≠ 0) : u.openFile f = u := if_neg h

theorem toInt32_eq_iff (remaining rv : ℕ) (hle : rv ≤ remaining) (hrv : rv ≤ kBufSize) :
    toInt32 (remaining : ℤ) = rv ↔ remaining = rv ∨ 4294967296 < remaining ∧ remaining % 4294967296 = rv ∧ rv ≠ 0 ∨
      4294967296 ≤ remaining ∧ remaining % 4294967296 = 0 ∧ rv = 0 := by
  have hkBufSize : kBufSize = 16384 := rfl
  unfold toInt32
  omega

theorem turned_copyFile (h : Ok u) (hturn : u.HasTurn) (helement : u.elements[u.nextElement]? = some (.file f)) :
    Turned source u (u.copyFile source f) := by
  obtain ⟨hroom, hlt⟩ := hturn
  obtain ⟨o, ho⟩ : ∃ o, o = u.openFile f := ⟨_, rfl⟩
  have hopens : Opens u o := ho ▸ opens_openFile u f
  have hbefore : u.left = u.buf ++ (padTo (o.nextElementStream.getD []) o.nextElementRemaining ++
      body (u.elements.drop (u.nextElement + 1))) := by
    rw [left, pending_file helement, ← ho]
  have htruncates : Truncates source u ↔ 4294967296 < o.nextElementRemaining ∧ o.nextElementRemaining % 4294967296 =
      (o.readFile source (min o.nextElementRemaining (kBufSize - o.buf.length))).2 := by
    constructor
    · rintro ⟨f', hfile, hbig, hmod⟩
      rw [helement] at hfile
      cases hfile
      rw [← ho] at hbig hmod
      exact ⟨hbig, hmod⟩
    · rintro ⟨hbig, hmod⟩
      exact ⟨f, helement, ho ▸ hbig, ho ▸ hmod⟩
  obtain ⟨count, hcount⟩ : ∃ count, count = min o.nextElementRemaining (kBufSize - o.buf.length) := ⟨_, rfl⟩
  rw [← hcount] at htruncates
  have hbufEq := hopens.buf
  rw [copyFile, ← ho]
  dsimp only
  rw [← hcount]
  by_cases hzero : o.nextElementRemaining = 0
  · -- Nothing is left of the file.
    have hcount0 : count = 0 := by omega
    have hread : o.readFile source count = (o, 0) := if_pos hcount0
    have hnot : ¬Truncates source u := fun htrunc => by
      have := (htruncates.1 htrunc).1
      omega
    rw [hread]
    dsimp only
    rw [hzero, if_pos (by rfl)]
    refine ⟨ok_advance (hbufEq ▸ h.buf_le) ?_, hopens.elements, hopens.totalSize, hopens.currentPosition, hopens.eof, ?_,
      fun _ => ?_, fun htrunc => absurd htrunc hnot⟩
    · rw [hopens.nextElement, hopens.elements]
      exact hlt
    · dsimp only [turns, advance]
      rw [hbufEq, hopens.elements, hopens.nextElement]
      omega
    · rw [left, pending_advance, hbefore, hzero, padTo_zero, List.nil_append, hopens.elements, hopens.nextElement]
      dsimp only [advance]
      rw [hbufEq]
  · have hpos : 0 < count := by
      rw [hcount, hbufEq]
      omega
    obtain ⟨filled, hreads⟩ := readsFile source o hpos
    obtain ⟨r, hr⟩ : ∃ r, r = (o.readFile source count).1 := ⟨_, rfl⟩
    obtain ⟨rv, hrv⟩ : ∃ rv, rv = (o.readFile source count).2 := ⟨_, rfl⟩
    rw [← hr, ← hrv] at hreads ⊢
    rw [← hrv] at htruncates
    have hrvPos := hreads.pos
    have hrvLe := hreads.le
    have hremaining := hreads.remaining
    have hnext : r.nextElement = u.nextElement := hreads.nextElement.trans hopens.nextElement
    have helements : r.elements = u.elements := hreads.elements.trans hopens.elements
    have hbuf : r.buf = u.buf ++ filled := hbufEq ▸ hreads.buf
    have hfits : r.buf.length ≤ kBufSize := by
      rw [hbuf, length_append, ← hreads.rv_eq, ← hbufEq]
      omega
    have hsplit := hreads.rest o.nextElementRemaining (by omega)
    have hcast := toInt32_eq_iff r.nextElementRemaining rv (by omega)
      (by rw [hbufEq] at hcount; omega)
    by_cases hcut : toInt32 (r.nextElementRemaining : ℤ) = rv
    · rw [if_pos hcut]
      have hadvance : r.advance.left = u.buf ++ (filled ++ body (u.elements.drop (u.nextElement + 1))) := by
        rw [left, pending_advance, helements, hnext]
        dsimp only [advance]
        rw [hbuf, append_assoc]
      refine ⟨ok_advance hfits (by rw [hnext, helements]; exact hlt), helements, hreads.totalSize.trans hopens.totalSize,
        hreads.currentPosition.trans hopens.currentPosition, hreads.eof.trans hopens.eof, ?_, fun hnot => ?_,
        fun htrunc => ?_⟩
      · dsimp only [turns, advance]
        rw [hbuf, helements, hnext, length_append]
        omega
      · have hlast : o.nextElementRemaining = rv := by
          rcases hcast.1 hcut with hlast | ⟨hbig, hmod, -⟩ | ⟨-, -, hnone⟩
          · rw [← hremaining, hlast]
          · rw [hremaining] at hbig hmod
            exact absurd (htruncates.2 ⟨hbig, hmod⟩) hnot
          · omega
        rw [hlast, Nat.sub_self, padTo_zero, List.append_nil] at hsplit
        rw [hadvance, hbefore, hlast, ← hsplit]
      · have hbig := (htruncates.1 htrunc).1
        have hrvLe' : rv ≤ kBufSize := by
          rw [hbufEq] at hcount
          omega
        have hkBufSize : kBufSize = 16384 := rfl
        rw [hadvance, hbefore]
        simp only [length_append, length_padTo]
        rw [← hreads.rv_eq]
        omega
    · rw [if_neg hcut]
      have hnot : ¬Truncates source u := fun htrunc => by
        obtain ⟨hbig, hmod⟩ := htruncates.1 htrunc
        exact hcut (hcast.2 (.inr (.inl ⟨by rwa [hremaining], by rwa [hremaining], by omega⟩)))
      have hmore : o.nextElementRemaining - rv ≠ 0 := by
        have hne : r.nextElementRemaining ≠ rv := fun heq => hcut (hcast.2 (.inl heq))
        omega
      obtain ⟨n, hn⟩ : ∃ n : UploadDataStream, n = { r with nextElementRemaining := r.nextElementRemaining - rv } := ⟨_, rfl⟩
      have hnRemaining : n.nextElementRemaining = o.nextElementRemaining - rv := by rw [hn, ← hremaining]
      have hnElement : n.elements[n.nextElement]? = some (.file f) := by
        rw [hn]
        dsimp only
        rw [helements, hnext]
        exact helement
      rw [← hn]
      refine ⟨⟨by rw [hn]; exact hfits, by rw [hn]; dsimp only; rw [hnext, helements]; exact h.nextElement_le, ?_⟩,
        by rw [hn]; exact helements, by rw [hn]; exact hreads.totalSize.trans hopens.totalSize,
        by rw [hn]; exact hreads.currentPosition.trans hopens.currentPosition, by rw [hn]; exact hreads.eof.trans hopens.eof,
        ?_, fun _ => ?_, fun htrunc => absurd htrunc hnot⟩
      · rw [hnElement]
        exact trivial
      · rw [hn]
        dsimp only [turns]
        rw [hbuf, helements, hnext, length_append, ← hreads.rv_eq]
        omega
      · rw [left, pending_file hnElement, openFile_of_ne_zero (hnRemaining ▸ hmore), hnRemaining, hbefore, ← hsplit]
        rw [hn]
        dsimp only
        rw [hbuf, helements, hnext, append_assoc, append_assoc]

end UploadDataStream

end Chromium.Net.Upload
