import Mathlib.Order.Lattice

/-!
# The body of an upload

`net/base/upload_data_stream.cc`: the elements of the body go through a buffer.  What was sent is
dropped from the front of the buffer, and the buffer is filled up again.  A chunked body gets its
elements one by one while it is sent.

A file is known by its content, and by whether it was changed, which the source looks at when it
starts to read it; a read gives all that is asked for.
-/

namespace Chromium.Net

open List (length_append length_drop)

inductive Element
  | bytes (data : List UInt8)
  | chunk (data : List UInt8) (isLastChunk : Bool)
  | file (content : List UInt8) (changed : Bool)
  deriving DecidableEq

namespace Element

def data : Element → List UInt8
  | bytes data => data
  | chunk data _ => data
  | file content _ => content

def isLastChunk : Element → Bool
  | chunk _ isLastChunk => isLastChunk
  | _ => false

def isChanged : Element → Bool
  | file _ changed => changed
  | _ => false

end Element

/-- `UploadDataStream`, with the elements of its `UploadData`. -/
structure UploadDataStream where
  elements : List Element
  isChunked : Bool
  buf : List UInt8
  nextElement : ℕ
  nextElementOffset : ℕ
  eof : Bool
  deriving DecidableEq

namespace UploadDataStream

def kBufSize : ℕ := 16384

/-- Where the loop of `FillBuf` stops, and whether no file was changed. -/
structure Filled where
  buf : List UInt8
  nextElement : ℕ
  nextElementOffset : ℕ
  ok : Bool

/-- The loop of `FillBuf` over the elements from `nextElement` on. -/
def fillLoop : List Element → (buf : List UInt8) → (nextElement nextElementOffset : ℕ) → Filled
  | [], buf, nextElement, offset => ⟨buf, nextElement, offset, true⟩
  | element :: elements, buf, nextElement, offset =>
    if buf.length < kBufSize then
      if element.isChanged ∧ offset = 0 then ⟨buf, nextElement, offset, false⟩
      else
        let count := element.data.length - offset
        let bytesCopied := min count (kBufSize - buf.length)
        let buf' := buf ++ (element.data.drop offset).take bytesCopied
        if bytesCopied = count then fillLoop elements buf' (nextElement + 1) 0
        else ⟨buf', nextElement, offset + bytesCopied, true⟩
    else ⟨buf, nextElement, offset, true⟩

variable (u : UploadDataStream)

def endsWithLastChunk : Bool := (u.elements.getLast?.map Element.isLastChunk).getD false

def fillBuf : UploadDataStream :=
  let filled := fillLoop (u.elements.drop u.nextElement) u.buf u.nextElement u.nextElementOffset
  { u with
    buf := filled.buf
    nextElement := filled.nextElement
    nextElementOffset := filled.nextElementOffset
    eof := u.eof ∨ (filled.ok ∧ filled.nextElement = u.elements.length ∧ filled.buf = [] ∧
      (¬ u.isChunked ∨ u.endsWithLastChunk)) }

def markConsumedAndFillBuffer (numBytes : ℕ) : UploadDataStream :=
  { u with buf := u.buf.drop numBytes }.fillBuf

def isOnLastChunk : Bool := u.eof ∨ (u.nextElement = u.elements.length ∧ u.endsWithLastChunk)

def appendChunk (data : List UInt8) (isLastChunk : Bool) : UploadDataStream :=
  { u with elements := u.elements ++ [.chunk data isLastChunk] }

def newChunked : UploadDataStream where
  elements := []
  isChunked := true
  buf := []
  nextElement := 0
  nextElementOffset := 0
  eof := false

/-! ### Nothing of the body is lost -/

def OffsetOk : List Element → ℕ → Prop
  | [], offset => offset = 0
  | element :: _, offset => offset ≤ element.data.length

def restOf (elements : List Element) (offset : ℕ) : List UInt8 := (elements.flatMap Element.data).drop offset

theorem restOf_cons {element : Element} (elements : List Element) {offset : ℕ} (h : offset ≤ element.data.length) :
    restOf (element :: elements) offset = element.data.drop offset ++ restOf elements 0 := by
  rw [restOf, List.flatMap_cons, List.drop_append_of_le_length h]
  rfl

theorem fillLoop_eq_self {elements : List Element} {buf : List UInt8} (h : ¬buf.length < kBufSize)
    (next offset : ℕ) : fillLoop elements buf next offset = ⟨buf, next, offset, true⟩ := by
  cases elements with
  | nil => rfl
  | cons element elements => rw [fillLoop, if_neg h]

/-- **The loop moves bytes of the elements to the buffer**, until it is full or no element is left. -/
theorem fillLoop_spec {elements : List Element} (hsame : ∀ element ∈ elements, element.isChanged = false)
    {buf : List UInt8} {offset : ℕ} (hoffset : OffsetOk elements offset) (hbuf : buf.length ≤ kBufSize) (next : ℕ) :
    ∃ k ≤ elements.length, (fillLoop elements buf next offset).nextElement = next + k ∧
      (fillLoop elements buf next offset).ok = true ∧
      (fillLoop elements buf next offset).buf ++
          restOf (elements.drop k) (fillLoop elements buf next offset).nextElementOffset =
        buf ++ restOf elements offset ∧
      OffsetOk (elements.drop k) (fillLoop elements buf next offset).nextElementOffset ∧
      (fillLoop elements buf next offset).buf.length ≤ kBufSize ∧
      ((fillLoop elements buf next offset).buf.length < kBufSize → k = elements.length) := by
  induction elements generalizing buf next offset with
  | nil => exact ⟨0, Nat.le_refl _, rfl, rfl, rfl, hoffset, hbuf, fun _ => rfl⟩
  | cons element elements ih =>
    by_cases hfull : buf.length < kBufSize
    · have hcount : offset ≤ element.data.length := hoffset
      have hchanged : ¬(element.isChanged = true ∧ offset = 0) := by
        rw [hsame element List.mem_cons_self]
        exact fun h => (nomatch h.1)
      rw [fillLoop, if_pos hfull, if_neg hchanged, restOf_cons elements hcount]
      by_cases hall : min (element.data.length - offset) (kBufSize - buf.length) = element.data.length - offset
      · have htake : (element.data.drop offset).take
            (min (element.data.length - offset) (kBufSize - buf.length)) = element.data.drop offset := by
          rw [hall]
          exact List.take_of_length_le (by rw [length_drop])
        have hoffset' : OffsetOk elements 0 := by
          cases elements with
          | nil => rfl
          | cons element elements => exact Nat.zero_le _
        have hbuf' : (buf ++ element.data.drop offset).length ≤ kBufSize := by
          rw [length_append, length_drop]
          omega
        obtain ⟨k, hk, hnext, hok, hrest, hoff, hlen, hdone⟩ :=
          ih (fun e he => hsame e (List.mem_cons_of_mem _ he)) hoffset' hbuf' (next + 1)
        rw [if_pos hall, htake]
        refine ⟨k + 1, Nat.succ_le_succ hk, ?_, hok, ?_, hoff, hlen, fun h => congrArg (· + 1) (hdone h)⟩
        · rw [hnext]
          omega
        · rw [List.drop_succ_cons, hrest, List.append_assoc]
      · rw [if_neg hall]
        refine ⟨0, Nat.zero_le _, rfl, rfl, ?_, ?_, ?_, ?_⟩
        · change (buf ++ _) ++ restOf (element :: elements) (offset + _) = _
          rw [restOf_cons elements (by omega), List.append_assoc, ← List.append_assoc (List.take _ _),
            ← List.drop_drop, List.take_append_drop]
        · change offset + _ ≤ element.data.length
          omega
        · change (buf ++ _).length ≤ kBufSize
          rw [length_append, List.length_take, length_drop]
          omega
        · change (buf ++ _).length < kBufSize → _
          rw [length_append, List.length_take, length_drop]
          omega
    · rw [fillLoop_eq_self hfull]
      exact ⟨0, Nat.zero_le _, rfl, rfl, rfl, hoffset, hbuf, fun h => absurd h hfull⟩

def unread : List UInt8 := restOf (u.elements.drop u.nextElement) u.nextElementOffset

def ChunksInOrder (elements : List Element) : Prop :=
  (∀ element ∈ elements, ∃ data isLastChunk, element = .chunk data isLastChunk) ∧
    ∀ element ∈ elements.dropLast, element.isLastChunk = false

structure ChunkedBody : Prop where
  isChunked : u.isChunked = true
  inOrder : ChunksInOrder u.elements
  nextElement_le : u.nextElement ≤ u.elements.length
  offsetOk : OffsetOk (u.elements.drop u.nextElement) u.nextElementOffset
  buf_le : u.buf.length ≤ kBufSize
  of_eof : u.eof = true → u.buf = [] ∧ u.unread = [] ∧ u.endsWithLastChunk = true

variable {u}

/-- **Filling the buffer** keeps what is to be sent, in order; the buffer is empty only at the end. -/
theorem ChunkedBody.fillBuf (h : ChunkedBody u) :
    ChunkedBody u.fillBuf ∧ u.fillBuf.elements = u.elements ∧ u.fillBuf.buf ++ u.fillBuf.unread = u.buf ++ u.unread ∧
      (u.fillBuf.buf = [] → u.fillBuf.unread = [] ∧ u.fillBuf.eof = u.endsWithLastChunk) ∧
      (u.fillBuf.eof = true → u.fillBuf.buf = []) := by
  have hsame : ∀ element ∈ u.elements.drop u.nextElement, element.isChanged = false := by
    intro element helement
    obtain ⟨data, isLastChunk, rfl⟩ := h.inOrder.1 element (List.mem_of_mem_drop helement)
    rfl
  obtain ⟨k, hk, hnext, hok, hrest, hoff, hlen, hdone⟩ :=
    fillLoop_spec hsame h.offsetOk h.buf_le u.nextElement
  have hdrop : u.elements.drop u.fillBuf.nextElement = (u.elements.drop u.nextElement).drop k := by
    rw [List.drop_drop]
    exact congrArg (u.elements.drop ·) hnext
  have hunread : u.fillBuf.unread = restOf ((u.elements.drop u.nextElement).drop k) u.fillBuf.nextElementOffset :=
    congrArg (restOf · _) hdrop
  have hkept : u.fillBuf.buf ++ u.fillBuf.unread = u.buf ++ u.unread := by
    rw [hunread]
    exact hrest
  rw [length_drop] at hk
  have hempty : u.fillBuf.buf = [] → k = u.elements.length - u.nextElement := by
    intro hnil
    rw [← length_drop]
    refine hdone ?_
    change u.fillBuf.buf.length < kBufSize
    rw [hnil]
    decide
  have heof : u.fillBuf.eof = true ↔ u.eof = true ∨ u.fillBuf.buf = [] ∧ u.endsWithLastChunk = true := by
    change decide (u.eof = true ∨ _) = true ↔ _
    rw [decide_eq_true_eq, hok, hnext, h.isChunked]
    refine or_congr_right ⟨fun hall => ⟨hall.2.2.1, hall.2.2.2.resolve_left fun hnot => hnot rfl⟩, fun hall => ?_⟩
    have hk' := hempty hall.1
    have hle := h.nextElement_le
    exact ⟨rfl, by omega, hall.1, .inr hall.2⟩
  have hbuf : u.fillBuf.eof = true → u.fillBuf.buf = [] := by
    intro h'
    rcases heof.1 h' with hold | ⟨hnil, -⟩
    · obtain ⟨hnil, hnone, -⟩ := h.of_eof hold
      rw [hnil, hnone] at hkept
      exact (List.append_eq_nil_iff.1 hkept).1
    · exact hnil
  have hend : u.fillBuf.buf = [] → u.fillBuf.unread = [] ∧ u.fillBuf.eof = u.endsWithLastChunk := by
    intro hnil
    refine ⟨?_, ?_⟩
    · rw [hnil, List.nil_append] at hkept
      rw [hunread, List.drop_eq_nil_of_le (by rw [length_drop, hempty hnil])]
      exact List.drop_nil
    · rw [Bool.eq_iff_iff, heof]
      refine ⟨fun hor => ?_, fun hlast => .inr ⟨hnil, hlast⟩⟩
      rcases hor with hold | hnew
      · exact (h.of_eof hold).2.2
      · exact hnew.2
  refine ⟨⟨h.isChunked, h.inOrder, ?_, ?_, hlen, ?_⟩, rfl, hkept, hend, hbuf⟩
  · have hle := h.nextElement_le
    change (fillLoop _ _ _ _).nextElement ≤ u.elements.length
    rw [hnext]
    omega
  · change OffsetOk (u.elements.drop u.fillBuf.nextElement) u.fillBuf.nextElementOffset
    rw [hdrop]
    exact hoff
  · intro h'
    obtain ⟨hnone, hlast⟩ := hend (hbuf h')
    exact ⟨hbuf h', hnone, hlast ▸ h'⟩

theorem ChunkedBody.drop (h : ChunkedBody u) (n : ℕ) : ChunkedBody { u with buf := u.buf.drop n } := by
  refine ⟨h.isChunked, h.inOrder, h.nextElement_le, h.offsetOk, ?_, ?_⟩
  · change (u.buf.drop n).length ≤ kBufSize
    rw [length_drop]
    exact Nat.le_trans (Nat.sub_le _ _) h.buf_le
  · intro heof
    obtain ⟨hnil, hrest⟩ := h.of_eof heof
    refine ⟨?_, hrest⟩
    change u.buf.drop n = []
    rw [hnil, List.drop_nil]

/-- **Sending `n` bytes** takes them off the body, and fills the buffer. -/
theorem ChunkedBody.markConsumedAndFillBuffer (h : ChunkedBody u) (n : ℕ) :
    ChunkedBody (u.markConsumedAndFillBuffer n) ∧ (u.markConsumedAndFillBuffer n).elements = u.elements ∧
      (u.markConsumedAndFillBuffer n).buf ++ (u.markConsumedAndFillBuffer n).unread = u.buf.drop n ++ u.unread ∧
      ((u.markConsumedAndFillBuffer n).buf = [] →
        (u.markConsumedAndFillBuffer n).unread = [] ∧ (u.markConsumedAndFillBuffer n).eof = u.endsWithLastChunk) ∧
      ((u.markConsumedAndFillBuffer n).eof = true → (u.markConsumedAndFillBuffer n).buf = []) :=
  (h.drop n).fillBuf

theorem restOf_append (elements : List Element) (element : Element) {offset : ℕ} (h : OffsetOk elements offset) :
    restOf (elements ++ [element]) offset = restOf elements offset ++ element.data := by
  have hsingle : [element].flatMap Element.data = element.data := by simp
  rw [restOf, List.flatMap_append, hsingle, restOf, List.drop_append_of_le_length]
  cases elements with
  | nil => exact Nat.le_of_eq h
  | cons e elements =>
    rw [List.flatMap_cons, length_append]
    exact Nat.le_trans h (Nat.le_add_right _ _)

/-- **Appending a chunk** puts its data behind the rest of the body. -/
theorem ChunkedBody.appendChunk (h : ChunkedBody u) (hlast : u.endsWithLastChunk = false) (data : List UInt8)
    (isLastChunk : Bool) :
    ChunkedBody (u.appendChunk data isLastChunk) ∧ (u.appendChunk data isLastChunk).unread = u.unread ++ data := by
  have hdrop : (u.elements ++ [Element.chunk data isLastChunk]).drop u.nextElement =
      u.elements.drop u.nextElement ++ [.chunk data isLastChunk] := List.drop_append_of_le_length h.nextElement_le
  have hoff := h.offsetOk
  refine ⟨⟨h.isChunked, ⟨?_, ?_⟩, ?_, ?_, h.buf_le, ?_⟩, ?_⟩
  · intro element helement
    rcases List.mem_append.1 helement with hold | hnew
    · exact h.inOrder.1 element hold
    · exact ⟨data, isLastChunk, List.mem_singleton.1 hnew⟩
  · intro element helement
    change element ∈ (u.elements ++ [_]).dropLast at helement
    rw [List.dropLast_concat] at helement
    rcases List.eq_nil_or_concat u.elements with hnil | ⟨init, last, hconcat⟩
    · rw [hnil] at helement
      exact (nomatch helement)
    · rw [List.concat_eq_append] at hconcat
      have hinit := h.inOrder.2 element
      rw [endsWithLastChunk, hconcat, List.getLast?_concat] at hlast
      rw [hconcat, List.dropLast_concat] at hinit
      rw [hconcat] at helement
      rcases List.mem_append.1 helement with hold | hnew
      · exact hinit hold
      · rw [List.mem_singleton.1 hnew]
        exact hlast
  · exact Nat.le_trans h.nextElement_le (by simp [UploadDataStream.appendChunk])
  · change OffsetOk ((u.elements ++ [_]).drop u.nextElement) u.nextElementOffset
    rw [hdrop]
    cases hrest : u.elements.drop u.nextElement with
    | nil =>
      rw [hrest] at hoff
      exact Nat.le_trans (Nat.le_of_eq hoff) (Nat.zero_le _)
    | cons e elements =>
      rw [hrest] at hoff
      exact hoff
  · intro heof
    exact nomatch hlast.symm.trans (h.of_eof heof).2.2
  · change restOf ((u.elements ++ [_]).drop u.nextElement) u.nextElementOffset = _
    rw [hdrop]
    exact restOf_append _ _ hoff

def appended (u : UploadDataStream) : List UInt8 := u.elements.flatMap Element.data

theorem appended_appendChunk (data : List UInt8) (isLastChunk : Bool) :
    (u.appendChunk data isLastChunk).appended = u.appended ++ data := by
  have hsingle : [Element.chunk data isLastChunk].flatMap Element.data = data := by simp [Element.data]
  rw [appended, UploadDataStream.appendChunk, List.flatMap_append, hsingle]
  rfl

theorem chunkedBody_of_inOrder {elements : List Element} (h : ChunksInOrder elements) :
    ChunkedBody { newChunked with elements := elements } := by
  refine ⟨rfl, h, Nat.zero_le _, ?_, Nat.zero_le _, nofun⟩
  change OffsetOk elements 0
  cases elements with
  | nil => rfl
  | cons element elements => exact Nat.zero_le _

end UploadDataStream

end Chromium.Net
