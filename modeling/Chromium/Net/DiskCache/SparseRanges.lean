import Chromium.Net.DiskCache.SparseControl

/-!
# What a sparse entry returns

The operations of a sparse entry over all its children, in terms of the bytes that are there
(`Has`).

* `doChildrenIo_read`: a read returns the bytes that are there, up to the first that is not;
* `doChildrenIo_range`: `GetAvailableRange` finds a range of bytes that are there;
* `doChildIo_write`: what a write leaves of a child.
-/

namespace Chromium.Net.DiskCache

open Lib (writeAt readAt)
open Function (update update_idem update_of_ne update_self)
open Option (bind_some map_some)

namespace SparseControl

variable {c : SparseControl} {id : ℕ} {data : SparseData} {stream : List UInt8}

/-- A child as the entry has it: the data of the open child are those in memory. -/
def entry (c : SparseControl) (id : ℕ) : Option (SparseData × List UInt8) :=
  (c.backend id).bind fun e =>
    if c.child = some id then some (c.childData, e.sparseData)
    else e.sparseIndex.map fun data => (data, e.sparseData)

def Mine (header : SparseHeader) (data : SparseData) : Prop :=
  data.header.signature = header.signature ∧ data.header.magic = kIndexMagic

/-- An entry whose children are its own, and known. -/
structure WellFormed (c : SparseControl) : Prop where
  magic : c.sparseHeader.magic = kIndexMagic
  lastBlock : c.sparseHeader.lastBlock = 0
  lastBlockLen : c.sparseHeader.lastBlockLen = 0
  present : ∀ id, c.childrenMap id = (c.backend id).isSome
  opened : ∀ id, c.child = some id → (c.backend id).isSome = true ∧ Mine c.sparseHeader c.childData
  stored : ∀ id e, c.backend id = some e →
    e.childFlag = true ∧ ∃ data, e.sparseIndex = some data ∧ Mine c.sparseHeader data
  fits : ∀ id data stream, c.entry id = some (data, stream) → data.Fits stream.length

/-! ### Children are opened and closed -/

theorem closeChild_eq (c : SparseControl) :
    ∃ b, c.closeChild = { c with backend := b, child := none } := by
  unfold closeChild
  cases hchild : c.child with
  | none =>
    refine ⟨c.backend, ?_⟩
    dsimp only
    rw [← hchild]
  | some id => exact ⟨_, rfl⟩

theorem entry_closeChild (c : SparseControl) : c.closeChild.entry = c.entry := by
  funext id
  unfold closeChild entry
  cases hchild : c.child with
  | none =>
    dsimp only
    rw [hchild]
  | some id' =>
    dsimp only
    by_cases hid : id = id'
    · subst hid
      rw [update_self]
      cases c.backend id with
      | none => rfl
      | some e => simp
    · rw [update_of_ne hid]
      cases c.backend id with
      | none => rfl
      | some e => simp [Ne.symm hid]

theorem WellFormed.closeChild (h : c.WellFormed) : c.closeChild.WellFormed := by
  have hentry := entry_closeChild c
  refine ⟨?_, ?_, ?_, fun id => ?_, fun id hid => ?_, fun id e he => ?_, fun id data stream he => ?_⟩
  · unfold SparseControl.closeChild
    cases c.child <;> exact h.magic
  · unfold SparseControl.closeChild
    cases c.child <;> exact h.lastBlock
  · unfold SparseControl.closeChild
    cases c.child <;> exact h.lastBlockLen
  · have hp := h.present id
    unfold SparseControl.closeChild
    cases c.child with
    | none => exact hp
    | some id' =>
      dsimp only
      by_cases hid : id = id'
      · subst hid
        rw [update_self, Option.isSome_map, hp]
      · rw [update_of_ne hid, hp]
  · exfalso
    unfold SparseControl.closeChild at hid
    cases hchild : c.child with
    | none =>
      rw [hchild] at hid
      dsimp only at hid
      rw [hchild] at hid
      cases hid
    | some id' =>
      rw [hchild] at hid
      cases hid
  · unfold SparseControl.closeChild at he ⊢
    cases hchild : c.child with
    | none =>
      rw [hchild] at he
      exact h.stored id e he
    | some id' =>
      rw [hchild] at he
      dsimp only at he ⊢
      by_cases hid : id = id'
      · subst hid
        rw [update_self, Option.map_eq_some_iff] at he
        obtain ⟨e', he', rfl⟩ := he
        exact ⟨(h.stored id e' he').1, c.childData, rfl, (h.opened id hchild).2⟩
      · rw [update_of_ne hid] at he
        exact h.stored id e he
  · rw [hentry] at he
    exact h.fits id data stream he

theorem checkLastBlock_eq (h : data.Fits stream.length) : checkLastBlock data = data := by
  have hlen := h.lastLen
  unfold checkLastBlock kBlockSize
  rw [if_neg (by omega)]

theorem entry_open (hnone : c.child = none) (hentry : c.entry id = some (data, stream)) :
    { c with child := some id, childData := data }.entry = c.entry := by
  funext id'
  unfold entry at hentry ⊢
  dsimp only
  rw [hnone] at hentry ⊢
  by_cases hid : id' = id
  · subst hid
    cases hb : c.backend id' with
    | none => rfl
    | some e =>
      rw [hb] at hentry
      simp only [bind_some, reduceCtorEq, if_false, if_true] at hentry ⊢
      obtain ⟨data', hdata, heq⟩ := Option.map_eq_some_iff.1 hentry
      cases heq
      rw [hdata]
      rfl
  · cases c.backend id' with
    | none => rfl
    | some e => simp [Ne.symm hid]

theorem childStream_eq (hchild : c.child = some id) (hentry : c.entry id = some (data, stream)) :
    c.childStream = stream ∧ c.childData = data := by
  unfold entry at hentry
  unfold childStream
  rw [hchild] at hentry ⊢
  dsimp only
  cases hb : c.backend id with
  | none =>
    rw [hb] at hentry
    cases hentry
  | some e =>
    rw [hb, bind_some, if_pos rfl] at hentry
    obtain ⟨h1, h2⟩ := Prod.mk.inj (Option.some.inj hentry)
    exact ⟨h2, h1⟩

/-- What opening a child leaves of an operation. -/
structure SameIo (c c' : SparseControl) : Prop where
  operation : c'.operation = c.operation
  offset : c'.offset = c.offset
  userBuf : c'.userBuf = c.userBuf
  dataRead : c'.dataRead = c.dataRead
  bufLen : c'.bufLen = c.bufLen
  result : c'.result = c.result
  rangeFound : c'.rangeFound = c.rangeFound
  sparseHeader : c'.sparseHeader = c.sparseHeader

/-- The child is open, with its data and its stream. -/
structure Opened (c : SparseControl) (id : ℕ) (data : SparseData) (stream : List UInt8) : Prop where
  child : c.child = some id
  childData : c.childData = data
  childStream : c.childStream = stream

theorem Opened.congr {c' : SparseControl} (h : c.Opened id data stream)
    (hbackend : c'.backend = c.backend) (hchild : c'.child = c.child)
    (hdata : c'.childData = c.childData) : c'.Opened id data stream := by
  refine ⟨hchild.trans h.child, hdata.trans h.childData, ?_⟩
  rw [← h.childStream]
  unfold SparseControl.childStream
  rw [hbackend, hchild]

theorem opened_of_entry (hchild : c.child = some id) (hentry : c.entry id = some (data, stream)) :
    c.Opened id data stream := by
  obtain ⟨h1, h2⟩ := childStream_eq hchild hentry
  exact ⟨hchild, h2, h1⟩

theorem openChild_eq (h : c.WellFormed) (hentry : c.entry c.childId = some (data, stream)) :
    ∃ b, c.openChild = ({ c with backend := b, child := some c.childId, childData := data }, true) ∧
      { c with backend := b, child := some c.childId, childData := data }.WellFormed ∧
      { c with backend := b, child := some c.childId, childData := data }.entry = c.entry := by
  unfold openChild
  by_cases hopen : c.child = some c.childId
  · obtain ⟨-, rfl⟩ := childStream_eq hopen hentry
    have hc : { c with child := some c.childId } = c := by rw [← hopen]
    rw [if_pos hopen]
    exact ⟨c.backend, by rw [hc], by rw [hc]; exact h, by rw [hc]⟩
  · rw [if_neg hopen]
    obtain ⟨b, hb⟩ := closeChild_eq c
    have hclose := h.closeChild
    have heq := entry_closeChild c
    rw [hb] at hclose heq ⊢
    have hentry' := hentry
    rw [← heq] at hentry'
    have hopened := entry_open rfl hentry'
    have hfits := hclose.fits _ _ _ hentry'
    obtain ⟨e, he⟩ : ∃ e, b c.childId = some e := by
      cases he : b c.childId with
      | none => simp [entry, he] at hentry'
      | some e => exact ⟨e, rfl⟩
    obtain ⟨hflag, data', hdata, hmine⟩ := hclose.stored _ e he
    have hpresent := hclose.present c.childId
    dsimp only at hpresent
    simp only [entry, he, bind_some, reduceCtorEq, if_false, hdata, map_some,
      Option.some.injEq, Prod.mk.injEq] at hentry'
    obtain ⟨rfl, rfl⟩ := hentry'
    obtain ⟨flag, index, stream⟩ := e
    dsimp only at hflag hdata hfits
    subst hflag hdata
    have hid : childId { c with backend := b, child := none } = c.childId := rfl
    refine ⟨b, ?_, ?_, ?_⟩
    · dsimp only
      rw [hid, he, hpresent, he]
      dsimp only [Option.isSome_some]
      rw [if_neg (by simp), if_neg fun hne => hne.elim (· hmine.1) (· hmine.2), checkLastBlock_eq hfits]
    · refine ⟨hclose.magic, hclose.lastBlock, hclose.lastBlockLen, hclose.present, ?_, hclose.stored, ?_⟩
      · intro id hchild
        obtain rfl : c.childId = id := Option.some.inj hchild
        exact ⟨by dsimp only; rw [he]; rfl, hmine⟩
      · intro id d s hs
        rw [hopened] at hs
        exact hclose.fits id d s hs
    · rw [hopened, heq]

theorem openChild_present (h : c.WellFormed) (hentry : c.entry c.childId = some (data, stream)) :
    ∃ c₁, c.openChild = (c₁, true) ∧ c₁.WellFormed ∧ c₁.entry = c.entry ∧ SameIo c c₁ ∧
      c₁.Opened c.childId data stream := by
  obtain ⟨b, hopen, hwf, heq⟩ := openChild_eq h hentry
  refine ⟨_, hopen, hwf, heq, ⟨rfl, rfl, rfl, rfl, rfl, rfl, rfl, rfl⟩, opened_of_entry rfl ?_⟩
  rw [heq]
  exact hentry

theorem entry_eq_none (h : c.WellFormed) (hentry : c.entry id = none) : c.backend id = none := by
  cases he : c.backend id with
  | none => rfl
  | some e =>
    exfalso
    obtain ⟨-, data, hdata, -⟩ := h.stored id e he
    simp only [entry, he, bind_some, hdata, map_some] at hentry
    split at hentry <;> cases hentry

theorem openChild_absent (h : c.WellFormed) (hentry : c.entry c.childId = none) :
    ∃ b, c.openChild = { c with backend := b, child := none }.continueWithoutChild ∧
      { c with backend := b, child := none }.WellFormed ∧
      { c with backend := b, child := none }.entry = c.entry := by
  obtain ⟨b, hb⟩ := closeChild_eq c
  have hclose := h.closeChild
  have heq := entry_closeChild c
  have hbackend := entry_eq_none h hentry
  have hopen : c.child ≠ some c.childId := by
    intro hopen
    have := (h.opened _ hopen).1
    rw [hbackend] at this
    cases this
  rw [openChild, if_neg hopen]
  rw [hb] at hclose heq ⊢
  have hb' := entry_eq_none hclose (heq ▸ hentry)
  have hpresent := hclose.present c.childId
  dsimp only at hb' hpresent
  rw [hb', Option.isSome_none] at hpresent
  have hid : childId { c with backend := b, child := none } = c.childId := rfl
  refine ⟨b, ?_, hclose, heq⟩
  dsimp only
  rw [hid, if_pos hpresent]

theorem openChild_create (h : c.WellFormed) (hentry : c.entry c.childId = none)
    (hop : c.operation = .kWriteOperation) :
    ∃ c₁, c.openChild = (c₁, true) ∧ c₁.WellFormed ∧
      c₁.entry = update c.entry c.childId (some (⟨c.sparseHeader, fun _ => false⟩, [])) ∧
      SameIo c c₁ ∧ c₁.Opened c.childId ⟨c.sparseHeader, fun _ => false⟩ [] := by
  obtain ⟨b, hopen, hclose, heq⟩ := openChild_absent h hentry
  have hb : b c.childId = none := entry_eq_none hclose (heq ▸ hentry)
  have hnew : ({ c with backend := b, child := none }).continueWithoutChild = ({ c with
          backend := update b c.childId
            (some ⟨true, some ⟨c.sparseHeader, fun _ => false⟩, []⟩)
          childrenMap := update c.childrenMap c.childId true
          child := some c.childId
          childData := ⟨c.sparseHeader, fun _ => false⟩ }, true) := by
    have hid : childId { c with backend := b, child := none } = c.childId := rfl
    rw [continueWithoutChild, hid]
    dsimp only
    rw [hop]
    dsimp only
    rw [hb]
    dsimp only [initChildData, setChildBit, childId]
    rw [update_idem, update_self]
    rfl
  have hentry' : { c with
      backend := update b c.childId
        (some ⟨true, some ⟨c.sparseHeader, fun _ => false⟩, []⟩)
      childrenMap := update c.childrenMap c.childId true
      child := some c.childId
      childData := ⟨c.sparseHeader, fun _ => false⟩ }.entry =
        update c.entry c.childId (some (⟨c.sparseHeader, fun _ => false⟩, [])) := by
    funext id
    rw [← heq]
    unfold entry
    dsimp only
    by_cases hid : id = c.childId
    · subst hid
      rw [update_self, update_self]
      simp
    · rw [update_of_ne hid, update_of_ne hid]
      cases b id with
      | none => rfl
      | some e => simp [Ne.symm hid]
  refine ⟨_, hopen.trans hnew, ⟨h.magic, h.lastBlock, h.lastBlockLen, fun id => ?_,
    fun id hid => ?_, fun id e he => ?_, fun id d s hs => ?_⟩, hentry',
    ⟨rfl, rfl, rfl, rfl, rfl, rfl, rfl, rfl⟩, opened_of_entry rfl ?_⟩
  · have hp := hclose.present id
    dsimp only at hp ⊢
    by_cases hid : id = c.childId
    · subst hid
      rw [update_self, update_self]
      rfl
    · rw [update_of_ne hid, update_of_ne hid, hp]
  · obtain rfl : c.childId = id := Option.some.inj hid
    dsimp only
    rw [update_self]
    exact ⟨rfl, rfl, h.magic⟩
  · dsimp only at he
    by_cases hid : id = c.childId
    · subst hid
      rw [update_self] at he
      cases he
      exact ⟨rfl, _, rfl, rfl, h.magic⟩
    · rw [update_of_ne hid] at he
      exact hclose.stored id e he
  · rw [hentry'] at hs
    by_cases hid : id = c.childId
    · subst hid
      rw [update_self] at hs
      cases hs
      refine ⟨fun b hb => (nomatch hb), fun b hb => ⟨rfl, ?_⟩, ?_, by simp⟩
      · have h0 := h.lastBlock
        have h1 := h.lastBlockLen
        dsimp only at hb ⊢
        rw [h1, List.length_nil]
        omega
      · have h1 := h.lastBlockLen
        dsimp only
        omega
    · rw [update_of_ne hid] at hs
      exact h.fits id d s hs
  · rw [hentry', update_self]

/-! ### One child of an operation -/

def Has (entry : ℕ → Option (SparseData × List UInt8)) (x : ℕ) : Prop :=
  ∃ data stream, entry (x / 1048576) = some (data, stream) ∧ data.Has stream.length (x % 1048576)

def byteAt (entry : ℕ → Option (SparseData × List UInt8)) (x : ℕ) : UInt8 :=
  match entry (x / 1048576) with
  | none => 0
  | some (_, stream) => stream.getD (x % 1048576) 0

variable {x : ℕ}

theorem div_eq_childId {i : ℕ} (hi : c.offset % 1048576 + i < 1048576) : (c.offset + i) / 1048576 = c.childId := by
  unfold childId
  omega

theorem mod_eq_add {o i : ℕ} (hi : o % 1048576 + i < 1048576) : (o + i) % 1048576 = o % 1048576 + i := by
  omega

theorem has_iff (hentry : c.entry c.childId = some (data, stream)) {i : ℕ}
    (hi : c.offset % 1048576 + i < 1048576) :
    Has c.entry (c.offset + i) ↔ data.Has stream.length (c.offset % 1048576 + i) := by
  rw [Has, div_eq_childId hi, mod_eq_add hi, hentry]
  constructor
  · rintro ⟨d, s, heq, hhas⟩
    cases heq
    exact hhas
  · exact fun hhas => ⟨data, stream, rfl, hhas⟩

theorem byteAt_eq (hentry : c.entry c.childId = some (data, stream)) {i : ℕ}
    (hi : c.offset % 1048576 + i < 1048576) :
    byteAt c.entry (c.offset + i) = stream.getD (c.offset % 1048576 + i) 0 := by
  rw [byteAt, div_eq_childId hi, mod_eq_add hi, hentry]

theorem not_has_of_absent (hentry : c.entry c.childId = none) : ¬ Has c.entry c.offset := by
  rintro ⟨d, s, heq, -⟩
  rw [show c.offset / 1048576 = c.childId from rfl, hentry] at heq
  cases heq

theorem readAt_eq (h : data.Fits stream.length) {o n : ℕ} (hentry : c.entry c.childId = some (data, stream))
    (ho : o = c.offset % 1048576) (hle : o + n ≤ 1048576)
    (hhas : ∀ i, o ≤ i → i < o + n → data.Has stream.length i) :
    readAt stream o n = (List.range n).map fun i => byteAt c.entry (c.offset + i) := by
  have hlen : (readAt stream o n).length = n := by
    rw [Lib.length_readAt]
    rcases Nat.eq_zero_or_pos n with rfl | hn
    · omega
    · have := h.lt_of_has (hhas (o + n - 1) (by omega) (by omega))
      omega
  refine List.ext_getElem? fun i => ?_
  by_cases hi : i < n
  · rw [Lib.getElem?_readAt 0 hi (h.lt_of_has (hhas _ (by omega) (by omega))),
      List.getElem?_map, List.getElem?_range hi, map_some,
      byteAt_eq hentry (by omega), ho]
  · rw [List.getElem?_eq_none (by omega), List.getElem?_eq_none (by simp; omega)]

theorem WellFormed.congr {c' : SparseControl} (h : c.WellFormed)
    (hheader : c'.sparseHeader = c.sparseHeader) (hmap : c'.childrenMap = c.childrenMap)
    (hbackend : c'.backend = c.backend) (hchild : c'.child = c.child)
    (hdata : c'.childData = c.childData) : c'.WellFormed := by
  obtain ⟨h1, h2, h3, h4, h5, h6, h7⟩ := h
  unfold entry at h7
  rw [← hheader] at h1 h2 h3 h5 h6
  rw [← hmap] at h4
  rw [← hbackend] at h4 h5 h6 h7
  rw [← hchild] at h5 h7
  rw [← hdata] at h5 h7
  exact ⟨h1, h2, h3, h4, h5, h6, h7⟩

theorem entry_congr {c' : SparseControl} (hbackend : c'.backend = c.backend)
    (hchild : c'.child = c.child) (hdata : c'.childData = c.childData) : c'.entry = c.entry := by
  unfold entry
  rw [hbackend, hchild, hdata]

variable {c₁ c₂ c₃ : SparseControl} {rv : ℕ}

theorem doChildIo_not_opened (hpos : 0 < c.bufLen) (hres : 0 ≤ c.result)
    (hopen : c.openChild = (c₁, false)) : c.doChildIo = (c₁, false) := by
  rw [doChildIo, if_neg (by omega), hopen]
  rfl

theorem doChildIo_not_verified (hpos : 0 < c.bufLen) (hres : 0 ≤ c.result)
    (hopen : c.openChild = (c₁, true)) (hverify : c₁.verifyRange = (c₂, false)) :
    c.doChildIo = (c₂, false) := by
  rw [doChildIo, if_neg (by omega), hopen]
  dsimp only
  rw [if_neg (by simp), hverify]
  rfl

theorem doChildIo_eq (hpos : 0 < c.bufLen) (hres : 0 ≤ c.result)
    (hopen : c.openChild = (c₁, true)) (hverify : c₁.verifyRange = (c₂, true))
    (hio : c₂.childOperation = (c₃, rv)) :
    c.doChildIo = if rv = 0 then (c₃, false) else (c₃.doChildIoCompleted rv, true) := by
  rw [doChildIo, if_neg (by omega), hopen]
  dsimp only
  rw [if_neg (by simp), hverify]
  dsimp only
  rw [if_neg (by simp), hio]

theorem verifyRange_eq_none (hop : c.operation = .kReadOperation)
    (hv : verifyReadRange c.childData c.childStream.length (c.offset % kMaxEntrySize)
      (min c.bufLen (kMaxEntrySize - c.offset % kMaxEntrySize)) c.bufLen = none) :
    c.verifyRange = ({ c with
          childOffset := c.offset % kMaxEntrySize
          childLen := min c.bufLen (kMaxEntrySize - c.offset % kMaxEntrySize) }, false) := by
  simp only [verifyRange, hop, childStream] at hv ⊢
  rw [hv]

theorem verifyRange_eq_some (hop : c.operation = .kReadOperation) {n left : ℕ}
    (hv : verifyReadRange c.childData c.childStream.length (c.offset % kMaxEntrySize)
      (min c.bufLen (kMaxEntrySize - c.offset % kMaxEntrySize)) c.bufLen = some (n, left)) :
    c.verifyRange = ({ c with
          childOffset := c.offset % kMaxEntrySize
          childLen := n
          bufLen := left }, true) := by
  simp only [verifyRange, hop, childStream] at hv ⊢
  rw [hv]

/-- **One child of a read**: it ends where a byte is not there, and otherwise reads bytes that are
there. -/
theorem doChildIo_read (h : c.WellFormed) (hop : c.operation = .kReadOperation)
    (hpos : 0 < c.bufLen) (hres : 0 ≤ c.result) :
    ∃ c' ok, c.doChildIo = (c', ok) ∧ c'.WellFormed ∧ c'.entry = c.entry ∧ c'.operation = .kReadOperation ∧
      ((ok = false ∧ ¬ Has c.entry c.offset ∧ c'.result = c.result ∧ c'.dataRead = c.dataRead) ∨
        ∃ n, ok = true ∧ 0 < n ∧ n ≤ c.bufLen ∧ (∀ i < n, Has c.entry (c.offset + i)) ∧
          c'.result = c.result + n ∧ c'.offset = c.offset + n ∧
          c'.dataRead = c.dataRead ++ (List.range n).map (fun i => byteAt c.entry (c.offset + i)) ∧
          (c'.bufLen = c.bufLen - n ∨
            (c'.bufLen = 0 ∧ (n < c.bufLen → ¬ Has c.entry (c.offset + n))))) := by
  have hM : kMaxEntrySize = 1048576 := rfl
  cases hentry : c.entry c.childId with
  | none =>
    obtain ⟨b, hopen, hwf, heq⟩ := openChild_absent h hentry
    have hcont : { c with backend := b, child := none }.continueWithoutChild =
        ({ c with backend := b, child := none }, false) := by
      dsimp only [continueWithoutChild]
      rw [hop]
    exact ⟨_, _, doChildIo_not_opened hpos hres (hopen.trans hcont), hwf, heq, hop,
      .inl ⟨rfl, not_has_of_absent hentry, rfl, rfl⟩⟩
  | some p =>
    obtain ⟨data, stream⟩ := p
    obtain ⟨c₁, hopen, hwf, heq, hsame, hopened⟩ := openChild_present h hentry
    have hfits := h.fits _ _ _ hentry
    have hlen := hfits.le
    have hop₁ := hsame.operation.trans hop
    cases hv : verifyReadRange c₁.childData c₁.childStream.length (c₁.offset % kMaxEntrySize)
        (min c₁.bufLen (kMaxEntrySize - c₁.offset % kMaxEntrySize)) c₁.bufLen with
    | none =>
      refine ⟨_, _, doChildIo_not_verified hpos hres hopen (verifyRange_eq_none hop₁ hv),
        hwf.congr rfl rfl rfl rfl rfl, heq, hop₁, .inl ⟨rfl, ?_, hsame.result, hsame.dataRead⟩⟩
      rw [hopened.childData, hopened.childStream, hsame.offset, hM] at hv
      have hnot := SparseData.Fits.verifyReadRange_eq_none hv
      have hiff := has_iff hentry (i := 0) (by omega)
      rw [Nat.add_zero, Nat.add_zero] at hiff
      rwa [hiff]
    | some p =>
      obtain ⟨n, left⟩ := p
      have hverify := verifyRange_eq_some hop₁ hv
      rw [hopened.childData, hopened.childStream, hsame.offset, hsame.bufLen, hM] at hv
      obtain ⟨hn, hle, hhas, hleft⟩ := hfits.verifyReadRange_eq_some (by omega) (by omega) (by omega) hv
      have hin : c.offset % 1048576 + n ≤ 1048576 := by
        have := hfits.lt_of_has (hhas (c.offset % 1048576 + n - 1) (by omega) (by omega))
        omega
      have hread := readAt_eq hfits hentry rfl hin hhas
      have hio : ({ c₁ with
          childOffset := c₁.offset % kMaxEntrySize
          childLen := n
          bufLen := left }).childOperation =
          ({ c₁ with
              childOffset := c₁.offset % kMaxEntrySize
              childLen := n
              bufLen := left
              dataRead := c₁.dataRead ++ readAt c₁.childStream (c₁.offset % kMaxEntrySize) n },
            (readAt c₁.childStream (c₁.offset % kMaxEntrySize) n).length) := by
        dsimp only [childOperation]
        rw [hop₁]
        rfl
      have hlen' : (readAt c₁.childStream (c₁.offset % kMaxEntrySize) n).length = n := by
        rw [hopened.childStream, hsame.offset, hM, hread, List.length_map, List.length_range]
      have hfinal := doChildIo_eq hpos hres hopen hverify hio
      rw [hlen', if_neg (by omega)] at hfinal
      have hnot : c₁.operation ≠ .kWriteOperation := by simp [hop₁]
      refine ⟨_, _, hfinal, hwf.congr rfl rfl rfl rfl (if_neg hnot), ?_, hop₁,
        .inr ⟨n, rfl, hn, hle, fun i hi => ?_, ?_, ?_, ?_, ?_⟩⟩
      · refine Eq.trans (entry_congr ?_ ?_ ?_) heq
        · rfl
        · rfl
        · exact if_neg hnot
      · exact (has_iff hentry (by omega)).2 (hhas _ (by omega) (by omega))
      all_goals dsimp only [doChildIoCompleted]
      · rw [hsame.result]
      · rw [hsame.offset]
      · rw [hsame.dataRead, hopened.childStream, hsame.offset, hM, hread]
      · rcases hleft with ⟨-, rfl⟩ | ⟨rfl, hend⟩
        · exact .inl rfl
        · refine .inr ⟨Nat.sub_self _, fun hshort => ?_⟩
          obtain ⟨hlt, hnot⟩ := hend hshort
          rwa [has_iff hentry hlt]

theorem doChildrenIo_empty {n : ℕ} (hzero : c.bufLen = 0) : doChildrenIo n c = c := by
  cases n with
  | zero => rfl
  | succ n =>
    have hdone : c.doChildIo = (c, false) := by rw [doChildIo, if_pos (.inl hzero)]
    rw [doChildrenIo, hdone]
    rfl

/-- **The bytes of a read** are those that are there, up to the first that is not. -/
theorem doChildrenIo_read {n : ℕ} (h : c.WellFormed) (hop : c.operation = .kReadOperation)
    (hres : 0 ≤ c.result) (hfuel : c.bufLen ≤ n) :
    ∃ k ≤ c.bufLen, (doChildrenIo n c).WellFormed ∧ (doChildrenIo n c).entry = c.entry ∧
      (doChildrenIo n c).result = c.result + k ∧
      (doChildrenIo n c).dataRead = c.dataRead ++ (List.range k).map (fun i => byteAt c.entry (c.offset + i)) ∧
      (∀ i < k, Has c.entry (c.offset + i)) ∧ (k < c.bufLen → ¬ Has c.entry (c.offset + k)) := by
  induction n generalizing c with
  | zero =>
    exact ⟨0, Nat.zero_le _, h, rfl, by simp [doChildrenIo], by simp [doChildrenIo], by simp, fun hlt => by omega⟩
  | succ n ih =>
    rcases Nat.eq_zero_or_pos c.bufLen with hzero | hpos
    · rw [doChildrenIo_empty hzero]
      exact ⟨0, Nat.zero_le _, h, rfl, by simp, by simp, by simp, fun hlt => by omega⟩
    · obtain ⟨c', ok, hio, hwf, heq, hop', hcase⟩ := doChildIo_read h hop hpos hres
      simp only [doChildrenIo, hio]
      rcases hcase with ⟨rfl, hnot, hres', hdata⟩ |
        ⟨n₁, rfl, hn, hle, hhas, hres', hoff, hdata, hleft⟩
      · rw [if_neg (by simp)]
        exact ⟨0, Nat.zero_le _, hwf, heq, by simp [hres'], by simp [hdata], by simp, fun _ => hnot⟩
      · rw [if_pos rfl]
        obtain ⟨k, hk, hwf', heq', hres'', hdata', hhas', hend⟩ := ih hwf hop' (by omega) (by omega)
        rw [heq, hoff] at hhas' hend
        refine ⟨n₁ + k, by omega, hwf', heq'.trans heq, by omega, ?_, fun i hi => ?_, fun hlt => ?_⟩
        · rw [hdata', hdata, heq, hoff, List.append_assoc, List.range_add, List.map_append, List.map_map]
          simp only [Function.comp_def, Nat.add_assoc]
        · rcases Nat.lt_or_ge i n₁ with hi' | hi'
          · exact hhas i hi'
          · have := hhas' (i - n₁) (by omega)
            rwa [show c.offset + n₁ + (i - n₁) = c.offset + i by omega] at this
        · rcases hleft with hbuf | ⟨hbuf, hstop⟩
          · rw [← Nat.add_assoc]
            exact hend (by omega)
          · obtain rfl : k = 0 := by omega
            exact hstop (by omega)

theorem verifyRange_of_ne (hop : c.operation ≠ .kReadOperation) : c.verifyRange = ({ c with
          childOffset := c.offset % kMaxEntrySize
          childLen := min c.bufLen (kMaxEntrySize - c.offset % kMaxEntrySize) }, true) := by
  dsimp only [verifyRange]
  split
  · contradiction
  · rfl

theorem SameIo.verifyRange (h : SameIo c c₁) (hop : c₁.operation ≠ .kReadOperation) {n : ℕ}
    (hn : n = min c.bufLen (1048576 - c.offset % 1048576)) :
    c₁.verifyRange = ({ c₁ with childOffset := c.offset % 1048576, childLen := n }, true) := by
  rw [verifyRange_of_ne hop, h.offset, h.bufLen, hn]
  rfl

theorem mine_updateRange {header : SparseHeader} {o n : ℕ} (h : Mine header data) :
    Mine header (updateRange data o n) := by
  dsimp only [updateRange, Mine]
  split_ifs <;> exact h

theorem entry_write {c' : SparseControl} (e : ChildEntry) (s : List UInt8) {d : SparseData}
    (hopen : c.child = some id)
    (hbackend : c'.backend = update c.backend id (some { e with sparseData := s }))
    (hchild : c'.child = some id) (hdata : c'.childData = d) :
    c'.entry = update c.entry id (some (d, s)) := by
  funext id'
  by_cases hid : id' = id
  · subst hid
    unfold entry
    rw [hbackend, hchild, hdata, update_self, update_self, bind_some, if_pos rfl]
  · rw [update_of_ne hid]
    unfold entry
    rw [hbackend, hchild, hopen, update_of_ne hid]
    cases c.backend id' with
    | none => rfl
    | some e => simp [Ne.symm hid]

theorem WellFormed.write (h : c.WellFormed) {c' : SparseControl} {e : ChildEntry} {s : List UInt8}
    {d : SparseData} (hopen : c.child = some id) (he : c.backend id = some e)
    (hheader : c'.sparseHeader = c.sparseHeader) (hmap : c'.childrenMap = c.childrenMap)
    (hbackend : c'.backend = update c.backend id (some { e with sparseData := s }))
    (hchild : c'.child = some id) (hdata : c'.childData = d) (hmine : Mine c.sparseHeader d)
    (hfits : d.Fits s.length) : c'.WellFormed := by
  have hentry := entry_write e s hopen hbackend hchild hdata
  refine ⟨by rw [hheader]; exact h.magic, by rw [hheader]; exact h.lastBlock,
    by rw [hheader]; exact h.lastBlockLen, fun id' => ?_, fun id' hid => ?_, fun id' e' he' => ?_,
    fun id' d' s' hs => ?_⟩
  · rw [hmap, hbackend, h.present]
    by_cases hid : id' = id
    · rw [hid, update_self, he]
      rfl
    · rw [update_of_ne hid]
  · rw [hchild] at hid
    cases hid
    rw [hbackend, hheader, hdata, update_self]
    exact ⟨rfl, hmine⟩
  · rw [hbackend] at he'
    rw [hheader]
    by_cases hid : id' = id
    · rw [hid, update_self] at he'
      cases he'
      exact h.stored id e he
    · rw [update_of_ne hid] at he'
      exact h.stored id' e' he'
  · rw [hentry] at hs
    by_cases hid : id' = id
    · rw [hid, update_self] at hs
      cases hs
      exact hfits
    · rw [update_of_ne hid] at hs
      exact h.fits id' d' s' hs

/-- **What a write leaves of a child**, which is created where it is not there. -/
theorem doChildIo_write (h : c.WellFormed) (hop : c.operation = .kWriteOperation)
    (hpos : 0 < c.bufLen) (hres : 0 ≤ c.result) (hbuf : c.bufLen ≤ c.userBuf.length) :
    ∃ c' n data stream, c.doChildIo = (c', true) ∧ c'.WellFormed ∧ n = min c.bufLen (1048576 - c.offset % 1048576) ∧
      (c.entry c.childId = some (data, stream) ∨
        (c.entry c.childId = none ∧ data = ⟨c.sparseHeader, fun _ => false⟩ ∧ stream = [])) ∧
      c'.entry = update c.entry c.childId (some
        (updateRange data (c.offset % 1048576) n, writeAt 0 stream (c.offset % 1048576) (c.userBuf.take n))) ∧
      c'.operation = .kWriteOperation ∧ c'.result = c.result + n ∧ c'.offset = c.offset + n ∧
      c'.bufLen = c.bufLen - n ∧ c'.userBuf = c.userBuf.drop n ∧
      c'.sparseHeader = c.sparseHeader := by
  obtain ⟨c₁, data, stream, hopen, hwf, hentry, hfrom, hsame, hopened⟩ :
      ∃ c₁ data stream, c.openChild = (c₁, true) ∧ c₁.WellFormed ∧
        c₁.entry = update c.entry c.childId (some (data, stream)) ∧
        (c.entry c.childId = some (data, stream) ∨
          (c.entry c.childId = none ∧ data = ⟨c.sparseHeader, fun _ => false⟩ ∧ stream = [])) ∧
        SameIo c c₁ ∧ c₁.Opened c.childId data stream := by
    cases hentry : c.entry c.childId with
    | none =>
      obtain ⟨c₁, hopen, hwf, heq, hsame, hopened⟩ := openChild_create h hentry hop
      exact ⟨c₁, _, _, hopen, hwf, heq, .inr ⟨rfl, rfl, rfl⟩, hsame, hopened⟩
    | some p =>
      obtain ⟨c₁, hopen, hwf, heq, hsame, hopened⟩ := openChild_present h hentry
      refine ⟨c₁, p.1, p.2, hopen, hwf, ?_, .inl rfl, hsame, hopened⟩
      rw [heq, ← hentry, Function.update_eq_self]
  have hop₁ := hsame.operation.trans hop
  have hM : kMaxEntrySize = 1048576 := rfl
  obtain ⟨e, he⟩ := Option.isSome_iff_exists.1 (hwf.opened _ hopened.child).1
  have hstream : e.sparseData = stream := by
    have hs := hopened.childStream
    rw [childStream, hopened.child] at hs
    dsimp only at hs
    rw [he] at hs
    exact hs
  obtain ⟨n, hn⟩ : ∃ n, n = min c.bufLen (1048576 - c.offset % 1048576) := ⟨_, rfl⟩
  have hverify := hsame.verifyRange (by simp [hop₁]) hn
  have hio : childOperation { c₁ with childOffset := c.offset % 1048576, childLen := n } = ({ c₁ with
          childOffset := c.offset % 1048576
          childLen := n
          backend := update c₁.backend c.childId (some { e with
            sparseData := writeAt 0 stream (c.offset % 1048576) (c.userBuf.take n) }) }, n) := by
    dsimp only [childOperation]
    rw [hop₁]
    dsimp only [writeChild]
    rw [hopened.child]
    dsimp only
    rw [he, ← hsame.userBuf, ← hstream]
    rfl
  have hfinal := doChildIo_eq hpos hres hopen hverify hio
  rw [if_neg (by omega)] at hfinal
  have hfits : data.Fits stream.length := hwf.fits c.childId data stream (by rw [hentry, update_self])
  have hmine := (hwf.opened _ hopened.child).2
  rw [hopened.childData] at hmine
  have hdata : (doChildIoCompleted { c₁ with
      childOffset := c.offset % 1048576
      childLen := n
      backend := update c₁.backend c.childId (some { e with
        sparseData := writeAt 0 stream (c.offset % 1048576) (c.userBuf.take n) }) } n).childData =
        updateRange data (c.offset % 1048576) n := by
    dsimp only [doChildIoCompleted]
    rw [if_pos hop₁, hopened.childData]
  refine ⟨_, n, data, stream, hfinal,
    hwf.write hopened.child he rfl rfl rfl hopened.child hdata (mine_updateRange hmine) ?_, hn, hfrom,
    ?_, hop₁, ?_, ?_, ?_, ?_, hsame.sparseHeader⟩
  · rw [Lib.length_writeAt, List.length_take, Nat.min_eq_left (by omega)]
    exact hfits.updateRange (by omega)
  · refine Eq.trans (entry_write e (writeAt 0 stream (c.offset % 1048576) (c.userBuf.take n))
      hopened.child ?_ hopened.child hdata) ?_
    · rfl
    · rw [hentry, update_idem]
  all_goals dsimp only [doChildIoCompleted]
  · rw [hsame.result]
  · rw [hsame.offset]
  · rw [hsame.bufLen]
  · rw [hsame.userBuf]

theorem childOperation_range (hop : c.operation = .kGetRangeOperation) :
    c.childOperation = c.doGetAvailableRange := by
  rw [childOperation, hop]

theorem doGetAvailableRange_eq_none (hopened : c.Opened id data stream)
    (hfind : findAvailable data stream.length c.childOffset c.childLen = none) :
    c.doGetAvailableRange = (c, c.childLen) := by
  rw [doGetAvailableRange, hopened.childStream, hopened.childData, hfind]
  cases c.child with
  | none | some _ => rfl

theorem doGetAvailableRange_eq_some (hopened : c.Opened id data stream) {e n : ℕ}
    (hfind : findAvailable data stream.length c.childOffset c.childLen = some (e, n)) :
    c.doGetAvailableRange =
      ({ c with rangeFound := true, result := n, offset := c.offset + e, bufLen := 0 }, 0) := by
  rw [doGetAvailableRange, hopened.childStream, hopened.childData, hfind]
  cases hchild : c.child with
  | none =>
    rw [hopened.child] at hchild
    cases hchild
  | some _ => rfl

/-- **One child of `GetAvailableRange`**: it is passed over when its first byte is not there, or a
range of bytes that are there is found. -/
theorem doChildIo_range (h : c.WellFormed) (hop : c.operation = .kGetRangeOperation)
    (hpos : 0 < c.bufLen) (hres : 0 ≤ c.result) :
    ∃ c' ok, c.doChildIo = (c', ok) ∧ c'.WellFormed ∧ c'.entry = c.entry ∧ c'.operation = .kGetRangeOperation ∧
      ((∃ n, ok = true ∧ 0 < n ∧ n ≤ c.bufLen ∧ ¬ Has c.entry c.offset ∧
          c'.rangeFound = c.rangeFound ∧ c'.result = c.result + n ∧ c'.offset = c.offset + n ∧
          c'.bufLen = c.bufLen - n) ∨
        ∃ e n, ok = false ∧ c'.rangeFound = true ∧ 0 < n ∧ e + n ≤ c.bufLen ∧ c'.result = n ∧
          c'.offset = c.offset + e ∧ ∀ i, e ≤ i → i < e + n → Has c.entry (c.offset + i)) := by
  have hM : kMaxEntrySize = 1048576 := rfl
  obtain ⟨n, hn⟩ : ∃ n, n = min c.bufLen (1048576 - c.offset % 1048576) := ⟨_, rfl⟩
  -- a child that is passed over
  have hpass (c₁ : SparseControl) (hopen : c.openChild = (c₁, true)) (hwf : c₁.WellFormed)
      (heq : c₁.entry = c.entry) (hsame : SameIo c c₁) (hnot : ¬ Has c.entry c.offset)
      (hio : childOperation { c₁ with childOffset := c.offset % 1048576, childLen := n } =
        ({ c₁ with childOffset := c.offset % 1048576, childLen := n }, n)) :
      ∃ c', c.doChildIo = (c', true) ∧ c'.WellFormed ∧ c'.entry = c.entry ∧
        c'.operation = .kGetRangeOperation ∧ c'.rangeFound = c.rangeFound ∧
        c'.result = c.result + n ∧ c'.offset = c.offset + n ∧ c'.bufLen = c.bufLen - n := by
    have hop₁ := hsame.operation.trans hop
    have hne : c₁.operation ≠ .kWriteOperation := by simp [hop₁]
    have hverify := hsame.verifyRange (by simp [hop₁]) hn
    have hfinal := doChildIo_eq hpos hres hopen hverify hio
    rw [if_neg (by omega)] at hfinal
    refine ⟨_, hfinal, hwf.congr rfl rfl rfl rfl (if_neg hne), ?_, hop₁, hsame.rangeFound, ?_, ?_, ?_⟩
    · refine Eq.trans (entry_congr ?_ ?_ ?_) heq
      · rfl
      · rfl
      · exact if_neg hne
    all_goals dsimp only [doChildIoCompleted]
    · rw [hsame.result]
    · rw [hsame.offset]
    · rw [hsame.bufLen]
  cases hentry : c.entry c.childId with
  | none =>
    obtain ⟨b, hopen, hwf, heq⟩ := openChild_absent h hentry
    have hcont : { c with backend := b, child := none }.continueWithoutChild =
        ({ c with backend := b, child := none }, true) := by
      dsimp only [continueWithoutChild]
      rw [hop]
    have hnot := not_has_of_absent hentry
    obtain ⟨c', h1, h2, h3, h4, h5, h6, h7, h8⟩ := hpass _ (hopen.trans hcont) hwf heq
      ⟨rfl, rfl, rfl, rfl, rfl, rfl, rfl, rfl⟩ hnot (by
        dsimp only [childOperation]
        rw [hop]
        rfl)
    exact ⟨c', true, h1, h2, h3, h4, .inl ⟨n, rfl, by omega, by omega, hnot, h5, h6, h7, h8⟩⟩
  | some p =>
    obtain ⟨data, stream⟩ := p
    obtain ⟨c₁, hopen, hwf, heq, hsame, hopened⟩ := openChild_present h hentry
    have hfits := h.fits _ _ _ hentry
    have hop₁ := hsame.operation.trans hop
    cases hfind : findAvailable data stream.length (c.offset % 1048576) n with
    | none =>
      have hnot : ¬ Has c.entry c.offset := by
        have hiff := has_iff hentry (i := 0) (by omega)
        rw [Nat.add_zero, Nat.add_zero] at hiff
        rw [hiff]
        exact SparseData.Fits.findAvailable_eq_none (by omega) hfind
      obtain ⟨c', h1, h2, h3, h4, h5, h6, h7, h8⟩ := hpass c₁ hopen hwf heq hsame hnot (by
        rw [childOperation_range (by exact hop₁),
          doGetAvailableRange_eq_none (by exact hopened.congr rfl rfl rfl) hfind])
      exact ⟨c', true, h1, h2, h3, h4, .inl ⟨n, rfl, by omega, by omega, hnot, h5, h6, h7, h8⟩⟩
    | some p =>
      obtain ⟨empty, found⟩ := p
      obtain ⟨hpos', hle, hhas⟩ := hfits.findAvailable_eq_some (by omega) hfind
      have hverify := hsame.verifyRange (by simp [hop₁]) hn
      have hio : childOperation { c₁ with childOffset := c.offset % 1048576, childLen := n } = ({ c₁ with
              childOffset := c.offset % 1048576
              childLen := n
              rangeFound := true
              result := found
              offset := c₁.offset + empty
              bufLen := 0 }, 0) := by
        rw [childOperation_range (by exact hop₁),
          doGetAvailableRange_eq_some (by exact hopened.congr rfl rfl rfl) hfind]
      have hfinal := doChildIo_eq hpos hres hopen hverify hio
      rw [if_pos rfl] at hfinal
      refine ⟨_, _, hfinal, hwf.congr rfl rfl rfl rfl rfl, heq, hop₁,
        .inr ⟨empty, found, rfl, rfl, hpos', by omega, rfl, ?_, fun i h1 h2 => ?_⟩⟩
      · dsimp only
        rw [hsame.offset]
      · exact (has_iff hentry (by omega)).2 (hhas _ (by omega) (by omega))

/-- **The range that is found** is there; where none is found the first byte is not there. -/
theorem doChildrenIo_range {n : ℕ} (h : c.WellFormed) (hop : c.operation = .kGetRangeOperation)
    (hres : 0 ≤ c.result) (hfound : c.rangeFound = false) (hfuel : c.bufLen ≤ n) :
    (doChildrenIo n c).WellFormed ∧ (doChildrenIo n c).entry = c.entry ∧
      (((doChildrenIo n c).rangeFound = false ∧ 0 ≤ (doChildrenIo n c).result ∧
          (0 < c.bufLen → ¬ Has c.entry c.offset)) ∨
        ∃ e n', (doChildrenIo n c).rangeFound = true ∧ 0 < n' ∧ e + n' ≤ c.bufLen ∧
          (doChildrenIo n c).result = n' ∧ (doChildrenIo n c).offset = c.offset + e ∧
          ∀ i, e ≤ i → i < e + n' → Has c.entry (c.offset + i)) := by
  induction n generalizing c with
  | zero => exact ⟨h, rfl, .inl ⟨hfound, hres, fun hlt => by omega⟩⟩
  | succ n ih =>
    rcases Nat.eq_zero_or_pos c.bufLen with hzero | hpos
    · rw [doChildrenIo_empty hzero]
      exact ⟨h, rfl, .inl ⟨hfound, hres, fun hlt => by omega⟩⟩
    · obtain ⟨c', ok, hio, hwf, heq, hop', hcase⟩ := doChildIo_range h hop hpos hres
      simp only [doChildrenIo, hio]
      rcases hcase with ⟨n₁, rfl, hn, hle, hnot, hfound', hres', hoff, hbuf⟩ |
        ⟨e, n₁, rfl, hfound', hn, hle, hres', hoff, hhas⟩
      · rw [if_pos rfl]
        obtain ⟨hwf', heq', hcase⟩ :=
          ih hwf hop' (by omega) (hfound'.trans hfound) (by omega)
        refine ⟨hwf', heq'.trans heq, ?_⟩
        rcases hcase with ⟨h1, h2, -⟩ | ⟨e, n', h1, h2, h3, h4, h5, h6⟩
        · exact .inl ⟨h1, h2, fun _ => hnot⟩
        · rw [heq] at h6
          refine .inr ⟨n₁ + e, n', h1, h2, by omega, h4, by omega, fun i h7 h8 => ?_⟩
          have := h6 (i - n₁) (by omega) (by omega)
          rwa [hoff, show c.offset + n₁ + (i - n₁) = c.offset + i by omega] at this
      · rw [if_neg (by simp)]
        exact ⟨hwf, heq, .inr ⟨e, n₁, hfound', hn, hle, hres', hoff, hhas⟩⟩

end SparseControl

end Chromium.Net.DiskCache
