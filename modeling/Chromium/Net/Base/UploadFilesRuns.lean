import Chromium.Net.Base.UploadFilesDelivery

/-!
# Handing out an upload

A run consumes the buffer piece by piece until `eof`.  `FillBuf` leaves the buffer empty only at the end, so a run can go
on to it, and what it hands out is the body exactly where no turn on the way cut a file short
(`uploadDataStream_spec`).
-/

namespace Chromium.Net.Upload.UploadDataStream

open Lib

variable {source : ℕ → ℕ} {elements : List Element} {u u' : UploadDataStream}

variable {kept : Prop} {handed : List UInt8}

def Unchanged (elements : List Element) : Prop := ∀ f, Element.file f ∈ elements → f.isChanged = false

theorem pending_congr (helements : u'.elements = u.elements) (hnext : u'.nextElement = u.nextElement)
    (hoffset : u'.nextElementOffset = u.nextElementOffset) (hstream : u'.nextElementStream = u.nextElementStream)
    (hremaining : u'.nextElementRemaining = u.nextElementRemaining) : u'.pending = u.pending := by
  unfold pending
  rw [helements, hnext]
  rcases u.elements.drop u.nextElement with - | ⟨element, rest⟩
  · rfl
  · cases element with
    | bytes data =>
      change data.drop u'.nextElementOffset ++ _ = data.drop u.nextElementOffset ++ _
      rw [hoffset]
    | file f =>
      change padTo ((u'.openFile f).nextElementStream.getD []) (u'.openFile f).nextElementRemaining ++ _ =
        padTo ((u.openFile f).nextElementStream.getD []) (u.openFile f).nextElementRemaining ++ _
      unfold openFile
      rw [hremaining]
      by_cases hzero : u.nextElementRemaining = 0
      · rw [if_pos hzero, if_pos hzero]
      · rw [if_neg hzero, if_neg hzero, hstream, hremaining]

theorem turned_fillTurn (source : ℕ → ℕ) (hunchanged : Unchanged u.elements) (h : Ok u) (hturn : u.HasTurn) :
    ∃ u', u.fillTurn source = some u' ∧ Turned source u u' := by
  obtain ⟨element, helement⟩ : ∃ element, u.elements[u.nextElement]? = some element :=
    ⟨_, List.getElem?_eq_getElem hturn.2⟩
  rw [fillTurn, helement]
  cases element with
  | bytes data => exact ⟨_, rfl, turned_copyBytes h hturn helement⟩
  | file f =>
    have hsame := hunchanged f (List.mem_of_getElem? helement)
    have hallowed : ¬(u.nextElementRemaining = 0 ∧ f.isChanged = true) := fun hboth => by
      rw [hsame] at hboth
      exact Bool.false_ne_true hboth.2
    refine ⟨u.copyFile source f, ?_, turned_copyFile h hturn helement⟩
    exact if_neg hallowed

/-! ## Filling the buffer -/

def LoopKeeps (source : ℕ → ℕ) : ℕ → UploadDataStream → Prop
  | 0, _ => True
  | turns + 1, u => u.HasTurn → ¬Truncates source u ∧ ∀ u', u.fillTurn source = some u' → LoopKeeps source turns u'

/-- `FillBuf` cuts no file short. -/
def FillKeeps (source : ℕ → ℕ) (u : UploadDataStream) : Prop := LoopKeeps source u.turns u

structure Filled (u u' : UploadDataStream) (kept : Prop) : Prop where
  ok : Ok u'
  elements : u'.elements = u.elements
  totalSize : u'.totalSize = u.totalSize
  currentPosition : u'.currentPosition = u.currentPosition
  stops : ¬u'.HasTurn
  left_eq : kept → u'.left = u.left
  length_lt : ¬kept → u'.left.length < u.left.length

theorem filled_refl (h : Ok u) (hstop : ¬u.HasTurn) (hkept : kept) : Filled u u kept :=
  ⟨h, rfl, rfl, rfl, hstop, fun _ => rfl, fun hnot => absurd hkept hnot⟩

/-- **The loop ends because it has nothing to do**, not because its turns are used up. -/
theorem filled_fillLoop (source : ℕ → ℕ) (turns : ℕ) (hunchanged : Unchanged u.elements) (h : Ok u) (hturns : u.turns ≤ turns) :
    ∃ u', fillLoop source turns u = (true, u') ∧ u'.eof = u.eof ∧ Filled u u' (LoopKeeps source turns u) := by
  induction turns generalizing u with
  | zero =>
    have hstop : ¬u.HasTurn := fun hturn => by
      have hroom := hturn.1
      unfold UploadDataStream.turns at hturns
      omega
    exact ⟨u, rfl, rfl, filled_refl h hstop trivial⟩
  | succ turns ih =>
    rw [fillLoop]
    by_cases hturn : u.HasTurn
    · obtain ⟨u₁, hfill, hturned⟩ := turned_fillTurn source hunchanged h hturn
      have hless := hturned.turns
      obtain ⟨u', hloop, heof, hfilled⟩ := ih (by rw [hturned.elements]; exact hunchanged) hturned.ok (by omega)
      have hkeeps : LoopKeeps source (turns + 1) u ↔ ¬Truncates source u ∧ LoopKeeps source turns u₁ := by
        constructor
        · intro hkeeps
          exact ⟨(hkeeps hturn).1, (hkeeps hturn).2 u₁ hfill⟩
        · rintro ⟨hnot, hrest⟩ -
          refine ⟨hnot, fun u₂ hu₂ => ?_⟩
          rw [hfill] at hu₂
          cases hu₂
          exact hrest
      rw [if_pos hturn, hfill]
      refine ⟨u', hloop, heof.trans hturned.eof, ⟨hfilled.ok, hfilled.elements.trans hturned.elements,
        hfilled.totalSize.trans hturned.totalSize, hfilled.currentPosition.trans hturned.currentPosition,
        hfilled.stops, fun hkept => ?_, fun hnot => ?_⟩⟩
      · obtain ⟨hfirst, hrest⟩ := hkeeps.1 hkept
        rw [hfilled.left_eq hrest, hturned.kept hfirst]
      · -- Either this turn cuts a file short, or a later one does.
        have hfirst : u₁.left.length ≤ u.left.length := by
          by_cases htrunc : Truncates source u
          · exact (hturned.length_lt htrunc).le
          · rw [hturned.kept htrunc]
        have hrest : u'.left.length ≤ u₁.left.length := by
          by_cases hk : LoopKeeps source turns u₁
          · rw [hfilled.left_eq hk]
          · exact (hfilled.length_lt hk).le
        by_cases htrunc : Truncates source u
        · exact lt_of_le_of_lt hrest (hturned.length_lt htrunc)
        · exact lt_of_lt_of_le (hfilled.length_lt fun hk => hnot (hkeeps.2 ⟨htrunc, hk⟩)) hfirst
    · rw [if_neg hturn]
      exact ⟨u, rfl, rfl, filled_refl h hturn fun hturn' => absurd hturn' hturn⟩

theorem pending_of_end (h : u.elements.length ≤ u.nextElement) : u.pending = [] := by
  rw [pending, List.drop_eq_nil_of_le h]
  rfl

/-- **`FillBuf` leaves the buffer empty only at the end.** -/
theorem filled_fillBuf (source : ℕ → ℕ) (hunchanged : Unchanged u.elements) (h : Ok u) (heof : u.eof = false) :
    ∃ u', u.fillBuf source = (true, u') ∧ Filled u u' (FillKeeps source u) ∧ (u'.buf = [] ↔ u'.eof = true) ∧
      (u'.buf = [] → u'.pending = []) := by
  obtain ⟨u₁, hloop, heof₁, hfilled⟩ := filled_fillLoop source u.turns hunchanged h le_rfl
  have hend : u₁.buf = [] → u₁.nextElement = u₁.elements.length := by
    intro hnil
    refine le_antisymm hfilled.ok.nextElement_le (not_lt.1 fun hlt => hfilled.stops ⟨?_, hlt⟩)
    rw [hnil]
    exact (by decide : 0 < kBufSize)
  obtain ⟨u₂, hu₂⟩ : ∃ u₂ : UploadDataStream, u₂ = { u₁ with
    eof := u₁.eof ∨ (true = true ∧ u₁.nextElement = u₁.elements.length ∧ u₁.buf = []) } := ⟨_, rfl⟩
  have hleft : u₂.left = u₁.left := by
    have hpending : u₂.pending = u₁.pending := by
      rw [hu₂]
      exact pending_congr rfl rfl rfl rfl rfl
    rw [left, hpending, hu₂]
    rfl
  have hfill : u.fillBuf source = (true, u₂) := by rw [fillBuf, hloop, hu₂]
  have hfilled₂ : Filled u u₂ (FillKeeps source u) := by
    refine ⟨?_, ?_, ?_, ?_, ?_, fun hkept => hleft.trans (hfilled.left_eq hkept), fun hnot => hleft ▸ hfilled.length_lt hnot⟩
    all_goals rw [hu₂]
    · exact ⟨hfilled.ok.buf_le, hfilled.ok.nextElement_le, hfilled.ok.offsetOk⟩
    · exact hfilled.elements
    · exact hfilled.totalSize
    · exact hfilled.currentPosition
    · exact hfilled.stops
  refine ⟨u₂, hfill, hfilled₂, ?_, fun hnil => ?_⟩
  swap
  · rw [hu₂] at hnil ⊢
    exact pending_of_end (hend hnil).ge
  rw [hu₂]
  dsimp only
  rw [heof₁, heof, decide_eq_true_eq]
  constructor
  · intro hnil
    exact .inr ⟨rfl, hend hnil, hnil⟩
  · rintro (habsurd | ⟨-, -, hnil⟩)
    · cases habsurd
    · exact hnil

/-! ## Runs -/

/-- **A run**: the stream is made, and its buffer is consumed until `eof`.  `kept` says that no file was cut short, and
`handed` is what was handed out. -/
inductive Run (source : ℕ → ℕ) (elements : List Element) : (kept : Prop) → (handed : List UInt8) → UploadDataStream → Prop
  | create {u : UploadDataStream} (h : create source elements = some u) :
      Run source elements (FillKeeps source (new elements)) [] u
  | consume {kept : Prop} {handed : List UInt8} {u : UploadDataStream} (n : ℕ) (h : Run source elements kept handed u)
      (heof : u.eof = false) (hn : n ≤ u.buf.length) :
      Run source elements (kept ∧ FillKeeps source { u with buf := u.buf.drop n }) (handed ++ u.buf.take n)
        (u.markConsumedAndFillBuffer source n)

structure Delivers (elements : List Element) (kept : Prop) (handed : List UInt8) (u : UploadDataStream) : Prop where
  ok : Ok u
  elements_eq : u.elements = elements
  eof_iff : u.buf = [] ↔ u.eof = true
  pending_nil : u.buf = [] → u.pending = []
  totalSize : u.totalSize = (body elements).length % 18446744073709551616
  currentPosition : u.currentPosition = handed.length % 18446744073709551616
  kept_eq : kept → handed ++ u.left = body elements
  length_lt : ¬kept → (handed ++ u.left).length < (body elements).length

theorem ok_new (elements : List Element) : Ok (new elements) := ⟨Nat.zero_le _, Nat.zero_le _, offsetOk_zero _⟩

theorem left_new (elements : List Element) : (new elements).left = body elements := by
  rw [left]
  change [] ++ pendingOf (new elements) elements = _
  rw [List.nil_append]
  cases elements with
  | nil => rfl
  | cons element elements => cases element <;> rfl

theorem exists_create (source : ℕ → ℕ) (hunchanged : Unchanged elements) :
    ∃ u, create source elements = some u ∧ Delivers elements (FillKeeps source (new elements)) [] u := by
  obtain ⟨u, hfill, hfilled, heof, hpending⟩ := filled_fillBuf source (u := new elements) hunchanged
    (ok_new elements) rfl
  refine ⟨u, by rw [create, hfill]; rfl, ⟨hfilled.ok, hfilled.elements, heof, hpending, ?_, ?_, fun hkept => ?_,
    fun hnot => ?_⟩⟩
  · rw [hfilled.totalSize, length_body]
    rfl
  · rw [hfilled.currentPosition]
    rfl
  · rw [List.nil_append, hfilled.left_eq hkept, left_new]
  · rw [List.nil_append, ← left_new elements]
    exact hfilled.length_lt hnot

theorem Delivers.consume (hunchanged : Unchanged elements)
    (h : Delivers elements kept handed u) (heof : u.eof = false) (n : ℕ) (hn : n ≤ u.buf.length) :
    Delivers elements (kept ∧ FillKeeps source { u with buf := u.buf.drop n }) (handed ++ u.buf.take n)
      (u.markConsumedAndFillBuffer source n) := by
  have hok : Ok { u with buf := u.buf.drop n } := by
    refine ⟨?_, h.ok.nextElement_le, h.ok.offsetOk⟩
    dsimp only
    rw [List.length_drop]
    exact (Nat.sub_le _ _).trans h.ok.buf_le
  obtain ⟨u', hfill, hfilled, heof', hpending⟩ := filled_fillBuf source
    (u := { u with buf := u.buf.drop n }) (h.elements_eq ▸ hunchanged) hok heof
  have hmark : u.markConsumedAndFillBuffer source n =
      { u' with currentPosition := (u'.currentPosition + n) % 18446744073709551616 } := by
    rw [markConsumedAndFillBuffer, hfill]
  have hdropped : u.buf.take n ++ ({ u with buf := u.buf.drop n } : UploadDataStream).left = u.left := by
    have hpending : ({ u with buf := u.buf.drop n } : UploadDataStream).pending = u.pending :=
      pending_congr rfl rfl rfl rfl rfl
    rw [left, hpending, left, ← List.append_assoc, List.take_append_drop]
  have hlength : (handed ++ u.buf.take n ++ u'.left).length ≤ (handed ++ u.left).length := by
    have hle : u'.left.length ≤ ({ u with buf := u.buf.drop n } : UploadDataStream).left.length := by
      by_cases hkept : FillKeeps source { u with buf := u.buf.drop n }
      · rw [hfilled.left_eq hkept]
      · exact (hfilled.length_lt hkept).le
    rw [← hdropped]
    simp only [List.length_append]
    omega
  obtain ⟨u₂, hu₂⟩ : ∃ u₂ : UploadDataStream, u₂ = { u' with
    currentPosition := (u'.currentPosition + n) % 18446744073709551616 } := ⟨_, rfl⟩
  have hpendingEq : u₂.pending = u'.pending := by
    rw [hu₂]
    exact pending_congr rfl rfl rfl rfl rfl
  have hleftEq : u₂.left = u'.left := by
    rw [left, hpendingEq, hu₂]
    rfl
  have hbuf : u₂.buf = u'.buf := by rw [hu₂]
  rw [hmark, ← hu₂]
  refine ⟨?_, ?_, ?_, fun hnil => hpendingEq.trans (hpending (hbuf ▸ hnil)), ?_, ?_, ?_, fun hnot => ?_⟩
  · rw [hu₂]
    exact ⟨hfilled.ok.buf_le, hfilled.ok.nextElement_le, hfilled.ok.offsetOk⟩
  · rw [hu₂]
    exact hfilled.elements.trans h.elements_eq
  · rw [hu₂]
    exact heof'
  · rw [hu₂]
    exact hfilled.totalSize.trans h.totalSize
  · rw [hu₂]
    dsimp only
    rw [hfilled.currentPosition, h.currentPosition, List.length_append, List.length_take, Nat.min_eq_left hn,
      Nat.mod_add_mod]
  · rintro ⟨hkept, hfillKept⟩
    rw [hleftEq, hfilled.left_eq hfillKept, List.append_assoc, hdropped, h.kept_eq hkept]
  · rw [hleftEq]
    by_cases hkept : kept
    · have hlt := hfilled.length_lt fun hk => hnot ⟨hkept, hk⟩
      rw [← h.kept_eq hkept, ← hdropped]
      simp only [List.length_append]
      omega
    · exact lt_of_le_of_lt hlength (h.length_lt hkept)

theorem Run.delivers (hunchanged : Unchanged elements)
    (h : Run source elements kept handed u) : Delivers elements kept handed u := by
  induction h with
  | create h =>
    obtain ⟨u', hcreate, hdelivers⟩ := exists_create source hunchanged
    rw [h] at hcreate
    cases hcreate
    exact hdelivers
  | consume n h heof hn ih => exact ih.consume hunchanged heof n hn

/-- **A run can go on to `eof`.** -/
theorem Run.exists_eof (hunchanged : Unchanged elements) (h : Run source elements kept handed u) :
    ∃ kept' handed' u', Run source elements kept' handed' u' ∧ u'.eof = true ∧ (kept' → kept) := by
  induction hsize : (body elements).length - handed.length using Nat.strong_induction_on generalizing kept handed u with
  | _ size ih =>
    by_cases heof : u.eof = true
    · exact ⟨kept, handed, u, h, heof, id⟩
    · have heof' : u.eof = false := Bool.eq_false_iff.2 heof
      have hdelivers := h.delivers hunchanged
      have hpos : 0 < u.buf.length := List.length_pos_iff.2 fun hnil => heof (hdelivers.eof_iff.1 hnil)
      have hnext := Run.consume u.buf.length h heof' le_rfl
      have hle : (handed ++ u.left).length ≤ (body elements).length := by
        by_cases hkept : kept
        · rw [hdelivers.kept_eq hkept]
        · exact (hdelivers.length_lt hkept).le
      rw [left, List.length_append, List.length_append] at hle
      have hless : (body elements).length - (handed ++ u.buf.take u.buf.length).length < size := by
        rw [List.length_append, List.take_length]
        omega
      obtain ⟨kept', handed', u', hrun, hend, himp⟩ := ih _ hless hnext rfl
      exact ⟨kept', handed', u', hrun, hend, fun hk => (himp hk).1⟩

def zerosFile (length : ℕ) : Element :=
  .file {
    content := some (List.replicate length 0)
    fileSize := some length
    lastModified := none
    fileRangeOffset := 0
    fileRangeLength := 18446744073709551615
    expectedFileModificationTime := none
    overrideContentLength := none }

theorem unchanged_zerosFile (length : ℕ) : Unchanged [zerosFile length] := by
  intro f hmem
  have hf := List.mem_singleton.1 hmem
  unfold zerosFile at hf
  cases hf
  rfl

theorem getContentLength_zerosFile {length : ℕ} (h : length ≤ 18446744073709551615) :
    (zerosFile length).getContentLength = length := by
  have hmin : min (length - 0) 18446744073709551615 = length := by omega
  change (if length ≤ 0 then 0 else min (length - 0) 18446744073709551615) = length
  rw [hmin]
  split
  · omega
  · rfl

/-- **A file is cut short by a first read of what is left over 2³² bytes.** -/
theorem truncates_zerosFile {length r : ℕ} (hlength : length = 4294967296 + r) (hpos : 0 < r) (hle : r ≤ kBufSize) :
    Truncates (fun _ => r) (new [zerosFile length]) := by
  have hkBufSize : kBufSize = 16384 := rfl
  have hget : (zerosFile length).getContentLength = length := getContentLength_zerosFile (by omega)
  obtain ⟨f, hf⟩ : ∃ f, zerosFile length = .file f := ⟨_, rfl⟩
  obtain ⟨o, ho⟩ : ∃ o, o = (new [zerosFile length]).openFile f := ⟨_, rfl⟩
  have hopens : Opens (new [zerosFile length]) o := ho ▸ opens_openFile _ f
  have hfirst : (new [zerosFile length]).nextElementRemaining = 0 := rfl
  have hbuf : o.buf = [] := hopens.buf
  have hremaining : o.nextElementRemaining = length := by
    rw [hf] at hget
    rw [ho, openFile, if_pos hfirst]
    exact hget
  have hstream : o.nextElementStream = some (List.replicate length 0) := by
    unfold zerosFile at hf
    cases hf
    rw [ho, openFile, if_pos hfirst]
    rfl
  have hcount : min o.nextElementRemaining (kBufSize - o.buf.length) = kBufSize := by
    rw [hremaining, hbuf, List.length_nil]
    omega
  have hbytes : (o.readBytes (fun _ => r) kBufSize).length = r := by
    unfold readBytes readSize
    rw [hstream, Option.getD_some]
    dsimp only
    rw [List.length_take, List.length_replicate]
    omega
  have hne : o.readBytes (fun _ => r) kBufSize ≠ [] := by
    rw [← List.length_pos_iff, hbytes]
    exact hpos
  refine ⟨f, congrArg some hf, ?_, ?_⟩
  · rw [← ho, hremaining]
    omega
  · rw [← ho, hcount, hremaining, readFile, if_neg (by omega)]
    dsimp only
    rw [if_neg hne, hbytes]
    omega

end Chromium.Net.Upload.UploadDataStream
