import Chromium.Net.DiskCache.SparseRanges
import Chromium.Lib.TransSys

/-!
# What was written to a sparse entry

The blocks that a child tells to be filled were written (`Filled`), as long as no write leaves a
hole behind the data of a child (`LeavesHole`): the end of a child's stream counts as the end of
what is filled, also where the last write began inside its block.

* `readSparseData_written`: **a read returns what was written**, in every run without such writes;
* `getAvailableRange_spec`: **what `GetAvailableRange` finds is read in full**, in every run;
* `readSparseData_filled`: **what was written in whole blocks is read in full**, in every run.
-/

namespace Chromium.Net.DiskCache

open Lib (toInt64 writeAt)

namespace SparseControl

variable {c : SparseControl} {id : ℕ} {data : SparseData} {stream : List UInt8}

/-! ### What was written -/

/-- What was written at each offset, after `bytes` are written at `o`. -/
def wrote (written : ℕ → Option UInt8) (o : ℕ) (bytes : List UInt8) : ℕ → Option UInt8 := fun x =>
  if o ≤ x ∧ x < o + bytes.length then bytes[x - o]? else written x

theorem wrote_wrote (written : ℕ → Option UInt8) (o : ℕ) (bytes : List UInt8) (n : ℕ) :
    wrote (wrote written o (bytes.take n)) (o + n) (bytes.drop n) = wrote written o bytes := by
  funext x
  unfold wrote
  rw [List.length_take, List.length_drop]
  rcases Nat.lt_or_ge x (o + n) with hx | hx
  · rw [if_neg (by omega)]
    by_cases ho : o ≤ x ∧ x < o + bytes.length
    · rw [if_pos (by omega), if_pos ho, List.getElem?_take, if_pos (by omega)]
    · rw [if_neg (by omega), if_neg ho]
  · by_cases ho : x < o + bytes.length
    · rw [if_pos (by omega), if_pos (by omega), List.getElem?_drop,
        show n + (x - (o + n)) = x - o by omega]
    · rw [if_neg (by omega), if_neg (by omega), if_neg (by omega)]

@[simp] theorem wrote_nil (written : ℕ → Option UInt8) (o : ℕ) : wrote written o [] = written := by
  funext x
  rw [wrote, if_neg (by simp only [List.length_nil]; omega)]

/-- The blocks that the data of a child tell to be filled were written, with what its stream
holds. -/
structure Filled (data : SparseData) (stream : List UInt8) (written : ℕ → Option UInt8) : Prop where
  value : ∀ i v, i < 1048576 → written i = some v → i < stream.length ∧ stream.getD i 0 = v
  bits : ∀ i, data.bitmap (i / 1024) = true → (written i).isSome = true
  last : ∀ i : ℕ, data.header.lastBlock = (i / 1024 : ℕ) →
    i % 1024 < data.header.lastBlockLen.toNat → (written i).isSome = true
  tail : 1024 ≤ stream.length → ∀ i < stream.length, i / 1024 = stream.length / 1024 → (written i).isSome = true
  first : stream.length < 1024 → data.header.lastBlock = 0

variable {written : ℕ → Option UInt8}

theorem Filled.of_has (h : Filled data stream written) (hfits : data.Fits stream.length) {i : ℕ}
    (hi : data.Has stream.length i) : written i = some (stream.getD i 0) := by
  have hlt := hfits.lt_of_has hi
  have hlen := hfits.le
  have hsome : (written i).isSome = true := by
    rcases hi with hbit | hpart
    · exact h.bits i hbit
    · unfold partialBlockLength kBlockSize at hpart
      split_ifs at hpart with h1 h2
      · exact h.last i h1 hpart
      · by_cases hfirst : stream.length < 1024
        · exact absurd ((h.first hfirst).trans (by omega)) h1
        · exact h.tail (by omega) i hlt h2
      · omega
  obtain ⟨v, hv⟩ := Option.isSome_iff_exists.1 hsome
  rw [hv, (h.value i v (by omega) hv).2]

/-- A write leaves a hole behind the data of a child: it begins inside a block that is not the
child's first one, past the end of the data, and ends in that block. -/
def LeavesHole (len o n : ℕ) : Prop := 0 < n ∧ 1024 ≤ o ∧ o % 1024 ≠ 0 ∧ o % 1024 + n < 1024 ∧ len < o

theorem Filled.updateRange {bytes : List UInt8} {o : ℕ} (h : Filled data stream written)
    (hfits : data.Fits stream.length) (hpos : 0 < bytes.length) (hin : o + bytes.length ≤ 1048576)
    (hhole : ¬ LeavesHole stream.length o bytes.length) :
    Filled (updateRange data o bytes.length) (writeAt 0 stream o bytes) (wrote written o bytes) := by
  obtain ⟨n, hn⟩ : ∃ n, n = bytes.length := ⟨_, rfl⟩
  have hlen : (writeAt 0 stream o bytes).length = max stream.length (o + n) := by
    rw [Lib.length_writeAt, hn]
  have hnew (i : ℕ) (h1 : o ≤ i) (h2 : i < o + n) : (wrote written o bytes i).isSome = true := by
    rw [wrote, if_pos (by omega), List.getElem?_eq_getElem (by omega)]
    rfl
  have hold (i : ℕ) (hi : (written i).isSome = true) : (wrote written o bytes i).isSome = true := by
    by_cases hin : o ≤ i ∧ i < o + n
    · exact hnew i hin.1 hin.2
    · unfold wrote
      rwa [if_neg (by omega)]
  have hvalue (i : ℕ) (v : UInt8) (hi : i < 1048576) (hv : wrote written o bytes i = some v) :
      i < (writeAt 0 stream o bytes).length ∧ (writeAt 0 stream o bytes).getD i 0 = v := by
    unfold wrote at hv
    rw [Lib.getD_writeAt, hlen]
    by_cases hin : o ≤ i ∧ i < o + bytes.length
    · rw [if_pos hin] at hv ⊢
      rw [List.getD_eq_getElem?_getD, hv]
      exact ⟨by omega, rfl⟩
    · rw [if_neg hin] at hv ⊢
      have := h.value i v hi hv
      exact ⟨by omega, this.2⟩
  -- the block in which the stream ends now
  have htail : 1024 ≤ max stream.length (o + n) → ∀ i < max stream.length (o + n),
      i / 1024 = max stream.length (o + n) / 1024 → (wrote written o bytes i).isSome = true := by
    intro h1 i h2 h3
    rcases Nat.lt_or_ge stream.length (o + n) with hlt | hge
    · by_cases hi : o ≤ i
      · exact hnew i hi (by omega)
      · unfold LeavesHole at hhole
        exact hold i (h.tail (by omega) i (by omega) (by omega))
    · rw [Nat.max_eq_left hge] at h1 h2 h3
      exact hold i (h.tail h1 i h2 h3)
  unfold DiskCache.updateRange kBlockSize
  dsimp only
  rw [← hn]
  obtain ⟨first, hfirst⟩ : ∃ first, first = if o % 1024 ≠ 0 ∧
      (data.header.lastBlock ≠ ((o / 1024 : ℕ) : ℤ) ∨
        data.header.lastBlockLen < ((o % 1024 : ℕ) : ℤ)) then o / 1024 + 1 else o / 1024 := ⟨_, rfl⟩
  rw [← hfirst]
  -- what lies before the write in its first block was written
  have hbefore (i : ℕ) (h1 : i < o) (h2 : first ≤ i / 1024) :
      (wrote written o bytes i).isSome = true := by
    split_ifs at hfirst with hc
    · omega
    · rw [not_and_or, not_or] at hc
      rcases hc with hc | ⟨hc1, hc2⟩
      · omega
      · exact hold i (h.last i (by omega) (by omega))
  by_cases hlt : (o + n) / 1024 < first
  · rw [if_pos hlt]
    refine ⟨hvalue, fun i hi => hold i (h.bits i hi), fun i h1 h2 => hold i (h.last i h1 h2), ?_, ?_⟩
    · rw [hlen]
      exact htail
    · rw [hlen]
      exact fun hs => h.first (by omega)
  · rw [if_neg hlt]
    refine ⟨hvalue, fun i hi => ?_, fun i h1 h2 => ?_, ?_, ?_⟩
    · dsimp only [setRange] at hi
      split_ifs at hi with hr
      · by_cases ho : o ≤ i
        · exact hnew i ho (by omega)
        · exact hbefore i (by omega) hr.1
      · exact hold i (h.bits i hi)
    · split_ifs at h1 h2 with hc
      · dsimp only at h1 h2
        by_cases ho : o ≤ i
        · exact hnew i ho (by omega)
        · exact hbefore i (by omega) (by omega)
      · dsimp only at h1
        omega
    · rw [hlen]
      exact htail
    · rw [hlen]
      intro hs
      have hclear : data.bitmap ((o + n) / 1024) = false := by
        rw [Bool.eq_false_iff]
        intro hb
        have := hfits.bits _ hb
        omega
      rw [if_pos ⟨by omega, hclear⟩]
      dsimp only
      omega

theorem Filled.congr {written' : ℕ → Option UInt8} (h : Filled data stream written)
    (hfits : data.Fits stream.length) (hsame : ∀ i < 1048576, written' i = written i) :
    Filled data stream written' := by
  have hlen := hfits.le
  refine ⟨fun i v hi hv => h.value i v hi (hsame i hi ▸ hv), fun i hi => ?_, fun i h1 h2 => ?_,
    fun h1 i h2 h3 => ?_, h.first⟩
  · have := hfits.bits _ hi
    rw [hsame i (by omega)]
    exact h.bits i hi
  · have := (hfits.last _ h1).2
    rw [hsame i (by omega)]
    exact h.last i h1 h2
  · rw [hsame i (by omega)]
    exact h.tail h1 i h2 h3

def AllFilled (entry : ℕ → Option (SparseData × List UInt8)) (written : ℕ → Option UInt8) : Prop :=
  ∀ id, (∀ data stream, entry id = some (data, stream) → Filled data stream fun i => written (id * 1048576 + i)) ∧
    (entry id = none → ∀ i < 1048576, written (id * 1048576 + i) = none)

def childLength (entry : ℕ → Option (SparseData × List UInt8)) (id : ℕ) : ℕ :=
  match entry id with
  | none => 0
  | some (_, stream) => stream.length

theorem wrote_add (written : ℕ → Option UInt8) (a o : ℕ) (bytes : List UInt8) :
    (fun i => wrote written (a + o) bytes (a + i)) = wrote (fun i => written (a + i)) o bytes := by
  funext i
  unfold wrote
  rw [show a + i - (a + o) = i - o by omega]
  by_cases h : o ≤ i ∧ i < o + bytes.length
  · rw [if_pos (by omega), if_pos h]
  · rw [if_neg (by omega), if_neg h]

theorem AllFilled.write {entry : ℕ → Option (SparseData × List UInt8)}
    (h : AllFilled entry written) (bytes : List UInt8) (o : ℕ)
    (hfilled : Filled data stream fun i => written (id * 1048576 + i))
    (hfits : ∀ id data stream, entry id = some (data, stream) → data.Fits stream.length)
    (hfits' : data.Fits stream.length) (hpos : 0 < bytes.length)
    (hin : o + bytes.length ≤ 1048576) (hhole : ¬ LeavesHole stream.length o bytes.length) :
    AllFilled
      (Function.update entry id
        (some (DiskCache.updateRange data o bytes.length, writeAt 0 stream o bytes)))
      (wrote written (id * 1048576 + o) bytes) := by
  intro id'
  by_cases hid : id' = id
  · subst hid
    rw [Function.update_self]
    refine ⟨fun d s hs => ?_, fun hnone => by cases hnone⟩
    cases hs
    rw [wrote_add]
    exact hfilled.updateRange hfits' hpos hin hhole
  · rw [Function.update_of_ne hid]
    have hsame (i : ℕ) (hi : i < 1048576) :
        wrote written (id * 1048576 + o) bytes (id' * 1048576 + i) = written (id' * 1048576 + i) := by
      rw [wrote, if_neg (by omega)]
    refine ⟨fun d s hs => ((h id').1 d s hs).congr (hfits id' d s hs) hsame, fun hnone i hi => ?_⟩
    rw [hsame i hi]
    exact (h id').2 hnone i hi

/-- The child of a block tells that the block is filled. -/
def Full (entry : ℕ → Option (SparseData × List UInt8)) (b : ℕ) : Prop :=
  ∃ data stream, entry (b / 1024) = some (data, stream) ∧ data.bitmap (b % 1024) = true

/-- The children are as `entry`, but for `bytes` that were written at `o`. -/
structure Writes (entry entry' : ℕ → Option (SparseData × List UInt8)) (o : ℕ) (bytes : List UInt8) : Prop where
  full : ∀ b, Full entry b ∨ o ≤ b * 1024 ∧ b * 1024 + 1024 ≤ o + bytes.length → Full entry' b
  byteAt : (fun x => some (byteAt entry' x)) = wrote (fun x => some (byteAt entry x)) o bytes

section

variable {entry entry' entry'' : ℕ → Option (SparseData × List UInt8)} {o n b : ℕ} {bytes : List UInt8}

theorem Full.has {x : ℕ} (h : Full entry (x / 1024)) : Has entry x := by
  obtain ⟨data, stream, hentry, hbit⟩ := h
  refine ⟨data, stream, by rwa [show x / 1048576 = x / 1024 / 1024 by omega], .inl ?_⟩
  rwa [show x % 1048576 / 1024 = x / 1024 % 1024 by omega]

theorem bitmap_updateRange (h : data.bitmap b = true ∨ o ≤ b * 1024 ∧ b * 1024 + 1024 ≤ o + n) :
    (updateRange data o n).bitmap b = true := by
  unfold DiskCache.updateRange kBlockSize
  rcases h with hbit | ⟨h1, h2⟩
  · dsimp only
    split_ifs <;> simp [setRange, hbit]
  · rw [if_neg (by split_ifs <;> omega)]
    exact if_pos (by split_ifs <;> omega)

theorem Writes.nil : Writes entry entry o [] :=
  ⟨fun b h => h.resolve_right fun ⟨_, h⟩ => by simp only [List.length_nil] at h; omega, (wrote_nil _ _).symm⟩

theorem Writes.append (h : Writes entry entry' o (bytes.take n)) (h' : Writes entry' entry'' (o + n) (bytes.drop n))
    (hn : n ≤ bytes.length) (hcut : (o + n) % 1024 = 0 ∨ n = bytes.length) : Writes entry entry'' o bytes := by
  refine ⟨fun b hb => h'.full b ?_, by rw [h'.byteAt, h.byteAt, wrote_wrote]⟩
  rw [List.length_drop]
  by_cases hlater : o + n ≤ b * 1024 ∧ b * 1024 + 1024 ≤ o + n + (bytes.length - n)
  · exact .inr hlater
  · refine .inl (h.full b (hb.imp_right fun hin => ?_))
    rw [List.length_take]
    omega

theorem writes_update (o : ℕ) (bytes : List UInt8) {d : SparseData}
    (hfrom : entry id = some (data, stream) ∨ entry id = none ∧ data = d ∧ stream = []) (hin : o + bytes.length ≤ 1048576) :
    Writes entry (Function.update entry id (some (DiskCache.updateRange data o bytes.length, writeAt 0 stream o bytes)))
      (id * 1048576 + o) bytes := by
  refine ⟨fun b hb => ?_, ?_⟩
  · unfold Full
    by_cases hid : b / 1024 = id
    · rw [hid, Function.update_self]
      refine ⟨_, _, rfl, bitmap_updateRange ?_⟩
      rcases hb with ⟨d, s, hd, hbit⟩ | hin
      · rw [hid] at hd
        rcases hfrom with hsome | ⟨hnone, -⟩
        · cases hd.symm.trans hsome
          exact .inl hbit
        · cases hd.symm.trans hnone
      · exact .inr (by omega)
    · rw [Function.update_of_ne hid]
      exact hb.resolve_right (by omega)
  · funext x
    unfold byteAt wrote
    by_cases hid : x / 1048576 = id
    · subst hid
      rw [Function.update_self]
      dsimp only
      rw [Lib.getD_writeAt]
      by_cases ho : o ≤ x % 1048576 ∧ x % 1048576 < o + bytes.length
      · rw [if_pos ho, if_pos (by omega), List.getD_eq_getElem _ _ (by omega), List.getElem?_eq_getElem (by omega)]
        congr 2
        omega
      · rw [if_neg ho, if_neg (by omega)]
        rcases hfrom with hsome | ⟨hnone, -, rfl⟩
        · rw [hsome]
        · rw [hnone]
          rfl
    · rw [Function.update_of_ne hid, if_neg (by omega)]

end

theorem doChildrenIo_write {n : ℕ} (h : c.WellFormed) (hop : c.operation = .kWriteOperation)
    (hres : 0 ≤ c.result) (hbuf : c.userBuf.length = c.bufLen) (hfuel : c.bufLen ≤ n) :
    (doChildrenIo n c).WellFormed ∧ (doChildrenIo n c).result = c.result + c.bufLen ∧
      Writes c.entry (doChildrenIo n c).entry c.offset c.userBuf ∧ ∀ written, AllFilled c.entry written →
        ¬ LeavesHole (childLength c.entry c.childId) (c.offset % 1048576) c.bufLen →
        AllFilled (doChildrenIo n c).entry (wrote written c.offset c.userBuf) := by
  induction n generalizing c with
  | zero =>
    rw [List.eq_nil_of_length_eq_zero (by omega : c.userBuf.length = 0)]
    exact ⟨h, by simp only [doChildrenIo]; omega, .nil, fun written hw _ => by rwa [wrote_nil]⟩
  | succ n ih =>
    rcases Nat.eq_zero_or_pos c.bufLen with hzero | hpos
    · rw [doChildrenIo_empty hzero]
      rw [List.eq_nil_of_length_eq_zero (by omega : c.userBuf.length = 0)]
      exact ⟨h, by omega, .nil, fun written hw _ => by rwa [wrote_nil]⟩
    · obtain ⟨c', k, data, stream, hio, hwf, hk, hfrom, hentry, hop', hres', hoff, hbuf', huser,
        hheader⟩ := doChildIo_write h hop hpos hres (by omega)
      simp only [doChildrenIo, hio, if_true]
      obtain ⟨hwf', hres'', hwrites, hfill⟩ :=
        ih hwf hop' (by omega) (by rw [huser, List.length_drop]; omega) (by omega)
      have hlen : (c.userBuf.take k).length = k := by
        rw [List.length_take]
        omega
      have hchildOffset : c.childId * 1048576 + c.offset % 1048576 = c.offset := by
        unfold childId
        omega
      refine ⟨hwf', by omega, ?_, fun written hw hhole => ?_⟩
      · have hchild := writes_update (c.offset % 1048576) (c.userBuf.take k) hfrom (by omega)
        rw [hlen, ← hentry, hchildOffset] at hchild
        rw [hoff, huser] at hwrites
        exact hchild.append hwrites (by omega) (by omega)
      have hfits : data.Fits stream.length ∧ (Filled data stream fun i => written (c.childId * 1048576 + i)) ∧
          stream.length = childLength c.entry c.childId := by
        unfold childLength
        rcases hfrom with hsome | ⟨hnone, rfl, rfl⟩
        · rw [hsome]
          exact ⟨h.fits _ _ _ hsome, (hw _).1 _ _ hsome, rfl⟩
        · have hnew := (hw c.childId).2 hnone
          have h0 := h.lastBlock
          have h1 := h.lastBlockLen
          rw [hnone]
          refine ⟨⟨by simp, fun b hb => ⟨rfl, ?_⟩, by dsimp only; omega, by simp⟩,
            ⟨fun i v hi hv => ?_, by simp, fun i _ hi => ?_, fun hle => ?_, fun _ => h0⟩, rfl⟩
          · dsimp only at hb ⊢
            rw [h1, List.length_nil]
            omega
          · rw [hnew i hi] at hv
            cases hv
          · dsimp only at hi
            rw [h1] at hi
            simp at hi
          · simp at hle
      obtain ⟨hfits, hfilled, hchild⟩ := hfits
      have hpart : ¬ LeavesHole stream.length (c.offset % 1048576) k := by
        rw [hchild]
        unfold LeavesHole at hhole ⊢
        omega
      have hstep := hw.write (c.userBuf.take k) (c.offset % 1048576) hfilled h.fits
        hfits (by omega) (by omega) (by rw [hlen]; exact hpart)
      rw [hlen, ← hentry, hchildOffset] at hstep
      have hrest := hfill _ hstep (by unfold LeavesHole; rw [hoff, hbuf']; omega)
      rwa [hoff, huser, wrote_wrote] at hrest

/-! ### The operations -/

/-- The ranges that `StartIO` accepts. -/
def Accepted (offset len : ℤ) : Prop := 0 ≤ offset ∧ 0 ≤ len ∧ offset + len < 0x1000000000

instance (offset len : ℤ) : Decidable (Accepted offset len) := inferInstanceAs (Decidable (_ ∧ _ ∧ _))

/-- A value of type `int64`. -/
def IsInt64 (x : ℤ) : Prop := -9223372036854775808 ≤ x ∧ x < 9223372036854775808

/-- A value of type `int`. -/
def IsInt (x : ℤ) : Prop := -2147483648 ≤ x ∧ x < 2147483648

instance (x : ℤ) : Decidable (IsInt64 x) := inferInstanceAs (Decidable (_ ∧ _))

instance (x : ℤ) : Decidable (IsInt x) := inferInstanceAs (Decidable (_ ∧ _))

def started (c : SparseControl) (operation : SparseOperation) (offset : ℤ) (buf : List UInt8)
    (len : ℤ) : SparseControl :=
  { c with
    operation := operation
    offset := offset.toNat
    userBuf := buf
    dataRead := []
    bufLen := len.toNat
    result := 0 }

variable {offset len : ℤ} {buf : List UInt8}

theorem startIo_accepted {operation : SparseOperation} (hidle : c.operation = .kNoOperation)
    (hacc : Accepted offset len) :
    c.startIo operation offset buf len =
      ({ doChildrenIo len.toNat (c.started operation offset buf len) with
          operation := .kNoOperation
          userBuf := [] },
        (doChildrenIo len.toNat (c.started operation offset buf len)).result) := by
  obtain ⟨h1, h2, h3⟩ := hacc
  unfold startIo
  rw [if_neg (not_not.2 hidle), if_neg (by omega), Lib.toInt64_of_mem (by omega) (by omega), if_neg (by omega)]
  rfl

theorem startIo_refused (operation : SparseOperation) (buf : List UInt8)
    (hidle : c.operation = .kNoOperation) (hoffset : IsInt64 offset) (hlen : IsInt len)
    (hacc : ¬ Accepted offset len) :
    ∃ e < 0, c.startIo operation offset buf len = (c, e) := by
  unfold IsInt64 at hoffset
  unfold IsInt at hlen
  unfold Accepted at hacc
  rw [startIo, if_neg (not_not.2 hidle)]
  by_cases hneg : offset < 0 ∨ len < 0
  · rw [if_pos hneg]
    exact ⟨_, by decide, rfl⟩
  · rw [if_neg hneg]
    have hbad : 0x1000000000 ≤ toInt64 (offset + len) ∨ toInt64 (offset + len) < 0 := by
      unfold toInt64
      omega
    rw [if_pos hbad]
    exact ⟨_, by decide, rfl⟩

structure Idle (c : SparseControl) : Prop where
  wf : c.WellFormed
  idle : c.operation = .kNoOperation

/-- **What `ReadSparseData` returns.** -/
theorem readSparseData_accepted (h : c.Idle) (hacc : Accepted offset len) :
    ∃ k : ℕ, (k : ℤ) ≤ len ∧ (c.readSparseData offset len).1.Idle ∧ (c.readSparseData offset len).1.entry = c.entry ∧
      (c.readSparseData offset len).2.1 = k ∧
      (c.readSparseData offset len).2.2 = (List.range k).map (fun i => byteAt c.entry (offset.toNat + i)) ∧
      (∀ i < k, Has c.entry (offset.toNat + i)) ∧
      (k < len → ¬ Has c.entry (offset.toNat + k)) := by
  obtain ⟨h1, h2, h3⟩ := hacc
  have hwf : (started { c with dataRead := [] } .kReadOperation offset [] len).WellFormed :=
    h.wf.congr rfl rfl rfl rfl rfl
  obtain ⟨k, hk, hwf', hentry, hres, hdata, hhas, hend⟩ :=
    doChildrenIo_read (n := len.toNat) hwf rfl le_rfl le_rfl
  dsimp only [readSparseData]
  rw [startIo_accepted (by exact h.idle) ⟨h1, h2, h3⟩]
  dsimp only [started] at hk hres hdata hhas hend
  refine ⟨k, by omega, ⟨hwf'.congr rfl rfl rfl rfl rfl, rfl⟩, hentry, ?_, hdata, hhas, fun hlt => hend (by omega)⟩
  exact hres.trans (by omega)

theorem readSparseData_refused (h : c.Idle) (hoffset : IsInt64 offset) (hlen : IsInt len)
    (hacc : ¬ Accepted offset len) :
    (c.readSparseData offset len).1.Idle ∧ (c.readSparseData offset len).1.entry = c.entry ∧
      (c.readSparseData offset len).2.1 < 0 ∧ (c.readSparseData offset len).2.2 = [] := by
  obtain ⟨e, he, heq⟩ := startIo_refused (c := { c with dataRead := [] })
    .kReadOperation [] h.idle hoffset hlen hacc
  rw [readSparseData, heq]
  exact ⟨⟨h.wf.congr rfl rfl rfl rfl rfl, h.idle⟩, rfl, he, rfl⟩

/-- **What `WriteSparseData` leaves.** -/
theorem writeSparseData_accepted (h : c.Idle) (hacc : Accepted offset buf.length) :
    (c.writeSparseData offset buf).1.Idle ∧ (c.writeSparseData offset buf).2 = buf.length ∧
      Writes c.entry (c.writeSparseData offset buf).1.entry offset.toNat buf ∧ ∀ written, AllFilled c.entry written →
        ¬ LeavesHole (childLength c.entry (offset.toNat / 1048576)) (offset.toNat % 1048576)
          buf.length →
        AllFilled (c.writeSparseData offset buf).1.entry (wrote written offset.toNat buf) := by
  have hwf : (c.started .kWriteOperation offset buf buf.length).WellFormed :=
    h.wf.congr rfl rfl rfl rfl rfl
  obtain ⟨hwf', hres, hwrites, hfill⟩ := doChildrenIo_write (n := (buf.length : ℤ).toNat) hwf rfl
    le_rfl (by simp [started]) le_rfl
  rw [writeSparseData, startIo_accepted h.idle hacc]
  refine ⟨⟨hwf'.congr rfl rfl rfl rfl rfl, rfl⟩, ?_, hwrites, fun written hw hhole => hfill written hw ?_⟩
  · dsimp only [started] at hres ⊢
    omega
  · exact hhole

theorem writeSparseData_refused (h : c.Idle) (hoffset : IsInt64 offset)
    (hlen : IsInt buf.length) (hacc : ¬ Accepted offset buf.length) :
    ∃ e < 0, c.writeSparseData offset buf = (c, e) :=
  startIo_refused .kWriteOperation buf h.idle hoffset hlen hacc

/-- **What `GetAvailableRange` finds.** -/
theorem getAvailableRange_accepted (h : c.Idle) (hacc : Accepted offset len) :
    (c.getAvailableRange offset len).1.Idle ∧ (c.getAvailableRange offset len).1.entry = c.entry ∧
      (((c.getAvailableRange offset len).2 = (0, offset) ∧ (0 < len → ¬ Has c.entry offset.toNat)) ∨
        ∃ e n : ℕ, 0 < n ∧ (e + n : ℤ) ≤ len ∧ (c.getAvailableRange offset len).2 = ((n : ℤ), offset + e) ∧
          ∀ i, e ≤ i → i < e + n → Has c.entry (offset.toNat + i)) := by
  obtain ⟨h1, h2, h3⟩ := hacc
  have hwf : (started { c with rangeFound := false } .kGetRangeOperation offset [] len).WellFormed :=
    h.wf.congr rfl rfl rfl rfl rfl
  obtain ⟨hwf', hentry, hcase⟩ :=
    doChildrenIo_range (n := len.toNat) hwf rfl le_rfl rfl le_rfl
  rw [getAvailableRange, if_neg (not_not.2 h.idle)]
  dsimp only
  rw [startIo_accepted (by exact h.idle) ⟨h1, h2, h3⟩]
  dsimp only
  rcases hcase with ⟨hfound, hres, hnot⟩ | ⟨e, n, hfound, hpos, hle, hres, hoff, hhas⟩
  · rw [hfound, if_neg (by simp), if_neg (by omega)]
    exact ⟨⟨hwf'.congr rfl rfl rfl rfl rfl, rfl⟩, hentry, .inl ⟨rfl, fun hlt => hnot (by dsimp only [started]; omega)⟩⟩
  · rw [hfound, if_pos rfl]
    dsimp only [started] at hle hoff hres hhas
    refine ⟨⟨hwf'.congr rfl rfl rfl rfl rfl, rfl⟩, hentry, .inr ⟨e, n, hpos, by omega, ?_, hhas⟩⟩
    rw [Prod.mk.injEq]
    exact ⟨hres, by dsimp only [started]; omega⟩

theorem getAvailableRange_refused (h : c.Idle) (hoffset : IsInt64 offset) (hlen : IsInt len)
    (hacc : ¬ Accepted offset len) :
    (c.getAvailableRange offset len).1.Idle ∧ (c.getAvailableRange offset len).1.entry = c.entry ∧
      (c.getAvailableRange offset len).2.1 < 0 := by
  obtain ⟨e, he, heq⟩ := startIo_refused (c := { c with rangeFound := false })
    .kGetRangeOperation [] h.idle hoffset hlen hacc
  rw [getAvailableRange, if_neg (not_not.2 h.idle)]
  dsimp only
  rw [heq]
  dsimp only
  rw [if_neg (by simp), if_pos he]
  exact ⟨⟨h.wf.congr rfl rfl rfl rfl rfl, h.idle⟩, rfl, he⟩

theorem Idle.createSparseEntry (signature parentKeyLen : ℤ) :
    (createSparseEntry signature parentKeyLen).Idle :=
  ⟨⟨rfl, rfl, rfl, fun _ => rfl, nofun, nofun, nofun⟩, rfl⟩

theorem Idle.reopen (h : c.Idle) : c.reopen.Idle ∧ c.reopen.entry = c.entry :=
  ⟨⟨h.wf.closeChild.congr rfl rfl rfl rfl rfl, rfl⟩, entry_closeChild c⟩

end SparseControl

/-! ### Every run -/

open SparseControl

/-- A sparse entry and what was written to it. -/
structure SparseState where
  control : SparseControl
  written : ℕ → Option UInt8

inductive SparseAction
  | writeSparseData (offset : ℤ) (buf : List UInt8)
  | readSparseData (offset len : ℤ)
  | getAvailableRange (offset len : ℤ)
  | reopen

def SparseAction.Typed : SparseAction → Prop
  | .writeSparseData offset buf => IsInt64 offset ∧ IsInt buf.length
  | .readSparseData offset len => IsInt64 offset ∧ IsInt len
  | .getAvailableRange offset len => IsInt64 offset ∧ IsInt len
  | .reopen => True

def SparseState.next (st : SparseState) : SparseAction → SparseState
  | .writeSparseData offset buf =>
    let r := st.control.writeSparseData offset buf
    ⟨r.1, wrote st.written offset.toNat (buf.take r.2.toNat)⟩
  | .readSparseData offset len => ⟨(st.control.readSparseData offset len).1, st.written⟩
  | .getAvailableRange offset len => ⟨(st.control.getAvailableRange offset len).1, st.written⟩
  | .reopen => ⟨st.control.reopen, st.written⟩

def sparseSystem (signature parentKeyLen : ℤ) : Lib.TransSys SparseState SparseAction where
  init st := st = ⟨createSparseEntry signature parentKeyLen, fun _ => none⟩
  step st action st' := action.Typed ∧ st' = st.next action

/-- A call does not write behind the data of a child so that a hole is left in the last block. -/
def KeepsBlocksFilled (st : SparseState) : SparseAction → Prop
  | .writeSparseData offset buf => Accepted offset buf.length →
    ¬ LeavesHole (childLength st.control.entry (offset.toNat / 1048576)) (offset.toNat % 1048576)
      buf.length
  | _ => True

variable {signature parentKeyLen offset len : ℤ} {tr : List SparseAction} {st : SparseState}

/-- A write of whole blocks, and of `b` among them. -/
def SparseAction.Fills (b : ℕ) : SparseAction → Prop
  | .writeSparseData offset buf => Accepted offset buf.length ∧ offset ≤ b * 1024 ∧ b * 1024 + 1024 ≤ offset + buf.length
  | _ => False

theorem next_cases {action : SparseAction} (h : st.control.Idle) (htyped : action.Typed) :
    (st.next action).control.Idle ∧
      ((∃ offset buf, action = .writeSparseData offset buf ∧ Accepted offset buf.length ∧
          (st.next action).written = wrote st.written offset.toNat buf) ∨
        (st.next action).control.entry = st.control.entry ∧ (st.next action).written = st.written ∧
          ∀ b, ¬ action.Fills b) := by
  cases action with
  | writeSparseData offset buf =>
    dsimp only [SparseState.next]
    by_cases hacc : Accepted offset buf.length
    · obtain ⟨hidle, hres, -⟩ := writeSparseData_accepted h hacc
      refine ⟨hidle, .inl ⟨offset, buf, rfl, hacc, ?_⟩⟩
      rw [hres, Int.toNat_natCast, List.take_length]
    · obtain ⟨e, he, heq⟩ := writeSparseData_refused h htyped.1 htyped.2 hacc
      rw [heq]
      refine ⟨h, .inr ⟨rfl, ?_, fun b hb => hacc hb.1⟩⟩
      rw [show e.toNat = 0 by omega, List.take_zero, wrote_nil]
  | readSparseData offset len =>
    by_cases hacc : Accepted offset len
    · obtain ⟨k, -, hidle, hentry, -⟩ := readSparseData_accepted h hacc
      exact ⟨hidle, .inr ⟨hentry, rfl, fun b hb => hb⟩⟩
    · obtain ⟨hidle, hentry, -⟩ := readSparseData_refused h htyped.1 htyped.2 hacc
      exact ⟨hidle, .inr ⟨hentry, rfl, fun b hb => hb⟩⟩
  | getAvailableRange offset len =>
    by_cases hacc : Accepted offset len
    · obtain ⟨hidle, hentry, -⟩ := getAvailableRange_accepted h hacc
      exact ⟨hidle, .inr ⟨hentry, rfl, fun b hb => hb⟩⟩
    · obtain ⟨hidle, hentry, -⟩ := getAvailableRange_refused h htyped.1 htyped.2 hacc
      exact ⟨hidle, .inr ⟨hentry, rfl, fun b hb => hb⟩⟩
  | reopen => exact ⟨h.reopen.1, .inr ⟨h.reopen.2, rfl, fun b hb => hb⟩⟩

theorem idle_run (hrun : (sparseSystem signature parentKeyLen).Run tr st) : st.control.Idle := by
  refine hrun.invariant (I := fun st => st.control.Idle) ?_ ?_
  · rintro st rfl
    exact Idle.createSparseEntry signature parentKeyLen
  · rintro st action st' h ⟨htyped, rfl⟩
    exact (next_cases h htyped).1

theorem allFilled_next {action : SparseAction} (h : st.control.Idle) (htyped : action.Typed)
    (hfilled : AllFilled st.control.entry st.written) (hkeeps : KeepsBlocksFilled st action) :
    AllFilled (st.next action).control.entry (st.next action).written := by
  rcases (next_cases h htyped).2 with ⟨offset, buf, rfl, hacc, hwritten⟩ | ⟨hentry, hwritten, -⟩
  · rw [hwritten]
    exact (writeSparseData_accepted h hacc).2.2.2 st.written hfilled (hkeeps hacc)
  · rw [hentry, hwritten]
    exact hfilled

theorem allFilled_run
    (hrun : ((sparseSystem signature parentKeyLen).restrict KeepsBlocksFilled).Run tr st) :
    AllFilled st.control.entry st.written := by
  have hinv : st.control.Idle ∧ AllFilled st.control.entry st.written := by
    refine hrun.invariant (I := fun st => st.control.Idle ∧ AllFilled st.control.entry st.written)
      ?_ ?_
    · rintro st rfl
      exact ⟨Idle.createSparseEntry signature parentKeyLen, fun id => ⟨nofun, fun _ _ _ => rfl⟩⟩
    · rintro st action st' ⟨h, hfilled⟩ ⟨hkeeps, htyped, rfl⟩
      exact ⟨(next_cases h htyped).1, allFilled_next h htyped hfilled hkeeps⟩
  exact hinv.2

/-- **A sparse entry returns what was written**, after every run in which no write leaves a hole in
the last block of a child. -/
theorem readSparseData_written
    (hrun : ((sparseSystem signature parentKeyLen).restrict KeepsBlocksFilled).Run tr st)
    (hoffset : IsInt64 offset) (hlen : IsInt len) {i : ℕ} {v : UInt8}
    (hread : (st.control.readSparseData offset len).2.2[i]? = some v) :
    st.written (offset.toNat + i) = some v := by
  have hidle := idle_run hrun.of_restrict
  have hfilled := allFilled_run hrun
  by_cases hacc : Accepted offset len
  · obtain ⟨k, -, -, -, -, hdata, hhas, -⟩ := readSparseData_accepted hidle hacc
    rw [hdata, List.getElem?_map, Option.map_eq_some_iff] at hread
    obtain ⟨j, hj, rfl⟩ := hread
    obtain ⟨hlt, rfl⟩ := List.getElem?_eq_some_iff.mp hj
    rw [List.length_range] at hlt
    rw [List.getElem_range]
    obtain ⟨data, stream, hentry, hbyte⟩ := hhas i hlt
    have hvalue := ((hfilled _).1 _ _ hentry).of_has (hidle.wf.fits _ _ _ hentry) hbyte
    unfold byteAt
    rw [hentry]
    rwa [show (offset.toNat + i) / 1048576 * 1048576 + (offset.toNat + i) % 1048576 =
      offset.toNat + i by omega] at hvalue
  · rw [(readSparseData_refused hidle hoffset hlen hacc).2.2.2] at hread
    cases hread

/-- A few bytes are written at the start of a block, and read. -/
theorem readSparseData_written_block : (SparseState.next ⟨createSparseEntry 7 3, fun _ => none⟩
      (.writeSparseData 1024 (List.replicate 9 4))).written 1030 = some 4 := by
  have hrun : ((sparseSystem 7 3).restrict KeepsBlocksFilled).Run
      [.writeSparseData 1024 (List.replicate 9 4)]
      (SparseState.next ⟨createSparseEntry 7 3, fun _ => none⟩
        (.writeSparseData 1024 (List.replicate 9 4))) :=
    .step (.init rfl) ⟨fun _ h => h.2.2.1 rfl, ⟨by decide, by decide⟩, rfl⟩
  have hread : ((SparseState.next ⟨createSparseEntry 7 3, fun _ => none⟩
      (.writeSparseData 1024 (List.replicate 9 4))).control.readSparseData 1030 2).2.2[0]? =
        some 4 := by
    decide +kernel
  exact readSparseData_written hrun (by decide) (by decide) hread

/-- A hundred bytes are written inside the second block of a new entry: the block is returned
from its start on. -/
theorem not_readSparseData_written :
    ¬ ∀ (tr : List SparseAction) (st : SparseState) (offset len : ℤ) (i : ℕ) (v : UInt8),
      (sparseSystem 7 3).Run tr st → IsInt64 offset → IsInt len →
      (st.control.readSparseData offset len).2.2[i]? = some v →
      st.written (offset.toNat + i) = some v := by
  intro h
  have hrun : (sparseSystem 7 3).Run [.writeSparseData 1524 (List.replicate 100 9)]
      (SparseState.next ⟨createSparseEntry 7 3, fun _ => none⟩
        (.writeSparseData 1524 (List.replicate 100 9))) :=
    .step (.init rfl) ⟨⟨by decide, by decide⟩, rfl⟩
  have hread := h _ _ 1024 10 0 0 hrun (by decide) (by decide) (by decide +kernel)
  revert hread
  decide +kernel

/-- What was written in whole blocks is there, and what was written last. -/
structure Kept (tr : List SparseAction) (st : SparseState) : Prop where
  idle : st.control.Idle
  full : ∀ b, (∃ action ∈ tr, action.Fills b) → Full st.control.entry b
  byteAt : ∀ x v, st.written x = some v → byteAt st.control.entry x = v

theorem Kept.next {action : SparseAction} (h : Kept tr st) (htyped : action.Typed) :
    Kept (tr ++ [action]) (st.next action) := by
  have hfull (b : ℕ) (hb : ∃ a ∈ tr ++ [action], a.Fills b) : Full st.control.entry b ∨ action.Fills b := by
    obtain ⟨a, ha, hfills⟩ := hb
    rcases List.mem_append.1 ha with ha | ha
    · exact .inl (h.full b ⟨a, ha, hfills⟩)
    · exact .inr (List.mem_singleton.1 ha ▸ hfills)
  obtain ⟨hidle, ⟨offset, buf, rfl, hacc, hwritten⟩ | ⟨hentry, hwritten, hnot⟩⟩ := next_cases h.idle htyped
  · obtain ⟨-, -, hwrites, -⟩ := writeSparseData_accepted h.idle hacc
    refine ⟨hidle, fun b hb => hwrites.full b ((hfull b hb).imp_right fun hfills => ?_), fun x v hv => ?_⟩
    · have := hfills.2
      omega
    · have hbyte := congrFun hwrites.byteAt x
      rw [hwritten] at hv
      unfold wrote at hbyte hv
      split_ifs at hbyte hv
      · exact Option.some.inj (hbyte.trans hv)
      · exact (Option.some.inj hbyte).trans (h.byteAt x v hv)
  · refine ⟨hidle, fun b hb => ?_, fun x v hv => ?_⟩
    · rw [hentry]
      exact (hfull b hb).resolve_right (hnot b)
    · rw [hentry]
      exact h.byteAt x v (hwritten ▸ hv)

theorem kept_run (hrun : (sparseSystem signature parentKeyLen).Run tr st) : Kept tr st := by
  refine hrun.traceInvariant ?_ ?_
  · rintro st rfl
    exact ⟨Idle.createSparseEntry signature parentKeyLen, fun b ⟨_, h, _⟩ => (nomatch h), nofun⟩
  · rintro tr st action st' h ⟨htyped, rfl⟩
    exact h.next htyped

/-- **What was written in whole blocks is read in full, and as it was written last**, in every run. -/
theorem readSparseData_filled (hrun : (sparseSystem signature parentKeyLen).Run tr st) (hacc : Accepted offset len)
    (hfills : ∀ i : ℕ, i < len → ∃ action ∈ tr, action.Fills ((offset.toNat + i) / 1024)) :
    (st.control.readSparseData offset len).2.1 = len ∧ ∀ (i : ℕ) (v : UInt8), i < len →
      st.written (offset.toNat + i) = some v → (st.control.readSparseData offset len).2.2[i]? = some v := by
  have h := kept_run hrun
  obtain ⟨k, hk, -, -, hres, hdata, -, hend⟩ := readSparseData_accepted h.idle hacc
  have hlen : (k : ℤ) = len := by
    by_contra hne
    exact hend (by omega) (h.full _ (hfills k (by omega))).has
  refine ⟨hres.trans hlen, fun i v hi hv => ?_⟩
  rw [hdata, List.getElem?_map, List.getElem?_range (by omega)]
  exact congrArg some (h.byteAt _ v hv)

/-- The block between two parts of blocks is read. -/
theorem readSparseData_filled_block : ((SparseState.next ⟨createSparseEntry 7 3, fun _ => none⟩
      (.writeSparseData 1000 (List.replicate 2000 4))).control.readSparseData 1030 9).2.1 = 9 := by
  have hrun : (sparseSystem 7 3).Run [.writeSparseData 1000 (List.replicate 2000 4)]
      (SparseState.next ⟨createSparseEntry 7 3, fun _ => none⟩ (.writeSparseData 1000 (List.replicate 2000 4))) :=
    .step (.init rfl) ⟨⟨by decide, by rw [List.length_replicate]; decide⟩, rfl⟩
  refine (readSparseData_filled hrun (by decide) fun i hi => ⟨_, List.mem_singleton_self _, ?_⟩).1
  simp only [SparseAction.Fills, Accepted, List.length_replicate]
  omega

/-- **`GetAvailableRange` and `ReadSparseData` agree**: what is found is read in full, and where
nothing is found nothing is read. -/
theorem getAvailableRange_spec (hrun : (sparseSystem signature parentKeyLen).Run tr st)
    (htyped : IsInt64 offset ∧ IsInt len) (hoffset : 0 ≤ offset) (hlen : 0 < len) :
    (0 < (st.control.getAvailableRange offset len).2.1 → offset ≤ (st.control.getAvailableRange offset len).2.2 ∧
      (st.control.getAvailableRange offset len).2.2 + (st.control.getAvailableRange offset len).2.1 ≤ offset + len ∧
      ((st.control.getAvailableRange offset len).1.readSparseData
        (st.control.getAvailableRange offset len).2.2
        (st.control.getAvailableRange offset len).2.1).2.1 = (st.control.getAvailableRange offset len).2.1) ∧
    ((st.control.getAvailableRange offset len).2.1 = 0 →
      ∀ len', 0 ≤ len' → offset + len' < 0x1000000000 →
        ((st.control.getAvailableRange offset len).1.readSparseData offset len').2.1 = 0) := by
  have hidle := idle_run hrun
  by_cases hacc : Accepted offset len
  · obtain ⟨hidle', hentry, hcase⟩ := getAvailableRange_accepted hidle hacc
    rcases hcase with ⟨hnone, hnot⟩ | ⟨e, n, hpos, hle, hfound, hhas⟩
    · rw [hnone]
      refine ⟨fun hlt => absurd hlt (by simp), fun _ len' h1 h2 => ?_⟩
      obtain ⟨k, -, -, -, hres, -, hhas, -⟩ := readSparseData_accepted hidle' ⟨hoffset, h1, h2⟩
      rw [hres]
      by_contra hk
      have := hhas 0 (by omega)
      rw [hentry] at this
      exact hnot hlen this
    · rw [hfound]
      dsimp only
      obtain ⟨h1, h2, h3⟩ := hacc
      refine ⟨fun _ => ⟨by omega, by omega, ?_⟩, fun hzero => by omega⟩
      have hacc' : Accepted (offset + e) n := ⟨by omega, by omega, by omega⟩
      obtain ⟨k, hk, -, -, hres, -, -, hend⟩ := readSparseData_accepted hidle' hacc'
      rw [hres]
      by_contra hne
      refine hend (by omega) ?_
      rw [hentry, show (offset + (e : ℤ)).toNat + k = offset.toNat + (e + k) by omega]
      exact hhas (e + k) (by omega) (by omega)
  · obtain ⟨-, -, hneg⟩ := getAvailableRange_refused hidle htyped.1 htyped.2 hacc
    exact ⟨fun hlt => by omega, fun hzero => by omega⟩

/-- The rest of a block that is partially there is found, and read. -/
theorem getAvailableRange_spec_block : ((SparseState.next ⟨createSparseEntry 7 3, fun _ => none⟩
        (.writeSparseData 2048 (List.replicate 100 4))).control.getAvailableRange 2060
          99).1.readSparseData 2060 88 |>.2.1 = 88 := by
  have hrun : (sparseSystem 7 3).Run [.writeSparseData 2048 (List.replicate 100 4)]
      (SparseState.next ⟨createSparseEntry 7 3, fun _ => none⟩
        (.writeSparseData 2048 (List.replicate 100 4))) :=
    .step (.init rfl) ⟨⟨by decide, by decide⟩, rfl⟩
  have hfound : ((SparseState.next ⟨createSparseEntry 7 3, fun _ => none⟩
      (.writeSparseData 2048 (List.replicate 100 4))).control.getAvailableRange 2060 99).2 =
        (88, 2060) := by
    decide +kernel
  have htyped : IsInt64 2060 ∧ IsInt 99 := by decide
  have h := ((getAvailableRange_spec hrun htyped (by decide) (by decide)).1
    (by rw [hfound]; decide)).2.2
  rwa [hfound] at h

end Chromium.Net.DiskCache
