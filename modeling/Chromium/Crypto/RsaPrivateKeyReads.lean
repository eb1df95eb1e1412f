import Chromium.Crypto.RsaPrivateKeyImport

/-!
# What an import reads

A length is compared as an `int` with what is left, so one from 2³¹ on passes, and is then used as a `uint32`.  A
component longer than its expected size makes the padding negative.  `Part.Bad` is the states before which a part runs
into one of the two, and an import stays inside its input, with bounded work, exactly where it reaches none of them
(`importsWithin_iff`).
-/

namespace Chromium.Crypto

open Lib
open Option (bind_eq_some_iff bind_some some_ne_none)

variable {data rest : List UInt8} {n : ℕ} {part : Part} {s s' : ImportState} {ok : Bool}

variable {c : PrivateKeyInfoCodec}

/-! ## The states that are read wrong -/

def Overlong (data : List UInt8) : Prop :=
  ∃ length rest, readTypeHeaderAndLength kIntegerTag data = some (length, rest) ∧ rest.length < length

/-- The padding in front of `length` bytes is negative, or the first byte of nothing is looked at. -/
def NegativePadding (out : List UInt8) (expectedSize length : ℕ) : Prop :=
  if out.length = (expectedSize + 1) % 18446744073709551616 then
    out = [] ∨ out.headD 0 = 0 ∧ toInt32 (expectedSize - length) + 1 < 0
  else out.length ≤ expectedSize ∧ toInt32 (expectedSize - length) < 0

def Part.Bad (s : ImportState) : Part → Prop
  | version => ∃ length rest, readTypeHeaderAndLength kIntegerTag s.data = some (length, rest) ∧
      rest.length < length ∧ ∀ b ∈ rest, b = 0
  | integer _ => Overlong s.data
  | integerWithExpectedSize name expectedSize => Overlong s.data ∨
      ∃ temp rest, readIntegerImpl s.data [] true = some (some (temp, rest)) ∧
        NegativePadding (s.codec.integers name) expectedSize temp.length
  | header _ | algorithmIdentifier | atEnd => False

theorem readZeros_eq_none_iff : readZeros n data = none ↔ data.length < n ∧ ∀ b ∈ data, b = 0 := by
  induction n generalizing data with
  | zero => exact iff_of_false (some_ne_none _) fun h => Nat.not_lt_zero _ h.1
  | succ n ih =>
    cases data with
    | nil => exact iff_of_true rfl ⟨Nat.succ_pos n, fun b hb => nomatch hb⟩
    | cons b data =>
      rw [readZeros, List.length_cons, Nat.add_lt_add_iff_right, List.forall_mem_cons]
      by_cases hb : b = 0
      · rw [if_pos hb, ih]
        exact ⟨fun h => ⟨h.1, hb, h.2⟩, fun h => ⟨h.1, h.2.2⟩⟩
      · rw [if_neg hb]
        exact iff_of_false (some_ne_none _) fun h => hb h.2.1

theorem readIntegerImpl_eq_none_iff (out : List UInt8) (bigEndian : Bool) :
    readIntegerImpl data out bigEndian = none ↔ Overlong data := by
  unfold readIntegerImpl Overlong
  cases hheader : readTypeHeaderAndLength kIntegerTag data with
  | none => exact iff_of_false (some_ne_none _) fun ⟨_, _, h, _⟩ => some_ne_none _ h.symm
  | some header =>
    obtain ⟨length, rest⟩ := header
    have hover : (∃ length' rest', some (length, rest) = some (length', rest') ∧ rest'.length < length') ↔
        rest.length < length := by
      constructor
      · rintro ⟨length', rest', heq, hlt⟩
        cases heq
        exact hlt
      · intro hlt
        exact ⟨length, rest, rfl, hlt⟩
    rw [hover]
    dsimp only
    by_cases hzero : length = 0
    · rw [if_pos hzero]
      exact iff_of_false (some_ne_none _) (by omega)
    · rw [if_neg hzero]
      cases rest with
      | nil => exact iff_of_true rfl (Nat.pos_of_ne_zero hzero)
      | cons b tail =>
        by_cases hb : b = 0
        · simp only [if_pos hb, List.length_cons]
          by_cases hlt : tail.length < length - 1
          · rw [if_pos hlt]
            exact iff_of_true rfl (by omega)
          · rw [if_neg hlt]
            exact iff_of_false (some_ne_none _) (by omega)
        · simp only [if_neg hb, List.length_cons]
          by_cases hlt : tail.length + 1 < length
          · rw [if_pos hlt]
            exact iff_of_true rfl hlt
          · rw [if_neg hlt]
            exact iff_of_false (some_ne_none _) hlt

theorem fill_eq_none_iff (s : ImportState) (name : Component) (pad : ℤ) (temp data : List UInt8) :
    fill s name pad temp data = none ↔ pad < 0 := by
  unfold fill
  by_cases hpad : pad < 0
  · rw [if_pos hpad]
    exact iff_of_true rfl hpad
  · rw [if_neg hpad]
    exact iff_of_false (some_ne_none _) hpad

theorem readIntegerWithExpectedSize_eq_none_iff (name : Component) (expectedSize : ℕ) :
    readIntegerWithExpectedSize name expectedSize s = none ↔ (Part.integerWithExpectedSize name expectedSize).Bad s := by
  rw [readIntegerWithExpectedSize, Part.Bad, ← readIntegerImpl_eq_none_iff [] true]
  cases hread : readIntegerImpl s.data [] true with
  | none => exact iff_of_true rfl (.inl rfl)
  | some read =>
    rw [bind_some]
    cases read with
    | none =>
      refine iff_of_false (some_ne_none _) ?_
      rintro (h | ⟨temp, rest, h, -⟩)
      · exact some_ne_none _ h
      · exact some_ne_none _ (Option.some.inj h).symm
    | some read =>
      obtain ⟨temp, rest⟩ := read
      have hbad : (some (some (temp, rest)) = none ∨ ∃ temp' rest', some (some (temp, rest)) = some (some (temp', rest')) ∧
          NegativePadding (s.codec.integers name) expectedSize temp'.length) ↔
          NegativePadding (s.codec.integers name) expectedSize temp.length := by
        constructor
        · rintro (h | ⟨temp', rest', heq, hneg⟩)
          · cases h
          · cases heq
            exact hneg
        · intro hneg
          exact .inr ⟨temp, rest, rfl, hneg⟩
      rw [hbad, NegativePadding]
      dsimp only
      by_cases hone : (s.codec.integers name).length = (expectedSize + 1) % 18446744073709551616
      · rw [if_pos hone, if_pos hone]
        by_cases hnil : s.codec.integers name = []
        · rw [if_pos hnil]
          exact iff_of_true rfl (.inl hnil)
        · rw [if_neg hnil]
          by_cases hfront : (s.codec.integers name).headD 0 = 0
          · rw [if_pos hfront, fill_eq_none_iff]
            exact ⟨fun h => .inr ⟨hfront, h⟩, fun h => (h.resolve_left hnil).2⟩
          · rw [if_neg hfront]
            exact iff_of_false (some_ne_none _) fun h => hfront (h.resolve_left hnil).1
      · rw [if_neg hone, if_neg hone]
        by_cases hroom : (s.codec.integers name).length ≤ expectedSize
        · rw [if_pos hroom, fill_eq_none_iff]
          exact ⟨fun h => ⟨hroom, h⟩, fun h => h.2⟩
        · rw [if_neg hroom]
          exact iff_of_false (some_ne_none _) fun h => hroom h.1

theorem readVersion_eq_none_iff : readVersion s = none ↔ Part.version.Bad s := by
  rw [readVersion, Part.Bad]
  cases hheader : readTypeHeaderAndLength kIntegerTag s.data with
  | none =>
    refine iff_of_false (some_ne_none _) ?_
    rintro ⟨_, _, h, _⟩
    exact some_ne_none _ h.symm
  | some header =>
    obtain ⟨length, rest⟩ := header
    dsimp only
    rw [Option.map_eq_none_iff, readZeros_eq_none_iff]
    constructor
    · rintro ⟨hlt, hzeros⟩
      exact ⟨length, rest, rfl, hlt, hzeros⟩
    · rintro ⟨length', rest', heq, hlt, hzeros⟩
      cases heq
      exact ⟨hlt, hzeros⟩

theorem readHeaderOnly_ne_none (tag : UInt8) : readHeaderOnly tag s ≠ none := by
  unfold readHeaderOnly
  cases readTypeHeaderAndLength tag s.data <;> exact some_ne_none _

theorem readAlgorithmIdentifier_ne_none : readAlgorithmIdentifier s ≠ none := by
  unfold readAlgorithmIdentifier
  split <;> exact some_ne_none _

/-- **A part reads inside the input exactly outside of those states.** -/
theorem Part.read_eq_none_iff : part.read s = none ↔ part.Bad s := by
  cases part with
  | header tag => exact iff_of_false (readHeaderOnly_ne_none tag) id
  | version => exact readVersion_eq_none_iff
  | algorithmIdentifier => exact iff_of_false readAlgorithmIdentifier_ne_none id
  | integer name => exact Option.map_eq_none_iff.trans (readIntegerImpl_eq_none_iff _ _)
  | integerWithExpectedSize name expectedSize => exact readIntegerWithExpectedSize_eq_none_iff name expectedSize
  | atEnd => exact iff_of_false (some_ne_none _) id

/-! ## The states that are reached -/

def Reaches (parts : List Part) (s : ImportState) (part : Part) (s' : ImportState) : Prop :=
  ∃ before after, parts = before ++ part :: after ∧ readAll before s = some (true, s')

theorem readAll_eq_none_iff {parts : List Part} :
    readAll parts s = none ↔ ∃ part s', Reaches parts s part s' ∧ part.Bad s' := by
  induction parts generalizing s with
  | nil =>
    refine iff_of_false (some_ne_none _) ?_
    rintro ⟨part, s', ⟨before, after, heq, -⟩, -⟩
    exact List.append_ne_nil_of_right_ne_nil _ (List.cons_ne_nil _ _) heq.symm
  | cons first parts ih =>
    rw [readAll]
    cases hfirst : first.read s with
    | none => exact iff_of_true rfl ⟨first, s, ⟨[], parts, rfl, rfl⟩, Part.read_eq_none_iff.1 hfirst⟩
    | some read =>
      obtain ⟨ok, s₁⟩ := read
      have hgood : ¬first.Bad s := fun h => absurd (hfirst.symm.trans (Part.read_eq_none_iff.2 h)) (some_ne_none _)
      rw [bind_some]
      cases ok with
      | false =>
        refine iff_of_false (some_ne_none _) ?_
        rintro ⟨part, s', ⟨before, after, heq, hbefore⟩, hbad⟩
        cases before with
        | nil =>
          cases heq
          cases hbefore
          exact absurd hbad hgood
        | cons part' before =>
          cases heq
          rw [readAll, hfirst] at hbefore
          exact absurd hbefore (by simp)
      | true =>
        rw [if_pos rfl, ih]
        constructor
        · rintro ⟨part, s', ⟨before, after, heq, hbefore⟩, hbad⟩
          exact ⟨part, s', ⟨first :: before, after, by rw [heq]; rfl, by rw [readAll_cons hfirst, hbefore]⟩, hbad⟩
        · rintro ⟨part, s', ⟨before, after, heq, hbefore⟩, hbad⟩
          cases before with
          | nil =>
            cases heq
            cases hbefore
            exact absurd hbad hgood
          | cons part' before =>
            cases heq
            rw [readAll_cons hfirst] at hbefore
            exact ⟨part, s', ⟨before, after, rfl, hbefore⟩, hbad⟩

/-- **The parts that an import reaches**, and the state before each. -/
inductive ImportReaches (c : PrivateKeyInfoCodec) (input : List UInt8) (part : Part) (s : ImportState) : Prop
  | upToModulus (hinput : input ≠ []) (h : Reaches modulusParts (.new c input) part s)
  | behindModulus {s₁ : ImportState} (hinput : input ≠ []) (hmodulus : readAll modulusParts (.new c input) = some (true, s₁))
      (heven : (modSize s₁.codec).tmod 2 = 0) (h : Reaches (componentParts (modSize s₁.codec)) s₁ part s)

theorem importKey_eq_none_iff (c : PrivateKeyInfoCodec) (input : List UInt8) :
    importKey c input = none ↔ ∃ part s, ImportReaches c input part s ∧ part.Bad s := by
  unfold importKey
  by_cases hinput : input = []
  · rw [if_pos hinput]
    refine iff_of_false (some_ne_none _) ?_
    rintro ⟨part, s, h | h, hbad⟩
    · exact absurd hinput ‹_›
    · exact absurd hinput ‹_›
  · rw [if_neg hinput]
    cases hmodulus : readAll modulusParts (.new c input) with
    | none =>
      obtain ⟨part, s, hreach, hbad⟩ := readAll_eq_none_iff.1 hmodulus
      exact iff_of_true rfl ⟨part, s, .upToModulus hinput hreach, hbad⟩
    | some read =>
      obtain ⟨ok, s₁⟩ := read
      have hgood : ∀ part s, Reaches modulusParts (.new c input) part s → ¬part.Bad s := fun part s hreach hbad =>
        nomatch hmodulus.symm.trans (readAll_eq_none_iff.2 ⟨part, s, hreach, hbad⟩)
      rw [bind_some]
      by_cases hok : ok = true ∧ (modSize s₁.codec).tmod 2 = 0
      · obtain ⟨rfl, heven⟩ := hok
        rw [if_pos rfl, if_neg (not_not.2 heven), readAll_eq_none_iff]
        constructor
        · rintro ⟨part, s, hreach, hbad⟩
          exact ⟨part, s, .behindModulus hinput hmodulus heven hreach, hbad⟩
        · rintro ⟨part, s, ⟨-, hreach⟩ | ⟨-, hmodulus', -, hreach⟩, hbad⟩
          · exact absurd hbad (hgood part s hreach)
          · rw [hmodulus] at hmodulus'
            cases hmodulus'
            exact ⟨part, s, hreach, hbad⟩
      · constructor
        · intro h
          cases ok with
          | false => cases h
          | true =>
            rw [if_pos rfl, if_pos (fun heven => hok ⟨rfl, heven⟩)] at h
            cases h
        · rintro ⟨part, s, ⟨-, hreach⟩ | ⟨-, hmodulus', heven, -⟩, hbad⟩
          · exact absurd hbad (hgood part s hreach)
          · rw [hmodulus] at hmodulus'
            cases hmodulus'
            exact absurd ⟨rfl, heven⟩ hok

/-! ## Work -/

theorem length_lt_of_readLength (h : readLength data = some (n, rest)) : rest.length < data.length := by
  cases data with
  | nil => cases h
  | cons b data =>
    rw [readLength] at h
    dsimp only at h
    split at h
    · split at h
      · cases h
        exact Nat.lt_succ_self _
      · cases h
    · split at h
      · split at h
        · cases h
          rw [List.length_drop, List.length_cons]
          omega
        · cases h
      · cases h

theorem length_lt_of_readTypeHeaderAndLength {tag : UInt8} (h : readTypeHeaderAndLength tag data = some (n, rest)) :
    rest.length < data.length := by
  cases data with
  | nil => cases h
  | cons b data =>
    rw [readTypeHeaderAndLength] at h
    split at h
    · exact Nat.lt_succ_of_lt (length_lt_of_readLength h)
    · cases h

theorem length_le_of_readZeros (h : readZeros n data = some (ok, rest)) : rest.length ≤ data.length := by
  induction n generalizing data with
  | zero =>
    cases h
    exact le_rfl
  | succ n ih =>
    cases data with
    | nil => cases h
    | cons b data =>
      rw [readZeros] at h
      split at h
      · exact Nat.le_succ_of_le (ih h)
      · cases h
        exact le_rfl

theorem length_of_readIntegerImpl {out out' : List UInt8} {bigEndian : Bool}
    (h : readIntegerImpl data out bigEndian = some (some (out', rest))) :
    out.length ≤ out'.length ∧ out'.length + rest.length ≤ out.length + data.length := by
  unfold readIntegerImpl at h
  cases hheader : readTypeHeaderAndLength kIntegerTag data with
  | none =>
    rw [hheader] at h
    exact absurd (Option.some.inj h).symm (some_ne_none _)
  | some header =>
    obtain ⟨length, content⟩ := header
    have hlt := length_lt_of_readTypeHeaderAndLength hheader
    have htaken : ∀ (m : ℕ) (bytes : List UInt8), bytes.length ≤ content.length →
        (if bytes.length < m then none else some (some
          (if bigEndian then out ++ bytes.take m else (out ++ bytes.take m).reverse, bytes.drop m))) =
        some (some (out', rest)) →
          out.length ≤ out'.length ∧ out'.length + rest.length ≤ out.length + data.length := by
      intro m bytes hle heq
      obtain ⟨-, heq⟩ := Option.ite_none_left_eq_some.1 heq
      have hpair := Option.some.inj (Option.some.inj heq)
      have hout := congrArg (fun pair : List UInt8 × List UInt8 => pair.1.length) hpair
      have hrest := congrArg (fun pair : List UInt8 × List UInt8 => pair.2.length) hpair
      dsimp only at hout hrest
      rw [apply_ite List.length, List.length_reverse, ite_self, List.length_append, List.length_take] at hout
      rw [List.length_drop] at hrest
      exact ⟨by omega, by omega⟩
    rw [hheader] at h
    dsimp only at h
    split at h
    · exact absurd (Option.some.inj h).symm (some_ne_none _)
    · cases content with
      | nil => cases h
      | cons b tail =>
        dsimp only at h
        by_cases hb : b = 0
        · rw [if_pos hb] at h
          exact htaken _ tail (Nat.le_succ _) h
        · rw [if_neg hb] at h
          exact htaken _ (b :: tail) le_rfl h

def Part.name? : Part → Option Component
  | integer name | integerWithExpectedSize name _ => some name
  | header _ | version | algorithmIdentifier | atEnd => none

def Part.cost (stored : ℕ) : Part → ℕ
  | integer _ => stored
  | integerWithExpectedSize _ expectedSize => 3 * expectedSize + 3
  | header _ | version | algorithmIdentifier | atEnd => 0

/-- **What a part does**: work for the bytes it takes, and one integer. -/
structure DoesPart (part : Part) (stored : ℕ) (s s' : ImportState) : Prop where
  work : s'.work + 5 * s'.data.length ≤ s.work + 5 * s.data.length + part.cost stored
  keeps : ∀ name, part.name? ≠ some name → s'.codec.integers name = s.codec.integers name

theorem DoesPart.refl (part : Part) (stored : ℕ) (s : ImportState) : DoesPart part stored s s :=
  ⟨Nat.le_add_right _ _, fun _ _ => rfl⟩

theorem integers_set {name other : Component} (value : List UInt8) (h : some name ≠ some other) :
    (c.set name value).integers other = c.integers other :=
  Function.update_of_ne (fun heq => h (congrArg some heq.symm)) _ _

theorem doesPart_fill {name : Component} {pad : ℤ} {temp : List UInt8} {expectedSize : ℕ} (stored : ℕ)
    (hread : readIntegerImpl s.data [] true = some (some (temp, rest)))
    (hstored : (s.codec.integers name).length ≤ expectedSize + 1)
    (hpad : pad ≤ toInt32 (expectedSize - temp.length) + 1) (h : fill s name pad temp rest = some (ok, s')) :
    DoesPart (.integerWithExpectedSize name expectedSize) stored s s' := by
  have hlen := length_of_readIntegerImpl hread
  have hint : toInt32 ((expectedSize : ℤ) - temp.length) ≤ expectedSize + temp.length := by
    unfold toInt32
    omega
  rw [List.length_nil] at hlen
  unfold fill at h
  obtain ⟨-, h⟩ := Option.ite_none_left_eq_some.1 h
  cases h
  refine ⟨?_, fun other hother => integers_set _ hother⟩
  dsimp only
  rw [Part.cost, List.length_append, List.length_append, List.length_replicate, headerWork]
  omega

theorem Part.doesPart {stored : ℕ} (hstored : ∀ name, part.name? = some name → (s.codec.integers name).length ≤ stored)
    (h : part.read s = some (ok, s')) : DoesPart part stored s s' := by
  have hrefl := DoesPart.refl part stored s
  cases part with
  | header tag =>
    change readHeaderOnly tag s = _ at h
    unfold readHeaderOnly at h
    split at h
    · cases h
      exact hrefl
    · next n data hheader =>
      cases h
      have hlt := length_lt_of_readTypeHeaderAndLength hheader
      refine ⟨?_, fun _ _ => rfl⟩
      dsimp only
      rw [headerWork]
      omega
  | version =>
    change readVersion s = _ at h
    unfold readVersion at h
    split at h
    · cases h
      exact hrefl
    · next n data hheader =>
      obtain ⟨read, hzeros, heq⟩ := Option.map_eq_some_iff.1 h
      have hlt := length_lt_of_readTypeHeaderAndLength hheader
      have hle := length_le_of_readZeros (show readZeros n data = some (read.1, read.2) from hzeros)
      cases heq
      refine ⟨?_, fun _ _ => rfl⟩
      dsimp only
      rw [headerWork]
      omega
  | algorithmIdentifier =>
    change readAlgorithmIdentifier s = _ at h
    unfold readAlgorithmIdentifier at h
    split at h
    · next hmatch =>
      cases h
      refine ⟨?_, fun _ _ => rfl⟩
      dsimp only
      rw [List.length_drop]
      omega
    · cases h
      exact hrefl
  | integer name =>
    change readInteger name s = _ at h
    unfold readInteger at h
    obtain ⟨read, hread, heq⟩ := Option.map_eq_some_iff.1 h
    cases read with
    | none =>
      cases heq
      exact hrefl
    | some read =>
      have hlen := length_of_readIntegerImpl (show _ = some (some (read.1, read.2)) from hread)
      have hold := hstored name rfl
      cases heq
      refine ⟨?_, fun other hother => integers_set _ hother⟩
      dsimp only
      rw [Part.cost, headerWork]
      omega
  | integerWithExpectedSize name expectedSize =>
    change readIntegerWithExpectedSize name expectedSize s = _ at h
    unfold readIntegerWithExpectedSize at h
    obtain ⟨read, hread, heq⟩ := bind_eq_some_iff.1 h
    cases read with
    | none =>
      cases heq
      exact hrefl
    | some read =>
      dsimp only at heq
      split at heq
      · next hone =>
        obtain ⟨-, heq⟩ := Option.ite_none_left_eq_some.1 heq
        split at heq
        · refine doesPart_fill stored hread ?_ le_rfl heq
          rw [hone]
          exact Nat.mod_le _ _
        · cases heq
          exact hrefl
      · split at heq
        · next hroom => exact doesPart_fill stored hread (Nat.le_succ_of_le hroom) (by omega) heq
        · cases heq
          exact hrefl
  | atEnd =>
    cases h
    exact hrefl

theorem readAll_does (parts : List Part) (stored : ℕ) (hnodup : (parts.filterMap Part.name?).Nodup)
    (hstored : ∀ name ∈ parts.filterMap Part.name?, (s.codec.integers name).length ≤ stored)
    (h : readAll parts s = some (ok, s')) :
    s'.work + 5 * s'.data.length ≤ s.work + 5 * s.data.length + (parts.map (Part.cost stored)).sum ∧
      ∀ name, name ∉ parts.filterMap Part.name? → s'.codec.integers name = s.codec.integers name := by
  induction parts generalizing s with
  | nil =>
    cases h
    exact ⟨Nat.le_refl _, fun _ _ => rfl⟩
  | cons part parts ih =>
    rw [readAll] at h
    obtain ⟨⟨ok₁, s₁⟩, hread, hrest⟩ := bind_eq_some_iff.1 h
    have hsplit : (part :: parts).filterMap Part.name? = part.name?.toList ++ parts.filterMap Part.name? := by
      rw [List.filterMap_cons]
      cases part.name? <;> rfl
    rw [hsplit] at hnodup hstored ⊢
    have hmem : ∀ name, part.name? = some name → name ∈ part.name?.toList := fun name hname => by
      rw [hname]
      exact List.mem_singleton_self name
    have hdoes := Part.doesPart
      (fun name hname => hstored name (List.mem_append_left _ (hmem name hname))) hread
    have hwork := hdoes.work
    rw [List.map_cons, List.sum_cons]
    dsimp only at hrest
    cases ok₁ with
    | false =>
      cases hrest
      refine ⟨by omega, fun name hname => hdoes.keeps name fun heq => hname (List.mem_append_left _ (hmem name heq))⟩
    | true =>
      have hkeeps : ∀ name ∈ parts.filterMap Part.name?, s₁.codec.integers name = s.codec.integers name :=
        fun name hname => hdoes.keeps name fun heq =>
          List.disjoint_of_nodup_append hnodup (hmem name heq) hname
      obtain ⟨hwork', hkeeps'⟩ := ih (List.Nodup.of_append_right hnodup)
        (fun name hname => by rw [hkeeps name hname]; exact hstored name (List.mem_append_right _ hname)) hrest
      refine ⟨by omega, fun name hname => ?_⟩
      rw [hkeeps' name fun hin => hname (List.mem_append_right _ hin)]
      exact hdoes.keeps name fun heq => hname (List.mem_append_left _ (hmem name heq))

def expectedSizes (modSize : ℤ) : ℕ := 4 + sizeOfInt modSize + 5 * sizeOfInt (modSize.tdiv 2)

/-- **An import reads inside its input**, and its work is bounded by the input and the expected sizes. -/
def ImportsWithin (c : PrivateKeyInfoCodec) (input : List UInt8) : Prop :=
  ∃ ok s, importKey c input = some (ok, s) ∧
    s.work ≤ 5 * input.length + (c.integers .modulus).length + 3 * expectedSizes (modSize s.codec) + 21

theorem work_of_importKey {input : List UInt8} (h : importKey c input = some (ok, s)) :
    s.work ≤ 5 * input.length + (c.integers .modulus).length + 3 * expectedSizes (modSize s.codec) + 21 := by
  unfold importKey at h
  split at h
  · cases h
    exact Nat.zero_le _
  · obtain ⟨⟨ok₁, s₁⟩, hmodulus, hrest⟩ := bind_eq_some_iff.1 h
    have hdoes := readAll_does modulusParts (c.integers .modulus).length (by decide)
      (fun name hname => by
        rw [List.mem_singleton.1 (show name ∈ [Component.modulus] from hname)]
        exact le_rfl) hmodulus
    have hfirst : s₁.work + 5 * s₁.data.length ≤ 5 * input.length + (c.integers .modulus).length := by
      have hcost : (modulusParts.map (Part.cost (c.integers .modulus).length)).sum = (c.integers .modulus).length := by
        simp [modulusParts, Part.cost]
      have hwork := hdoes.1
      rw [hcost] at hwork
      exact (Nat.zero_add (5 * input.length)) ▸ hwork
    dsimp only at hrest
    split at hrest
    · split at hrest
      · cases hrest
        omega
      · have hdoes' := readAll_does (componentParts (modSize s₁.codec)) ((s₁.codec.integers .publicExponent).length +
            (s₁.codec.integers .privateExponent).length + (s₁.codec.integers .prime1).length +
            (s₁.codec.integers .prime2).length + (s₁.codec.integers .exponent1).length +
            (s₁.codec.integers .exponent2).length + (s₁.codec.integers .coefficient).length)
          (show (components.tail).Nodup by decide)
          (fun name hname => by
            have hmem : name ∈ components.tail := hname
            cases name <;> first | exact absurd hmem (by decide) | omega) hrest
        have hsize : modSize s.codec = modSize s₁.codec := by
          rw [modSize, modSize, hdoes'.2 .modulus (show Component.modulus ∉ components.tail by decide)]
        have hcost : ∀ stored, ((componentParts (modSize s₁.codec)).map (Part.cost stored)).sum =
            3 * expectedSizes (modSize s₁.codec) + 21 := by
          intro stored
          simp only [componentParts, List.map_cons, List.map_nil, List.sum_cons, List.sum_nil, Part.cost, expectedSizes]
          omega
        have hwork := hdoes'.1
        rw [hcost] at hwork
        rw [hsize]
        omega
    · cases hrest
      omega

/-- **An import stays inside its input exactly where no part it reaches is in a bad state.** -/
theorem importsWithin_iff (c : PrivateKeyInfoCodec) (input : List UInt8) :
    ImportsWithin c input ↔ ∀ part s, ImportReaches c input part s → ¬part.Bad s := by
  constructor
  · rintro ⟨ok, s, h, -⟩ part s' hreach hbad
    exact nomatch h.symm.trans ((importKey_eq_none_iff c input).2 ⟨part, s', hreach, hbad⟩)
  · intro hgood
    cases h : importKey c input with
    | none =>
      obtain ⟨part, s, hreach, hbad⟩ := (importKey_eq_none_iff c input).1 h
      exact absurd hbad (hgood part s hreach)
    | some read => exact ⟨read.1, read.2, h, work_of_importKey h⟩

/-! ## The codec -/

/-- An export writes `PrivateKeyInfo` with each integer, version and component, in DER. -/
def ExportsMinimal (c : PrivateKeyInfoCodec) : Prop :=
  c.exportKey = PrivateKeyInfoCodec.prependTypeHeaderAndLength kSequenceTag (privateKeyInfoContent c).length
      (privateKeyInfoContent c) ∧
    IsDerInteger 0 versionElement ∧
    ∀ name, IsDerInteger (beNat (highestFirst c.bigEndian (c.integers name)))
      (integerElement c.bigEndian (c.integers name))

theorem isDerInteger_versionElement : IsDerInteger 0 versionElement :=
  ⟨[0], derLength 1, rfl, isDerLength_derLength (by decide), show (0 : UInt8) < 128 by decide, rfl⟩

theorem KeySizes.exportsMinimal_iff {k : ℕ} (h : KeySizes k c) :
    ExportsMinimal c ↔ ∀ name, FewZeros (highestFirst c.bigEndian (c.integers name)) := by
  have hinteger : ∀ name, IsDerInteger (beNat (highestFirst c.bigEndian (c.integers name)))
      (integerElement c.bigEndian (c.integers name)) ↔ FewZeros (highestFirst c.bigEndian (c.integers name)) := by
    intro name
    have hlen := h.length_lt name
    rw [← isDerInteger_iff c.bigEndian (h.ne_nil name) (by omega),
      prependIntegerImpl_eq c.bigEndian (h.ne_nil name) (by omega), List.append_nil]
    rfl
  constructor
  · rintro ⟨-, -, hminimal⟩ name
    exact (hinteger name).1 (hminimal name)
  · intro hfew
    exact ⟨h.exportKey_eq, isDerInteger_versionElement, fun name => (hinteger name).2 (hfew name)⟩

/-- **The codec.**  An exported key is imported byte for byte; its integers are minimal exactly where the zeros in front
of each are few; and an import of any bytes stays inside them exactly where it reaches no bad state. -/
theorem privateKeyInfoCodec_spec (k : ℕ) (c : PrivateKeyInfoCodec) (input : List UInt8) :
    (KeySizes k c → (∃ work, importKey (.new c.bigEndian) c.exportKey = some (true, ⟨[], work, c⟩)) ∧
        (ExportsMinimal c ↔ ∀ name, FewZeros (highestFirst c.bigEndian (c.integers name)))) ∧
      (ImportsWithin c input ↔ ∀ part s, ImportReaches c input part s → ¬part.Bad s) :=
  ⟨fun h => ⟨h.importKey_exportKey, h.exportsMinimal_iff⟩, importsWithin_iff c input⟩

def smallKey (bigEndian : Bool) (publicExponent : List UInt8) : PrivateKeyInfoCodec where
  bigEndian := bigEndian
  integers
    | .modulus => [0xC1, 0x85]
    | .publicExponent => publicExponent
    | .privateExponent => [0x41, 0x09]
    | .prime1 | .prime2 | .exponent1 | .exponent2 | .coefficient => [0x0B]

theorem keySizes_smallKey (bigEndian : Bool) (publicExponent : List UInt8) (h : publicExponent.length = 4) :
    KeySizes 1 (smallKey bigEndian publicExponent) := by
  refine ⟨by decide, fun name => ?_, ?_⟩
  · cases name <;> first | exact h | rfl
  · cases bigEndian with
    | false => exact show (0x85 : UInt8) ≠ 0 by decide
    | true => exact show (0xC1 : UInt8) ≠ 0 by decide

instance decidableFewZeros (val : List UInt8) : Decidable (FewZeros val) :=
  inferInstanceAs (Decidable (_ ∨ _ ∨ _))

/-- The exponent 65537 with the lowest byte first. -/
theorem privateKeyInfoCodec_smallKey :
    (∃ work, importKey (.new false) (smallKey false [1, 0, 1, 0]).exportKey =
      some (true, ⟨[], work, smallKey false [1, 0, 1, 0]⟩)) ∧ ExportsMinimal (smallKey false [1, 0, 1, 0]) := by
  have h := (privateKeyInfoCodec_spec 1 (smallKey false [1, 0, 1, 0]) []).1 (keySizes_smallKey false _ rfl)
  exact ⟨h.1, h.2.mpr fun name => by cases name <;> decide⟩

/-- **The exponent 3 is written with a zero in front, and a length of four bytes with the top bit makes the version run
over the end.** -/
theorem not_privateKeyInfoCodec :
    (¬∀ k c, KeySizes k c → ExportsMinimal c) ∧ ¬∀ c input, ImportsWithin c input := by
  constructor
  · intro h
    have hkey := keySizes_smallKey true [0, 0, 0, 3] rfl
    have hfew := hkey.exportsMinimal_iff.mp (h 1 _ hkey) .publicExponent
    exact absurd hfew (by decide)
  · intro h
    obtain ⟨s, hs⟩ : ∃ s : ImportState, s = ⟨[0x02, 0x84, 0x80, 0x00, 0x00, 0x00, 0x00], 2, .new true⟩ := ⟨_, rfl⟩
    have hread : readAll [.header kSequenceTag]
        (.new (.new true) [0x30, 0x00, 0x02, 0x84, 0x80, 0x00, 0x00, 0x00, 0x00]) = some (true, s) := by
      rw [hs]
      rfl
    have hreach : ImportReaches (.new true) [0x30, 0x00, 0x02, 0x84, 0x80, 0x00, 0x00, 0x00, 0x00] .version s :=
      .upToModulus (List.cons_ne_nil _ _) ⟨[.header kSequenceTag], _, rfl, hread⟩
    have hshort : ([0] : List UInt8).length < 2147483648 := show 1 < 2147483648 by omega
    refine (importsWithin_iff _ _).mp (h _ _) .version s hreach ⟨2147483648, [0], ?_, hshort, fun b hb => List.mem_singleton.mp hb⟩
    rw [hs]
    decide

end Chromium.Crypto
