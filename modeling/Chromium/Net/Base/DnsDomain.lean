import Chromium.Net.Base.DnsName

/-!
# Domains between two forms

`DNSDomainFromDot` leaves out the empty labels of a dotted string, and takes the others if they are short enough
(`dnsDomainFromDot_eq`).  `DNSDomainToString` gives them back with dots between them.
-/

namespace Chromium.Net.Dns

open Lib
open List (append_assoc length_append length_cons length_singleton mem_append mem_cons_self
  mem_singleton nil_append not_mem_nil)

def labelsOf (dotted : List UInt8) : List (List UInt8) := (dotted.splitOn dot).filter (· ≠ [])

/-- **The string with its empty labels removed.** -/
def withoutEmpty (dotted : List UInt8) : List UInt8 := joined (labelsOf dotted)

/-- What `DNSDomainFromDot` reads of the string: its length is an `unsigned`. -/
def readPart (dotted : List UInt8) : List UInt8 := dotted.take (dotted.length % 4294967296)

def encodeLabels (labels : List (List UInt8)) : List UInt8 :=
  labels.flatMap fun label => UInt8.ofNat label.length :: label

variable {label name chars : List UInt8} {labels : List (List UInt8)}

theorem encodeLabels_cons (label : List UInt8) (labels : List (List UInt8)) :
    encodeLabels (label :: labels) = UInt8.ofNat label.length :: (label ++ encodeLabels labels) := rfl

theorem encodeLabels_append (labels labels' : List (List UInt8)) :
    encodeLabels (labels ++ labels') = encodeLabels labels ++ encodeLabels labels' := List.flatMap_append

theorem labelsOf_of_notMem (h : dot ∉ label) : labelsOf label = if label = [] then [] else [label] := by
  rw [labelsOf, List.splitOn_eq_singleton h, List.filter_singleton]
  by_cases hnil : label = []
  · rw [if_pos hnil, hnil]
    rfl
  · rw [if_neg hnil, decide_eq_true hnil]
    rfl

theorem labelsOf_append_cons (h : dot ∉ label) :
    labelsOf (label ++ dot :: chars) = (if label = [] then [] else [label]) ++ labelsOf chars := by
  rw [labelsOf, List.splitOn_append_cons_self_of_not_mem h, List.filter_cons]
  by_cases hnil : label = []
  · rw [if_pos hnil, hnil]
    rfl
  · rw [if_neg hnil, decide_eq_true hnil]
    rfl

theorem exists_mem_labelsOf (chars : List UInt8) (h : dot ∉ label) (hne : label ≠ []) :
    ∃ l ∈ labelsOf (label ++ chars), label.length ≤ l.length := by
  obtain ⟨part, hpart, rfl | ⟨rest, rfl⟩⟩ := exists_part dot chars
  · have hnot : dot ∉ label ++ chars := by
      rw [mem_append]
      exact fun hmem => hmem.elim h hpart
    refine ⟨label ++ chars, ?_, by rw [length_append]; omega⟩
    rw [labelsOf_of_notMem hnot, if_neg (List.append_ne_nil_of_left_ne_nil hne _)]
    exact List.mem_singleton_self _
  · have hnot : dot ∉ label ++ part := by
      rw [mem_append]
      exact fun hmem => hmem.elim h hpart
    refine ⟨label ++ part, ?_, by rw [length_append]; omega⟩
    rw [← append_assoc, labelsOf_append_cons hnot, if_neg (List.append_ne_nil_of_left_ne_nil hne _)]
    exact mem_cons_self

theorem addLabel_eq (name label : List UInt8) : addLabel name label =
      if label = [] ∨ name.length + label.length + 1 ≤ maxName then some (name ++ encodeLabels (if label = [] then [] else [label]))
      else none := by
  rw [addLabel]
  by_cases hnil : label = []
  · rw [if_pos hnil, if_pos (.inl hnil), if_pos hnil]
    exact congrArg some (List.append_nil _).symm
  · rw [if_neg hnil, if_neg hnil]
    by_cases hlong : maxName < name.length + label.length + 1
    · rw [if_pos hlong, if_neg (by rintro (h | h) <;> [exact hnil h; omega])]
    · rw [if_neg hlong, if_pos (.inr (by omega))]
      rw [encodeLabels, List.flatMap_singleton]

/-- **The loop takes the labels that are left**, with the label so far as the start of the first one. -/
theorem fromDotLoop_eq (hlabel : dot ∉ label) (hle : label.length ≤ maxLabel) :
    fromDotLoop chars label name = if (∀ l ∈ labelsOf (label ++ chars), l.length ≤ maxLabel) ∧
          name.length + (encodeLabels (labelsOf (label ++ chars))).length + 1 ≤ maxName
      then some (name ++ encodeLabels (labelsOf (label ++ chars)) ++ [0]) else none := by
  induction chars generalizing label name with
  | nil =>
    rw [List.append_nil, labelsOf_of_notMem hlabel, fromDotLoop, addLabel_eq]
    by_cases hnil : label = []
    · rw [if_pos (.inl hnil), if_pos hnil, Option.bind_some]
      by_cases hlong : maxName < (name ++ encodeLabels []).length + 1
      · rw [if_pos hlong, if_neg]
        rintro ⟨-, hshort⟩
        rw [length_append] at hlong
        omega
      · rw [if_neg hlong, if_pos]
        rw [length_append] at hlong
        exact ⟨fun l hl => (nomatch hl), by omega⟩
    · have hlength : (encodeLabels [label]).length = label.length + 1 := by
        rw [encodeLabels, List.flatMap_singleton, length_cons]
      rw [if_neg hnil]
      by_cases hroom : name.length + label.length + 1 ≤ maxName
      · rw [if_pos (.inr hroom), Option.bind_some]
        by_cases hlong : maxName < (name ++ encodeLabels [label]).length + 1
        · rw [if_pos hlong, if_neg]
          rintro ⟨-, hshort⟩
          rw [length_append] at hlong
          omega
        · rw [if_neg hlong, if_pos]
          rw [length_append] at hlong
          refine ⟨fun l hl => ?_, by omega⟩
          rw [mem_singleton.1 hl]
          exact hle
      · rw [if_neg (by rintro (h | h) <;> [exact hnil h; exact hroom h]), Option.bind_none, if_neg]
        rintro ⟨-, hshort⟩
        omega
  | cons ch chars ih =>
    rw [fromDotLoop]
    by_cases hch : ch = dot
    · rw [if_pos hch, hch, labelsOf_append_cons hlabel, addLabel_eq]
      have hall : (∀ l ∈ (if label = [] then [] else [label]), l.length ≤ maxLabel) := by
        intro l hl
        by_cases hnil : label = []
        · rw [if_pos hnil] at hl
          cases hl
        · rw [if_neg hnil] at hl
          rw [mem_singleton.1 hl]
          exact hle
      by_cases hroom : label = [] ∨ name.length + label.length + 1 ≤ maxName
      · rw [if_pos hroom, Option.bind_some, ih not_mem_nil (Nat.zero_le _), nil_append, encodeLabels_append,
          length_append, length_append, append_assoc name, Nat.add_assoc name.length]
        refine if_congr ?_ rfl rfl
        rw [List.forall_mem_append]
        exact ⟨fun h => ⟨⟨hall, h.1⟩, h.2⟩, fun h => ⟨h.1.2, h.2⟩⟩
      · obtain ⟨hnil, hlong⟩ := not_or.1 hroom
        rw [if_neg hroom, Option.bind_none, if_neg]
        rintro ⟨-, hshort⟩
        rw [if_neg hnil, encodeLabels_append, length_append, encodeLabels, List.flatMap_singleton,
          length_cons] at hshort
        omega
    · have hsplit : label ++ ch :: chars = (label ++ [ch]) ++ chars := (List.append_cons _ _ _)
      have hnot : dot ∉ label ++ [ch] := by
        rw [mem_append, mem_singleton]
        exact fun hmem => hmem.elim hlabel (fun h => hch h.symm)
      rw [if_neg hch, hsplit]
      by_cases hfull : maxLabel ≤ label.length
      · rw [if_pos hfull, if_neg]
        rintro ⟨hall, -⟩
        obtain ⟨l, hl, hlong⟩ := exists_mem_labelsOf chars hnot
          (List.append_ne_nil_of_right_ne_nil _ (List.cons_ne_nil _ _))
        have hshort := hall l hl
        rw [length_append, length_singleton] at hlong
        omega
      · rw [if_neg hfull]
        exact ih hnot (by rw [length_append, length_singleton]; omega)

/-- **`DNSDomainFromDot` takes a string whose labels have a DNS form.** -/
theorem dnsDomainFromDot_eq (dotted : List UInt8) : dnsDomainFromDot dotted =
      if (∀ label ∈ labelsOf (readPart dotted), label.length ≤ maxLabel) ∧
          (encodeLabels (labelsOf (readPart dotted))).length + 1 ≤ maxName
      then some (encodeLabels (labelsOf (readPart dotted)) ++ [0]) else none := by
  rw [dnsDomainFromDot, ← readPart, fromDotLoop_eq not_mem_nil (Nat.zero_le _), nil_append, nil_append,
    List.length_nil, Nat.zero_add]

/-! ## Back to a string -/

theorem ne_nil_of_mem_labelsOf {dotted : List UInt8} : ∀ label ∈ labelsOf dotted, label ≠ [] := by
  intro label hlabel
  exact of_decide_eq_true (List.mem_filter.1 hlabel).2

/-- **The loop gives the labels that are left**, behind those that are done. -/
theorem toStringLoop_eq {domain ret : List UInt8} {fuel : ℕ} (done : List UInt8)
    (hdomain : domain = done ++ (encodeLabels labels ++ [0])) (hle : ∀ label ∈ labels, label.length ≤ maxLabel)
    (hne : ∀ label ∈ labels, label ≠ []) (hsize : domain.length ≤ maxName) (hfuel : labels.length < fuel)
    (hret : done = [] ↔ ret = []) :
    toStringLoop domain fuel done.length ret = some (appended ret labels) := by
  have hmax : maxLabel = 63 := rfl
  have hname : maxName = 255 := rfl
  induction labels generalizing done ret fuel with
  | nil =>
    obtain ⟨fuel, rfl⟩ := Nat.exists_eq_add_one_of_ne_zero (Nat.ne_zero_of_lt hfuel)
    have hget : domain[done.length]? = some 0 := by
      rw [hdomain, List.getElem?_append_right le_rfl, Nat.sub_self]
      rfl
    rw [toStringLoop, hget]
    exact if_pos rfl
  | cons label labels ih =>
    obtain ⟨fuel, rfl⟩ := Nat.exists_eq_add_one_of_ne_zero (Nat.ne_zero_of_lt hfuel)
    have hlabel := hle label mem_cons_self
    have hpos := List.length_pos_iff.2 (hne label mem_cons_self)
    have hlength : (UInt8.ofNat label.length).toNat = label.length := UInt8.toNat_ofNat_of_lt' (by rw [UInt8.size]; omega)
    have hget : domain[done.length]? = some (UInt8.ofNat label.length) := by
      rw [hdomain, List.getElem?_append_right le_rfl, Nat.sub_self]
      rfl
    have hzero : ¬UInt8.ofNat label.length = 0 := by
      intro heq
      rw [heq] at hlength
      exact absurd hlength.symm (Nat.ne_of_gt hpos)
    have hdone : domain = (done ++ UInt8.ofNat label.length :: label) ++ (encodeLabels labels ++ [0]) := by
      rw [hdomain, encodeLabels_cons]
      simp only [append_assoc, List.cons_append]
    have hroom : done.length + label.length + 1 ≤ domain.length := by
      rw [hdone, length_append, length_append, length_cons]
      omega
    have htake : (domain.drop (done.length + 1)).take label.length = label := by
      rw [← List.drop_drop, hdomain, List.drop_left' rfl, encodeLabels_cons, List.cons_append, List.drop_succ_cons,
        List.drop_zero, append_assoc, List.take_left' rfl]
    have hnext : (done.length + label.length + 1) % 4294967296 = (done ++ UInt8.ofNat label.length :: label).length := by
      rw [Nat.mod_eq_of_lt (by omega), length_append, length_cons, Nat.add_assoc]
    rw [toStringLoop, hget]
    dsimp only
    rw [if_neg hzero, hlength, if_neg (by omega), if_neg (by rw [Nat.mod_eq_of_lt (by omega)]; omega), htake, hnext]
    rw [ih _ hdone (fun l hl => hle l (List.mem_cons_of_mem _ hl)) (fun l hl => hne l (List.mem_cons_of_mem _ hl))
      (by rw [length_cons] at hfuel; omega)]
    · rw [appended, appended, List.foldl_cons]
      by_cases hnil : ret = []
      · rw [if_pos (by rw [hret.2 hnil]; rfl), if_pos hnil, hnil, nil_append]
      · have hdoneNe : ¬done.length = 0 := fun h => hnil (hret.1 (List.length_eq_zero_iff.1 h))
        rw [if_neg hdoneNe, if_neg hnil, append_assoc, List.singleton_append]
    · refine iff_of_false (List.append_ne_nil_of_right_ne_nil _ (List.cons_ne_nil _ _)) ?_
      exact List.append_ne_nil_of_right_ne_nil _ (List.ne_nil_of_length_pos hpos)

theorem length_le_encodeLabels (labels : List (List UInt8)) : labels.length ≤ (encodeLabels labels).length := by
  induction labels with
  | nil => exact Nat.zero_le _
  | cons label labels ih =>
    rw [encodeLabels_cons, length_cons, length_cons, length_append]
    omega

/-- **A domain in DNS form is a string again**: its labels with dots between them. -/
theorem dnsDomainToString_encodeLabels (hle : ∀ label ∈ labels, label.length ≤ maxLabel)
    (hne : ∀ label ∈ labels, label ≠ []) (hsize : (encodeLabels labels).length + 1 ≤ maxName) :
    dnsDomainToString (encodeLabels labels ++ [0]) = some (joined labels) := by
  have hcount := length_le_encodeLabels labels
  have hlength : (encodeLabels labels ++ [0]).length = (encodeLabels labels).length + 1 := by
    rw [length_append, length_singleton]
  rw [dnsDomainToString, ← appended_nil hne]
  exact toStringLoop_eq [] rfl hle hne (by rw [hlength]; exact hsize) (by rw [hlength]; omega) (iff_of_true rfl rfl)

/-- `DNSDomainFromDot` gives at most 255 bytes, which are the string without its empty labels. -/
def RoundTrips (dotted : List UInt8) : Prop :=
  ∀ out, dnsDomainFromDot dotted = some out → out.length ≤ maxName ∧ dnsDomainToString out = some (withoutEmpty dotted)

/-- **A string comes back without its empty labels if and only if** what is read of it has the same labels. -/
theorem roundTrips_iff (dotted : List UInt8) : RoundTrips dotted ↔
      ((∀ label ∈ labelsOf (readPart dotted), label.length ≤ maxLabel) →
        (encodeLabels (labelsOf (readPart dotted))).length + 1 ≤ maxName → withoutEmpty (readPart dotted) = withoutEmpty dotted) := by
  rw [RoundTrips, dnsDomainFromDot_eq]
  constructor
  · intro h hle hsize
    have hback := (h _ (if_pos ⟨hle, hsize⟩)).2
    rw [dnsDomainToString_encodeLabels hle ne_nil_of_mem_labelsOf hsize] at hback
    exact Option.some.inj hback
  · intro h out hout
    by_cases hfit : (∀ label ∈ labelsOf (readPart dotted), label.length ≤ maxLabel) ∧
        (encodeLabels (labelsOf (readPart dotted))).length + 1 ≤ maxName
    · rw [if_pos hfit] at hout
      rw [← Option.some.inj hout, dnsDomainToString_encodeLabels hfit.1 ne_nil_of_mem_labelsOf hfit.2, ← h hfit.1 hfit.2]
      refine ⟨?_, rfl⟩
      rw [length_append, length_singleton]
      exact hfit.2
    · rw [if_neg hfit] at hout
      cases hout

theorem readPart_of_lt {dotted : List UInt8} (h : dotted.length < 4294967296) : readPart dotted = dotted := by
  rw [readPart, Nat.mod_eq_of_lt h, List.take_length]

/-! ## Names and domains -/

/-- **Names of a packet, and domains.**  A name with 14-bit pointers is found if and only if the low ten bits of them lead to
the same name, so with pointers to the first 1024 bytes always.  For all bytes `DNSName` ends and reads no byte that is not
in the packet.  A string that is accepted comes back without its empty labels if and only if what is read of it has the same
labels, so if it is shorter than 2³² bytes. -/
theorem dnsNames_spec (buffer : DnsResponseBuffer) (wantsName : Bool) (dotted : List UInt8) :
    (buffer.Inside → (∀ (labels : List (List UInt8)) (behind pointers : ℕ),
        NameAt Offset buffer.packet buffer.p labels behind pointers → pointers ≤ 100 →
        (buffer.Finds wantsName labels behind ↔
          ∃ labels' behind' pointers', NameAt LowOffset buffer.packet buffer.p labels' behind' pointers' ∧ pointers' ≤ 101 ∧
            (wantsName = true → joined labels' = joined labels))) ∧
      (∀ (labels : List (List UInt8)) (behind pointers : ℕ),
        NameAt NearOffset buffer.packet buffer.p labels behind pointers → pointers ≤ 100 →
        buffer.Finds wantsName labels behind) ∧
      ∃ b s, buffer.dnsName wantsName = some (.returns b s) ∧ s.buffer.Inside ∧ s.buffer.packet = buffer.packet) ∧
    (RoundTrips dotted ↔ ((∀ label ∈ labelsOf (readPart dotted), label.length ≤ maxLabel) →
        (encodeLabels (labelsOf (readPart dotted))).length + 1 ≤ maxName →
        withoutEmpty (readPart dotted) = withoutEmpty dotted)) ∧
    (dotted.length < 4294967296 → RoundTrips dotted) := by
  refine ⟨fun hinside => ⟨?_, ?_, ?_⟩, roundTrips_iff dotted, ?_⟩
  · intro labels behind pointers hname _
    exact DnsResponseBuffer.finds_iff hinside wantsName hname
  · intro labels behind pointers hname hpointers
    exact DnsResponseBuffer.finds_of_near hinside wantsName hname (by omega)
  · exact DnsResponseBuffer.dnsName_returns hinside wantsName
  · intro hlt
    rw [roundTrips_iff, readPart_of_lt hlt]
    exact fun _ _ => rfl

/-- A name behind a pointer to the start of the packet, and the string of it. -/
theorem dnsNames_small : DnsResponseBuffer.Finds ⟨[1, 97, 0, 192, 0], 3, 2⟩ true [[97]] 5 ∧ RoundTrips [97] := by
  have hname : NameAt NearOffset [1, 97, 0, 192, 0] 0 [[97]] 3 0 := .label (by decide) (by decide) (by decide) (.root rfl)
  have hpointer : NameAt NearOffset [1, 97, 0, 192, 0] 3 [[97]] 5 1 :=
    .pointer (d := 192) (b := 0) rfl rfl (by decide) ⟨rfl, by decide⟩ hname
  have h := dnsNames_spec ⟨[1, 97, 0, 192, 0], 3, 2⟩ true [97]
  exact ⟨(h.1 rfl).2.1 _ _ 1 hpointer (by decide), h.2.2 (by decide)⟩

def farPacket : List UInt8 := List.replicate 1024 0 ++ [1, 97, 0, 196, 0]

/-- **A pointer to a place behind the first 1024 bytes leads to another place**: the name is not found. -/
theorem not_finds_far :
    NameAt Offset farPacket 1027 [[97]] 1029 1 ∧ ¬DnsResponseBuffer.Finds ⟨farPacket, 1027, 2⟩ true [[97]] 1029 := by
  have hd : farPacket[1027]? = some 196 := by decide +kernel
  have hb : farPacket[1028]? = some 0 := by decide +kernel
  have hroot : farPacket[1026]? = some 0 := by decide +kernel
  have hlabel : [1, 97] <+: farPacket.drop 1024 := ⟨[0, 196, 0], (List.drop_left' List.length_replicate).symm⟩
  have hstart : farPacket[0]? = some 0 := by decide +kernel
  refine ⟨.pointer hd hb (by decide) rfl (.label (by decide) (by decide) hlabel (.root hroot)), ?_⟩
  have hlow : NameAt LowOffset farPacket 1027 [] 1029 1 := .pointer hd hb (by decide) rfl (.root hstart)
  have hinside : DnsResponseBuffer.Inside ⟨farPacket, 1027, 2⟩ := by
    rw [DnsResponseBuffer.Inside, farPacket, List.length_append, List.length_replicate]
    rfl
  obtain ⟨s, hrun, hname, -⟩ := DnsResponseBuffer.dnsName_of_nameAt hinside true hlow (by decide)
  rintro ⟨s', hrun', hname', -⟩
  rw [hrun] at hrun'
  injection hrun' with hreturns
  injection hreturns with _ hs
  rw [← hs, hname] at hname'
  exact absurd hname' (by decide)

end Chromium.Net.Dns
