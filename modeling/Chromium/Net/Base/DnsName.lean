import Chromium.Net.Base.DnsUtil

/-!
# Names with pointers

`NameAt` is a name of a packet by RFC 1035: labels, and the root or a pointer behind them.  It is a parameter which places a
pointer may lead to.  `DNSName` finds the names whose pointers lead to their low ten bits (`dnsName_eq_true_iff`).
-/

namespace Chromium.Net.Dns

open Lib

def joined (labels : List (List UInt8)) : List UInt8 := [dot].intercalate labels

/-- A name at a place of the packet: its labels, the place behind its root or its first pointer, and how many pointers there
are.  A pointer of two bytes leads to any place that it `Points` to. -/
inductive NameAt (Points : UInt8 → UInt8 → ℕ → Prop) (packet : List UInt8) :
    (pos : ℕ) → (labels : List (List UInt8)) → (behind pointers : ℕ) → Prop
  | root {pos : ℕ} (hroot : packet[pos]? = some 0) : NameAt Points packet pos [] (pos + 1) 0
  | label {pos : ℕ} {label : List UInt8} {labels : List (List UInt8)} {behind pointers : ℕ} (hpos : label ≠ [])
      (hle : label.length ≤ maxLabel) (hlabel : UInt8.ofNat label.length :: label <+: packet.drop pos)
      (hrest : NameAt Points packet (pos + 1 + label.length) labels behind pointers) :
      NameAt Points packet pos (label :: labels) behind pointers
  | pointer {pos : ℕ} {d b : UInt8} {offset : ℕ} {labels : List (List UInt8)} {behind pointers : ℕ}
      (hd : packet[pos]? = some d) (hb : packet[pos + 1]? = some b) (hpointer : 192 ≤ d.toNat) (hpoints : Points d b offset)
      (hrest : NameAt Points packet offset labels behind pointers) :
      NameAt Points packet pos labels (pos + 2) (pointers + 1)

def Offset (d b : UInt8) (offset : ℕ) : Prop := offset = d.toNat % 64 * 256 + b.toNat

def LowOffset (d b : UInt8) (offset : ℕ) : Prop := offset = d.toNat % 4 * 256 + b.toNat

def NearOffset (d b : UInt8) (offset : ℕ) : Prop := Offset d b offset ∧ offset < 1024

variable {Points Points' : UInt8 → UInt8 → ℕ → Prop} {packet : List UInt8} {pos behind pointers fuel : ℕ}
  {labels : List (List UInt8)} {s s' : NameState}

theorem NameAt.imp (himp : ∀ d b offset, Points d b offset → Points' d b offset)
    (h : NameAt Points packet pos labels behind pointers) : NameAt Points' packet pos labels behind pointers := by
  induction h with
  | root hroot => exact NameAt.root hroot
  | label hpos hle hlabel _ ih => exact NameAt.label hpos hle hlabel ih
  | pointer hd hb hpointer hpoints _ ih => exact NameAt.pointer hd hb hpointer (himp _ _ _ hpoints) ih

theorem NearOffset.low {d b : UInt8} {offset : ℕ} (h : NearOffset d b offset) : LowOffset d b offset := by
  obtain ⟨hoffset, hlt⟩ := h
  have hmod : d.toNat % 64 % 4 = d.toNat % 4 := Nat.mod_mod_of_dvd _ ⟨16, rfl⟩
  rw [hoffset] at hlt
  have hsmall : d.toNat % 64 < 4 := by omega
  rw [Nat.mod_eq_of_lt hsmall] at hmod
  rw [LowOffset, ← hmod]
  exact hoffset

/-! ## A turn -/

theorem and_c0_eq_c0_iff (d : UInt8) : d &&& 0xc0 = 0xc0 ↔ 192 ≤ d.toNat := by
  have hall : ∀ n : Fin 256, UInt8.ofNat n &&& 0xc0 = 0xc0 ↔ 192 ≤ (UInt8.ofNat n).toNat := by decide +kernel
  have h := hall ⟨d.toNat, d.toNat_lt⟩
  rwa [UInt8.ofNat_toNat] at h

theorem and_c0_eq_zero_iff (d : UInt8) : d &&& 0xc0 = 0 ↔ d.toNat ≤ maxLabel := by
  have hall : ∀ n : Fin 256, UInt8.ofNat n &&& 0xc0 = 0 ↔ (UInt8.ofNat n).toNat ≤ 63 := by decide +kernel
  have h := hall ⟨d.toNat, d.toNat_lt⟩
  rwa [UInt8.ofNat_toNat] at h

theorem lowOffset_and (d b : UInt8) : LowOffset d b ((d.toNat * 256 + b.toNat) &&& 0x3ff) := by
  have hb := b.toNat_lt
  have hmask : (d.toNat * 256 + b.toNat) &&& 0x3ff = (d.toNat * 256 + b.toNat) % 2 ^ 10 :=
    Nat.and_two_pow_sub_one_eq_mod _ 10
  rw [LowOffset, hmask]
  omega

theorem getElem?_of_label {label : List UInt8} (hle : label.length ≤ maxLabel)
    (hlabel : UInt8.ofNat label.length :: label <+: packet.drop pos) :
    ∃ d, packet[pos]? = some d ∧ d.toNat = label.length := by
  obtain ⟨rest, hrest⟩ := hlabel
  have hget : (packet.drop pos)[0]? = some (UInt8.ofNat label.length) := by rw [← hrest]; rfl
  rw [List.getElem?_drop, Nat.add_zero] at hget
  have hmax : maxLabel = 63 := rfl
  exact ⟨_, hget, UInt8.toNat_ofNat_of_lt' (by rw [UInt8.size]; omega)⟩

namespace NameState

def Inside (s : NameState) : Prop := s.p + s.len = s.buffer.packet.length

def left (s : NameState) : ℕ := (101 - s.jumps) * (s.buffer.packet.length + 1) + s.len

@[simp] theorem packet_advance (p len : ℕ) : (s.advance p len).buffer.packet = s.buffer.packet := by
  unfold advance
  split <;> rfl

@[simp] theorem jumps_advance (p len : ℕ) : (s.advance p len).jumps = s.jumps := by
  unfold advance
  split <;> rfl

@[simp] theorem p_advance (p len : ℕ) : (s.advance p len).p = p := by
  unfold advance
  split <;> rfl

@[simp] theorem len_advance (p len : ℕ) : (s.advance p len).len = len := by
  unfold advance
  split <;> rfl

@[simp] theorem name_advance (p len : ℕ) : (s.advance p len).name = s.name := by
  unfold advance
  split <;> rfl

theorem buffer_advance (p len : ℕ) :
    (s.advance p len).buffer = if s.jumps = 0 then { s.buffer with p := p, len := len } else s.buffer := by
  unfold advance
  split <;> rfl

def follow (s : NameState) (offset : ℕ) : NameState :=
  { s.advance (s.p + 2) (s.len - 2) with
    jumps := s.jumps + 1, p := offset, len := s.buffer.packet.length - offset }

/-- **What a turn does**: it refuses, or is at a root, a label or a pointer. -/
theorem turn_cases (h : s.Inside) : s.turn = .returns false s ∨
    2 ≤ s.len ∧ s.turn = .returns false { s.advance (s.p + 2) (s.len - 2) with jumps := s.jumps + 1 } ∨
    (s.buffer.packet[s.p]? = some 0 ∧ 0 < s.len ∧ s.turn = .returns true (s.advance (s.p + 1) (s.len - 1))) ∨
    (∃ label, label ≠ [] ∧ label.length ≤ maxLabel ∧ UInt8.ofNat label.length :: label <+: s.buffer.packet.drop s.p ∧
      label.length + 1 ≤ s.len ∧
      s.turn = .next ((s.append label).advance (s.p + 1 + label.length) (s.len - 1 - label.length))) ∨
    ∃ d b offset, s.buffer.packet[s.p]? = some d ∧ s.buffer.packet[s.p + 1]? = some b ∧ 192 ≤ d.toNat ∧
      LowOffset d b offset ∧ s.jumps ≤ 100 ∧ 2 ≤ s.len ∧ offset < s.buffer.packet.length ∧ s.turn = .next (s.follow offset) := by
  unfold Inside at h
  unfold turn
  by_cases hlen : s.len < 1
  · exact .inl (if_pos hlen)
  · obtain ⟨d, hd⟩ : ∃ d, s.buffer.packet[s.p]? = some d := ⟨_, List.getElem?_eq_getElem (by omega)⟩
    dsimp only
    rw [if_neg hlen, hd]
    dsimp only
    by_cases hpointer : d &&& 0xc0 = 0xc0
    · rw [if_pos hpointer]
      by_cases hjumps : 100 < s.jumps
      · exact .inl (if_pos hjumps)
      · rw [if_neg hjumps]
        by_cases hlen₂ : s.len - 1 < 1
        · exact .inl (if_pos hlen₂)
        · obtain ⟨b, hb⟩ : ∃ b, s.buffer.packet[s.p + 1]? = some b := ⟨_, List.getElem?_eq_getElem (by omega)⟩
          rw [if_neg hlen₂, hb]
          dsimp only
          by_cases hoffset : s.buffer.packet.length ≤ (d.toNat * 256 + b.toNat) &&& 0x3ff
          · rw [if_pos hoffset]
            exact .inr (.inl ⟨by omega, rfl⟩)
          · rw [if_neg hoffset]
            exact .inr (.inr (.inr (.inr ⟨d, b, _, rfl, rfl, (and_c0_eq_c0_iff d).1 hpointer, lowOffset_and d b, by omega,
              by omega, by omega, rfl⟩)))
    · rw [if_neg hpointer]
      by_cases hlabel : d &&& 0xc0 = 0
      · rw [if_pos hlabel]
        by_cases hroom : s.len - 1 < d.toNat
        · exact .inl (if_pos hroom)
        · rw [if_neg hroom, if_neg (by omega)]
          by_cases hzero : d.toNat = 0
          · rw [if_pos hzero]
            have hd0 : d = 0 := UInt8.toNat_inj.1 hzero
            exact .inr (.inr (.inl ⟨by rw [hd0], by omega, rfl⟩))
          · rw [if_neg hzero]
            have hlength : ((s.buffer.packet.drop (s.p + 1)).take d.toNat).length = d.toNat := by
              rw [List.length_take, List.length_drop]
              omega
            refine .inr (.inr (.inr (.inl ⟨(s.buffer.packet.drop (s.p + 1)).take d.toNat, ?_, ?_, ?_, ?_, ?_⟩)))
            · exact List.ne_nil_of_length_pos (by omega)
            · rw [hlength]
              exact (and_c0_eq_zero_iff d).1 hlabel
            · rw [hlength, UInt8.ofNat_toNat, List.drop_eq_getElem_cons (show s.p < s.buffer.packet.length by omega),
                ← Option.some.inj (hd.symm.trans (List.getElem?_eq_getElem _)), List.prefix_cons_inj]
              exact List.take_prefix _ _
            · omega
            · rw [hlength]
      · exact .inl (if_neg hlabel)

theorem lt_of_getElem? {p : ℕ} {d : UInt8} (h : packet[p]? = some d) : p < packet.length := by
  by_contra hlt
  rw [List.getElem?_eq_none (not_lt.1 hlt)] at h
  exact Option.some_ne_none d h.symm

theorem turn_of_root (h : s.Inside) (hroot : s.buffer.packet[s.p]? = some 0) :
    s.turn = .returns true (s.advance (s.p + 1) (s.len - 1)) := by
  have hlt := lt_of_getElem? hroot
  have hlen : ¬s.len < 1 := by
    unfold Inside at h
    omega
  dsimp only [turn]
  rw [if_neg hlen, hroot]
  dsimp only
  rw [if_neg (by decide), if_pos (by decide), show UInt8.toNat 0 = 0 from rfl, if_neg (Nat.not_lt_zero _), if_neg (by omega),
    if_pos rfl]

theorem turn_of_label {label : List UInt8} (h : s.Inside) (hpos : label ≠ []) (hle : label.length ≤ maxLabel)
    (hlabel : UInt8.ofNat label.length :: label <+: s.buffer.packet.drop s.p) :
    label.length + 1 ≤ s.len ∧
      s.turn = .next ((s.append label).advance (s.p + 1 + label.length) (s.len - 1 - label.length)) := by
  unfold Inside at h
  have hmax : maxLabel = 63 := rfl
  have hroom := hlabel.length_le
  rw [List.length_cons, List.length_drop] at hroom
  obtain ⟨d, hd, hlength⟩ := getElem?_of_label hle hlabel
  have hpositive := List.length_pos_iff.2 hpos
  obtain ⟨rest, hrest⟩ := hlabel
  have htake : (s.buffer.packet.drop (s.p + 1)).take label.length = label := by
    rw [← List.drop_drop, ← hrest, List.cons_append, List.drop_succ_cons, List.drop_zero, List.take_left' rfl]
  have hdirect : d &&& 0xc0 = 0 := (and_c0_eq_zero_iff d).2 (by rw [hlength]; exact hle)
  have hnot : ¬d &&& 0xc0 = 0xc0 := by
    rw [and_c0_eq_c0_iff, hlength]
    omega
  refine ⟨by omega, ?_⟩
  dsimp only [turn]
  rw [if_neg (by omega), hd]
  dsimp only
  rw [if_neg hnot, if_pos hdirect, hlength, if_neg (by omega), if_neg (by omega), if_neg (by omega), htake]

theorem turn_of_pointer {d b : UInt8} (h : s.Inside) (hd : s.buffer.packet[s.p]? = some d)
    (hb : s.buffer.packet[s.p + 1]? = some b) (hpointer : 192 ≤ d.toNat) (hjumps : s.jumps ≤ 100) {offset : ℕ}
    (hpoints : LowOffset d b offset) (hoffset : offset < s.buffer.packet.length) :
    2 ≤ s.len ∧ s.turn = .next (s.follow offset) := by
  have hlt := lt_of_getElem? hb
  unfold Inside at h
  have hlow : (d.toNat * 256 + b.toNat) &&& 0x3ff = offset := (lowOffset_and d b).trans hpoints.symm
  refine ⟨by omega, ?_⟩
  dsimp only [turn]
  rw [if_neg (by omega), hd]
  dsimp only
  rw [if_pos ((and_c0_eq_c0_iff d).2 hpointer), if_neg (by omega), if_neg (by omega), hb]
  dsimp only
  rw [hlow, if_neg (by omega)]
  rfl

end NameState

/-! ## Runs -/

theorem NameAt.lt (h : NameAt Points packet pos labels behind pointers) : pos < packet.length := by
  cases h with
  | root hroot => exact NameState.lt_of_getElem? hroot
  | label hpos hle hlabel hrest =>
    have hroom := hlabel.length_le
    rw [List.length_cons, List.length_drop] at hroom
    omega
  | pointer hd hb hpointer hpoints hrest => exact NameState.lt_of_getElem? hd

/-- **The place behind a name does not depend on where its pointers lead.** -/
theorem NameAt.behind_unique {labels' : List (List UInt8)} {behind' pointers' : ℕ}
    (h : NameAt Points packet pos labels behind pointers) (h' : NameAt Points' packet pos labels' behind' pointers') :
    behind = behind' := by
  have hmax : maxLabel = 63 := rfl
  induction h generalizing labels' behind' pointers' with
  | root hroot =>
    cases h' with
    | root => rfl
    | label hpos hle hlabel hrest =>
      obtain ⟨d, hd, hlength⟩ := getElem?_of_label hle hlabel
      obtain rfl : 0 = d := Option.some.inj (hroot.symm.trans hd)
      exact absurd (List.length_eq_zero_iff.1 hlength.symm) hpos
    | pointer hd hb hpointer hpoints hrest =>
      obtain rfl := Option.some.inj (hroot.symm.trans hd)
      cases hpointer
  | label hpos hle hlabel hrest ih =>
    obtain ⟨d, hd, hlength⟩ := getElem?_of_label hle hlabel
    cases h' with
    | root hroot =>
      obtain rfl := Option.some.inj (hroot.symm.trans hd)
      exact absurd (List.length_eq_zero_iff.1 hlength.symm) hpos
    | label hpos' hle' hlabel' hrest' =>
      obtain ⟨d', hd', hlength'⟩ := getElem?_of_label hle' hlabel'
      obtain rfl := Option.some.inj (hd.symm.trans hd')
      rw [← hlength', hlength] at hrest'
      exact ih hrest'
    | pointer hd' hb hpointer hpoints hrest' =>
      obtain rfl := Option.some.inj (hd.symm.trans hd')
      omega
  | pointer hd hb hpointer hpoints hrest ih =>
    cases h' with
    | root hroot =>
      obtain rfl := Option.some.inj (hroot.symm.trans hd)
      cases hpointer
    | label hpos hle hlabel hrest' =>
      obtain ⟨d', hd', hlength⟩ := getElem?_of_label hle hlabel
      obtain rfl := Option.some.inj (hd.symm.trans hd')
      omega
    | pointer => rfl

theorem NameAt.ne_nil (h : NameAt Points packet pos labels behind pointers) : ∀ label ∈ labels, label ≠ [] := by
  induction h with
  | root hroot => exact fun label hlabel => nomatch hlabel
  | label hpos hle hlabel hrest ih =>
    intro label hmem
    rcases List.mem_cons.1 hmem with rfl | hmem
    · exact hpos
    · exact ih label hmem
  | pointer hd hb hpointer hpoints hrest ih => exact ih

theorem joined_cons {label : List UInt8} (h : labels ≠ []) : joined (label :: labels) = label ++ dot :: joined labels :=
  intercalate_cons_of_ne_nil h

def appended (name : List UInt8) (labels : List (List UInt8)) : List UInt8 :=
  labels.foldl (fun name label => if name = [] then label else name ++ dot :: label) name

theorem appended_of_ne_nil {name : List UInt8} (hname : name ≠ []) (hlabels : labels ≠ []) :
    appended name labels = name ++ dot :: joined labels := by
  induction labels generalizing name with
  | nil => exact absurd rfl hlabels
  | cons label labels ih =>
    have hstep : appended name (label :: labels) = appended (name ++ dot :: label) labels := by
      rw [appended, List.foldl_cons, if_neg hname]
      rfl
    rw [hstep]
    by_cases hnil : labels = []
    · rw [hnil, joined, List.intercalate_singleton]
      rfl
    · rw [ih (List.append_ne_nil_of_left_ne_nil hname _) hnil, joined_cons hnil, List.append_assoc]
      rfl

/-- **The name of the labels is the labels with dots between them.** -/
theorem appended_nil (h : ∀ label ∈ labels, label ≠ []) : appended [] labels = joined labels := by
  cases labels with
  | nil => rfl
  | cons label labels =>
    have hstep : appended [] (label :: labels) = appended label labels := by
      rw [appended, List.foldl_cons, if_pos rfl]
      rfl
    rw [hstep]
    by_cases hnil : labels = []
    · rw [hnil, joined, List.intercalate_singleton]
      rfl
    · rw [appended_of_ne_nil (h label List.mem_cons_self) hnil, joined_cons hnil]

namespace NameState

theorem follow_left (hjumps : s.jumps ≤ 100) (hlen : 2 ≤ s.len) (offset : ℕ) : (s.follow offset).left + 1 < s.left := by
  have hpackets : (101 - s.jumps) * (s.buffer.packet.length + 1) =
      (101 - (s.jumps + 1)) * (s.buffer.packet.length + 1) + (s.buffer.packet.length + 1) := by
    rw [show 101 - s.jumps = 101 - (s.jumps + 1) + 1 by omega, Nat.succ_mul]
  change (101 - (s.jumps + 1)) * ((s.advance (s.p + 2) (s.len - 2)).buffer.packet.length + 1) +
    (s.buffer.packet.length - offset) + 1 < (101 - s.jumps) * (s.buffer.packet.length + 1) + s.len
  rw [packet_advance, hpackets]
  omega

theorem follow_inside {offset : ℕ} (hoffset : offset < s.buffer.packet.length) : (s.follow offset).Inside := by
  change offset + (s.buffer.packet.length - offset) = (s.advance (s.p + 2) (s.len - 2)).buffer.packet.length
  rw [packet_advance]
  omega

def pass (s : NameState) (label : List UInt8) : NameState :=
  (s.append label).advance (s.p + 1 + label.length) (s.len - 1 - label.length)

theorem pass_left {label : List UInt8} (hlen : label.length + 1 ≤ s.len) : (s.pass label).left < s.left := by
  unfold left pass
  rw [packet_advance, jumps_advance, len_advance]
  change (101 - s.jumps) * (s.buffer.packet.length + 1) + (s.len - 1 - label.length) <
    (101 - s.jumps) * (s.buffer.packet.length + 1) + s.len
  omega

theorem pass_inside {label : List UInt8} (h : s.Inside) (hlen : label.length + 1 ≤ s.len) : (s.pass label).Inside := by
  unfold Inside at h
  unfold Inside pass
  rw [packet_advance, p_advance, len_advance]
  change s.p + 1 + label.length + (s.len - 1 - label.length) = s.buffer.packet.length
  omega

/-- **A name is found** with its labels, and the buffer goes behind its root or its first pointer. -/
theorem run_of_nameAt (h : NameAt LowOffset packet pos labels behind pointers) (hpacket : s.buffer.packet = packet)
    (hp : s.p = pos) (hinside : s.Inside) (hjumps : s.jumps + pointers ≤ 101) (hfuel : s.left < fuel) :
    ∃ s', s.run fuel = some (.returns true s') ∧ s'.name = s.name.map (appended · labels) ∧
      s'.buffer = if s.jumps = 0 then ⟨packet, behind, packet.length - behind⟩ else s.buffer := by
  induction h generalizing s fuel with
  | @root pos hroot =>
    cases fuel with
    | zero => exact nomatch hfuel
    | succ fuel =>
      rw [← hpacket, ← hp] at hroot
      refine ⟨s.advance (s.p + 1) (s.len - 1), ?_, ?_, ?_⟩
      · rw [run, turn_of_root hinside hroot]
      · rw [name_advance]
        exact Option.map_id'.symm
      · unfold Inside at hinside
        rw [buffer_advance, ← hpacket, ← hp, show s.len - 1 = s.buffer.packet.length - (s.p + 1) by omega]
  | @label pos label labels behind pointers hpos hle hlabel hrest ih =>
    cases fuel with
    | zero => exact nomatch hfuel
    | succ fuel =>
      rw [← hpacket, ← hp] at hlabel
      obtain ⟨hlen, hturn⟩ := turn_of_label hinside hpos hle hlabel
      have hleft := pass_left hlen
      have hpass : (s.pass label).p = pos + 1 + label.length := by rw [pass, p_advance, hp]
      have hpassJumps : (s.pass label).jumps = s.jumps := by
        rw [pass, jumps_advance]
        rfl
      obtain ⟨s', hrun, hname, hbuffer⟩ := ih (s := s.pass label) (by rw [pass, packet_advance]; exact hpacket)
        hpass (pass_inside hinside hlen) (by rw [hpassJumps]; exact hjumps) (show _ < fuel by omega)
      refine ⟨s', ?_, ?_, ?_⟩
      · rw [run, hturn]
        exact hrun
      · rw [hname, pass, name_advance]
        cases hs : s.name with
        | none | some name => rw [append, hs]; rfl
      · rw [hbuffer, hpassJumps]
        by_cases hzero : s.jumps = 0
        · rw [if_pos hzero, if_pos hzero]
        · rw [if_neg hzero, if_neg hzero, pass, buffer_advance]
          exact if_neg hzero
  | @pointer pos d b offset labels behind pointers hd hb hpointer hpoints hrest ih =>
    cases fuel with
    | zero => exact nomatch hfuel
    | succ fuel =>
      have hoffset := hrest.lt
      rw [← hpacket] at hd hb hoffset
      rw [← hp] at hd hb
      obtain ⟨hlen, hturn⟩ := turn_of_pointer hinside hd hb hpointer (by omega) hpoints hoffset
      have hleft := follow_left (s := s) (by omega) hlen offset
      obtain ⟨s', hrun, hname, hbuffer⟩ := ih (s := s.follow offset)
        ((packet_advance _ _).trans hpacket) rfl (follow_inside hoffset)
        (by change s.jumps + 1 + pointers ≤ 101; omega) (show _ < fuel by omega)
      refine ⟨s', ?_, ?_, ?_⟩
      · rw [run, hturn]
        exact hrun
      · rw [hname]
        exact congrArg _ (name_advance _ _)
      · rw [hbuffer, if_neg (show ¬(s.follow offset).jumps = 0 from Nat.succ_ne_zero _)]
        change (s.advance (s.p + 2) (s.len - 2)).buffer = _
        unfold Inside at hinside
        rw [buffer_advance, ← hpacket, ← hp, show s.len - 2 = s.buffer.packet.length - (s.p + 2) by omega]

theorem nameAt_of_run (h : s.run fuel = some (.returns true s')) (hinside : s.Inside) (hjumps : s.jumps ≤ 101) :
    ∃ labels behind pointers, NameAt LowOffset s.buffer.packet s.p labels behind pointers ∧ s.jumps + pointers ≤ 101 := by
  induction fuel generalizing s with
  | zero => cases h
  | succ fuel ih =>
    rw [run] at h
    rcases turn_cases hinside with hturn | ⟨-, hturn⟩ | ⟨hroot, -, -⟩ | ⟨label, hpos, hle, hlabel, hlen, hturn⟩ |
      ⟨d, b, offset, hd, hb, hpointer, hpoints, hjumps', hlen, hoffset, hturn⟩
    · rw [hturn] at h
      cases h
    · rw [hturn] at h
      cases h
    · exact ⟨[], _, 0, .root hroot, hjumps⟩
    · rw [hturn] at h
      have hjumpsEq : (s.pass label).jumps = s.jumps := by
        rw [pass, jumps_advance]
        rfl
      obtain ⟨labels, behind, pointers, hname, hle'⟩ := ih (s := s.pass label) h (pass_inside hinside hlen)
        (by rw [hjumpsEq]; exact hjumps)
      rw [hjumpsEq] at hle'
      rw [pass, packet_advance, p_advance] at hname
      exact ⟨label :: labels, behind, pointers, .label hpos hle hlabel hname, hle'⟩
    · rw [hturn] at h
      obtain ⟨labels, behind, pointers, hname, hle'⟩ := ih (s := s.follow offset) h (follow_inside hoffset)
        (show s.jumps + 1 ≤ 101 by omega)
      have hrest : NameAt LowOffset s.buffer.packet offset labels behind pointers := by
        have hpacket : (s.follow offset).buffer.packet = s.buffer.packet := packet_advance _ _
        rw [hpacket] at hname
        exact hname
      refine ⟨labels, _, pointers + 1, .pointer hd hb hpointer hpoints hrest, ?_⟩
      change s.jumps + 1 + pointers ≤ 101 at hle'
      omega

end NameState

def DnsResponseBuffer.Inside (buffer : DnsResponseBuffer) : Prop := buffer.p + buffer.len = buffer.packet.length

namespace NameState

theorem advance_buffer_inside {p len : ℕ} (hbuffer : s.buffer.Inside) (h : p + len = s.buffer.packet.length) :
    (s.advance p len).buffer.Inside := by
  rw [buffer_advance]
  split
  · exact h
  · exact hbuffer

theorem run_returns (hinside : s.Inside) (hbuffer : s.buffer.Inside) (hfuel : s.left < fuel) :
    ∃ b s', s.run fuel = some (.returns b s') ∧ s'.buffer.Inside ∧ s'.buffer.packet = s.buffer.packet := by
  induction fuel generalizing s with
  | zero => exact nomatch hfuel
  | succ fuel ih =>
    have hp : s.p + s.len = s.buffer.packet.length := hinside
    rw [run]
    rcases turn_cases hinside with hturn | ⟨hlen, hturn⟩ | ⟨-, hlen, hturn⟩ | ⟨label, -, -, -, hlen, hturn⟩ |
      ⟨d, b, offset, -, -, -, -, hjumps, hlen, hoffset, hturn⟩
    · rw [hturn]
      exact ⟨false, s, rfl, hbuffer, rfl⟩
    · rw [hturn]
      exact ⟨false, _, rfl, advance_buffer_inside hbuffer (by omega), packet_advance _ _⟩
    · rw [hturn]
      exact ⟨true, _, rfl, advance_buffer_inside hbuffer (by omega), packet_advance _ _⟩
    · have hleft := pass_left hlen
      have hpass : (s.pass label).buffer.Inside := advance_buffer_inside (s := s.append label) hbuffer (by
        change s.p + 1 + label.length + (s.len - 1 - label.length) = s.buffer.packet.length
        omega)
      obtain ⟨b, s', hrun, hs', hpacket⟩ := ih (pass_inside hinside hlen) hpass (by omega)
      rw [hturn]
      exact ⟨b, s', hrun, hs', hpacket.trans (packet_advance _ _)⟩
    · have hleft := follow_left hjumps hlen offset
      have hfollow : (s.follow offset).buffer.Inside := advance_buffer_inside hbuffer (by omega)
      obtain ⟨b, s', hrun, hs', hpacket⟩ := ih (follow_inside hoffset) hfollow (by omega)
      rw [hturn]
      exact ⟨b, s', hrun, hs', hpacket.trans (packet_advance _ _)⟩

end NameState

namespace DnsResponseBuffer

variable {buffer : DnsResponseBuffer} {wantsName : Bool}

/-- **`DNSName` ends for all bytes**, with no read that is not in the packet. -/
theorem dnsName_returns (h : buffer.Inside) (wantsName : Bool) :
    ∃ b s, buffer.dnsName wantsName = some (.returns b s) ∧ s.buffer.Inside ∧ s.buffer.packet = buffer.packet := by
  unfold Inside at h
  refine NameState.run_returns h h ?_
  change 101 * (buffer.packet.length + 1) + buffer.len < 102 * (buffer.packet.length + 1)
  omega

/-- **`DNSName` returns the name that is there when the low ten bits of a pointer count.** -/
theorem dnsName_of_nameAt (h : buffer.Inside) (wantsName : Bool)
    (hname : NameAt LowOffset buffer.packet buffer.p labels behind pointers) (hpointers : pointers ≤ 101) :
    ∃ s, buffer.dnsName wantsName = some (.returns true s) ∧ s.name = (if wantsName then some (joined labels) else none) ∧
      s.buffer = ⟨buffer.packet, behind, buffer.packet.length - behind⟩ := by
  unfold Inside at h
  have hfuel : NameState.left ⟨buffer, 0, buffer.p, buffer.len, if wantsName then some [] else none⟩ <
      102 * (buffer.packet.length + 1) := by
    change 101 * (buffer.packet.length + 1) + buffer.len < 102 * (buffer.packet.length + 1)
    omega
  have hinside : NameState.Inside ⟨buffer, 0, buffer.p, buffer.len, if wantsName then some [] else none⟩ := h
  obtain ⟨s, hrun, hs, hbuffer⟩ := NameState.run_of_nameAt hname rfl rfl hinside ((Nat.zero_add _).trans_le hpointers) hfuel
  refine ⟨s, hrun, ?_, hbuffer⟩
  rw [hs]
  cases wantsName with
  | false => rfl
  | true => exact congrArg some (appended_nil hname.ne_nil)

theorem dnsName_eq_true_iff (h : buffer.Inside) (wantsName : Bool) :
    (∃ s, buffer.dnsName wantsName = some (.returns true s)) ↔
      ∃ labels behind pointers, NameAt LowOffset buffer.packet buffer.p labels behind pointers ∧ pointers ≤ 101 := by
  constructor
  · rintro ⟨s, hrun⟩
    obtain ⟨labels, behind, pointers, hname, hle⟩ := NameState.nameAt_of_run hrun h (Nat.zero_le _)
    exact ⟨labels, behind, pointers, hname, (Nat.zero_add _).symm.trans_le hle⟩
  · rintro ⟨labels, behind, pointers, hname, hle⟩
    obtain ⟨s, hrun, -⟩ := dnsName_of_nameAt h wantsName hname hle
    exact ⟨s, hrun⟩

/-- `DNSName` returns true with the labels, and the buffer is behind the root or the first pointer. -/
def Finds (buffer : DnsResponseBuffer) (wantsName : Bool) (labels : List (List UInt8)) (behind : ℕ) : Prop :=
  ∃ s, buffer.dnsName wantsName = some (.returns true s) ∧ s.name = (if wantsName then some (joined labels) else none) ∧
    s.buffer = ⟨buffer.packet, behind, buffer.packet.length - behind⟩

/-- **A name of the packet is found if and only if** the low ten bits of its pointers lead to the same name. -/
theorem finds_iff (h : buffer.Inside) (wantsName : Bool)
    (hname : NameAt Offset buffer.packet buffer.p labels behind pointers) :
    buffer.Finds wantsName labels behind ↔
      ∃ labels' behind' pointers', NameAt LowOffset buffer.packet buffer.p labels' behind' pointers' ∧ pointers' ≤ 101 ∧
        (wantsName = true → joined labels' = joined labels) := by
  constructor
  · rintro ⟨s, hrun, hs, -⟩
    obtain ⟨labels', behind', pointers', hname', hle⟩ := (dnsName_eq_true_iff h wantsName).1 ⟨s, hrun⟩
    obtain ⟨s', hrun', hs', -⟩ := dnsName_of_nameAt h wantsName hname' hle
    obtain rfl : s = s' := by
      rw [hrun] at hrun'
      injection hrun' with hreturns
      injection hreturns
    refine ⟨labels', behind', pointers', hname', hle, ?_⟩
    rintro rfl
    exact Option.some.inj (hs'.symm.trans hs)
  · rintro ⟨labels', behind', pointers', hname', hle, hjoined⟩
    obtain ⟨s, hrun, hs, hbuffer⟩ := dnsName_of_nameAt h wantsName hname' hle
    refine ⟨s, hrun, ?_, ?_⟩
    · rw [hs]
      cases wantsName with
      | false => rfl
      | true => exact congrArg some (hjoined rfl)
    · rw [hbuffer, hname.behind_unique hname']

theorem finds_of_near (h : buffer.Inside) (wantsName : Bool)
    (hname : NameAt NearOffset buffer.packet buffer.p labels behind pointers) (hpointers : pointers ≤ 101) :
    buffer.Finds wantsName labels behind :=
  dnsName_of_nameAt h wantsName (hname.imp fun _ _ _ => NearOffset.low) hpointers

end DnsResponseBuffer

end Chromium.Net.Dns
