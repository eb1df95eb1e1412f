import Mathlib.Data.List.GetD
import Mathlib.Data.List.Nodup
import Mathlib.Data.Nat.ModEq

/-!
# Linear probing

A table of slots is read around its end (`slotAt`).  A key belongs to the slot that `home` names, or to one
behind it if the slots between are taken (`Probed`).  `probe` looks for a key or for a free slot, `insert` puts
a key into the first free one.

To remove a key, a run of taken slots is cleared up to a free one, and the other keys of the run are inserted
again: clearing such a run leaves the others where they are found (`Probed.clearRun`).
-/

namespace Lib

open List (getD_eq_getElem length_cons length_set mem_cons_of_mem mem_cons_self mem_filter)

universe u

variable {V : Type u} (empty : V) (home : V → ℕ)

/-- The slot `i`, counted around the end of the table. -/
def slotAt (t : List V) (i : ℕ) : V := t.getD (i % t.length) empty

/-- Every key is behind its home, with no free slot between, and stands in one slot. -/
structure Probed (t : List V) : Prop where
  reached : ∀ i < t.length, slotAt empty t i ≠ empty →
    ∃ d < t.length, (home (slotAt empty t i) + d) % t.length = i ∧
      ∀ j < d, slotAt empty t (home (slotAt empty t i) + j) ≠ empty
  unique : ∀ i < t.length, ∀ j < t.length, slotAt empty t i ≠ empty → slotAt empty t i = slotAt empty t j → i = j

inductive Probe
  | found (slot : ℕ)
  | free (slot : ℕ)
  | full
  deriving DecidableEq

/-- `m` slots from `a` on are cleared. -/
def clearRun (t : List V) (a : ℕ) : ℕ → List V
  | 0 => t
  | m + 1 => (clearRun t a m).set ((a + m) % t.length) empty

/-- What stands in `m` slots from `a` on. -/
def runAt (t : List V) (a m : ℕ) : List V := (List.range m).map fun d => slotAt empty t (a + d)

variable {empty home} {t : List V} {k v : V} {i j a m n p : ℕ}

/-! ## Slots -/

theorem slotAt_mod (i : ℕ) : slotAt empty t (i % t.length) = slotAt empty t i := by
  rw [slotAt, Nat.mod_mod, slotAt]

theorem slotAt_congr (h : i % t.length = j % t.length) : slotAt empty t i = slotAt empty t j := by
  rw [slotAt, h, slotAt]

theorem mem_iff_slotAt (empty : V) : v ∈ t ↔ ∃ i < t.length, slotAt empty t i = v := by
  constructor
  · intro h
    obtain ⟨i, hi, hv⟩ := List.getElem_of_mem h
    refine ⟨i, hi, ?_⟩
    rw [slotAt, Nat.mod_eq_of_lt hi, getD_eq_getElem _ _ hi, hv]
  · rintro ⟨i, hi, rfl⟩
    rw [slotAt, Nat.mod_eq_of_lt hi, getD_eq_getElem _ _ hi]
    exact List.getElem_mem hi

theorem slotAt_mem (h : 0 < t.length) (i : ℕ) : slotAt empty t i ∈ t :=
  (mem_iff_slotAt empty).2 ⟨i % t.length, Nat.mod_lt _ h, slotAt_mod i⟩

theorem slotAt_set (hp : p < t.length) (v : V) (i : ℕ) :
    slotAt empty (t.set p v) i = if i % t.length = p then v else slotAt empty t i := by
  simp only [slotAt, length_set, List.getD_eq_getElem?_getD, List.getElem?_set]
  by_cases h : i % t.length = p
  · rw [if_pos h, if_pos h.symm, if_pos hp, Option.getD_some]
  · rw [if_neg h, if_neg (Ne.symm h)]

theorem exists_offset (hi : i < t.length) (a : ℕ) : ∃ d < t.length, (a + d) % t.length = i := by
  refine ⟨(i + (t.length - a % t.length)) % t.length, Nat.mod_lt _ (by omega), ?_⟩
  have ha := Nat.mod_lt a (show 0 < t.length by omega)
  have hdiv := Nat.div_add_mod a t.length
  have hsum : a + (i + (t.length - a % t.length)) = i + t.length * (a / t.length + 1) := by
    rw [Nat.mul_add, Nat.mul_one]
    omega
  rw [Nat.add_mod_mod, hsum, Nat.add_mul_mod_self_left, Nat.mod_eq_of_lt hi]

/-! ## Keys that are found -/

def Passed (empty : V) (t : List V) (k : V) (i d : ℕ) : Prop :=
  ∀ j < d, slotAt empty t (i + j) ≠ empty ∧ slotAt empty t (i + j) ≠ k

theorem Passed.succ {d : ℕ} (hne : slotAt empty t i ≠ empty) (hk : slotAt empty t i ≠ k)
    (h : Passed empty t k (i + 1) d) : Passed empty t k i (d + 1) := by
  intro j hj
  cases j with
  | zero => exact ⟨hne, hk⟩
  | succ j =>
    have hshift : i + (j + 1) = i + 1 + j := by omega
    rw [hshift]
    exact h j (by omega)

theorem Passed.not_mem (h : Passed empty t k a t.length) : k ∉ t := by
  intro hk
  obtain ⟨i, hi, hslot⟩ := (mem_iff_slotAt empty).1 hk
  obtain ⟨d, hd, hmod⟩ := exists_offset hi a
  have heq : slotAt empty t (a + d) = slotAt empty t i :=
    slotAt_congr (hmod.trans (Nat.mod_eq_of_lt hi).symm)
  exact (h d hd).2 (heq.trans hslot)

/-- **A search that meets a free slot looks for a key that is not there.** -/
theorem Probed.not_mem {d : ℕ} (h : Probed empty home t) (hk : k ≠ empty)
    (hfree : slotAt empty t (home k + d) = empty) (hpass : Passed empty t k (home k) d) : k ∉ t := by
  intro hmem
  obtain ⟨i, hi, hslot⟩ := (mem_iff_slotAt empty).1 hmem
  obtain ⟨e, he, hmod, hpath⟩ := h.reached i hi (hslot ▸ hk)
  rw [hslot] at hmod hpath
  have hke : slotAt empty t (home k + e) = k :=
    (slotAt_congr (hmod.trans (Nat.mod_eq_of_lt hi).symm)).trans hslot
  rcases Nat.lt_trichotomy d e with hlt | heq | hgt
  · exact hpath d hlt hfree
  · rw [heq, hke] at hfree
    exact hk hfree
  · exact (hpass e hgt).2 hke

theorem Probed.set {d : ℕ} (h : Probed empty home t) (hk : k ≠ empty) (hd : d < t.length)
    (hfree : slotAt empty t (home k + d) = empty) (hpass : Passed empty t k (home k) d) :
    Probed empty home (t.set ((home k + d) % t.length) k) := by
  have hnot := h.not_mem hk hfree hpass
  have hpos : 0 < t.length := by omega
  have hp : (home k + d) % t.length < t.length := Nat.mod_lt _ hpos
  have hkeep : ∀ x, slotAt empty t x ≠ empty →
      slotAt empty (t.set ((home k + d) % t.length) k) x = slotAt empty t x := by
    intro x hx
    rw [slotAt_set hp, if_neg]
    exact fun hmod => hx ((slotAt_congr hmod).trans hfree)
  constructor
  · intro i hi hne
    rw [length_set] at hi ⊢
    by_cases hip : i = (home k + d) % t.length
    · have hslot : slotAt empty (t.set ((home k + d) % t.length) k) i = k := by
        rw [slotAt_set hp, if_pos (by rw [Nat.mod_eq_of_lt hi, hip])]
      rw [hslot]
      refine ⟨d, hd, hip.symm, fun j hj => ?_⟩
      rw [hkeep _ (hpass j hj).1]
      exact (hpass j hj).1
    · have hslot : slotAt empty (t.set ((home k + d) % t.length) k) i = slotAt empty t i := by
        rw [slotAt_set hp, if_neg (by rwa [Nat.mod_eq_of_lt hi])]
      rw [hslot] at hne ⊢
      obtain ⟨e, he, hmod, hpath⟩ := h.reached i hi hne
      refine ⟨e, he, hmod, fun j hj => ?_⟩
      rw [hkeep _ (hpath j hj)]
      exact hpath j hj
  · intro i hi j hj hne heq
    rw [length_set] at hi hj
    have hi' := Nat.mod_eq_of_lt hi
    have hj' := Nat.mod_eq_of_lt hj
    simp only [slotAt_set hp, hi', hj'] at hne heq
    by_cases hip : i = (home k + d) % t.length <;> by_cases hjp : j = (home k + d) % t.length
    · rw [hip, hjp]
    · rw [if_pos hip, if_neg hjp] at heq
      exact absurd (heq ▸ slotAt_mem hpos j) hnot
    · rw [if_neg hip, if_pos hjp] at heq
      exact absurd (heq ▸ slotAt_mem hpos i) hnot
    · rw [if_neg hip] at hne heq
      rw [if_neg hjp] at heq
      exact h.unique i hi j hj hne heq

theorem mem_set_free (hp : p < t.length) (hfree : slotAt empty t p = empty) (hv : v ≠ empty) :
    v ∈ t.set p k ↔ v ∈ t ∨ v = k := by
  simp only [mem_iff_slotAt empty, length_set, slotAt_set hp]
  constructor
  · rintro ⟨i, hi, rfl⟩
    split
    · exact .inr rfl
    · exact .inl ⟨i, hi, rfl⟩
  · rintro (⟨i, hi, rfl⟩ | rfl)
    · refine ⟨i, hi, if_neg fun hip => ?_⟩
      rw [Nat.mod_eq_of_lt hi] at hip
      exact hv (hip ▸ hfree)
    · exact ⟨p, hp, if_pos (Nat.mod_eq_of_lt hp)⟩

/-! ## Clearing a run -/

@[simp]
theorem length_clearRun (t : List V) (a m : ℕ) : (clearRun empty t a m).length = t.length := by
  induction m with
  | zero => rfl
  | succ m ih => rw [clearRun, length_set, ih]

def InRun (t : List V) (a m i : ℕ) : Prop := ∃ d < m, (a + d) % t.length = i % t.length

theorem mod_lt_clearRun (empty : V) (a m : ℕ) (hpos : 0 < t.length) :
    (a + m) % t.length < (clearRun empty t a m).length := by
  rw [length_clearRun]
  exact Nat.mod_lt _ hpos

theorem slotAt_clearRun_succ (hpos : 0 < t.length) : slotAt empty (clearRun empty t a (m + 1)) i =
    if i % t.length = (a + m) % t.length then empty else slotAt empty (clearRun empty t a m) i := by
  rw [clearRun, slotAt_set (mod_lt_clearRun empty a m hpos), length_clearRun]

theorem slotAt_clearRun_of_inRun (hpos : 0 < t.length) (h : InRun t a m i) :
    slotAt empty (clearRun empty t a m) i = empty := by
  induction m with
  | zero =>
    obtain ⟨d, hd, -⟩ := h
    exact absurd hd (Nat.not_lt_zero d)
  | succ m ih =>
    obtain ⟨d, hd, hmod⟩ := h
    rw [slotAt_clearRun_succ hpos]
    split
    · rfl
    · rename_i hne
      refine ih ⟨d, ?_, hmod⟩
      rcases Nat.lt_succ_iff_lt_or_eq.1 hd with hlt | rfl
      · exact hlt
      · exact absurd hmod.symm hne

theorem slotAt_clearRun_of_not_inRun (hpos : 0 < t.length) (h : ¬ InRun t a m i) :
    slotAt empty (clearRun empty t a m) i = slotAt empty t i := by
  induction m with
  | zero => rfl
  | succ m ih =>
    rw [slotAt_clearRun_succ hpos, if_neg, ih]
    · rintro ⟨d, hd, hmod⟩
      exact h ⟨d, by omega, hmod⟩
    · exact fun hmod => h ⟨m, Nat.lt_succ_self m, hmod.symm⟩

/-- **Clearing a run up to a free slot** leaves the other keys where they are found. -/
theorem Probed.clearRun (h : Probed empty home t) (hm : m < t.length)
    (hend : slotAt empty t (a + m) = empty) : Probed empty home (clearRun empty t a m) := by
  have hpos : 0 < t.length := by omega
  have hkeep : ∀ x, slotAt empty (Lib.clearRun empty t a m) x ≠ empty →
      ¬ InRun t a m x ∧ slotAt empty (Lib.clearRun empty t a m) x = slotAt empty t x := by
    intro x hx
    have hnot : ¬ InRun t a m x := fun hin => hx (slotAt_clearRun_of_inRun hpos hin)
    exact ⟨hnot, slotAt_clearRun_of_not_inRun hpos hnot⟩
  constructor
  · intro i hi hne
    rw [length_clearRun] at hi ⊢
    obtain ⟨hout, hslot⟩ := hkeep i hne
    rw [hslot] at hne ⊢
    obtain ⟨d, hd, hmod, hpath⟩ := h.reached i hi hne
    refine ⟨d, hd, hmod, fun j hj => ?_⟩
    have hi' : (home (slotAt empty t i) + d) % t.length = i % t.length := by rw [hmod, Nat.mod_eq_of_lt hi]
    have hnot : ¬ InRun t a m (home (slotAt empty t i) + j) := by
      rintro ⟨e, he, hrun⟩
      -- from a slot of the run, the way to the key leads to the end of the run or stays in it
      rcases Nat.lt_trichotomy (j + (m - e)) d with hlt | heq | hgt
      · have hstep := Nat.ModEq.add_right (m - e) hrun
        have hsum : a + e + (m - e) = a + m := by omega
        rw [hsum, Nat.add_assoc] at hstep
        exact hpath (j + (m - e)) hlt ((slotAt_congr hstep.symm).trans hend)
      · have hstep := Nat.ModEq.add_right (m - e) hrun
        have hsum : a + e + (m - e) = a + m := by omega
        rw [hsum, Nat.add_assoc, heq] at hstep
        exact hne ((slotAt_congr (hi'.symm.trans hstep.symm)).trans hend)
      · have hstep := Nat.ModEq.add_right (d - j) hrun
        have hsum : home (slotAt empty t i) + j + (d - j) = home (slotAt empty t i) + d := by omega
        rw [hsum, Nat.add_assoc] at hstep
        exact hout ⟨e + (d - j), by omega, Eq.trans hstep hi'⟩
    rw [slotAt_clearRun_of_not_inRun hpos hnot]
    exact hpath j hj
  · intro i hi j hj hne heq
    rw [length_clearRun] at hi hj
    have hi' := (hkeep i hne).2
    rw [(hkeep j (heq ▸ hne)).2] at heq
    rw [hi'] at hne heq
    exact h.unique i hi j hj hne heq

theorem mem_clearRun (hpos : 0 < t.length) (hv : v ≠ empty) :
    v ∈ clearRun empty t a m ↔ ∃ i < t.length, ¬ InRun t a m i ∧ slotAt empty t i = v := by
  rw [mem_iff_slotAt empty, length_clearRun]
  constructor
  · rintro ⟨i, hi, rfl⟩
    have hnot : ¬ InRun t a m i := fun hin => hv (slotAt_clearRun_of_inRun hpos hin)
    exact ⟨i, hi, hnot, (slotAt_clearRun_of_not_inRun hpos hnot).symm⟩
  · rintro ⟨i, hi, hnot, hslot⟩
    exact ⟨i, hi, (slotAt_clearRun_of_not_inRun hpos hnot).trans hslot⟩

theorem mem_runAt : v ∈ runAt empty t a m ↔ ∃ d < m, slotAt empty t (a + d) = v := by
  simp only [runAt, List.mem_map, List.mem_range]

theorem Probed.nodup_runAt (h : Probed empty home t) (hm : m ≤ t.length)
    (htaken : ∀ d < m, slotAt empty t (a + d) ≠ empty) : (runAt empty t a m).Nodup := by
  refine List.Nodup.map_on ?_ List.nodup_range
  intro d hd e he heq
  rw [List.mem_range] at hd he
  have hpos : 0 < t.length := by omega
  rw [← slotAt_mod, ← slotAt_mod (a + e)] at heq
  have hne := htaken d hd
  rw [← slotAt_mod] at hne
  have hmod : a + d ≡ a + e [MOD t.length] := h.unique _ (Nat.mod_lt _ hpos) _ (Nat.mod_lt _ hpos) hne heq
  have hcancel : d % t.length = e % t.length := Nat.ModEq.add_left_cancel' a hmod
  rwa [Nat.mod_eq_of_lt (by omega), Nat.mod_eq_of_lt (by omega)] at hcancel

theorem InRun.of_path {d d' e : ℕ} (hm : m < t.length) (he : e < m)
    (hend : slotAt empty t (a + m) = empty) (hmod : (home k + d) % t.length = (a + e) % t.length)
    (hpath : ∀ j < d, slotAt empty t (home k + j) ≠ empty) (hd' : d' ≤ d)
    (hin : InRun t a m (home k + d')) : InRun t a (e + 1) (home k + d') := by
  obtain ⟨e', he', hrun⟩ := hin
  by_contra hout
  have hlt : e < e' := by
    by_contra hle
    exact hout ⟨e', by omega, hrun⟩
  -- the way back to slot `e` of the run leads over the free slot behind it
  have hforward : a + e' + (d - d') ≡ a + e [MOD t.length] := by
    have hstep := Nat.ModEq.add_right (d - d') hrun
    have hsum : home k + d' + (d - d') = home k + d := by omega
    rw [hsum] at hstep
    exact Eq.trans hstep hmod
  rcases Nat.lt_or_ge (m - e') (d - d') with hpast | hbefore
  · have hstep := Nat.ModEq.add_right (m - e') hrun
    have hsum : a + e' + (m - e') = a + m := by omega
    rw [hsum, Nat.add_assoc] at hstep
    exact hpath (d' + (m - e')) (by omega) ((slotAt_congr hstep.symm).trans hend)
  · rw [Nat.add_assoc] at hforward
    have hcancel : e' + (d - d') ≡ e [MOD t.length] := Nat.ModEq.add_left_cancel' a hforward
    have := Nat.ModEq.eq_of_lt_of_lt hcancel (by omega) (by omega)
    omega

/-! ## Searching and inserting -/

variable [DecidableEq V]

section

variable (empty home)

def taken (t : List V) : ℕ := t.countP (· ≠ empty)

def probe (t : List V) (k : V) : ℕ → ℕ → Probe
  | 0, _ => .full
  | n + 1, i =>
    if slotAt empty t i = empty then .free (i % t.length)
    else if slotAt empty t i = k then .found (i % t.length)
    else probe t k n (i + 1)

def insert (t : List V) (k : V) : List V :=
  match probe empty t k t.length (home k) with
  | .free p => t.set p k
  | _ => t

def insertAll (t : List V) (ks : List V) : List V := ks.foldl (insert empty home) t

end

variable {ks : List V}

theorem exists_free (h : taken empty t < t.length) : ∃ i < t.length, slotAt empty t i = empty := by
  refine (mem_iff_slotAt empty).1 ?_
  by_contra hmem
  have hall : taken empty t = t.length :=
    List.countP_eq_length.2 fun v hv => decide_eq_true fun hv' => hmem (hv' ▸ hv)
  omega

theorem taken_le_length (empty : V) (t : List V) : taken empty t ≤ t.length := List.countP_le_length

theorem taken_lt_length (h : empty ∈ t) : taken empty t < t.length := by
  refine lt_of_le_of_ne (taken_le_length empty t) fun heq => ?_
  exact of_decide_eq_true (List.countP_eq_length.1 heq empty h) rfl

theorem empty_mem (h : taken empty t < t.length) : empty ∈ t := (mem_iff_slotAt empty).2 (exists_free h)

theorem taken_set (hp : p < t.length) (hfree : slotAt empty t p = empty) (hk : k ≠ empty) :
    taken empty (t.set p k) = taken empty t + 1 := by
  have hget : t[p] = empty := by rwa [slotAt, Nat.mod_eq_of_lt hp, getD_eq_getElem _ _ hp] at hfree
  rw [taken, List.countP_set hp, hget]
  simp [hk, taken]

theorem taken_set_empty (hp : p < t.length) (hslot : slotAt empty t p ≠ empty) :
    taken empty (t.set p empty) + 1 = taken empty t := by
  have hget : t[p] ≠ empty := by rwa [slotAt, Nat.mod_eq_of_lt hp, getD_eq_getElem _ _ hp] at hslot
  have hpos : 0 < taken empty t := List.countP_pos_iff.2 ⟨t[p], List.getElem_mem hp, decide_eq_true hget⟩
  have hset : taken empty (t.set p empty) = taken empty t - 1 := by
    rw [taken, List.countP_set hp]
    simp [hget, taken]
  omega

theorem probe_found (h : probe empty t k n i = .found p) :
    ∃ d < n, p = (i + d) % t.length ∧ slotAt empty t (i + d) = k ∧ k ≠ empty := by
  induction n generalizing i with
  | zero => cases h
  | succ n ih =>
    unfold probe at h
    split at h
    · cases h
    · rename_i hne
      split at h
      · rename_i hk
        cases h
        exact ⟨0, Nat.succ_pos n, rfl, hk, fun hempty => hne (hk.trans hempty)⟩
      · obtain ⟨d, hd, hp, hslot, hkne⟩ := ih h
        have hshift : i + 1 + d = i + (d + 1) := by omega
        rw [hshift] at hp hslot
        exact ⟨d + 1, by omega, hp, hslot, hkne⟩

theorem probe_free (h : probe empty t k n i = .free p) :
    ∃ d < n, p = (i + d) % t.length ∧ slotAt empty t (i + d) = empty ∧ Passed empty t k i d := by
  induction n generalizing i with
  | zero => cases h
  | succ n ih =>
    unfold probe at h
    split at h
    · rename_i hfree
      cases h
      exact ⟨0, Nat.succ_pos n, rfl, hfree, fun j hj => absurd hj (Nat.not_lt_zero j)⟩
    · rename_i hne
      split at h
      · cases h
      · rename_i hk
        obtain ⟨d, hd, hp, hslot, hpass⟩ := ih h
        have hshift : i + 1 + d = i + (d + 1) := by omega
        rw [hshift] at hp hslot
        exact ⟨d + 1, by omega, hp, hslot, hpass.succ hne hk⟩

theorem probe_full (h : probe empty t k n i = .full) : Passed empty t k i n := by
  induction n generalizing i with
  | zero => exact fun j hj => absurd hj (Nat.not_lt_zero j)
  | succ n ih =>
    unfold probe at h
    split at h
    · cases h
    · rename_i hne
      split at h
      · cases h
      · rename_i hk
        exact (ih h).succ hne hk

theorem Probed.probe_eq_found_iff (h : Probed empty home t) (hk : k ≠ empty) :
    (∃ p, probe empty t k t.length (home k) = .found p) ↔ k ∈ t := by
  cases hprobe : probe empty t k t.length (home k) with
  | found p =>
    obtain ⟨d, hd, -, hslot, -⟩ := probe_found hprobe
    exact ⟨fun _ => hslot ▸ slotAt_mem (by omega) _, fun _ => ⟨p, rfl⟩⟩
  | free p =>
    obtain ⟨d, hd, -, hfree, hpass⟩ := probe_free hprobe
    exact ⟨fun ⟨_, hfound⟩ => (nomatch hfound), fun hmem => absurd hmem (h.not_mem hk hfree hpass)⟩
  | full =>
    exact ⟨fun ⟨_, hfound⟩ => (nomatch hfound), fun hmem => absurd hmem (probe_full hprobe).not_mem⟩

theorem length_insert (empty : V) (home : V → ℕ) (t : List V) (k : V) : (insert empty home t k).length = t.length := by
  unfold insert
  split
  · exact length_set
  · rfl

/-- **A key is inserted** if there is room for it, and the keys are found as before. -/
theorem Probed.insert (h : Probed empty home t) (hk : k ≠ empty) :
    Probed empty home (insert empty home t k) := by
  unfold Lib.insert
  split
  · rename_i p hprobe
    obtain ⟨d, hd, rfl, hfree, hpass⟩ := probe_free hprobe
    exact h.set hk hd hfree hpass
  · exact h

theorem Probed.mem_insert (h : Probed empty home t) (hk : k ≠ empty) (hroom : taken empty t < t.length)
    (hv : v ≠ empty) : v ∈ Lib.insert empty home t k ↔ v ∈ t ∨ v = k := by
  unfold Lib.insert
  cases hprobe : probe empty t k t.length (home k) with
  | found p =>
    have hmem := (h.probe_eq_found_iff hk).1 ⟨p, hprobe⟩
    exact ⟨.inl, fun hv => hv.elim id fun hvk => hvk ▸ hmem⟩
  | free p =>
    obtain ⟨d, hd, rfl, hfree, hpass⟩ := probe_free hprobe
    exact mem_set_free (Nat.mod_lt _ (by omega)) ((slotAt_mod _).trans hfree) hv
  | full =>
    -- the search has seen the free slot
    obtain ⟨i, hi, hfree⟩ := exists_free hroom
    obtain ⟨d, hd, hmod⟩ := exists_offset hi (home k)
    have hslot : slotAt empty t (home k + d) = slotAt empty t i :=
      slotAt_congr (hmod.trans (Nat.mod_eq_of_lt hi).symm)
    exact absurd (hslot.trans hfree) (probe_full hprobe d hd).1

theorem taken_insert (home : V → ℕ) (t : List V) (hk : k ≠ empty) :
    taken empty t ≤ taken empty (insert empty home t k) ∧
      taken empty (insert empty home t k) ≤ taken empty t + 1 := by
  unfold insert
  split
  · rename_i p hprobe
    obtain ⟨d, hd, rfl, hfree, -⟩ := probe_free hprobe
    rw [taken_set (Nat.mod_lt _ (by omega)) ((slotAt_mod _).trans hfree) hk]
    omega
  · omega

theorem length_insertAll (empty : V) (home : V → ℕ) (t ks : List V) :
    (insertAll empty home t ks).length = t.length := by
  induction ks generalizing t with
  | nil => rfl
  | cons k ks ih => exact (ih _).trans (length_insert empty home t k)

theorem taken_le_insertAll (home : V → ℕ) (t : List V) (hks : ∀ k ∈ ks, k ≠ empty) :
    taken empty t ≤ taken empty (insertAll empty home t ks) := by
  induction ks generalizing t with
  | nil => exact le_refl _
  | cons k ks ih =>
    have hk := (taken_insert home t (hks k mem_cons_self)).1
    exact hk.trans (ih _ fun v hv => hks v (mem_cons_of_mem _ hv))

theorem taken_insertAll_le (home : V → ℕ) (t : List V) (hks : ∀ k ∈ ks, k ≠ empty) :
    taken empty (insertAll empty home t ks) ≤ taken empty t + ks.length := by
  induction ks generalizing t with
  | nil => exact le_refl _
  | cons k ks ih =>
    have hk := (taken_insert home t (hks k mem_cons_self)).2
    have hrest := ih (insert empty home t k) fun v hv => hks v (mem_cons_of_mem _ hv)
    have hfold : insertAll empty home t (k :: ks) = insertAll empty home (insert empty home t k) ks := rfl
    rw [hfold, length_cons]
    omega

theorem Probed.insertAll (h : Probed empty home t) (hks : ∀ k ∈ ks, k ≠ empty) :
    Probed empty home (insertAll empty home t ks) := by
  induction ks generalizing t with
  | nil => exact h
  | cons k ks ih =>
    exact ih (h.insert (hks k mem_cons_self)) fun v hv => hks v (mem_cons_of_mem _ hv)

/-- **Keys are inserted** where there is room for all of them, or where room is left. -/
theorem Probed.mem_insertAll (h : Probed empty home t) (hks : ∀ k ∈ ks, k ≠ empty)
    (hroom : taken empty t + ks.length ≤ t.length ∨ taken empty (Lib.insertAll empty home t ks) < t.length)
    (hv : v ≠ empty) : v ∈ Lib.insertAll empty home t ks ↔ v ∈ t ∨ v ∈ ks := by
  induction ks generalizing t with
  | nil => exact ⟨.inl, fun hv => hv.elim id nofun⟩
  | cons k ks ih =>
    have hk : k ≠ empty := hks k mem_cons_self
    have hks' : ∀ v ∈ ks, v ≠ empty := fun v hv => hks v (mem_cons_of_mem _ hv)
    have hfold : Lib.insertAll empty home t (k :: ks) = Lib.insertAll empty home (Lib.insert empty home t k) ks := rfl
    have htaken := taken_insert home t hk
    have hlength := length_insert empty home t k
    have hall := taken_le_insertAll home (Lib.insert empty home t k) hks'
    rw [hfold, length_cons] at hroom
    rw [hfold, ih (h.insert hk) hks' (by rw [hlength]; omega), h.mem_insert hk (by omega) hv, List.mem_cons, or_assoc]

theorem taken_clearRun (hm : m ≤ t.length) (htaken : ∀ d < m, slotAt empty t (a + d) ≠ empty) :
    taken empty (clearRun empty t a m) + m = taken empty t := by
  induction m with
  | zero => rfl
  | succ m ih =>
    have hpos : 0 < t.length := by omega
    have hp := mod_lt_clearRun empty a m hpos
    have hnot : ¬ InRun t a m ((a + m) % t.length) := by
      rintro ⟨d, hd, hmod⟩
      rw [Nat.mod_mod] at hmod
      have hcancel : d ≡ m [MOD t.length] := Nat.ModEq.add_left_cancel' a hmod
      have hd' := Nat.mod_eq_of_lt (show d < t.length by omega)
      have hm' := Nat.mod_eq_of_lt (show m < t.length by omega)
      have : d % t.length = m % t.length := hcancel
      omega
    have hslot : slotAt empty (clearRun empty t a m) ((a + m) % t.length) ≠ empty := by
      rw [slotAt_clearRun_of_not_inRun hpos hnot, slotAt_mod]
      exact htaken m (Nat.lt_succ_self m)
    have hset := taken_set_empty hp hslot
    have hrest := ih (by omega) fun d hd => htaken d (by omega)
    rw [clearRun]
    omega

/-- **A key is removed**: its run is cleared, and the others of the run are inserted again. -/
theorem Probed.remove (h : Probed empty home t) (hm : m < t.length)
    (htaken : ∀ d < m, slotAt empty t (a + d) ≠ empty) (hend : slotAt empty t (a + m) = empty)
    (hk : k ∈ runAt empty t a m) :
    Probed empty home (Lib.insertAll empty home (Lib.clearRun empty t a m)
        ((runAt empty t a m).filter (· ≠ k))) ∧
      ∀ v, v ≠ empty → (v ∈ Lib.insertAll empty home (Lib.clearRun empty t a m)
        ((runAt empty t a m).filter (· ≠ k)) ↔ v ∈ t ∧ v ≠ k) := by
  have hpos : 0 < t.length := by omega
  have hclear := taken_clearRun (by omega) htaken
  have hle := taken_le_length empty t
  have hlength : ((runAt empty t a m).filter (· ≠ k)).length ≤ m := by
    refine (List.length_filter_le _ _).trans ?_
    rw [runAt, List.length_map, List.length_range]
  have hks : ∀ v ∈ (runAt empty t a m).filter (· ≠ k), v ≠ empty := by
    intro v hv
    obtain ⟨d, hd, rfl⟩ := mem_runAt.1 (mem_filter.1 hv).1
    exact htaken d hd
  refine ⟨(h.clearRun hm hend).insertAll hks, fun v hv => ?_⟩
  rw [(h.clearRun hm hend).mem_insertAll hks (.inl (by rw [length_clearRun]; omega)) hv,
    mem_clearRun hpos hv, mem_filter, mem_runAt]
  constructor
  · rintro (⟨i, hi, hout, rfl⟩ | ⟨⟨d, hd, rfl⟩, hne⟩)
    · refine ⟨slotAt_mem hpos i, ?_⟩
      -- `k` stands in the run only
      rintro rfl
      obtain ⟨d, hd, hslot⟩ := mem_runAt.1 hk
      rw [← slotAt_mod] at hslot
      have hi' := h.unique i hi _ (Nat.mod_lt (a + d) hpos) hv hslot.symm
      exact hout ⟨d, hd, by rw [← hi', Nat.mod_eq_of_lt hi]⟩
    · exact ⟨slotAt_mem hpos _, of_decide_eq_true hne⟩
  · rintro ⟨hvt, hne⟩
    obtain ⟨i, hi, rfl⟩ := (mem_iff_slotAt empty).1 hvt
    by_cases hin : InRun t a m i
    · obtain ⟨d, hd, hmod⟩ := hin
      exact .inr ⟨⟨d, hd, slotAt_congr hmod⟩, decide_eq_true hne⟩
    · exact .inl ⟨i, hi, hin, rfl⟩

theorem Probed.length_filter_runAt (h : Probed empty home t) (hm : m ≤ t.length)
    (htaken : ∀ d < m, slotAt empty t (a + d) ≠ empty) (hk : k ∈ runAt empty t a m) :
    ((runAt empty t a m).filter (· ≠ k)).length + 1 = m := by
  have hnodup := h.nodup_runAt hm htaken
  have herase : (runAt empty t a m).erase k = (runAt empty t a m).filter (· ≠ k) := by
    rw [hnodup.erase_eq_filter]
    congr 1
    funext v
    exact (decide_not).symm
  have hpos := List.length_pos_of_mem hk
  rw [← herase, List.length_erase_of_mem hk]
  rw [runAt, List.length_map, List.length_range] at hpos ⊢
  omega

theorem Probed.taken_insertAll (h : Probed empty home t) (hks : ∀ k ∈ ks, k ≠ empty ∧ k ∉ t)
    (hnodup : ks.Nodup) (hroom : taken empty t + ks.length ≤ t.length) :
    taken empty (Lib.insertAll empty home t ks) = taken empty t + ks.length := by
  induction ks generalizing t with
  | nil => rfl
  | cons k ks ih =>
    obtain ⟨hk, hnot⟩ := hks k mem_cons_self
    rw [List.nodup_cons] at hnodup
    rw [length_cons] at hroom
    have hlt : taken empty t < t.length := by omega
    have hone : taken empty (Lib.insert empty home t k) = taken empty t + 1 := by
      have hmem := (h.mem_insert hk hlt hk).2 (.inr rfl)
      unfold Lib.insert at hmem ⊢
      split at hmem
      · rename_i p hprobe
        obtain ⟨d, hd, rfl, hfree, -⟩ := probe_free hprobe
        exact taken_set (Nat.mod_lt _ (by omega)) ((slotAt_mod _).trans hfree) hk
      · exact absurd hmem hnot
    have hfold : Lib.insertAll empty home t (k :: ks) = Lib.insertAll empty home (Lib.insert empty home t k) ks := rfl
    have hrest : ∀ v ∈ ks, v ≠ empty ∧ v ∉ Lib.insert empty home t k := by
      intro v hv
      obtain ⟨hne, hvt⟩ := hks v (mem_cons_of_mem _ hv)
      refine ⟨hne, fun hmem => ?_⟩
      rcases (h.mem_insert hk hlt hne).1 hmem with hvt' | rfl
      · exact hvt hvt'
      · exact hnodup.1 hv
    rw [hfold, ih (h.insert hk) hrest hnodup.2 (by rw [length_insert]; omega), hone, length_cons]
    omega

theorem Probed.taken_remove (h : Probed empty home t) (hm : m < t.length)
    (htaken : ∀ d < m, slotAt empty t (a + d) ≠ empty) (hend : slotAt empty t (a + m) = empty)
    (hk : k ∈ runAt empty t a m) :
    taken empty (Lib.insertAll empty home (Lib.clearRun empty t a m)
      ((runAt empty t a m).filter (· ≠ k))) + 1 = taken empty t := by
  have hpos : 0 < t.length := by omega
  have hclear := taken_clearRun (Nat.le_of_lt hm) htaken
  have hlength := h.length_filter_runAt (Nat.le_of_lt hm) htaken hk
  have hle := taken_le_length empty t
  have hks : ∀ v ∈ (runAt empty t a m).filter (· ≠ k), v ≠ empty ∧ v ∉ Lib.clearRun empty t a m := by
    intro v hv
    obtain ⟨d, hd, rfl⟩ := mem_runAt.1 (mem_filter.1 hv).1
    refine ⟨htaken d hd, fun hmem => ?_⟩
    obtain ⟨i, hi, hout, hslot⟩ := (mem_clearRun hpos (htaken d hd)).1 hmem
    rw [← slotAt_mod (a + d)] at hslot
    have hne : slotAt empty t i ≠ empty := by
      rw [hslot, slotAt_mod]
      exact htaken d hd
    have hi' := h.unique i hi _ (Nat.mod_lt (a + d) hpos) hne hslot
    exact hout ⟨d, hd, by rw [← hi', Nat.mod_eq_of_lt hi]⟩
  rw [(h.clearRun hm hend).taken_insertAll hks ((h.nodup_runAt (Nat.le_of_lt hm) htaken).filter _)
    (by rw [length_clearRun]; omega)]
  omega

/-- **The slots outside the run stay as they are** when a key is removed. -/
theorem Probed.slotAt_remove (h : Probed empty home t) (hm : m < t.length)
    (htaken : ∀ d < m, slotAt empty t (a + d) ≠ empty) (hend : slotAt empty t (a + m) = empty) {i : ℕ}
    (hi : ¬ InRun t a m i) :
    slotAt empty (Lib.insertAll empty home (Lib.clearRun empty t a m)
      ((runAt empty t a m).filter (· ≠ k))) i = slotAt empty t i := by
  have hpos : 0 < t.length := by omega
  -- after the keys of `e` slots, only these slots have changed
  have hstep : ∀ e ≤ m, ∀ i, ¬ InRun t a e i →
      slotAt empty (Lib.insertAll empty home (Lib.clearRun empty t a m)
        ((runAt empty t a e).filter (· ≠ k))) i = slotAt empty (Lib.clearRun empty t a m) i := by
    intro e
    induction e with
    | zero => exact fun _ _ _ => rfl
    | succ e ih =>
      intro he i hi
      have hout : ¬ InRun t a e i := fun ⟨d, hd, hmod⟩ => hi ⟨d, by omega, hmod⟩
      have hrun : runAt empty t a (e + 1) = runAt empty t a e ++ [slotAt empty t (a + e)] := by
        rw [runAt, List.range_succ, List.map_append, List.map_singleton, runAt]
      have hbefore := ih (by omega)
      generalize hT : Lib.insertAll empty home (Lib.clearRun empty t a m)
        ((runAt empty t a e).filter (· ≠ k)) = T at hbefore
      have hlength : T.length = t.length := by rw [← hT, length_insertAll, length_clearRun]
      by_cases hk : slotAt empty t (a + e) = k
      · have hfilter : (runAt empty t a (e + 1)).filter (· ≠ k) = (runAt empty t a e).filter (· ≠ k) := by
          simp [hrun, hk]
        rw [hfilter, hT]
        exact hbefore i hout
      · have hfilter : (runAt empty t a (e + 1)).filter (· ≠ k) =
            (runAt empty t a e).filter (· ≠ k) ++ [slotAt empty t (a + e)] := by
          simp [hrun, hk]
        have hfold : Lib.insertAll empty home (Lib.clearRun empty t a m)
            ((runAt empty t a (e + 1)).filter (· ≠ k)) =
              Lib.insert empty home T (slotAt empty t (a + e)) := by
          rw [hfilter, ← hT, Lib.insertAll, Lib.insertAll, List.foldl_append]
          rfl
        rw [hfold]
        obtain ⟨d, hd, hmod, hpath⟩ :=
          h.reached _ (Nat.mod_lt (a + e) hpos) (by rw [slotAt_mod]; exact htaken e (by omega))
        rw [slotAt_mod] at hmod hpath
        have hnot : ¬ InRun t a e (home (slotAt empty t (a + e)) + d) := by
          rintro ⟨e', he', hmod'⟩
          have hcancel : e' ≡ e [MOD t.length] := Nat.ModEq.add_left_cancel' a (Eq.trans hmod' hmod)
          have := Nat.ModEq.eq_of_lt_of_lt hcancel (by omega) (by omega)
          omega
        have hfreeAt : slotAt empty T (home (slotAt empty t (a + e)) + d) = empty := by
          rw [hbefore _ hnot]
          exact slotAt_clearRun_of_inRun hpos ⟨e, by omega, hmod.symm⟩
        unfold Lib.insert
        split
        · rename_i p hprobe
          obtain ⟨d', hd', rfl, hfree, hpass⟩ := probe_free hprobe
          have hle : d' ≤ d := by
            by_contra hgt
            exact (hpass d (by omega)).1 hfreeAt
          rw [hlength, slotAt_set (by rw [hlength]; exact Nat.mod_lt _ hpos), hlength, if_neg, hbefore i hout]
          intro hip
          refine hi ?_
          have hin : InRun t a m (home (slotAt empty t (a + e)) + d') := by
            by_contra hfar
            have hsame : slotAt empty T (home (slotAt empty t (a + e)) + d') =
                slotAt empty t (home (slotAt empty t (a + e)) + d') := by
              rw [hbefore _ fun ⟨x, hx, hmod'⟩ => hfar ⟨x, by omega, hmod'⟩, slotAt_clearRun_of_not_inRun hpos hfar]
            rcases Nat.lt_or_eq_of_le hle with hlt | rfl
            · exact hpath d' hlt (hsame.symm.trans hfree)
            · exact hfar ⟨e, by omega, hmod.symm⟩
          obtain ⟨x, hx, hmod'⟩ := InRun.of_path hm (by omega) hend hmod hpath hle hin
          exact ⟨x, hx, hmod'.trans hip.symm⟩
        · exact hbefore i hout
  rw [hstep m (le_refl m) i hi, slotAt_clearRun_of_not_inRun hpos hi]

end Lib
