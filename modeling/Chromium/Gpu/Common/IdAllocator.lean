import Chromium.Lib.TransSys
import Mathlib.Data.Finset.Sort

/-!
# The id allocator

`gpu/command_buffer/common/id_allocator.cc`.  Two sets of `uint32`: the ids in use, and those that were freed.  An id is taken
from the freed ones, or from behind the last one in use; only when that would wrap, the first gap is searched.

* the ids in use and the freed ones are disjoint in every run (`Valid`);
* an id that is returned was not in use, as long as there is one left (`Fresh`);
* `AllocateIDAtOrAbove` returns a smaller id than the desired one only when it wraps.
-/

namespace Chromium.Gpu

open Lib

/-- The number of values of a `ResourceId`. -/
def idLimit : ℕ := 4294967296

structure IdAllocator where
  usedIds : Finset ℕ
  freeIds : Finset ℕ

namespace IdAllocator

def new : IdAllocator := ⟨∅, ∅⟩

def lastUsedId (a : IdAllocator) : ℕ := a.usedIds.max.getD 0

/-- The loop of `FindFirstUnusedId`, at an id and the used ids from there on. -/
def firstUnusedFrom : ℕ → List ℕ → ℕ
  | id, [] => id
  | id, used :: rest => if used ≠ id then id else firstUnusedFrom ((id + 1) % idLimit) rest

def findFirstUnusedId (a : IdAllocator) : ℕ := firstUnusedFrom 1 (a.usedIds.sort (· ≤ ·))

def nextId (a : IdAllocator) : ℕ :=
  let id := (a.lastUsedId + 1) % idLimit
  if id = 0 then a.findFirstUnusedId else id

def markAsUsed (a : IdAllocator) (id : ℕ) : IdAllocator × Bool :=
  (⟨insert id a.usedIds, a.freeIds.erase id⟩, id ∉ a.usedIds)

def freeID (a : IdAllocator) (id : ℕ) : IdAllocator :=
  if id ≠ 0 then ⟨a.usedIds.erase id, insert id a.freeIds⟩ else a

/-- The id that `AllocateID` takes. -/
def chooseID (a : IdAllocator) : ℕ :=
  match a.freeIds.min with
  | some id => id
  | none => a.nextId

/-- The id that `AllocateIDAtOrAbove` takes. -/
def chooseIDAtOrAbove (a : IdAllocator) (desiredId : ℕ) : ℕ :=
  -- `free_ids_.lower_bound(desired_id)`
  match (a.freeIds.filter (desiredId ≤ ·)).min with
  | some id => id
  | none => if a.lastUsedId < desiredId then desiredId else a.nextId

def allocateID (a : IdAllocator) : IdAllocator × ℕ := ((a.markAsUsed a.chooseID).1, a.chooseID)

def allocateIDAtOrAbove (a : IdAllocator) (desiredId : ℕ) : IdAllocator × ℕ :=
  ((a.markAsUsed (a.chooseIDAtOrAbove desiredId)).1, a.chooseIDAtOrAbove desiredId)

/-! ### The first gap -/

/-- **The search finds the first id that is not used**, when there is one below the limit. -/
theorem firstUnusedFrom_spec {id : ℕ} {used : List ℕ} (hsorted : used.Pairwise (· < ·)) (hge : ∀ u ∈ used, id ≤ u)
    (hroom : id + used.length < idLimit) :
    id ≤ firstUnusedFrom id used ∧ firstUnusedFrom id used < idLimit ∧ firstUnusedFrom id used ∉ used ∧
      ∀ u, id ≤ u → u < firstUnusedFrom id used → u ∈ used := by
  induction used generalizing id with
  | nil => exact ⟨le_rfl, hroom, List.not_mem_nil, fun u hu hlt => absurd hlt (not_lt.2 hu)⟩
  | cons u rest ih =>
    obtain ⟨hu, hrest⟩ := List.pairwise_cons.1 hsorted
    rw [List.length_cons] at hroom
    rw [firstUnusedFrom]
    split
    · next hne =>
      have hlt : id < u := lt_of_le_of_ne (hge u List.mem_cons_self) (Ne.symm hne)
      refine ⟨le_rfl, by omega, fun hmem => ?_, fun x hx hlt => absurd hlt (not_lt.2 hx)⟩
      rcases List.mem_cons.1 hmem with rfl | hmem
      · exact hne rfl
      · exact absurd (hu id hmem) (by omega)
    · next heq =>
      obtain rfl : u = id := not_not.1 heq
      rw [Nat.mod_eq_of_lt (by omega)]
      obtain ⟨hle, hlt, hnot, hall⟩ := @ih (u + 1) hrest (fun x hx => hu x hx) (by omega)
      refine ⟨by omega, hlt, fun hmem => ?_, fun x hx hxlt => ?_⟩
      · rcases List.mem_cons.1 hmem with heq | hmem
        · omega
        · exact hnot hmem
      · rcases Nat.eq_or_lt_of_le hx with rfl | hx
        · exact List.mem_cons_self
        · exact List.mem_cons_of_mem _ (hall x hx hxlt)

/-! ### What is kept -/

/-- The ids are disjoint and not 0, and each is a `uint32`. -/
structure Valid (a : IdAllocator) : Prop where
  disjoint : Disjoint a.usedIds a.freeIds
  used : ∀ id ∈ a.usedIds, 0 < id ∧ id < idLimit
  free : ∀ id ∈ a.freeIds, 0 < id ∧ id < idLimit

variable {a : IdAllocator} {id desiredId : ℕ}

theorem disjoint_markAsUsed (h : Disjoint a.usedIds a.freeIds) (id : ℕ) :
    Disjoint (a.markAsUsed id).1.usedIds (a.markAsUsed id).1.freeIds := by
  refine Finset.disjoint_left.2 fun x hx hfree => ?_
  obtain ⟨hne, hfree⟩ := Finset.mem_erase.1 hfree
  exact Finset.disjoint_left.1 h ((Finset.mem_insert.1 hx).resolve_left hne) hfree

theorem disjoint_freeID (h : Disjoint a.usedIds a.freeIds) (id : ℕ) :
    Disjoint (a.freeID id).usedIds (a.freeID id).freeIds := by
  unfold freeID
  split
  · refine Finset.disjoint_left.2 fun x hx hfree => ?_
    obtain ⟨hne, hx⟩ := Finset.mem_erase.1 hx
    exact Finset.disjoint_left.1 h hx ((Finset.mem_insert.1 hfree).resolve_left hne)
  · exact h

theorem Valid.markAsUsed (h : Valid a) (hpos : 0 < id) (hlt : id < idLimit) : Valid (a.markAsUsed id).1 where
  disjoint := disjoint_markAsUsed h.disjoint id
  used x hx := by
    rcases Finset.mem_insert.1 hx with rfl | hx
    · exact ⟨hpos, hlt⟩
    · exact h.used x hx
  free x hx := h.free x (Finset.mem_of_mem_erase hx)

theorem Valid.freeID (h : Valid a) (hlt : id < idLimit) : Valid (a.freeID id) where
  disjoint := disjoint_freeID h.disjoint id
  used x hx := by
    unfold IdAllocator.freeID at hx
    split at hx
    · exact h.used x (Finset.mem_of_mem_erase hx)
    · exact h.used x hx
  free x hx := by
    unfold IdAllocator.freeID at hx
    split at hx
    · next hne =>
      rcases Finset.mem_insert.1 hx with rfl | hx
      · exact ⟨Nat.pos_of_ne_zero hne, hlt⟩
      · exact h.free x hx
    · exact h.free x hx

/-! ### What is returned -/

structure Fresh (a : IdAllocator) (id : ℕ) : Prop where
  pos : 0 < id
  lt : id < idLimit
  unused : id ∉ a.usedIds

def HasRoom (a : IdAllocator) : Prop := a.usedIds.card < idLimit - 1

instance instDecidableHasRoom (a : IdAllocator) : Decidable a.HasRoom :=
  inferInstanceAs (Decidable (a.usedIds.card < idLimit - 1))

theorem le_lastUsedId (h : id ∈ a.usedIds) : id ≤ a.lastUsedId := by
  obtain ⟨m, hm⟩ := Finset.max_of_mem h
  have hle := Finset.le_max_of_eq h hm
  rw [lastUsedId, hm]
  exact hle

theorem lastUsedId_mem (h : a.lastUsedId ≠ 0) : a.lastUsedId ∈ a.usedIds := by
  unfold lastUsedId at h ⊢
  cases hm : a.usedIds.max with
  | bot =>
    rw [hm] at h
    exact absurd rfl h
  | coe m => exact Finset.mem_of_max hm

theorem Valid.lastUsedId_lt (h : Valid a) : a.lastUsedId < idLimit := by
  by_cases hzero : a.lastUsedId = 0
  · rw [hzero]
    decide
  · exact (h.used _ (lastUsedId_mem hzero)).2

theorem Valid.findFirstUnusedId (h : Valid a) (hroom : a.HasRoom) :
    Fresh a a.findFirstUnusedId ∧ ∀ u, 0 < u → u < a.findFirstUnusedId → u ∈ a.usedIds := by
  have hlen : (a.usedIds.sort (· ≤ ·)).length < idLimit - 1 := by
    rw [Finset.length_sort]
    exact hroom
  obtain ⟨hle, hlt, hnot, hall⟩ := firstUnusedFrom_spec a.usedIds.sortedLT_sort.pairwise
    (fun u hu => (h.used u ((Finset.mem_sort _).1 hu)).1) (by omega : 1 + _ < idLimit)
  exact ⟨⟨hle, hlt, fun hmem => hnot ((Finset.mem_sort _).2 hmem)⟩,
    fun u hu hlt => (Finset.mem_sort _).1 (hall u hu hlt)⟩

/-- The next id is behind the last one, or it is the first gap, when the last id is in use. -/
theorem Valid.nextId (h : Valid a) (hroom : a.HasRoom) :
    Fresh a a.nextId ∧ (idLimit - 1 ∉ a.usedIds ∧ a.nextId = a.lastUsedId + 1 ∨
      idLimit - 1 ∈ a.usedIds ∧ ∀ u, 0 < u → u < a.nextId → u ∈ a.usedIds) := by
  have hlast := h.lastUsedId_lt
  dsimp only [IdAllocator.nextId]
  by_cases hwrap : a.lastUsedId + 1 = idLimit
  · rw [hwrap, Nat.mod_self, if_pos rfl]
    obtain ⟨hfresh, hall⟩ := h.findFirstUnusedId hroom
    have hne : a.lastUsedId ≠ 0 := fun hzero => by
      rw [hzero] at hwrap
      cases hwrap
    refine ⟨hfresh, .inr ⟨?_, hall⟩⟩
    rw [← hwrap, Nat.add_sub_cancel]
    exact lastUsedId_mem hne
  · rw [Nat.mod_eq_of_lt (by omega), if_neg (Nat.succ_ne_zero _)]
    refine ⟨⟨Nat.succ_pos _, by omega, fun hmem => ?_⟩, .inl ⟨fun hmem => ?_, rfl⟩⟩
    · exact absurd (le_lastUsedId hmem) (by omega)
    · exact absurd (le_lastUsedId hmem) (by omega)

theorem Valid.fresh_of_free (h : Valid a) (hmem : id ∈ a.freeIds) : Fresh a id where
  pos := (h.free id hmem).1
  lt := (h.free id hmem).2
  unused := fun hused => Finset.disjoint_left.1 h.disjoint hused hmem

theorem Valid.chooseID (h : Valid a) (hroom : a.HasRoom) : Fresh a a.chooseID := by
  unfold IdAllocator.chooseID
  split
  · next id hmin => exact h.fresh_of_free (Finset.mem_of_min hmin)
  · exact (h.nextId hroom).1

/-- **`AllocateIDAtOrAbove` takes an unused id**, which is not below the desired one unless it wraps. -/
theorem Valid.chooseIDAtOrAbove (h : Valid a) (hroom : a.HasRoom) (hlt : desiredId < idLimit) :
    Fresh a (a.chooseIDAtOrAbove desiredId) ∧
      (((∃ id ∈ a.freeIds, desiredId ≤ id) ∨ idLimit - 1 ∉ a.usedIds) → desiredId ≤ a.chooseIDAtOrAbove desiredId) ∧
      (¬((∃ id ∈ a.freeIds, desiredId ≤ id) ∨ idLimit - 1 ∉ a.usedIds) →
        ∀ u, 0 < u → u < a.chooseIDAtOrAbove desiredId → u ∈ a.usedIds) := by
  unfold IdAllocator.chooseIDAtOrAbove
  split
  · next id hmin =>
    obtain ⟨hmem, hle⟩ := Finset.mem_filter.1 (Finset.mem_of_min hmin)
    exact ⟨h.fresh_of_free hmem, fun _ => hle, fun hno => absurd (.inl ⟨id, hmem, hle⟩) hno⟩
  · next hmin =>
    have hempty : a.freeIds.filter (desiredId ≤ ·) = ∅ := Finset.min_eq_top.1 hmin
    have hnone : ¬ ∃ id ∈ a.freeIds, desiredId ≤ id := by
      rintro ⟨id, hmem, hle⟩
      exact Finset.notMem_empty id (hempty ▸ Finset.mem_filter.2 ⟨hmem, hle⟩)
    split
    · next hlast =>
      refine ⟨⟨by omega, hlt, fun hmem => ?_⟩, fun _ => le_rfl, fun hno u _ hu => ?_⟩
      · exact absurd (le_lastUsedId hmem) (by omega)
      · have hmem : idLimit - 1 ∈ a.usedIds := by
          by_contra hnot
          exact hno (.inr hnot)
        exact absurd (le_lastUsedId hmem) (by omega)
    · next hlast =>
      obtain ⟨hfresh, ⟨hnot, heq⟩ | ⟨hmem, hall⟩⟩ := h.nextId hroom
      · exact ⟨hfresh, fun _ => by omega, fun hno => absurd (.inr hnot) hno⟩
      · exact ⟨hfresh, fun hor => absurd hmem (hor.resolve_left hnone), fun _ => hall⟩

/-! ### Runs -/

/-- The calls, with the ids that the allocations return. -/
inductive Label
  | allocateID (id : ℕ)
  | allocateIDAtOrAbove (desiredId id : ℕ)
  | markAsUsed (id : ℕ)
  | freeID (id : ℕ)

def idAllocator : TransSys IdAllocator Label where
  init a := a = new
  step a l a' :=
    match l with
    | .allocateID id => a.allocateID = (a', id)
    | .allocateIDAtOrAbove desiredId id => desiredId < idLimit ∧ a.allocateIDAtOrAbove desiredId = (a', id)
    | .markAsUsed id => id < idLimit ∧ a' = (a.markAsUsed id).1
    | .freeID id => id < idLimit ∧ a' = a.freeID id

/-- An id is left to be allocated, and 0 is never marked (`GPU_DCHECK(id)`). -/
def Proper (a : IdAllocator) : Label → Prop
  | .allocateID _ => a.HasRoom
  | .allocateIDAtOrAbove _ _ => a.HasRoom
  | .markAsUsed id => id ≠ 0
  | .freeID _ => True

theorem disjoint_run {tr : List Label} (h : idAllocator.Run tr a) : Disjoint a.usedIds a.freeIds := by
  refine h.invariant (I := fun a => Disjoint a.usedIds a.freeIds) ?_ fun a l a' hi hst => ?_
  · rintro a rfl
    exact Finset.disjoint_empty_left _
  · cases l with
    | allocateID id =>
      cases hst
      exact disjoint_markAsUsed hi _
    | allocateIDAtOrAbove desiredId id =>
      obtain ⟨-, heq⟩ := hst
      cases heq
      exact disjoint_markAsUsed hi _
    | markAsUsed id =>
      obtain ⟨-, rfl⟩ := hst
      exact disjoint_markAsUsed hi id
    | freeID id =>
      obtain ⟨-, rfl⟩ := hst
      exact disjoint_freeID hi id

theorem valid_run {tr : List Label} (h : (idAllocator.restrict Proper).Run tr a) : Valid a := by
  refine h.invariant (I := Valid) ?_ fun a l a' hi hst => ?_
  · rintro a rfl
    exact ⟨Finset.disjoint_empty_left _, fun id hid => absurd hid (Finset.notMem_empty id),
      fun id hid => absurd hid (Finset.notMem_empty id)⟩
  · obtain ⟨hproper, hst⟩ := hst
    cases l with
    | allocateID id =>
      have hfresh := hi.chooseID hproper
      cases hst
      exact hi.markAsUsed hfresh.pos hfresh.lt
    | allocateIDAtOrAbove desiredId id =>
      obtain ⟨hlt, heq⟩ := hst
      have hfresh := (hi.chooseIDAtOrAbove hproper hlt).1
      cases heq
      exact hi.markAsUsed hfresh.pos hfresh.lt
    | markAsUsed id =>
      obtain ⟨hlt, rfl⟩ := hst
      exact hi.markAsUsed (Nat.pos_of_ne_zero hproper) hlt
    | freeID id =>
      obtain ⟨hlt, rfl⟩ := hst
      exact hi.freeID hlt

/-- **The id allocator.**  In every run the ids in use and the freed ones are disjoint.  As long as an id is left, one that
was not in use is returned, and one at or above the desired id if such an id was freed or the largest one is not in use;
otherwise the first one that is not in use. -/
theorem idAllocator_run (tr : List Label) (a : IdAllocator) :
    (idAllocator.Run tr a → Disjoint a.usedIds a.freeIds) ∧
      ((idAllocator.restrict Proper).Run tr a → a.HasRoom → Fresh a a.allocateID.2 ∧
        ∀ desiredId < idLimit, Fresh a (a.allocateIDAtOrAbove desiredId).2 ∧
          (((∃ id ∈ a.freeIds, desiredId ≤ id) ∨ idLimit - 1 ∉ a.usedIds) →
            desiredId ≤ (a.allocateIDAtOrAbove desiredId).2) ∧
          (¬((∃ id ∈ a.freeIds, desiredId ≤ id) ∨ idLimit - 1 ∉ a.usedIds) →
            ∀ u, 0 < u → u < (a.allocateIDAtOrAbove desiredId).2 → u ∈ a.usedIds)) :=
  ⟨disjoint_run, fun h hroom => ⟨(valid_run h).chooseID hroom, fun _ hlt => (valid_run h).chooseIDAtOrAbove hroom hlt⟩⟩

def largestUsed : IdAllocator := ⟨{4294967295}, ∅⟩

theorem largestUsed_run : (idAllocator.restrict Proper).Run [.markAsUsed 4294967295] largestUsed := by
  have h0 : (idAllocator.restrict Proper).Run [] new := .init rfl
  exact h0.step (l := Label.markAsUsed 4294967295) ⟨(by decide : 4294967295 ≠ 0), by decide, rfl⟩

theorem largestUsed_wraps : (largestUsed.allocateIDAtOrAbove 4294967294).2 = 1 := by
  have hlast : largestUsed.lastUsedId = 4294967295 := rfl
  have hfirst : largestUsed.findFirstUnusedId = 1 := by
    unfold findFirstUnusedId largestUsed
    rw [Finset.sort_singleton]
    rfl
  show largestUsed.chooseIDAtOrAbove 4294967294 = 1
  unfold chooseIDAtOrAbove nextId
  rw [hlast, hfirst]
  rfl

theorem idAllocator_run_largestUsed :
    Disjoint largestUsed.usedIds largestUsed.freeIds ∧ Fresh largestUsed largestUsed.allocateID.2 := by
  have hrun := idAllocator_run [.markAsUsed 4294967295] largestUsed
  have hroom : largestUsed.HasRoom := by decide
  exact ⟨hrun.1 largestUsed_run.of_restrict, (hrun.2 largestUsed_run hroom).1⟩

/-- **Near the limit the id that is returned may be smaller than the desired one, though a larger one is unused.** -/
theorem atOrAbove_wraps :
    ¬ ∀ tr a, (idAllocator.restrict Proper).Run tr a → a.HasRoom → ∀ desiredId < idLimit,
      (∃ id < idLimit, desiredId ≤ id ∧ id ∉ a.usedIds) → desiredId ≤ (a.allocateIDAtOrAbove desiredId).2 := by
  intro h
  have hle := h _ _ largestUsed_run (by decide) 4294967294 (by decide)
    ⟨4294967294, by decide, le_rfl, by decide⟩
  rw [largestUsed_wraps] at hle
  exact absurd hle (by decide)

end IdAllocator

end Chromium.Gpu
