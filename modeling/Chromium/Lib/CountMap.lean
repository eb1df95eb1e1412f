import Mathlib.Data.List.AList
import Mathlib.Algebra.BigOperators.Group.List.Basic
import Mathlib.Tactic.Ring

/-!
# Counts and sums over the entries of a map

`countEntries p m` is the number of the entries of the map `m` whose value satisfies `p`, and `sumEntries f m` adds up what
`f` says of each entry.  The lemmas say how they change when an entry is put in, exchanged or taken out.
-/

namespace Lib

universe u v

variable {α : Type u} {β : Type v}

/-- The number of the entries whose value satisfies `p`. -/
def countEntries (p : β → Bool) (m : AList fun _ : α => β) : ℕ := m.entries.countP fun e => p e.2

def sumEntries (f : α → β → ℤ) (m : AList fun _ : α => β) : ℤ := (m.entries.map fun e => f e.1 e.2).sum

variable {p : β → Bool} {f : α → β → ℤ} {m : AList fun _ : α => β} {a : α} {b : β}

@[simp] theorem countEntries_empty : countEntries p (∅ : AList fun _ : α => β) = 0 := rfl

@[simp] theorem sumEntries_empty : sumEntries f (∅ : AList fun _ : α => β) = 0 := rfl

theorem countEntries_pos : 0 < countEntries p m ↔ ∃ e ∈ m.entries, p e.2 = true := List.countP_pos_iff

variable [DecidableEq α]

theorem countEntries_insert_of_notMem (h : a ∉ m) :
    countEntries p (m.insert a b) = countEntries p m + if p b then 1 else 0 := by
  unfold countEntries
  rw [AList.entries_insert_of_notMem h, List.countP_cons]

/-- An entry that is found, and the map without it. -/
theorem exists_entries (h : m.lookup a = some b) :
    ∃ l₁ l₂, m.entries = l₁ ++ ⟨a, b⟩ :: l₂ ∧ m.entries.kerase a = l₁ ++ l₂ := by
  have hmem : a ∈ m.entries.keys := AList.mem_keys.1 (AList.lookup_isSome.1 (by rw [h]; rfl))
  obtain ⟨c, l₁, l₂, hnot, heq, hker⟩ := List.exists_of_kerase hmem
  have hlookup : m.entries.dlookup a = some b := h
  obtain rfl : c = b := by
    rw [heq, List.dlookup_append, List.dlookup_eq_none.2 hnot, List.dlookup_cons_eq] at hlookup
    simpa using hlookup
  exact ⟨l₁, l₂, heq, hker⟩

theorem countEntries_erase (h : m.lookup a = some b) :
    countEntries p m = countEntries p (m.erase a) + if p b then 1 else 0 := by
  obtain ⟨l₁, l₂, heq, hker⟩ := exists_entries h
  show m.entries.countP _ = (m.entries.kerase a).countP _ + _
  rw [hker, heq, List.countP_append, List.countP_append, List.countP_cons, Nat.add_assoc]

/-- **Exchanging a value takes the old one out of the count and puts the new one in.** -/
theorem countEntries_insert (b' : β) (h : m.lookup a = some b) :
    countEntries p (m.insert a b') + (if p b then 1 else 0) =
      countEntries p m + if p b' then 1 else 0 := by
  have herase := countEntries_erase (p := p) h
  have hinsert : countEntries p (m.insert a b') = countEntries p (m.erase a) + if p b' then 1 else 0 := by
    rw [countEntries, AList.entries_insert, List.countP_cons]
    rfl
  omega

theorem sumEntries_insert_of_lookup_none (h : m.lookup a = none) :
    sumEntries f (m.insert a b) = sumEntries f m + f a b := by
  unfold sumEntries
  rw [AList.entries_insert_of_notMem (AList.lookup_eq_none.1 h), List.map_cons, List.sum_cons, add_comm]

theorem sumEntries_erase (h : m.lookup a = some b) : sumEntries f (m.erase a) = sumEntries f m - f a b := by
  obtain ⟨l₁, l₂, heq, hker⟩ := exists_entries h
  unfold sumEntries
  change ((m.entries.kerase a).map _).sum = _
  rw [hker, heq, List.map_append, List.map_append, List.sum_append, List.sum_append, List.map_cons, List.sum_cons]
  ring

theorem sumEntries_insert_of_lookup_some (b' : β) (h : m.lookup a = some b) :
    sumEntries f (m.insert a b') = sumEntries f m - f a b + f a b' := by
  have hinsert : sumEntries f (m.insert a b') = f a b' + sumEntries f (m.erase a) := by
    rw [sumEntries, AList.entries_insert, List.map_cons, List.sum_cons]
    rfl
  rw [hinsert, sumEntries_erase h]
  ring

end Lib
