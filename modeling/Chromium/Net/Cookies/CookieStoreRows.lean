import Chromium.Net.Cookies.CookieStore
import Mathlib.Data.List.Perm.Basic

/-!
# The rows that a cookie store has loaded

The database maps each domain key to the host keys of its rows.  A load takes a key out of the map and puts its rows into the
buffer, so what has been handed over and what is in the buffer are the rows whose keys are not in the map (`Backend.Rows`).
-/

namespace Chromium.Net.Cookies

open Lib Lib.SortedMap
open List (append_nil filter_congr filter_filter mem_filter)

theorem flatMap_filter_perm {α κ : Type} [DecidableEq κ] (f : α → κ) (l : List α) {keys : List κ} (h : keys.Nodup) :
    (keys.flatMap fun key => l.filter fun a => f a = key).Perm (l.filter fun a => f a ∈ keys) := by
  induction keys with
  | nil => simp only [List.flatMap_nil, List.not_mem_nil, decide_false, List.filter_false, List.Perm.refl]
  | cons key keys ih =>
    obtain ⟨hnot, hrest⟩ := List.nodup_cons.1 h
    rw [List.flatMap_cons]
    refine ((ih hrest).append_left _).trans ?_
    have hsplit := List.filter_append_perm (fun a => decide (f a = key)) (l.filter fun a => f a ∈ key :: keys)
    rw [filter_filter, filter_filter] at hsplit
    have hfirst : (l.filter fun a => decide (f a = key) && decide (f a ∈ key :: keys)) = l.filter fun a => f a = key := by
      refine filter_congr fun a _ => ?_
      rw [← Bool.decide_and]
      exact decide_eq_decide.2 ⟨fun h => h.1, fun h => ⟨h, h ▸ List.mem_cons_self⟩⟩
    have hsecond : (l.filter fun a => !decide (f a = key) && decide (f a ∈ key :: keys)) = l.filter fun a => f a ∈ keys := by
      refine filter_congr fun a _ => ?_
      rw [← decide_not, ← Bool.decide_and]
      refine decide_eq_decide.2 ⟨fun h => (List.mem_cons.1 h.2).resolve_left h.1, fun hmem => ⟨?_, List.mem_cons_of_mem _ hmem⟩⟩
      rintro rfl
      exact hnot hmem
    rw [hfirst, hsecond] at hsplit
    exact hsplit

namespace Backend

variable {Columns : Type} {getDomainAndRegistry : List UInt8 → List UInt8} {rows stored : List (CookieRow Columns)}
  {b b' : Backend Columns} {key : List UInt8}

/-! ## The map of the keys -/

theorem mem_distinctHostKeys {domain : List UInt8} : domain ∈ distinctHostKeys rows ↔ ∃ row ∈ rows, row.hostKey = domain := by
  rw [distinctHostKeys, List.mem_dedup, List.mem_map]

theorem foldl_addDomain (getDomainAndRegistry : List UInt8 → List UInt8) {domains : List (List UInt8)} (h : domains.Nodup) :
    Sorted (domains.foldl (addDomain getDomainAndRegistry) []) ∧ ∀ key,
      (((get? key (domains.foldl (addDomain getDomainAndRegistry) [])).getD []).Perm
        (domains.filter fun domain => getDomainAndRegistry domain = key)) ∧
      (get? key (domains.foldl (addDomain getDomainAndRegistry) []) = none ↔
        domains.filter (fun domain => getDomainAndRegistry domain = key) = []) := by
  induction domains using List.reverseRecOn with
  | nil => exact ⟨List.Pairwise.nil, fun key => ⟨List.Perm.refl _, fun _ => rfl, fun _ => rfl⟩⟩
  | append_singleton domains domain ih =>
    have hnodup := List.nodup_append.1 h
    obtain ⟨hsorted, hkeys⟩ := ih hnodup.1
    rw [List.foldl_append, List.foldl_cons, List.foldl_nil, addDomain]
    refine ⟨hsorted.set _ _, fun key => ?_⟩
    rw [get?_set, List.filter_append, List.filter_singleton]
    by_cases hkey : getDomainAndRegistry domain = key
    · have hold := (hkeys key).1
      have hnot : domain ∉ (get? key (domains.foldl (addDomain getDomainAndRegistry) [])).getD [] := by
        intro hmem
        have hin := List.mem_of_mem_filter (hold.mem_iff.1 hmem)
        exact hnodup.2.2 domain hin domain (List.mem_singleton.2 rfl) rfl
      rw [if_pos hkey, hkey, insertDomain, if_neg (by simpa using hnot), decide_eq_true rfl, cond_true]
      refine ⟨?_, nofun, fun h => ?_⟩
      swap
      · exact absurd h (List.append_ne_nil_of_right_ne_nil _ (List.cons_ne_nil _ _))
      rw [Option.getD_some]
      exact (List.perm_orderedInsert _ _ _).trans ((hold.cons domain).trans (List.perm_append_singleton domain _).symm)
    · rw [if_neg hkey, decide_eq_false hkey, cond_false, append_nil]
      exact hkeys key

/-- What a database that is open has loaded, when these rows have been handed over. -/
structure Rows (getDomainAndRegistry : List UInt8 → List UInt8) (rows stored : List (CookieRow Columns))
    (b : Backend Columns) : Prop where
  sorted : Sorted b.keysToLoad
  domains {key : List UInt8} {domains : List (List UInt8)} (h : get? key b.keysToLoad = some domains) :
    (rowsOf rows domains).Perm (rows.filter fun row => getDomainAndRegistry row.hostKey = key)
  handed : (stored ++ b.cookies).Perm (rows.filter fun row => get? (getDomainAndRegistry row.hostKey) b.keysToLoad = none)

theorem rows_foldl_addDomain (getDomainAndRegistry : List UInt8 → List UInt8) (rows : List (CookieRow Columns))
    (hcookies : b.cookies = [])
    (hkeys : b.keysToLoad = (distinctHostKeys rows).foldl (addDomain getDomainAndRegistry) []) :
    b.Rows getDomainAndRegistry rows [] := by
  have hnodup : (distinctHostKeys rows).Nodup := List.nodup_dedup _
  obtain ⟨hsorted, hall⟩ := foldl_addDomain getDomainAndRegistry hnodup
  rw [← hkeys] at hsorted hall
  refine ⟨hsorted, fun {key domains} hget => ?_, ?_⟩
  · have hperm := (hall key).1
    rw [hget, Option.getD_some] at hperm
    have hdomains : domains.Nodup := hperm.nodup_iff.2 (hnodup.filter _)
    refine (flatMap_filter_perm CookieRow.hostKey rows hdomains).trans (.of_eq (filter_congr fun row hrow => ?_))
    refine decide_eq_decide.2 (hperm.mem_iff.trans ?_)
    rw [mem_filter, decide_eq_true_iff]
    exact ⟨fun h => h.2, fun h => ⟨mem_distinctHostKeys.2 ⟨row, hrow, rfl⟩, h⟩⟩
  · rw [hcookies, append_nil]
    refine .of_eq (Eq.symm (List.filter_eq_nil_iff.2 fun row hrow hnone => ?_))
    have hempty := (hall _).2.1 (decide_eq_true_iff.1 hnone)
    have hmem : row.hostKey ∈ (distinctHostKeys rows).filter fun domain =>
        getDomainAndRegistry domain = getDomainAndRegistry row.hostKey :=
      mem_filter.2 ⟨mem_distinctHostKeys.2 ⟨row, hrow, rfl⟩, decide_eq_true rfl⟩
    rw [hempty] at hmem
    cases hmem

theorem exists_row_of_foldl (rows : List (CookieRow Columns)) {e : List UInt8 × List (List UInt8)}
    (he : e ∈ (distinctHostKeys rows).foldl (addDomain getDomainAndRegistry) []) :
    ∃ row ∈ rows, getDomainAndRegistry row.hostKey = e.1 := by
  have hkey := (foldl_addDomain getDomainAndRegistry (List.nodup_dedup (rows.map CookieRow.hostKey))).2 e.1
  have hne := mt hkey.2.2 (get?_ne_none_of_mem he)
  obtain ⟨domain, hmem⟩ := List.exists_mem_of_ne_nil _ hne
  obtain ⟨hdomain, heq⟩ := mem_filter.1 hmem
  obtain ⟨row, hrow, rfl⟩ := mem_distinctHostKeys.1 hdomain
  exact ⟨row, hrow, decide_eq_true_iff.1 heq⟩

/-! ## One load -/

def take (rows : List (CookieRow Columns)) (key : List UInt8) (domains : List (List UInt8)) (b : Backend Columns) :
    Backend Columns := { b.loadCookiesForDomains rows domains with keysToLoad := erase key b.keysToLoad }

/-- A load leaves the backend as it is, or takes out a key. -/
inductive Loads (rows : List (CookieRow Columns)) (b : Backend Columns) : Backend Columns → Prop
  | nothing : Loads rows b b
  | take {key : List UInt8} {domains : List (List UInt8)} (h : get? key b.keysToLoad = some domains) :
    Loads rows b (b.take rows key domains)

theorem loads_loadKey (rows : List (CookieRow Columns)) (key : List UInt8) (b : Backend Columns) :
    Loads rows b (b.loadKey rows key) ∧ get? key (b.loadKey rows key).keysToLoad = none := by
  unfold loadKey
  split
  · next hnone => exact ⟨.nothing, hnone⟩
  · next domains hsome => exact ⟨.take hsome, (get?_erase _ _ _).trans (if_pos rfl)⟩

theorem loads_loadFirst (h : Sorted b.keysToLoad) (rows : List (CookieRow Columns)) : Loads rows b (b.loadFirst rows) := by
  unfold loadFirst
  split
  · exact .nothing
  · next key domains keysToLoad heq =>
    have herase : erase key b.keysToLoad = keysToLoad := by
      rw [heq] at h ⊢
      exact h.erase_cons
    have hget : get? key b.keysToLoad = some domains := by rw [heq, get?, if_pos rfl]
    have htake : Loads rows b (b.take rows key domains) := .take hget
    rw [take, herase] at htake
    exact htake

theorem initialized_initializeDatabase (getDomainAndRegistry : List UInt8 → List UInt8) (rows : List (CookieRow Columns))
    (b : Backend Columns) : (b.initializeDatabase getDomainAndRegistry rows).initialized = true := by
  unfold initializeDatabase
  split
  · next h => exact h
  · rfl

theorem initialized_loadFirst (rows : List (CookieRow Columns)) (b : Backend Columns) :
    (b.loadFirst rows).initialized = b.initialized := by
  unfold loadFirst
  split <;> rfl

theorem Loads.initialized (h : Loads rows b b') : b'.initialized = b.initialized := by cases h <;> rfl

theorem Loads.dbTasks (h : Loads rows b b') : b'.dbTasks = b.dbTasks := by cases h <;> rfl

theorem Loads.ioTasks (h : Loads rows b b') : b'.ioTasks = b.ioTasks := by cases h <;> rfl

theorem Loads.get? (h : Loads rows b b') (hnone : get? key b.keysToLoad = none) : get? key b'.keysToLoad = none := by
  cases h with
  | nothing => exact hnone
  | take hsome =>
    refine (get?_erase _ _ _).trans ?_
    rw [hnone, ite_self]

theorem Loads.keysToLoad (h : Loads rows b b') (hnil : b.keysToLoad = []) : b' = b := by
  cases h with
  | nothing => rfl
  | take hsome =>
    rw [hnil] at hsome
    cases hsome

theorem Loads.length (h : Loads rows b b') : b'.keysToLoad.length ≤ b.keysToLoad.length := by
  cases h with
  | nothing => exact le_rfl
  | take hsome => exact List.length_filter_le _ _

theorem Loads.mem_cookies (h : Loads rows b b') (hrows : b.Rows getDomainAndRegistry rows stored) {row : CookieRow Columns}
    (hrow : row ∈ b'.cookies) :
    row ∈ b.cookies ∨ SortedMap.get? (getDomainAndRegistry row.hostKey) b.keysToLoad ≠ none := by
  cases h with
  | nothing => exact .inl hrow
  | take hsome =>
    rcases List.mem_append.1 hrow with hmem | hmem
    · exact .inl hmem
    · have hkey := (mem_filter.1 ((hrows.domains hsome).mem_iff.1 hmem)).2
      rw [decide_eq_true_iff.1 hkey, hsome]
      exact .inr (Option.some_ne_none _)

theorem Rows.loads (hrows : b.Rows getDomainAndRegistry rows stored) (h : Loads rows b b') :
    b'.Rows getDomainAndRegistry rows stored := by
  cases h with
  | nothing => exact hrows
  | @take key domains hsome =>
    refine ⟨hrows.sorted.erase key, fun {other domains'} hget => ?_, ?_⟩
    · rw [take, get?_erase] at hget
      split at hget
      · cases hget
      · exact hrows.domains hget
    · rw [take, loadCookiesForDomains, ← List.append_assoc]
      refine (hrows.handed.append (hrows.domains hsome)).trans ?_
      refine .trans ?_ (List.filter_append_perm (fun row => decide (getDomainAndRegistry row.hostKey ≠ key)) _)
      rw [filter_filter, filter_filter]
      refine (List.Perm.of_eq (filter_congr fun row _ => ?_)).append (.of_eq (filter_congr fun row _ => ?_))
      · rw [← Bool.decide_and, get?_erase]
        refine decide_eq_decide.2 ⟨fun hnone => ⟨?_, ?_⟩, fun h => ?_⟩
        · intro heq
          rw [heq, hsome] at hnone
          cases hnone
        · rw [hnone, ite_self]
        · have hnone := h.2
          rw [if_neg (Ne.symm h.1)] at hnone
          exact hnone
      · rw [← decide_not, ← Bool.decide_and, get?_erase]
        refine decide_eq_decide.2 ⟨fun heq => ⟨not_not_intro heq, if_pos heq.symm⟩, fun h => not_not.1 h.1⟩

theorem Rows.notify (hrows : b.Rows getDomainAndRegistry rows stored) {b' : Backend Columns}
    (hkeys : b'.keysToLoad = b.keysToLoad) (hcookies : b'.cookies = []) :
    b'.Rows getDomainAndRegistry rows (stored ++ b.cookies) := by
  refine ⟨hkeys ▸ hrows.sorted, hkeys ▸ hrows.domains, ?_⟩
  rw [hkeys, hcookies, append_nil]
  exact hrows.handed

theorem Rows.subperm (hrows : b.Rows getDomainAndRegistry rows stored) : (stored ++ b.cookies).Subperm rows :=
  hrows.handed.subperm.trans List.filter_sublist.subperm

/-- **When no keys are to be loaded and the buffer is empty, all rows have been handed over.** -/
theorem Rows.all (hrows : b.Rows getDomainAndRegistry rows stored) (hkeys : b.keysToLoad = []) (hcookies : b.cookies = []) :
    stored.Perm rows := by
  have hhanded := hrows.handed
  rw [hkeys, hcookies, append_nil] at hhanded
  refine hhanded.trans (.of_eq (List.filter_eq_self.2 fun row _ => decide_eq_true rfl))

/-- **The rows that are not to be loaded and not in the buffer have been handed over.** -/
theorem Rows.subperm_of (hrows : b.Rows getDomainAndRegistry rows stored) {p : CookieRow Columns → Bool}
    (hkeys : ∀ row ∈ rows, p row = true → SortedMap.get? (getDomainAndRegistry row.hostKey) b.keysToLoad = none)
    (hcookies : ∀ row ∈ b.cookies, p row = false) : (rows.filter p).Subperm stored := by
  have hfilter := hrows.handed.filter p
  rw [List.filter_append, List.filter_eq_nil_iff.2 fun row hrow => Bool.eq_false_iff.1 (hcookies row hrow), append_nil,
    filter_filter] at hfilter
  have heq : (rows.filter fun row => p row && decide (SortedMap.get? (getDomainAndRegistry row.hostKey) b.keysToLoad = none)) =
      rows.filter p := by
    refine filter_congr fun row hrow => ?_
    cases hp : p row with
    | false => rfl
    | true => rw [decide_eq_true (hkeys row hrow hp), Bool.true_and]
  rw [heq] at hfilter
  exact hfilter.symm.subperm.trans List.filter_sublist.subperm

end Backend

end Chromium.Net.Cookies
