import Chromium.Quota.UsageTracker
import Mathlib.Data.List.Dedup

/-!
# What the cache of usages says

The global usage is the sum of the cached usages in every run.  A cached usage is what the client stores as long as no change
falls into the gap: an origin has been delivered (or was left out, for it had no data), and its host is not cached yet.  Such
a change is neither added to the cache nor asked for again.  `Safe` leaves these changes out, and the invariant `Accurate`
carries the rest: an origin that a task does not wait for, of a host that it does wait for, is cached or has no data.
-/

set_option linter.unusedSectionVars false

namespace Chromium.Quota

open Lib

variable {Origin Host : Type} [DecidableEq Origin] [LinearOrder Host]

namespace ClientUsageTracker

variable {hostOf : Origin → Host} {unlimited : Origin → Bool} {t : ClientUsageTracker Origin Host}

def Waits (t : ClientUsageTracker Origin Host) (pending : List Origin) : Prop := ∃ host, ⟨host, some pending⟩ ∈ t.tasks

/-! ## What the operations leave as it is -/

/-- The cache is the same, and a task that waits did so before. -/
structure Keeps (t t' : ClientUsageTracker Origin Host) : Prop where
  globalUsage : t'.globalUsage = t.globalUsage
  cachedUsage : t'.cachedUsage = t.cachedUsage
  cachedHosts : t'.cachedHosts = t.cachedHosts
  waits {pending : List Origin} : t'.Waits pending → t.Waits pending

theorem Waits.of_append {tasks : List (GatherUsageTask Origin Host)} {host : Option Host} {pending : List Origin}
    (htasks : tasks = t.tasks ++ [⟨host, none⟩]) (h : ∃ host, ⟨host, some pending⟩ ∈ tasks) : t.Waits pending := by
  obtain ⟨host', hmem⟩ := h
  rw [htasks, List.mem_append] at hmem
  rcases hmem with hmem | hmem
  · exact ⟨host', hmem⟩
  · exact absurd (List.mem_singleton.1 hmem) fun heq => by injection heq with _ hpending; cases hpending

theorem keeps_getGlobalUsage (t : ClientUsageTracker Origin Host) : t.Keeps t.getGlobalUsage := by
  unfold getGlobalUsage
  split
  · exact ⟨rfl, rfl, rfl, id⟩
  · exact ⟨rfl, rfl, rfl, .of_append rfl⟩

theorem keeps_getHostUsage (hostOf : Origin → Host) (t : ClientUsageTracker Origin Host) (host : Host) :
    t.Keeps (t.getHostUsage hostOf host) := by
  unfold getHostUsage
  split
  · exact ⟨rfl, rfl, rfl, id⟩
  · dsimp only
    split
    · exact ⟨rfl, rfl, rfl, id⟩
    · exact ⟨rfl, rfl, rfl, .of_append rfl⟩

theorem keeps_completed (hostOf : Origin → Host) (t : ClientUsageTracker Origin Host) (i : ℕ) (host : Option Host) :
    t.Keeps (t.completed hostOf i host) := by
  have hwaits {pending : List Origin} (h : ∃ host, ⟨host, some pending⟩ ∈ t.tasks.eraseIdx i) : t.Waits pending :=
    h.imp fun _ hmem => List.mem_of_mem_eraseIdx hmem
  cases host with
  | none | some host => exact ⟨rfl, rfl, rfl, hwaits⟩

/-! ## What is put into the cache -/

theorem lookup_addToCached (unlimited : Origin → Bool) (t : ClientUsageTracker Origin Host) (origin other : Origin) (delta : ℤ) :
    (t.addToCached unlimited origin delta).cachedUsage.lookup other =
      if other = origin then some ((t.cachedUsage.lookup origin).getD 0 + delta) else t.cachedUsage.lookup other := by
  change (t.cachedUsage.insert origin _).lookup other = _
  by_cases heq : other = origin
  · rw [if_pos heq, heq]
    exact AList.lookup_insert _
  · rw [if_neg heq]
    exact AList.lookup_insert_ne heq

theorem lookup_addCachedOrigin (unlimited : Origin → Bool) (t : ClientUsageTracker Origin Host) (origin other : Origin)
    (usage : ℤ) :
    (t.addCachedOrigin unlimited origin usage).cachedUsage.lookup other =
      if other = origin then some usage else t.cachedUsage.lookup other := by
  rw [addCachedOrigin, lookup_addToCached, add_sub_cancel]

def Totals (t : ClientUsageTracker Origin Host) : Prop := t.globalUsage = sumEntries (fun _ usage => usage) t.cachedUsage

theorem Totals.of_keeps {t' : ClientUsageTracker Origin Host} (h : t.Totals) (hkeeps : t.Keeps t') : t'.Totals := by
  rw [Totals, hkeeps.globalUsage, hkeeps.cachedUsage]
  exact h

theorem Totals.addToCached (h : t.Totals) (origin : Origin) (delta : ℤ) : (t.addToCached unlimited origin delta).Totals := by
  change t.globalUsage + delta = sumEntries _ (t.cachedUsage.insert origin _)
  rw [h]
  cases hlookup : t.cachedUsage.lookup origin with
  | none =>
    rw [sumEntries_insert_of_lookup_none hlookup]
    exact congrArg _ (zero_add delta).symm
  | some usage =>
    rw [sumEntries_insert_of_lookup_some _ hlookup, Option.getD_some]
    ring

theorem Totals.updateUsageCache (h : t.Totals) (origin : Origin) (delta : ℤ) :
    (t.updateUsageCache hostOf unlimited origin delta).Totals := by
  unfold ClientUsageTracker.updateUsageCache
  split
  · exact h.addToCached origin delta
  · exact h.of_keeps (keeps_getHostUsage hostOf t _)

theorem Totals.getUsageForOrigins (h : t.Totals) (i : ℕ) (host : Option Host) (sorted : List Origin) :
    (t.getUsageForOrigins hostOf i host sorted).Totals := by
  unfold ClientUsageTracker.getUsageForOrigins
  split
  · exact h.of_keeps (keeps_completed hostOf t i host)
  · exact h

/-! ## A usage that is delivered -/

def delivered (hostOf : Origin → Host) (unlimited : Origin → Bool) (t : ClientUsageTracker Origin Host) (origin : Origin)
    (rest : List Origin) (usage : ℤ) : ClientUsageTracker Origin Host :=
  let t := t.addCachedOrigin unlimited origin (if usage < 0 then 0 else usage)
  if rest = [] ∨ rest.head?.map hostOf ≠ some (hostOf origin) then t.addCachedHost (hostOf origin) else t

theorem didGetUsage_eq (i : ℕ) (host : Option Host) (origin : Origin) (rest : List Origin) (usage : ℤ) :
    t.didGetUsage hostOf unlimited i host origin rest usage = let t := t.delivered hostOf unlimited origin rest usage
      if rest = [] then t.completed hostOf i host else { t with tasks := t.tasks.set i ⟨host, some rest⟩ } := rfl

theorem Totals.delivered (h : t.Totals) (origin : Origin) (rest : List Origin) (usage : ℤ) :
    (t.delivered hostOf unlimited origin rest usage).Totals := by
  have hadd : (t.addCachedOrigin unlimited origin (if usage < 0 then 0 else usage)).Totals := h.addToCached origin _
  dsimp only [ClientUsageTracker.delivered]
  split <;> exact hadd

theorem Totals.didGetUsage (h : t.Totals) (i : ℕ) (host : Option Host) (origin : Origin) (rest : List Origin) (usage : ℤ) :
    (t.didGetUsage hostOf unlimited i host origin rest usage).Totals := by
  rw [didGetUsage_eq]
  dsimp only
  split
  · exact (h.delivered origin rest usage).of_keeps (keeps_completed hostOf _ i host)
  · exact h.delivered origin rest usage

end ClientUsageTracker

open ClientUsageTracker

namespace World

variable {hostOf : Origin → Host} {unlimited : Origin → Bool} {w : World Origin Host} {e : Event Origin Host}

variable {i : ℕ} {host : Option Host} {origin : Origin}

theorem totals_apply (h : w.tracker.Totals) (e : Event Origin Host) : (w.apply hostOf unlimited e).tracker.Totals := by
  cases e with
  | getGlobalUsage => exact h.of_keeps (keeps_getGlobalUsage _)
  | getHostUsage host => exact h.of_keeps (keeps_getHostUsage hostOf _ host)
  | change origin delta => exact h.updateUsageCache origin delta
  | didGetOrigins i origins sorted =>
    dsimp only [World.apply]
    split
    · exact h.getUsageForOrigins i _ sorted
    · exact h
  | didGetUsage i =>
    dsimp only [World.apply]
    split
    · exact h.didGetUsage i _ _ _ _
    · exact h

/-! ## Cached usages and the client's -/

def CachesUsage (hostOf : Origin → Host) (w : World Origin Host) : Prop :=
  ∀ origin usage, hostOf origin ∈ w.tracker.cachedHosts → w.tracker.cachedUsage.lookup origin = some usage →
    usage = w.usage origin

/-- A change does not fall into the gap: it is none, or the host is cached, or the origin is not cached and each task that
waits for origins of its host waits for it too. -/
def Safe (hostOf : Origin → Host) (w : World Origin Host) : Event Origin Host → Prop
  | .change origin delta =>
    delta = 0 ∨ hostOf origin ∈ w.tracker.cachedHosts ∨ w.tracker.cachedUsage.lookup origin = none ∧
        ∀ pending, w.tracker.Waits pending → (∃ other ∈ pending, hostOf other = hostOf origin) → origin ∈ pending
  | _ => True

/-- What a task that waits leaves out is cached or has no data. -/
structure WaitsForAll (hostOf : Origin → Host) (w : World Origin Host) (pending : List Origin) : Prop where
  sorted : pending.Pairwise fun o o' => hostOf o' ≤ hostOf o
  all {other origin : Origin} (hmem : other ∈ pending) (hhost : hostOf origin = hostOf other)
    (hnot : origin ∉ pending) (hlookup : w.tracker.cachedUsage.lookup origin = none) : w.usage origin = 0

structure Accurate (hostOf : Origin → Host) (w : World Origin Host) : Prop where
  nonneg (origin : Origin) : 0 ≤ w.usage origin
  cached {origin : Origin} {usage : ℤ} (h : w.tracker.cachedUsage.lookup origin = some usage) : usage = w.usage origin
  hosts {origin : Origin} (hhost : hostOf origin ∈ w.tracker.cachedHosts)
    (h : w.tracker.cachedUsage.lookup origin = none) : w.usage origin = 0
  waits {pending : List Origin} (h : w.tracker.Waits pending) : w.WaitsForAll hostOf pending

theorem WaitsForAll.of_keeps {t : ClientUsageTracker Origin Host} {pending : List Origin} (h : w.WaitsForAll hostOf pending)
    (hkeeps : w.tracker.Keeps t) : World.WaitsForAll hostOf { w with tracker := t } pending := by
  refine ⟨h.sorted, fun hmem hhost hnot hlookup => h.all hmem hhost hnot ?_⟩
  rw [← hkeeps.cachedUsage]
  exact hlookup

theorem Accurate.of_keeps {t : ClientUsageTracker Origin Host} (h : w.Accurate hostOf) (hkeeps : w.tracker.Keeps t) :
    World.Accurate hostOf { w with tracker := t } where
  nonneg := h.nonneg
  cached hlookup := h.cached (hkeeps.cachedUsage ▸ hlookup)
  hosts hhost hlookup := h.hosts (hkeeps.cachedHosts ▸ hhost) (hkeeps.cachedUsage ▸ hlookup)
  waits hwaits := (h.waits (hkeeps.waits hwaits)).of_keeps hkeeps

theorem Accurate.getD_lookup (h : w.Accurate hostOf) (hhost : hostOf origin ∈ w.tracker.cachedHosts) :
    (w.tracker.cachedUsage.lookup origin).getD 0 = w.usage origin := by
  cases hlookup : w.tracker.cachedUsage.lookup origin with
  | none => exact (h.hosts hhost hlookup).symm
  | some usage => exact h.cached hlookup

/-- **A change of an origin whose host is cached is added to what is cached.** -/
theorem Accurate.change_of_mem (h : w.Accurate hostOf) {delta : ℤ} (hnonneg : 0 ≤ w.usage origin + delta)
    (hhost : hostOf origin ∈ w.tracker.cachedHosts) :
    (w.apply hostOf unlimited (.change origin delta)).Accurate hostOf := by
  have happly : w.apply hostOf unlimited (.change origin delta) =
      ⟨w.tracker.addToCached unlimited origin delta, fun o => if o = origin then w.usage o + delta else w.usage o⟩ := by
    rw [World.apply, ClientUsageTracker.updateUsageCache, if_pos hhost]
  rw [happly]
  refine ⟨fun o => ?_, fun {o usage} hlookup => ?_, fun {o} ho hlookup => ?_, fun {pending} hwaits => ?_⟩
  · dsimp only
    split
    · next heq => rw [heq]; exact hnonneg
    · exact h.nonneg o
  · rw [lookup_addToCached, h.getD_lookup hhost] at hlookup
    dsimp only
    split at hlookup
    · next heq => rw [if_pos heq, heq]; exact (Option.some.inj hlookup).symm
    · next hne => rw [if_neg hne]; exact h.cached hlookup
  · rw [lookup_addToCached] at hlookup
    split at hlookup
    · cases hlookup
    · next hne => exact (if_neg hne).trans (h.hosts ho hlookup)
  · refine ⟨(h.waits hwaits).sorted, fun {other o} hmem hhost' hnot hlookup => ?_⟩
    rw [lookup_addToCached] at hlookup
    split at hlookup
    · cases hlookup
    · next hne => exact (if_neg hne).trans ((h.waits hwaits).all hmem hhost' hnot hlookup)

/-- **A change of an origin that is still waited for is seen when it is delivered.** -/
theorem Accurate.change_of_notMem (h : w.Accurate hostOf) {delta : ℤ} (hnonneg : 0 ≤ w.usage origin + delta)
    (hhost : hostOf origin ∉ w.tracker.cachedHosts) (hsafe : w.Safe hostOf (.change origin delta)) :
    (w.apply hostOf unlimited (.change origin delta)).Accurate hostOf := by
  have happly : w.apply hostOf unlimited (.change origin delta) =
      ⟨w.tracker.getHostUsage hostOf (hostOf origin), fun o => if o = origin then w.usage o + delta else w.usage o⟩ := by
    rw [World.apply, ClientUsageTracker.updateUsageCache, if_neg hhost]
  have hkeeps := keeps_getHostUsage hostOf w.tracker (hostOf origin)
  rw [happly]
  rcases hsafe with hzero | hmem | ⟨hnone, hall⟩
  · have husage : (fun o => if o = origin then w.usage o + delta else w.usage o) = w.usage := by
      funext o
      rw [hzero, add_zero, ite_self]
    rw [husage]
    exact h.of_keeps hkeeps
  · exact absurd hmem hhost
  refine ⟨fun o => ?_, fun {o usage} hlookup => ?_, fun {o} ho hlookup => ?_, fun {pending} hwaits => ?_⟩
  · dsimp only
    split
    · next heq => rw [heq]; exact hnonneg
    · exact h.nonneg o
  · have hlookup : w.tracker.cachedUsage.lookup o = some usage := hkeeps.cachedUsage ▸ hlookup
    have hne : o ≠ origin := fun heq => Option.some_ne_none _ ((heq ▸ hlookup).symm.trans hnone)
    exact (h.cached hlookup).trans (if_neg hne).symm
  · have ho : hostOf o ∈ w.tracker.cachedHosts := hkeeps.cachedHosts ▸ ho
    have hne : o ≠ origin := fun heq => hhost (heq ▸ ho)
    exact (if_neg hne).trans (h.hosts ho (hkeeps.cachedUsage ▸ hlookup))
  · have hold := h.waits (hkeeps.waits hwaits)
    refine ⟨hold.sorted, fun {other o} hmem hhost' hnot hlookup => ?_⟩
    have hne : o ≠ origin := fun heq =>
      hnot (heq ▸ hall pending (hkeeps.waits hwaits) ⟨other, hmem, hhost'.symm.trans (congrArg hostOf heq)⟩)
    exact (if_neg hne).trans (hold.all hmem hhost' hnot (hkeeps.cachedUsage ▸ hlookup))

theorem waits_set {t : ClientUsageTracker Origin Host} {pending pending' : List Origin}
    (h : ClientUsageTracker.Waits { t with tasks := t.tasks.set i ⟨host, some pending'⟩ } pending) :
    t.Waits pending ∨ pending = pending' := by
  obtain ⟨host', hmem⟩ := h
  rcases List.mem_or_eq_of_mem_set hmem with hmem | heq
  · exact .inl ⟨host', hmem⟩
  · injection heq with _ hpending
    exact .inr (Option.some.inj hpending)

/-- **The origins that the client lists are all that are not cached and have data.** -/
theorem Accurate.getUsageForOrigins (h : w.Accurate hostOf) {origins sorted : List Origin}
    (hlists : w.Lists hostOf host origins) (hperm : sorted.Perm (w.tracker.originsToGather origins))
    (hsorted : sorted.Pairwise fun o o' => hostOf o' ≤ hostOf o) :
    World.Accurate hostOf { w with tracker := w.tracker.getUsageForOrigins hostOf i host sorted } := by
  unfold ClientUsageTracker.getUsageForOrigins
  split
  · exact h.of_keeps (keeps_completed hostOf w.tracker i host)
  refine ⟨h.nonneg, h.cached, h.hosts, fun {pending} hwaits => ?_⟩
  rcases waits_set hwaits with hwaits | heq
  · exact ⟨(h.waits hwaits).sorted, (h.waits hwaits).all⟩
  · rw [heq]
    refine ⟨hsorted, fun {other origin} hmem hhost hnot hlookup => ?_⟩
    have hgather {o : Origin} : o ∈ sorted ↔ o ∈ origins ∧ (w.tracker.cachedUsage.lookup o).isNone = true := by
      rw [hperm.mem_iff, ClientUsageTracker.originsToGather, List.mem_dedup, List.mem_filter]
    by_contra husage
    refine hnot (hgather.2 ⟨hlists.2 origin (fun host' hhost' => ?_) husage, Option.isNone_iff_eq_none.2 hlookup⟩)
    exact hhost.trans (hlists.1 other (hgather.1 hmem).1 host' hhost')

theorem hostOf_ne_of_sorted {other : Origin} {rest : List Origin}
    (hsorted : (origin :: rest).Pairwise fun o o' => hostOf o' ≤ hostOf o)
    (hlast : rest = [] ∨ rest.head?.map hostOf ≠ some (hostOf origin)) (hmem : other ∈ rest) : hostOf other ≠ hostOf origin := by
  cases rest with
  | nil => cases hmem
  | cons head rest =>
    have hne : hostOf head ≠ hostOf origin := by
      rcases hlast with hnil | hne
      · cases hnil
      · exact fun heq => hne (congrArg some heq)
    obtain ⟨hle, hrest⟩ := List.pairwise_cons.1 hsorted
    have hlt : hostOf head < hostOf origin := lt_of_le_of_ne (hle head List.mem_cons_self) hne
    rcases List.mem_cons.1 hmem with heq | hmem
    · exact heq ▸ hne
    · exact (lt_of_le_of_lt ((List.pairwise_cons.1 hrest).1 other hmem) hlt).ne

theorem lookup_delivered (h : w.Accurate hostOf) (origin other : Origin) (rest : List Origin) :
    (w.tracker.delivered hostOf unlimited origin rest (w.usage origin)).cachedUsage.lookup other =
      if other = origin then some (w.usage origin) else w.tracker.cachedUsage.lookup other := by
  rw [← lookup_addCachedOrigin unlimited, ClientUsageTracker.delivered, if_neg (h.nonneg origin).not_gt]
  split <;> rfl

theorem mem_cachedHosts_delivered {rest : List Origin} {usage : ℤ} {host : Host}
    (h : host ∈ (w.tracker.delivered hostOf unlimited origin rest usage).cachedHosts) :
    host ∈ w.tracker.cachedHosts ∨ host = hostOf origin ∧ (rest = [] ∨ rest.head?.map hostOf ≠ some (hostOf origin)) := by
  dsimp only [ClientUsageTracker.delivered] at h
  split at h
  · next hlast =>
    rcases List.mem_cons.1 h with heq | hmem
    · exact .inr ⟨heq, hlast⟩
    · exact .inl hmem
  · exact .inl h

theorem tasks_delivered {rest : List Origin} {usage : ℤ} :
    (w.tracker.delivered hostOf unlimited origin rest usage).tasks = w.tracker.tasks := by
  dsimp only [ClientUsageTracker.delivered]
  split <;> rfl

theorem Accurate.delivered (unlimited : Origin → Bool) (h : w.Accurate hostOf) {rest : List Origin}
    (hwaits : w.tracker.Waits (origin :: rest)) :
    World.Accurate hostOf { w with tracker := w.tracker.delivered hostOf unlimited origin rest (w.usage origin) } := by
  have hall := h.waits hwaits
  refine ⟨h.nonneg, fun {o usage} hlookup => ?_, fun {o} ho hlookup => ?_, fun {pending} hpending => ?_⟩
  · rw [lookup_delivered h] at hlookup
    split at hlookup
    · next heq => rw [heq]; exact (Option.some.inj hlookup).symm
    · exact h.cached hlookup
  · rw [lookup_delivered h] at hlookup
    split at hlookup
    · cases hlookup
    next hne =>
    rcases mem_cachedHosts_delivered ho with ho | ⟨heq, hlast⟩
    · exact h.hosts ho hlookup
    · refine hall.all List.mem_cons_self heq (fun hmem => ?_) hlookup
      exact hostOf_ne_of_sorted hall.sorted hlast ((List.mem_cons.1 hmem).resolve_left hne) heq
  · have hold : w.WaitsForAll hostOf pending := h.waits (by rwa [Waits, tasks_delivered] at hpending)
    refine ⟨hold.sorted, fun {other o} hmem hhost hnot hlookup => ?_⟩
    rw [lookup_delivered h] at hlookup
    split at hlookup
    · cases hlookup
    · exact hold.all hmem hhost hnot hlookup

theorem WaitsForAll.rest (unlimited : Origin → Bool) (h : w.Accurate hostOf) {rest : List Origin}
    (hwaits : w.tracker.Waits (origin :: rest)) :
    World.WaitsForAll hostOf { w with tracker := w.tracker.delivered hostOf unlimited origin rest (w.usage origin) } rest := by
  have hall := h.waits hwaits
  refine ⟨hall.sorted.of_cons, fun {other o} hmem hhost hnot hlookup => ?_⟩
  rw [lookup_delivered h] at hlookup
  split at hlookup
  · cases hlookup
  · next hne => exact hall.all (List.mem_cons_of_mem _ hmem) hhost (List.not_mem_cons_of_ne_of_not_mem hne hnot) hlookup

theorem Accurate.didGetUsage (h : w.Accurate hostOf) {rest : List Origin}
    (htask : w.tracker.tasks[i]? = some ⟨host, some (origin :: rest)⟩) :
    World.Accurate hostOf
      { w with tracker := w.tracker.didGetUsage hostOf unlimited i host origin rest (w.usage origin) } := by
  have hwaits : w.tracker.Waits (origin :: rest) := ⟨host, List.mem_of_getElem? htask⟩
  have hdelivered := h.delivered unlimited hwaits
  rw [didGetUsage_eq]
  dsimp only
  split
  · exact hdelivered.of_keeps (keeps_completed hostOf _ i host)
  refine ⟨h.nonneg, hdelivered.cached, hdelivered.hosts, fun {pending} hpending => ?_⟩
  rcases waits_set hpending with hpending | heq
  · exact ⟨(hdelivered.waits hpending).sorted, (hdelivered.waits hpending).all⟩
  · rw [heq]
    have hrest := WaitsForAll.rest unlimited h hwaits
    exact ⟨hrest.sorted, hrest.all⟩

theorem Accurate.apply (h : w.Accurate hostOf) (hsafe : w.Safe hostOf e) (hhappens : w.Happens hostOf e) :
    (w.apply hostOf unlimited e).Accurate hostOf := by
  cases e with
  | getGlobalUsage => exact h.of_keeps (keeps_getGlobalUsage _)
  | getHostUsage host => exact h.of_keeps (keeps_getHostUsage hostOf _ host)
  | change origin delta =>
    by_cases hhost : hostOf origin ∈ w.tracker.cachedHosts
    · exact h.change_of_mem hhappens hhost
    · exact h.change_of_notMem hhappens hhost hsafe
  | didGetOrigins i origins sorted =>
    obtain ⟨host, htask, hlists, hperm, hsorted⟩ := hhappens
    have happly : w.apply hostOf unlimited (.didGetOrigins i origins sorted) =
        { w with tracker := w.tracker.getUsageForOrigins hostOf i host sorted } := by
      rw [World.apply, htask]
    rw [happly]
    exact h.getUsageForOrigins hlists hperm hsorted
  | didGetUsage i =>
    obtain ⟨host, origin, rest, htask⟩ := hhappens
    have happly : w.apply hostOf unlimited (.didGetUsage i) =
        { w with tracker := w.tracker.didGetUsage hostOf unlimited i host origin rest (w.usage origin) } := by
      rw [World.apply, htask]
    rw [happly]
    exact h.didGetUsage htask

end World

/-! ## Runs -/

section Runs

variable {hostOf : Origin → Host} {unlimited : Origin → Bool} {tr : List (Event Origin Host)} {w : World Origin Host}

theorem totals_of_run (h : (usageSystem hostOf unlimited).Run tr w) : w.tracker.Totals := by
  refine h.invariant (I := fun w => w.tracker.Totals) ?_ ?_
  · rintro w ⟨hnew, -⟩
    rw [hnew]
    rfl
  · rintro w e w' htotals ⟨-, rfl⟩
    exact World.totals_apply htotals e

theorem accurate_of_run (h : ((usageSystem hostOf unlimited).restrict (World.Safe hostOf)).Run tr w) : w.Accurate hostOf := by
  refine h.invariant ?_ ?_
  · rintro ⟨t, usage⟩ ⟨rfl, hnonneg⟩
    refine ⟨hnonneg, fun hlookup => ?_, fun hhost _ => ?_, fun hwaits => ?_⟩
    · cases hlookup
    · cases hhost
    · obtain ⟨host, hmem⟩ := hwaits
      cases hmem
  · rintro w e w' haccurate ⟨hsafe, hhappens, rfl⟩
    exact haccurate.apply hsafe hhappens

end Runs

/-- **The global usage is the sum of the cached usages in every run, and in a run whose changes all keep out of the gap each
cached usage of a cached host is the client's.** -/
theorem usageTracker_spec (hostOf : Origin → Host) (unlimited : Origin → Bool) (tr : List (Event Origin Host))
    (w : World Origin Host) :
    ((usageSystem hostOf unlimited).Run tr w → w.tracker.Totals) ∧
      (((usageSystem hostOf unlimited).restrict (World.Safe hostOf)).Run tr w → w.CachesUsage hostOf) :=
  ⟨totals_of_run, fun h _ _ _ hlookup => (accurate_of_run h).cached hlookup⟩

/-! ## Two origins of one host -/

def tens (origin : ℕ) : ℕ := origin / 10

def twoOrigins : World ℕ ℕ := ⟨.new, fun origin => if origin = 10 then 5 else if origin = 11 then 7 else 0⟩

def after (events : List (Event ℕ ℕ)) : World ℕ ℕ := events.foldl (World.apply tens fun _ => false) twoOrigins

theorem init_twoOrigins : (usageSystem tens fun _ => false).init twoOrigins := by
  refine ⟨rfl, fun origin => ?_⟩
  dsimp only [twoOrigins]
  split
  · decide
  · split <;> decide

theorem happens_didGetOrigins :
    (after [.getHostUsage 1]).Happens tens (.didGetOrigins 0 [10, 11] [10, 11]) := by
  refine ⟨some 1, rfl, ⟨?_, fun origin _ hdata => ?_⟩, List.Perm.refl _, by decide⟩
  · decide
  · by_contra hnot
    rw [List.mem_cons, List.mem_singleton, not_or] at hnot
    exact hdata ((if_neg hnot.1).trans (if_neg hnot.2))

theorem step_after {P : World ℕ ℕ → Event ℕ ℕ → Prop} {events : List (Event ℕ ℕ)} {e : Event ℕ ℕ}
    (h : ((usageSystem tens fun _ => false).restrict P).Run events (after events)) (hsafe : P (after events) e)
    (hhappens : (after events).Happens tens e) :
    ((usageSystem tens fun _ => false).restrict P).Run (events ++ [e]) (after (events ++ [e])) :=
  .step h ⟨hsafe, hhappens, List.foldl_concat ..⟩

theorem run_didGetUsage : ((usageSystem tens fun _ => false).restrict (World.Safe tens)).Run
    [.getHostUsage 1, .didGetOrigins 0 [10, 11] [10, 11], .didGetUsage 0]
    (after [.getHostUsage 1, .didGetOrigins 0 [10, 11] [10, 11], .didGetUsage 0]) := by
  have hinit : ((usageSystem tens fun _ => false).restrict (World.Safe tens)).Run [] (after []) := .init init_twoOrigins
  have hasked := step_after (e := .getHostUsage 1) hinit trivial trivial
  have hlisted := step_after (e := .didGetOrigins 0 [10, 11] [10, 11]) hasked trivial happens_didGetOrigins
  exact step_after (e := .didGetUsage 0) hlisted trivial ⟨some 1, 10, [11], rfl⟩

/-- A change when the host is cached. -/
theorem usageTracker_twoOrigins :
    (after [.getHostUsage 1, .didGetOrigins 0 [10, 11] [10, 11], .didGetUsage 0, .didGetUsage 0, .change 10 1]).CachesUsage
      tens := by
  have hcached := step_after (e := .didGetUsage 0) run_didGetUsage trivial ⟨some 1, 11, [], rfl⟩
  have hchanged := step_after (e := .change 10 1) hcached (.inr (.inl (by decide))) (by decide : (0 : ℤ) ≤ 5 + 1)
  exact (usageTracker_spec tens (fun _ => false) _ _).2 hchanged

/-- **A change between the deliveries of the two is lost**: the host is cached with the old usage. -/
theorem not_cachesUsage : ¬∀ tr w, (usageSystem tens fun _ => false).Run tr w → w.CachesUsage tens := by
  intro h
  have hrun : (usageSystem tens fun _ => false).Run
      [.getHostUsage 1, .didGetOrigins 0 [10, 11] [10, 11], .didGetUsage 0] _ := run_didGetUsage.of_restrict
  have hchanged := hrun.step (l := Event.change 10 1) ⟨show (0 : ℤ) ≤ 5 + 1 by decide, rfl⟩
  have hcached := hchanged.step (l := Event.didGetUsage 0) ⟨⟨some 1, 11, [], rfl⟩, rfl⟩
  exact absurd (h _ _ hcached 10 5 (by decide) rfl) (by decide)

end Chromium.Quota
