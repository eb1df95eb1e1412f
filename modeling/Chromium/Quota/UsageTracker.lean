import Chromium.Lib.CountMap
import Chromium.Lib.TransSys

/-!
# Usage of storage

`ClientUsageTracker` of `webkit/quota/usage_tracker.cc` with its tasks, and the client whose usage it tracks.  An origin
belongs to a host (`GetHostOrSpecFromURL`).  A task first waits for the list of its origins, and then for the usage of each.
-/

namespace Chromium.Quota

open Lib

/-- A `GatherUsageTaskBase`: for one host or global, and the origins it still waits for (`pending_origins_`), once it has
them. -/
structure GatherUsageTask (Origin Host : Type) where
  host : Option Host
  pending : Option (List Origin)
  deriving DecidableEq

structure ClientUsageTracker (Origin Host : Type) where
  globalUsage : ℤ
  globalUnlimitedUsage : ℤ
  globalUsageRetrieved : Bool
  globalUnlimitedUsageIsValid : Bool
  cachedHosts : List Host
  cachedUsage : AList fun _ : Origin => ℤ
  /-- There is a `global_usage_task_`. -/
  globalUsageTask : Bool
  /-- How many callbacks wait for the global usage. -/
  globalUsageCallback : ℕ
  /-- The hosts that callbacks wait for, one for each callback. -/
  hostUsageCallbacks : List Host
  /-- The tasks that run. -/
  tasks : List (GatherUsageTask Origin Host)
  /-- The callbacks that were run: the host, if it is for one, and the usage. -/
  answered : List (Option Host × ℤ)

variable {Origin Host : Type} [DecidableEq Origin] [LinearOrder Host]

namespace ClientUsageTracker

variable (hostOf : Origin → Host) (unlimited : Origin → Bool) (t : ClientUsageTracker Origin Host)

def new : ClientUsageTracker Origin Host :=
  { globalUsage := 0, globalUnlimitedUsage := 0, globalUsageRetrieved := false, globalUnlimitedUsageIsValid := true,
    cachedHosts := [], cachedUsage := ∅, globalUsageTask := false, globalUsageCallback := 0, hostUsageCallbacks := [],
    tasks := [], answered := [] }

def getCachedHostUsage (host : Host) : ℤ :=
  sumEntries (fun origin usage => if hostOf origin = host then usage else 0) t.cachedUsage

def getGlobalUsage : ClientUsageTracker Origin Host :=
  if t.globalUsageRetrieved then { t with answered := t.answered ++ [(none, t.globalUsage)] }
  else
    { t with globalUsageCallback := t.globalUsageCallback + 1, globalUsageTask := true, tasks := t.tasks ++ [⟨none, none⟩] }

def getHostUsage (host : Host) : ClientUsageTracker Origin Host :=
  if host ∈ t.cachedHosts then { t with answered := t.answered ++ [(some host, t.getCachedHostUsage hostOf host)] }
  else
    let isFirst := host ∉ t.hostUsageCallbacks
    let t := { t with hostUsageCallbacks := t.hostUsageCallbacks ++ [host] }
    if ¬isFirst ∨ t.globalUsageTask then t
    else { t with tasks := t.tasks ++ [⟨some host, none⟩] }

/-- The cached usage of an origin is changed by `delta`, and the sums with it. -/
def addToCached (origin : Origin) (delta : ℤ) : ClientUsageTracker Origin Host :=
  { t with
    cachedUsage := t.cachedUsage.insert origin ((t.cachedUsage.lookup origin).getD 0 + delta)
    globalUsage := t.globalUsage + delta
    globalUnlimitedUsage :=
      if t.globalUnlimitedUsageIsValid ∧ unlimited origin then t.globalUnlimitedUsage + delta else t.globalUnlimitedUsage }

def updateUsageCache (origin : Origin) (delta : ℤ) : ClientUsageTracker Origin Host :=
  if hostOf origin ∈ t.cachedHosts then t.addToCached unlimited origin delta
  else t.getHostUsage hostOf (hostOf origin)

def addCachedOrigin (origin : Origin) (usage : ℤ) : ClientUsageTracker Origin Host :=
  t.addToCached unlimited origin (usage - (t.cachedUsage.lookup origin).getD 0)

def addCachedHost (host : Host) : ClientUsageTracker Origin Host := { t with cachedHosts := host :: t.cachedHosts }

def gatherGlobalUsageComplete : ClientUsageTracker Origin Host :=
  { t with
    globalUsageTask := false
    globalUsageRetrieved := true
    globalUsageCallback := 0
    hostUsageCallbacks := []
    answered := t.answered ++ List.replicate t.globalUsageCallback (none, t.globalUsage) ++
      t.hostUsageCallbacks.map fun host => (some host, t.getCachedHostUsage hostOf host) }

def gatherHostUsageComplete (host : Host) : ClientUsageTracker Origin Host :=
  { t with
    hostUsageCallbacks := t.hostUsageCallbacks.filter (· ≠ host)
    answered := t.answered ++
      (t.hostUsageCallbacks.filter (· = host)).map fun host => (some host, t.getCachedHostUsage hostOf host) }

/-- `Completed` of a task, which is deleted. -/
def completed (i : ℕ) (host : Option Host) : ClientUsageTracker Origin Host :=
  let t := { t with tasks := t.tasks.eraseIdx i }
  match host with
  | none => t.gatherGlobalUsageComplete hostOf
  | some host => t.gatherHostUsageComplete hostOf host

def originsToGather (origins : List Origin) : List Origin :=
  (origins.filter fun origin => (t.cachedUsage.lookup origin).isNone).dedup

/-- `GetUsageForOrigins` of a task, with the origins to gather as they are sorted. -/
def getUsageForOrigins (i : ℕ) (host : Option Host) (sorted : List Origin) : ClientUsageTracker Origin Host :=
  if sorted = [] then t.completed hostOf i host else { t with tasks := t.tasks.set i ⟨host, some sorted⟩ }

/-- `DidGetUsage` of a task that waits for `origin` and then for the rest. -/
def didGetUsage (i : ℕ) (host : Option Host) (origin : Origin) (rest : List Origin) (usage : ℤ) :
    ClientUsageTracker Origin Host :=
  let t := t.addCachedOrigin unlimited origin (if usage < 0 then 0 else usage)
  let t := if rest = [] ∨ rest.head?.map hostOf ≠ some (hostOf origin) then t.addCachedHost (hostOf origin) else t
  if rest = [] then t.completed hostOf i host else { t with tasks := t.tasks.set i ⟨host, some rest⟩ }

end ClientUsageTracker

/-! ## The tracker and its client -/

/-- The tracker, and how much the client stores for each origin. -/
structure World (Origin Host : Type) where
  tracker : ClientUsageTracker Origin Host
  usage : Origin → ℤ

/-- What happens: the tracker is asked, the usage of an origin changes and is reported, or a task gets its origins (with the
order that they are sorted into) or the usage of the next one. -/
inductive Event (Origin Host : Type)
  | getGlobalUsage
  | getHostUsage (host : Host)
  | change (origin : Origin) (delta : ℤ)
  | didGetOrigins (i : ℕ) (origins sorted : List Origin)
  | didGetUsage (i : ℕ)

namespace World

variable (hostOf : Origin → Host) (unlimited : Origin → Bool) (w : World Origin Host)

def apply : Event Origin Host → World Origin Host
  | .getGlobalUsage => { w with tracker := w.tracker.getGlobalUsage }
  | .getHostUsage host => { w with tracker := w.tracker.getHostUsage hostOf host }
  | .change origin delta =>
    { tracker := w.tracker.updateUsageCache hostOf unlimited origin delta
      usage := fun o => if o = origin then w.usage o + delta else w.usage o }
  | .didGetOrigins i _ sorted =>
    match w.tracker.tasks[i]? with
    | some task => { w with tracker := w.tracker.getUsageForOrigins hostOf i task.host sorted }
    | none => w
  | .didGetUsage i =>
    match w.tracker.tasks[i]? with
    | some ⟨host, some (origin :: rest)⟩ =>
      { w with tracker := w.tracker.didGetUsage hostOf unlimited i host origin rest (w.usage origin) }
    | _ => w

/-- The origins that a client lists: each that has data and is of the host, and only those of the host. -/
def Lists (host : Option Host) (origins : List Origin) : Prop :=
  (∀ o ∈ origins, ∀ h ∈ host, hostOf o = h) ∧ ∀ o, (∀ h ∈ host, hostOf o = h) → w.usage o ≠ 0 → o ∈ origins

/-- When an event happens.  The tracker is asked for the global usage again when it has answered (the `UsageTracker` keeps
the others waiting), and `std::sort` puts the origins in the order of their hosts. -/
def Happens : Event Origin Host → Prop
  | .getGlobalUsage => w.tracker.globalUsageCallback = 0
  | .getHostUsage _ => True
  | .change origin delta => 0 ≤ w.usage origin + delta
  | .didGetOrigins i origins sorted =>
    ∃ host, w.tracker.tasks[i]? = some ⟨host, none⟩ ∧ w.Lists hostOf host origins ∧
      sorted.Perm (w.tracker.originsToGather origins) ∧ sorted.Pairwise fun o o' => hostOf o' ≤ hostOf o
  | .didGetUsage i => ∃ host origin rest, w.tracker.tasks[i]? = some ⟨host, some (origin :: rest)⟩

end World

def usageSystem (hostOf : Origin → Host) (unlimited : Origin → Bool) : TransSys (World Origin Host) (Event Origin Host) where
  init w := w.tracker = .new ∧ ∀ o, 0 ≤ w.usage o
  step w e w' := w.Happens hostOf e ∧ w' = w.apply hostOf unlimited e

end Chromium.Quota
