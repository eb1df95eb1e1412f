import Chromium.Net.Http.HttpCacheEntry
import Mathlib.Data.List.Nodup

/-!
# The operations on cache entries

`net/http/http_cache.cc`: how transactions open, create and doom the entries of the disk cache.
The operations on a key wait in a `PendingOp` for the one that the backend works on.  When that
is complete, `OnIOComplete` moves those that wait to a list of its own and notifies them one
after the other; each notification may issue further calls, which are steps of their own here.
An operation that the backend completes at once finds no one waiting.

The fields `outstanding`, `live` and `log` of the state are not in the source: they record the
operations that the backend works on, the entries that were activated and are still there, and
what happened to the transactions.

`httpCache_run`: in every run in which no transaction is removed while it waits in the list of
`OnIOComplete`, and none creates an entry that is active, every state is `Right`.
-/

namespace Chromium.Net.HttpCache

open Lib
open Function (update update_of_ne update_self)

inductive WorkItemOperation where
  | WI_OPEN_ENTRY
  | WI_CREATE_ENTRY
  | WI_DOOM_ENTRY
  deriving DecidableEq, Repr

/-- `WorkItem`; of `entry_`, whether it points to a result. -/
structure WorkItem where
  operation : WorkItemOperation
  trans : Option Transaction
  entry : Bool
  deriving DecidableEq, Repr

def WorkItem.isValid (item : WorkItem) : Bool := item.trans.isSome || item.entry

def WorkItem.clearTransaction (item : WorkItem) : WorkItem := { item with trans := none }

def WorkItem.clearEntry (item : WorkItem) : WorkItem := { item with entry := false }

structure PendingOp where
  writer : WorkItem
  pendingQueue : List WorkItem
  deriving DecidableEq, Repr

/-- The local variables of `OnIOComplete`; no key is the empty string. -/
structure Completion (Key : Type) where
  op : WorkItemOperation
  result : ℤ
  key : Option Key
  failRequests : Bool
  pendingItems : List WorkItem

def OK : ℤ := 0

def ERR_CACHE_CREATE_FAILURE : ℤ := -405

def ERR_CACHE_RACE : ℤ := -406

/-- An `ActiveEntry`, by its address. -/
abbrev EntryId := ℕ

/-- What happens to a transaction: it issues an operation, is told of its result, or is removed. -/
inductive Happening where
  | issued
  | notified (result : ℤ) (entry : Option EntryId)
  | removed
  deriving DecidableEq, Repr

/-- The maps of `HttpCache`, the call of `OnIOComplete` that is under way, and what happened. -/
structure Cache (Key : Type) where
  activeEntries : Key → Option EntryId
  pendingOps : Key → Option PendingOp
  completing : Option (Completion Key)
  nextEntry : EntryId
  outstanding : List Key
  live : List (Key × EntryId)
  log : List (Transaction × Happening)

namespace Cache

variable {Key : Type} [DecidableEq Key] (s : Cache Key) (keyOf : Transaction → Key)

/-- `HttpCache()`. -/
def new : Cache Key := ⟨fun _ => none, fun _ => none, none, 0, [], [], []⟩

def record (t : Transaction) (what : Happening) : Cache Key := { s with log := s.log ++ [(t, what)] }

def activateEntry (key : Key) : Cache Key :=
  { s with
    activeEntries := Function.update s.activeEntries key (some s.nextEntry)
    nextEntry := s.nextEntry + 1
    live := s.live ++ [(key, s.nextEntry)] }

/-- The entry of a key leaves `active_entries_`. -/
def eraseActive (key : Key) : Cache Key :=
  { s with
    activeEntries := Function.update s.activeEntries key none
    live := s.live.filter fun e => ¬ (e.1 = key ∧ s.activeEntries key = some e.2) }

def notifyTransaction (item : WorkItem) (result : ℤ) (entry : Option EntryId) : Cache Key :=
  match item.trans with
  | none => s
  | some t => s.record t (.notified result entry)

def onIOComplete (key : Key) (result : ℤ) (pendingOp : PendingOp) : Cache Key :=
  let item := pendingOp.writer
  let doomed := item.operation = .WI_DOOM_ENTRY
  -- `DeletePendingOp`
  let s := { s with
    pendingOps := Function.update s.pendingOps key none
    outstanding := s.outstanding.erase key }
  let completing (key : Option Key) (failRequests : Bool) : Option (Completion Key) :=
    some ⟨item.operation, result, key, failRequests, pendingOp.pendingQueue⟩
  if result = OK ∧ ¬ doomed ∧ item.isValid then
    let entry := s.nextEntry
    notifyTransaction { s.activateEntry key with completing := completing (some key) false } item result (some entry)
  else
    -- after a doom, or when the transaction is gone, those that wait have to start again
    notifyTransaction { s with completing := completing none (result = OK) } item result none

/-- What a turn of the loop of `OnIOComplete` tells an item, and `fail_requests` after it. -/
def turn (c : Completion Key) (item : WorkItem) : ℤ × Option EntryId × Bool :=
  let entry := if c.result = OK then c.key.bind s.activeEntries else none
  let failRequests := c.failRequests || decide (item.operation = .WI_DOOM_ENTRY) ||
    (decide (c.result = OK) && entry.isNone)
  if failRequests then (ERR_CACHE_RACE, none, true)
  else if item.operation = .WI_CREATE_ENTRY then
    if c.result = OK then (ERR_CACHE_CREATE_FAILURE, none, false)
    else if c.op ≠ .WI_CREATE_ENTRY then (ERR_CACHE_RACE, none, true)
    else (c.result, entry, false)
  else if c.op = .WI_CREATE_ENTRY ∧ c.result ≠ OK then (ERR_CACHE_RACE, none, true)
  else (c.result, entry, false)

/-- The loop of `OnIOComplete` goes on, or it ends. -/
def notifyNext (c : Completion Key) : Cache Key :=
  match c.pendingItems with
  | [] => { s with completing := none }
  | item :: pendingItems =>
    let told := s.turn c item
    notifyTransaction { s with completing := some { c with pendingItems, failRequests := told.2.2 } } item told.1
      told.2.1

/-- What `OpenEntry`, `CreateEntry` and `AsyncDoomEntry` do: the operation waits for another one, or the backend is
called, which completes it later (`rv` is none) or at once. -/
def startOperation (key : Key) (operation : WorkItemOperation) (entry : Bool) (t : Transaction) (rv : Option ℤ) :
    Cache Key :=
  let item : WorkItem := ⟨operation, some t, entry⟩
  let s := s.record t .issued
  match s.pendingOps key with
  | some pendingOp =>
    { s with
      pendingOps := Function.update s.pendingOps key
        (some { pendingOp with pendingQueue := pendingOp.pendingQueue ++ [item] }) }
  | none =>
    let s := { s with outstanding := s.outstanding ++ [key] }
    match rv with
    | none => { s with pendingOps := Function.update s.pendingOps key (some ⟨item, []⟩) }
    | some rv =>
      let done := s.onIOComplete key rv ⟨item.clearTransaction, []⟩
      -- no one waits, and the result is returned
      record { done with completing := s.completing } t
        (.notified rv (if rv = OK ∧ entry then some s.nextEntry else none))

def openEntry (t : Transaction) (rv : Option ℤ) : Cache Key :=
  match s.activeEntries (keyOf t) with
  | some _ => s
  | none => s.startOperation (keyOf t) .WI_OPEN_ENTRY true t rv

def createEntry (t : Transaction) (rv : Option ℤ) : Cache Key :=
  s.startOperation (keyOf t) .WI_CREATE_ENTRY true t rv

/-- `HttpCache::DoomEntry` and `HttpCache::AsyncDoomEntry`. -/
def doomEntry (t : Transaction) (rv : Option ℤ) : Cache Key :=
  match s.activeEntries (keyOf t) with
  | some _ => s.eraseActive (keyOf t)
  | none => s.startOperation (keyOf t) .WI_DOOM_ENTRY false t rv

/-- `HttpCache::RemovePendingTransactionFromPendingOp`. -/
def removeFromPendingOp (pendingOp : PendingOp) (t : Transaction) : PendingOp :=
  if pendingOp.writer.trans = some t then
    { pendingOp with writer := pendingOp.writer.clearTransaction.clearEntry }
  else { pendingOp with pendingQueue := pendingOp.pendingQueue.eraseP (·.trans = some t) }

def transactions (items : List WorkItem) : List Transaction := items.filterMap (·.trans)

def opTransactions : Option PendingOp → List Transaction
  | none => []
  | some pendingOp => transactions (pendingOp.writer :: pendingOp.pendingQueue)

def inOps (key : Key) : List Transaction := opTransactions (s.pendingOps key)

/-- Those whose items `OnIOComplete` has in its list. -/
def inLoop : List Transaction :=
  match s.completing with
  | none => []
  | some c => transactions c.pendingItems

def Waits (t : Transaction) : Prop := t ∈ s.inOps (keyOf t) ∨ t ∈ s.inLoop

instance decidableWaits (t : Transaction) : Decidable (s.Waits keyOf t) := inferInstanceAs (Decidable (_ ∨ _))

def removePendingTransaction (t : Transaction) : Cache Key :=
  let s' := if s.Waits keyOf t then s.record t .removed else s
  match s.pendingOps (keyOf t) with
  | none => s'
  | some pendingOp =>
    { s' with pendingOps := Function.update s.pendingOps (keyOf t) (some (removeFromPendingOp pendingOp t)) }

end Cache

/-- A call on the cache, the next turn of a loop that is under way, or an entry that is no longer active because of
other calls. -/
inductive Operation (Key : Type) where
  | openEntry (t : Transaction) (rv : Option ℤ)
  | createEntry (t : Transaction) (rv : Option ℤ)
  | doomEntry (t : Transaction) (rv : Option ℤ)
  | removePendingTransaction (t : Transaction)
  | deactivateEntry (key : Key)
  | onIOComplete (key : Key) (result : ℤ)
  | notifyNext

section

variable {Key : Type} [DecidableEq Key] (keyOf : Transaction → Key)

/-- The steps of the cache.  A transaction issues one operation at a time, and the message loop calls `OnIOComplete`
when no other call of it is under way. -/
def Operation.Steps (s : Cache Key) (s' : Cache Key) : Operation Key → Prop
  | .openEntry t rv => ¬ s.Waits keyOf t ∧ s' = s.openEntry keyOf t rv
  | .createEntry t rv => ¬ s.Waits keyOf t ∧ s' = s.createEntry keyOf t rv
  | .doomEntry t rv => ¬ s.Waits keyOf t ∧ s' = s.doomEntry keyOf t rv
  | .removePendingTransaction t => s' = s.removePendingTransaction keyOf t
  | .deactivateEntry key => s' = s.eraseActive key
  | .onIOComplete key result =>
    s.completing = none ∧ ∃ pendingOp, s.pendingOps key = some pendingOp ∧ s' = s.onIOComplete key result pendingOp
  | .notifyNext => ∃ c, s.completing = some c ∧ s' = s.notifyNext c

def httpCache : TransSys (Cache Key) (Operation Key) where
  init s := s = .new
  step s l s' := l.Steps keyOf s s'

/-- No transaction is removed that waits in the list of `OnIOComplete`, and none creates an entry that is active. -/
def Operation.Careful (s : Cache Key) : Operation Key → Prop
  | .removePendingTransaction t => t ∉ s.inLoop
  | .createEntry t _ => s.activeEntries (keyOf t) = none
  | _ => True

end

/-! ### What holds of the cache -/

/-- A transaction's life: it issues an operation, and then it is notified once or removed.  The flag tells that an
operation is under way. -/
inductive Life : List Happening → Bool → Prop
  | nil : Life [] false
  | issued {l : List Happening} : Life l false → Life (l ++ [.issued]) true
  | notified {l : List Happening} (result : ℤ) (entry : Option EntryId) :
      Life l true → Life (l ++ [.notified result entry]) false
  | removed {l : List Happening} : Life l true → Life (l ++ [.removed]) false

def happenings (t : Transaction) (log : List (Transaction × Happening)) : List Happening :=
  (log.filter (·.1 = t)).map Prod.snd

section

variable {Key : Type}

structure Right (keyOf : Transaction → Key) (s : Cache Key) : Prop where
  /-- The backend works on one operation for a key at most. -/
  one_operation : s.outstanding.Nodup
  /-- There is one active entry for a key at most, and it is found. -/
  one_entry : (s.live.map Prod.fst).Nodup
  found : ∀ key entry, (key, entry) ∈ s.live ↔ s.activeEntries key = some entry
  /-- Each operation is notified once or removed, and no transaction is notified after it was removed; one that was
  neither waits. -/
  life : ∀ t, ∃ waits, Life (happenings t s.log) waits ∧ (waits = true ↔ s.Waits keyOf t)
  /-- The operations that wait do so behind one that the backend works on. -/
  working : ∀ key, key ∈ s.outstanding ↔ s.pendingOps key ≠ none

def waiting (keyOf : Transaction → Key) (ops : Key → List Transaction) (loop : List Transaction) (t : Transaction) : ℕ :=
  (ops (keyOf t)).count t + loop.count t

/-- **The transactions**: each waits once while an operation of it is under way, and for its own key. -/
structure Alive (keyOf : Transaction → Key) (ops : Key → List Transaction) (loop : List Transaction)
    (log : List (Transaction × Happening)) : Prop where
  keys : ∀ key, ∀ t ∈ ops key, keyOf t = key
  life : ∀ t, ∃ waits, Life (happenings t log) waits ∧ waiting keyOf ops loop t = waits.toNat

/-- **The maps**: an operation that is pending is one that the backend works on, for a key that has no active entry. -/
structure Held (active : Key → Option EntryId) (pending : Key → Option PendingOp) (outstanding : List Key)
    (live : List (Key × EntryId)) : Prop where
  free : ∀ key, pending key ≠ none → active key = none
  nodup : outstanding.Nodup
  working : ∀ key, key ∈ outstanding ↔ pending key ≠ none
  one_entry : (live.map Prod.fst).Nodup
  found : ∀ key entry, (key, entry) ∈ live ↔ active key = some entry

structure Sane (keyOf : Transaction → Key) (s : Cache Key) : Prop where
  alive : Alive keyOf s.inOps s.inLoop s.log
  held : Held s.activeEntries s.pendingOps s.outstanding s.live

/-! ### The transactions -/

variable {keyOf : Transaction → Key} {ops ops' : Key → List Transaction} {loop loop' : List Transaction}
  {log : List (Transaction × Happening)} {t : Transaction} {what : Happening}

theorem happenings_append_self : happenings t (log ++ [(t, what)]) = happenings t log ++ [what] := by
  rw [happenings, List.filter_append, List.map_append, List.filter_cons_of_pos (by simp)]
  rfl

theorem happenings_append_of_ne {t' : Transaction} (h : t' ≠ t) :
    happenings t' (log ++ [(t, what)]) = happenings t' log := by
  unfold happenings
  rw [List.filter_append, List.filter_cons_of_neg (by simpa using h.symm), List.filter_nil, List.append_nil]

theorem Alive.record (h : Alive keyOf ops loop log) (waits waits' : Bool)
    (hkeys : ∀ key, ∀ t ∈ ops' key, keyOf t = key) (hbefore : waiting keyOf ops loop t = waits.toNat)
    (hlife : Life (happenings t log) waits → Life (happenings t log ++ [what]) waits')
    (hafter : waiting keyOf ops' loop' t = waits'.toNat)
    (hother : ∀ t' ≠ t, waiting keyOf ops' loop' t' = waiting keyOf ops loop t') :
    Alive keyOf ops' loop' (log ++ [(t, what)]) := by
  refine ⟨hkeys, fun t' => ?_⟩
  obtain ⟨b, hb, hcount⟩ := h.life t'
  by_cases ht : t' = t
  · subst ht
    obtain rfl : b = waits := by
      rw [hbefore] at hcount
      revert hcount
      cases b <;> cases waits <;> decide
    exact ⟨waits', by rw [happenings_append_self]; exact hlife hb, hafter⟩
  · exact ⟨b, by rw [happenings_append_of_ne ht]; exact hb, by rw [hother t' ht, hcount]⟩

theorem Alive.waiting_iff (h : Alive keyOf ops loop log) (t : Transaction) :
    waiting keyOf ops loop t = 0 ∨ waiting keyOf ops loop t = 1 := by
  obtain ⟨b, -, hcount⟩ := h.life t
  rw [hcount]
  cases b
  · exact .inl rfl
  · exact .inr rfl

theorem Alive.returned (h : Alive keyOf ops loop log) (hidle : waiting keyOf ops loop t = 0) (result : ℤ)
    (entry : Option EntryId) :
    Alive keyOf ops loop (log ++ [(t, .issued)] ++ [(t, .notified result entry)]) := by
  refine ⟨h.keys, fun t' => ?_⟩
  obtain ⟨b, hb, hcount⟩ := h.life t'
  by_cases ht : t' = t
  · subst ht
    obtain rfl : b = false := by
      rw [hidle] at hcount
      revert hcount
      cases b <;> decide
    exact ⟨false, by rw [happenings_append_self, happenings_append_self]; exact .notified result entry (.issued hb),
      hcount⟩
  · exact ⟨b, by rw [happenings_append_of_ne ht, happenings_append_of_ne ht]; exact hb, hcount⟩

theorem Alive.notified (h : Alive keyOf ops (t :: loop) log) (result : ℤ) (entry : Option EntryId) :
    Alive keyOf ops loop (log ++ [(t, .notified result entry)]) := by
  have hone : waiting keyOf ops (t :: loop) t = waiting keyOf ops loop t + 1 := by
    unfold waiting
    rw [List.count_cons_self, Nat.add_assoc]
  have hzero : waiting keyOf ops loop t = 0 := by rcases h.waiting_iff t with hw | hw <;> omega
  refine h.record true false h.keys (by rw [hone, hzero]; rfl) (Life.notified result entry) hzero
    fun t' ht' => ?_
  unfold waiting
  rw [List.count_cons_of_ne ht'.symm]

/-! ### The items -/

open Cache

variable {s : Cache Key} {item : WorkItem} {items : List WorkItem}

theorem transactions_cons_some (h : item.trans = some t) :
    transactions (item :: items) = t :: transactions items := by
  unfold transactions
  rw [List.filterMap_cons, h]

theorem transactions_cons_none (h : item.trans = none) : transactions (item :: items) = transactions items := by
  unfold transactions
  rw [List.filterMap_cons, h]

theorem transactions_append (items items' : List WorkItem) :
    transactions (items ++ items') = transactions items ++ transactions items' := List.filterMap_append

theorem waiting_of_not_waits (h : ¬ s.Waits keyOf t) : waiting keyOf s.inOps s.inLoop t = 0 := by
  obtain ⟨hops, hloop⟩ := not_or.1 h
  rw [waiting, List.count_eq_zero_of_not_mem hops, List.count_eq_zero_of_not_mem hloop]

theorem Alive.notifyTransaction {log : List (Transaction × Happening)}
    (h : Alive keyOf ops (transactions (item :: items)) log) (result : ℤ) (entry : Option EntryId) {c : Cache Key}
    (hlog : c.log = log) : Alive keyOf ops (transactions items) (c.notifyTransaction item result entry).log := by
  subst hlog
  unfold Cache.notifyTransaction
  cases htrans : item.trans with
  | none =>
    rw [transactions_cons_none htrans] at h
    exact h
  | some t =>
    rw [transactions_cons_some htrans] at h
    exact h.notified result entry

theorem notifyTransaction_eq (c : Cache Key) (result : ℤ) (entry : Option EntryId) :
    c.notifyTransaction item result entry = { c with log := (c.notifyTransaction item result entry).log } := by
  unfold Cache.notifyTransaction
  cases item.trans <;> rfl

theorem sane_new : Sane keyOf (Cache.new : Cache Key) where
  alive := ⟨nofun, fun _ => ⟨false, .nil, rfl⟩⟩
  held := ⟨fun _ hne => absurd rfl hne, List.nodup_nil, fun _ => iff_of_false List.not_mem_nil fun hne => hne rfl,
    List.nodup_nil, fun _ _ => iff_of_false List.not_mem_nil fun hsome => by cases hsome⟩

theorem Sane.notifyNext {c : Completion Key} (h : Sane keyOf s) (hc : s.completing = some c) :
    Sane keyOf (s.notifyNext c) := by
  have halive := h.alive
  rw [inLoop, hc] at halive
  unfold Cache.notifyNext
  cases hitems : c.pendingItems with
  | nil =>
    dsimp only at halive
    rw [hitems] at halive
    exact ⟨halive, h.held⟩
  | cons item items =>
    dsimp only at halive ⊢
    rw [hitems] at halive
    rw [notifyTransaction_eq]
    exact ⟨halive.notifyTransaction _ _ rfl, h.held⟩

variable [DecidableEq Key]

theorem Alive.issued (h : Alive keyOf ops loop log) (hidle : waiting keyOf ops loop t = 0) :
    Alive keyOf (update ops (keyOf t) (ops (keyOf t) ++ [t])) loop (log ++ [(t, .issued)]) := by
  refine h.record false true (fun key t' ht' => ?_) hidle Life.issued ?_ fun t' ht' => ?_
  · by_cases hkey : key = keyOf t
    · subst hkey
      rw [update_self] at ht'
      rcases List.mem_append.1 ht' with ht' | ht'
      · exact h.keys _ t' ht'
      · rw [List.mem_singleton.1 ht']
    · rw [update_of_ne hkey] at ht'
      exact h.keys key t' ht'
  · unfold waiting at hidle ⊢
    rw [update_self, List.count_append, List.count_singleton_self]
    show _ = 1
    omega
  · unfold waiting
    by_cases hkey : keyOf t' = keyOf t
    · rw [hkey, update_self, List.count_append, List.count_singleton, if_neg (by simpa using ht'.symm),
        Nat.add_zero]
    · rw [update_of_ne hkey]

theorem Alive.move (h : Alive keyOf ops [] log) (key : Key) :
    Alive keyOf (update ops key []) (ops key) log := by
  refine ⟨fun key' t ht => ?_, fun t => ?_⟩
  · by_cases hkey : key' = key
    · rw [hkey, update_self] at ht
      cases ht
    · rw [update_of_ne hkey] at ht
      exact h.keys key' t ht
  · obtain ⟨b, hb, hcount⟩ := h.life t
    refine ⟨b, hb, ?_⟩
    rw [← hcount]
    unfold waiting
    by_cases hkey : keyOf t = key
    · rw [hkey, update_self, List.count_nil, Nat.zero_add, Nat.add_zero]
    · have hnone : t ∉ ops key := fun ht => hkey (h.keys key t ht)
      rw [update_of_ne hkey, List.count_nil, List.count_eq_zero_of_not_mem hnone]

theorem Alive.removed (h : Alive keyOf ops loop log) (hmem : t ∈ ops (keyOf t)) :
    Alive keyOf (update ops (keyOf t) ((ops (keyOf t)).erase t)) loop (log ++ [(t, .removed)]) := by
  have hone : waiting keyOf ops loop t = 1 := by
    have hpos := List.count_pos_iff.2 hmem
    rcases h.waiting_iff t with hw | hw
    · unfold waiting at hw
      omega
    · exact hw
  refine h.record true false (fun key t' ht' => ?_) hone Life.removed ?_ fun t' ht' => ?_
  · by_cases hkey : key = keyOf t
    · subst hkey
      rw [update_self] at ht'
      exact h.keys _ t' (List.mem_of_mem_erase ht')
    · rw [update_of_ne hkey] at ht'
      exact h.keys key t' ht'
  · unfold waiting at hone ⊢
    rw [update_self, List.count_erase_self]
    have hpos := List.count_pos_iff.2 hmem
    show _ = 0
    omega
  · unfold waiting
    by_cases hkey : keyOf t' = keyOf t
    · rw [hkey, update_self, List.count_erase_of_ne ht']
    · rw [update_of_ne hkey]

/-! ### The maps -/

variable {active : Key → Option EntryId} {pending : Key → Option PendingOp} {outstanding : List Key}
  {live : List (Key × EntryId)} {key : Key}

theorem Held.activate (h : Held active pending outstanding live) (hactive : active key = none)
    (hpending : pending key = none) (entry : EntryId) :
    Held (update active key (some entry)) pending outstanding (live ++ [(key, entry)]) where
  free key' hkey' := by
    by_cases hkey : key' = key
    · rw [hkey] at hkey'
      exact absurd hpending hkey'
    · rw [update_of_ne hkey]
      exact h.free key' hkey'
  nodup := h.nodup
  working := h.working
  one_entry := by
    rw [List.map_append]
    refine List.nodup_append.2 ⟨h.one_entry, List.nodup_singleton _, fun a ha b hb => ?_⟩
    rintro rfl
    obtain ⟨e, he, rfl⟩ := List.mem_map.1 ha
    have hfound := (h.found e.1 e.2).1 he
    rw [List.mem_singleton.1 hb, hactive] at hfound
    cases hfound
  found key' entry' := by
    rw [List.mem_append, List.mem_singleton, h.found, Prod.mk.injEq]
    by_cases hkey : key' = key
    · subst hkey
      rw [update_self, hactive]
      simp [eq_comm]
    · rw [update_of_ne hkey]
      simp [hkey]

theorem Held.erase (h : Held active pending outstanding live) (key : Key) :
    Held (update active key none) pending outstanding
      (live.filter fun e => ¬ (e.1 = key ∧ active key = some e.2)) where
  free key' hkey' := by
    by_cases hkey : key' = key
    · rw [hkey, update_self]
    · rw [update_of_ne hkey]
      exact h.free key' hkey'
  nodup := h.nodup
  working := h.working
  one_entry := h.one_entry.sublist (List.filter_sublist.map _)
  found key' entry := by
    rw [List.mem_filter, h.found, decide_eq_true_eq]
    by_cases hkey : key' = key
    · subst hkey
      rw [update_self]
      exact iff_of_false (fun ⟨hsome, hnot⟩ => hnot ⟨rfl, hsome⟩) (fun hn => by cases hn)
    · rw [update_of_ne hkey]
      exact and_iff_left fun ⟨heq, _⟩ => hkey heq

theorem Held.start (h : Held active pending outstanding live) (hactive : active key = none)
    (hpending : pending key = none) (pendingOp : PendingOp) :
    Held active (update pending key (some pendingOp)) (outstanding ++ [key]) live where
  free key' hkey' := by
    by_cases hkey : key' = key
    · rw [hkey, hactive]
    · rw [update_of_ne hkey] at hkey'
      exact h.free key' hkey'
  nodup := by
    refine List.nodup_append.2 ⟨h.nodup, List.nodup_singleton _, fun a ha b hb => ?_⟩
    rintro rfl
    rw [List.mem_singleton.1 hb] at ha
    exact (h.working key).1 ha hpending
  working key' := by
    rw [List.mem_append, List.mem_singleton, h.working]
    by_cases hkey : key' = key
    · subst hkey
      rw [update_self]
      simp
    · rw [update_of_ne hkey]
      simp [hkey]
  one_entry := h.one_entry
  found := h.found

theorem Held.complete (h : Held active pending outstanding live) (key : Key) :
    Held active (update pending key none) (outstanding.erase key) live where
  free key' hkey' := by
    by_cases hkey : key' = key
    · rw [hkey, update_self] at hkey'
      exact absurd rfl hkey'
    · rw [update_of_ne hkey] at hkey'
      exact h.free key' hkey'
  nodup := h.nodup.erase key
  working key' := by
    rw [h.nodup.mem_erase_iff, h.working]
    by_cases hkey : key' = key
    · subst hkey
      rw [update_self]
      simp
    · rw [update_of_ne hkey]
      simp [hkey]
  one_entry := h.one_entry
  found := h.found

theorem Held.change (h : Held active pending outstanding live) {pendingOp : PendingOp}
    (hpending : pending key = some pendingOp) (pendingOp' : PendingOp) :
    Held active (update pending key (some pendingOp')) outstanding live := by
  have hsame (key' : Key) : update pending key (some pendingOp') key' ≠ none ↔ pending key' ≠ none := by
    by_cases hkey : key' = key
    · subst hkey
      rw [update_self, hpending]
      simp
    · rw [update_of_ne hkey]
  exact ⟨fun key' hkey' => h.free key' ((hsame key').1 hkey'), h.nodup,
    fun key' => (h.working key').trans (hsame key').symm, h.one_entry, h.found⟩

/-! ### The steps -/

variable {pendingOp : PendingOp}

theorem opTransactions_update (pending : Key → Option PendingOp) (key : Key) (pendingOp : Option PendingOp) :
    (fun key' => opTransactions (update pending key pendingOp key')) =
      update (fun key' => opTransactions (pending key')) key (opTransactions pendingOp) := by
  funext key'
  by_cases hkey : key' = key
  · subst hkey
    rw [update_self, update_self]
  · rw [update_of_ne hkey, update_of_ne hkey]

theorem Sane.onIOComplete (h : Sane keyOf s) (hloop : s.completing = none) (hop : s.pendingOps key = some pendingOp)
    (result : ℤ) : Sane keyOf (s.onIOComplete key result pendingOp) := by
  have hactive : s.activeEntries key = none := h.held.free key (by rw [hop]; exact Option.some_ne_none _)
  have hheld := h.held.complete key
  have halive := h.alive
  rw [inLoop, hloop] at halive
  have hmoved := halive.move key
  unfold inOps at hmoved
  rw [hop, show ([] : List Transaction) = opTransactions none from rfl, ← opTransactions_update] at hmoved
  dsimp only [Cache.onIOComplete]
  split_ifs
  all_goals rw [notifyTransaction_eq]
  · exact ⟨hmoved.notifyTransaction _ _ rfl, hheld.activate hactive (update_self ..) s.nextEntry⟩
  · exact ⟨hmoved.notifyTransaction _ _ rfl, hheld⟩

/-- **An operation is issued**: it waits, or the backend works on it, or it has its result. -/
theorem Sane.startOperation (h : Sane keyOf s) (hidle : ¬ s.Waits keyOf t)
    (hactive : s.activeEntries (keyOf t) = none) (operation : WorkItemOperation) (entry : Bool) (rv : Option ℤ) :
    Sane keyOf (s.startOperation (keyOf t) operation entry t rv) := by
  have hzero := waiting_of_not_waits hidle
  have hissued := h.alive.issued hzero
  unfold Cache.startOperation
  dsimp only [record]
  cases hop : s.pendingOps (keyOf t) with
  | some pendingOp =>
    dsimp only
    refine ⟨?_, h.held.change hop _⟩
    unfold inOps at hissued ⊢
    rw [opTransactions_update]
    rw [hop] at hissued
    rw [show opTransactions (some { pendingOp with pendingQueue := pendingOp.pendingQueue ++
      [⟨operation, some t, entry⟩] }) = opTransactions (some pendingOp) ++ [t] from
        transactions_append (pendingOp.writer :: pendingOp.pendingQueue) _]
    exact hissued
  | none =>
    dsimp only
    cases rv with
    | none =>
      refine ⟨?_, h.held.start hactive hop _⟩
      unfold inOps at hissued ⊢
      rw [opTransactions_update]
      rw [hop] at hissued
      exact hissued
    | some rv =>
      have hnot : keyOf t ∉ s.outstanding := fun hmem => (h.held.working _).1 hmem hop
      have herase : (s.outstanding ++ [keyOf t]).erase (keyOf t) = s.outstanding := by
        rw [List.erase_append_right _ hnot, List.erase_cons_head, List.append_nil]
      have hsame : update s.pendingOps (keyOf t) none = s.pendingOps := by
        rw [Function.update_eq_self_iff, hop]
      have halive (told : Option EntryId) := h.alive.returned hzero rv told
      unfold Cache.onIOComplete
      dsimp only [WorkItem.clearTransaction]
      rw [herase, hsame]
      by_cases hdone : rv = OK ∧ ¬ operation = .WI_DOOM_ENTRY ∧ WorkItem.isValid ⟨operation, none, entry⟩ = true
      · rw [if_pos hdone]
        exact ⟨halive _, h.held.activate hactive hop s.nextEntry⟩
      · rw [if_neg hdone]
        exact ⟨halive _, h.held⟩

theorem transactions_eraseP (items : List WorkItem) (t : Transaction) :
    transactions (items.eraseP (·.trans = some t)) = (transactions items).erase t := by
  induction items with
  | nil => rfl
  | cons item items ih =>
    by_cases htrans : item.trans = some t
    · rw [List.eraseP_cons_of_pos (by simpa using htrans), transactions_cons_some htrans, List.erase_cons_head]
    · rw [List.eraseP_cons_of_neg (by simpa using htrans)]
      cases hother : item.trans with
      | none => rw [transactions_cons_none hother, transactions_cons_none hother, ih]
      | some u =>
        have hne : ¬ (u == t) = true := by
          rw [beq_iff_eq]
          rintro rfl
          exact htrans hother
        rw [transactions_cons_some hother, transactions_cons_some hother, ih, List.erase_cons_tail hne]

theorem opTransactions_remove (pendingOp : PendingOp) (t : Transaction) :
    opTransactions (some (removeFromPendingOp pendingOp t)) = (opTransactions (some pendingOp)).erase t := by
  have herase := transactions_eraseP (pendingOp.writer :: pendingOp.pendingQueue) t
  unfold removeFromPendingOp
  split_ifs with hwriter
  · rw [List.eraseP_cons_of_pos (by simpa using hwriter)] at herase
    exact herase
  · rw [List.eraseP_cons_of_neg (by simpa using hwriter)] at herase
    exact herase

theorem Sane.removePendingTransaction (h : Sane keyOf s) (hloop : t ∉ s.inLoop) :
    Sane keyOf (s.removePendingTransaction keyOf t) := by
  dsimp only [Cache.removePendingTransaction]
  cases hop : s.pendingOps (keyOf t) with
  | none =>
    have hidle : ¬ s.Waits keyOf t := by
      refine not_or.2 ⟨?_, hloop⟩
      unfold inOps
      rw [hop]
      exact List.not_mem_nil
    rw [if_neg hidle]
    exact h
  | some pendingOp =>
    have hops : (fun key => opTransactions (update s.pendingOps (keyOf t)
        (some (removeFromPendingOp pendingOp t)) key)) =
        update s.inOps (keyOf t) ((s.inOps (keyOf t)).erase t) := by
      rw [opTransactions_update, opTransactions_remove]
      unfold inOps
      rw [hop]
    have hheld := h.held.change hop (removeFromPendingOp pendingOp t)
    dsimp only
    by_cases hwaits : s.Waits keyOf t
    · rw [if_pos hwaits]
      have halive := h.alive.removed (hwaits.resolve_right hloop)
      rw [← hops] at halive
      exact ⟨halive, hheld⟩
    · rw [if_neg hwaits]
      have halive := h.alive
      have hsame : update s.inOps (keyOf t) ((s.inOps (keyOf t)).erase t) = s.inOps := by
        rw [Function.update_eq_self_iff, List.erase_of_not_mem (not_or.1 hwaits).1]
      rw [← hsame, ← hops] at halive
      exact ⟨halive, hheld⟩

/-! ### Runs -/

theorem Sane.step {s' : Cache Key} {l : Operation Key} (h : Sane keyOf s) (hcareful : l.Careful keyOf s)
    (hstep : l.Steps keyOf s s') : Sane keyOf s' := by
  cases l with
  | openEntry t rv =>
    obtain ⟨hidle, rfl⟩ := hstep
    unfold Cache.openEntry
    cases hactive : s.activeEntries (keyOf t) with
    | some entry => exact h
    | none => exact h.startOperation hidle hactive _ _ _
  | createEntry t rv =>
    obtain ⟨hidle, rfl⟩ := hstep
    exact h.startOperation hidle hcareful _ _ _
  | doomEntry t rv =>
    obtain ⟨hidle, rfl⟩ := hstep
    unfold Cache.doomEntry
    cases hactive : s.activeEntries (keyOf t) with
    | some entry => exact ⟨h.alive, h.held.erase _⟩
    | none => exact h.startOperation hidle hactive _ _ _
  | removePendingTransaction t =>
    obtain rfl := hstep
    exact h.removePendingTransaction hcareful
  | deactivateEntry key =>
    obtain rfl := hstep
    exact ⟨h.alive, h.held.erase key⟩
  | onIOComplete key result =>
    obtain ⟨hloop, pendingOp, hop, rfl⟩ := hstep
    exact h.onIOComplete hloop hop result
  | notifyNext =>
    obtain ⟨c, hc, rfl⟩ := hstep
    exact h.notifyNext hc

/-- **In every run in which no transaction is removed while it waits in the list of `OnIOComplete`, and none creates
an entry that is active**, the backend works on one operation for a key at most, there is one active entry for a key
at most, and each operation is notified once unless its transaction was removed, and never after that. -/
theorem httpCache_run {tr : List (Operation Key)}
    (h : ((httpCache keyOf).restrict fun s l => l.Careful keyOf s).Run tr s) : Right keyOf s := by
  have hsane : Sane keyOf s := by
    refine h.invariant (I := fun s => Sane keyOf s) ?_ fun s l s' hi hst => ?_
    · rintro s rfl
      exact sane_new
    · obtain ⟨hcareful, hstep⟩ := hst
      exact hi.step hcareful hstep
  refine ⟨hsane.held.nodup, hsane.held.one_entry, hsane.held.found, fun t => ?_, hsane.held.working⟩
  obtain ⟨waits, hlife, hcount⟩ := hsane.alive.life t
  refine ⟨waits, hlife, ?_⟩
  unfold Cache.Waits
  rw [← List.count_pos_iff, ← List.count_pos_iff]
  unfold waiting at hcount
  cases waits with
  | false =>
    refine iff_of_false Bool.false_ne_true fun hor => ?_
    change _ = 0 at hcount
    omega
  | true =>
    refine iff_of_true rfl ?_
    change _ = 1 at hcount
    omega

end

/-! ### One key -/

def lifeStep : Option Bool → Happening → Option Bool
  | some false, .issued => some true
  | some true, .notified _ _ | some true, .removed => some false
  | _, _ => none

theorem Life.foldl_eq {l : List Happening} {waits : Bool} (h : Life l waits) :
    l.foldl lifeStep (some false) = some waits := by
  induction h with
  | nil => rfl
  | issued _ ih | notified _ _ _ ih | removed _ ih =>
    rw [List.foldl_append, ih]
    rfl

def oneKey (_ : Transaction) : ℕ := 0

def twoOpens : Cache ℕ := (Cache.new.openEntry oneKey 1 none).openEntry oneKey 2 none

theorem run_twoOpens {P : Cache ℕ → Operation ℕ → Prop} (hcareful : ∀ s t rv, P s (.openEntry t rv)) :
    ((httpCache oneKey).restrict P).Run [.openEntry 1 none, .openEntry 2 none] twoOpens := by
  have h0 : ((httpCache oneKey).restrict P).Run [] Cache.new := .init rfl
  have h1 : ((httpCache oneKey).restrict P).Run [.openEntry 1 none] (Cache.new.openEntry oneKey 1 none) :=
    h0.step ⟨hcareful _ _ _, show _ ∧ _ from ⟨by decide, rfl⟩⟩
  exact h1.step ⟨hcareful _ _ _, show _ ∧ _ from ⟨by decide, rfl⟩⟩

theorem httpCache_run_twoOpens : Right oneKey (twoOpens.removePendingTransaction oneKey 2) := by
  have h2 := run_twoOpens (P := fun s l => l.Careful oneKey s) fun _ _ _ => trivial
  have hcareful : Operation.Careful oneKey twoOpens (.removePendingTransaction 2) :=
    show 2 ∉ twoOpens.inLoop by decide
  have hstep : Operation.Steps oneKey twoOpens (twoOpens.removePendingTransaction oneKey 2)
      (.removePendingTransaction 2) := rfl
  exact httpCache_run (h2.step ⟨hcareful, hstep⟩)

/-- The entry is opened: the first of them is notified, the second one is left for the loop. -/
def opened : Cache ℕ :=
  twoOpens.onIOComplete 0 OK ⟨⟨.WI_OPEN_ENTRY, some 1, true⟩, [⟨.WI_OPEN_ENTRY, some 2, true⟩]⟩

/-- What is left of `OnIOComplete` then. -/
def openedLoop : Completion ℕ := ⟨.WI_OPEN_ENTRY, OK, some 0, false, [⟨.WI_OPEN_ENTRY, some 2, true⟩]⟩

/-- **A transaction is notified after it was removed**, when it is removed while another one is notified. -/
theorem not_life_twoOpens : ¬ ∀ (tr : List (Operation ℕ)) (s : Cache ℕ), (httpCache oneKey).Run tr s →
      ∀ t, ∃ waits, Life (happenings t s.log) waits := by
  intro h
  have h2 := (run_twoOpens (P := fun _ _ => True) fun _ _ _ => trivial).of_restrict
  -- the entry is opened, and the first transaction is notified
  have hopened : (httpCache oneKey).step twoOpens (.onIOComplete 0 OK) opened :=
    show _ ∧ _ from ⟨rfl, _, rfl, rfl⟩
  -- it removes the second one
  have hremoved : (httpCache oneKey).step opened (.removePendingTransaction 2)
      (opened.removePendingTransaction oneKey 2) := rfl
  have hnotified : (httpCache oneKey).step (opened.removePendingTransaction oneKey 2) .notifyNext
      ((opened.removePendingTransaction oneKey 2).notifyNext openedLoop) :=
    show ∃ _, _ from ⟨_, rfl, rfl⟩
  have h3 := h2.step hopened
  have h4 := h3.step hremoved
  have h5 := h4.step hnotified
  obtain ⟨waits, hlife⟩ := h _ _ h5 2
  have hfold := hlife.foldl_eq
  revert hfold
  cases waits <;> decide +kernel

end Chromium.Net.HttpCache
