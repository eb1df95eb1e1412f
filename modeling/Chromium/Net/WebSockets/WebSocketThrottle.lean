import Chromium.Base.StringSplit

/-!
# The throttle of WebSocket connections

`net/websockets/websocket_throttle.cc`.  A job is known by its pointer, and its address list does not change.  The
state is that of the throttle and the `waiting_` of the jobs.  `addr_map_` is a function from the keys of addresses to
queues; where the code uses an iterator that is at the end, or the front of an empty queue, there is no next state.

Every queue of an address is the queue of all jobs without the jobs that do not have the address (`waitQueue`).  This
is what keeps the queues in one order.
-/

namespace Chromium.Net

open Lib
open List (contains_iff_mem mem_cons mem_cons_self not_mem_nil)
open Function (update_of_ne update_self)

/-- `struct addrinfo`: the family of an address, and the bytes of the socket address. -/
structure AddrInfo where
  family : Int32
  addr : List UInt8

/-- A character of `kHexChars`. -/
def hexChar (n : ℕ) : UInt8 := UInt8.ofNat (if n < 10 then 48 + n else 55 + n)

def hexEncode (bytes : List UInt8) : List UInt8 :=
  bytes.flatMap fun b => [hexChar (b.toNat / 16), hexChar (b.toNat % 16)]

def AF_INET : Int32 := 2

def AF_INET6 : Int32 := 10

/-- The bytes of the address: `sin_addr`, `sin6_addr` or all of the socket address. -/
def AddrInfo.address (addrinfo : AddrInfo) : List UInt8 :=
  if addrinfo.family = AF_INET then (addrinfo.addr.drop 4).take 4
  else if addrinfo.family = AF_INET6 then (addrinfo.addr.drop 8).take 16
  else addrinfo.addr

def addrinfoToHashkey (addrinfo : AddrInfo) : List UInt8 :=
  decimalInt addrinfo.family.toInt ++ 58 :: hexEncode addrinfo.address

/-- `WebSocketThrottle`, with the `waiting_` of the jobs. -/
structure WebSocketThrottle (J : Type) where
  addrMap : List UInt8 → Option (List J)
  queue : List J
  waiting : J → Bool

namespace WebSocketThrottle

variable {J : Type}

section Methods

variable [DecidableEq J]

def setQueue (s : WebSocketThrottle J) (addrkey : List UInt8) (queue : Option (List J)) : WebSocketThrottle J :=
  { s with addrMap := Function.update s.addrMap addrkey queue }

def setWaiting (s : WebSocketThrottle J) (job : J) : WebSocketThrottle J :=
  { s with waiting := Function.update s.waiting job true }

/-- `Wakeup`: what the job does then is a task of its own. -/
def wakeup (s : WebSocketThrottle J) (job : J) : WebSocketThrottle J :=
  { s with waiting := Function.update s.waiting job false }

def putInAddressQueue (job : J) (addrkey : List UInt8) (s : WebSocketThrottle J) : WebSocketThrottle J :=
  match s.addrMap addrkey with
  | none => s.setQueue addrkey (some [job])
  | some queue => (s.setQueue addrkey (some (queue ++ [job]))).setWaiting job

/-- The loop of `PutInQueue`, with the keys that are processed. -/
def putLoop (job : J) : List AddrInfo → List (List UInt8) → WebSocketThrottle J → WebSocketThrottle J
  | [], _, s => s
  | addrinfo :: list, addressSet, s =>
    let addrkey := addrinfoToHashkey addrinfo
    if addressSet.contains addrkey then putLoop job list addressSet s
    else putLoop job list (addrkey :: addressSet) (putInAddressQueue job addrkey s)

variable (addressList : J → List AddrInfo)

def putInQueue (job : J) (s : WebSocketThrottle J) : WebSocketThrottle J :=
  putLoop job (addressList job) [] { s with queue := s.queue ++ [job] }

/-- The job is taken out of the queue of an address, and the queue is deleted if it is empty then. -/
def removeFromAddressQueue (job : J) (addrkey : List UInt8) (s : WebSocketThrottle J) :
    Option (WebSocketThrottle J) :=
  (s.addrMap addrkey).map fun queue =>
    s.setQueue addrkey (if (queue.erase job).isEmpty then none else some (queue.erase job))

/-- The loop of `RemoveFromQueue`, with the keys that are processed. -/
def removeLoop (job : J) : List AddrInfo → List (List UInt8) → WebSocketThrottle J → Option (WebSocketThrottle J)
  | [], _, s => some s
  | addrinfo :: list, addressSet, s =>
    let addrkey := addrinfoToHashkey addrinfo
    if addressSet.contains addrkey then removeLoop job list addressSet s
    else (removeFromAddressQueue job addrkey s).bind (removeLoop job list (addrkey :: addressSet))

def removeFromQueue (job : J) (s : WebSocketThrottle J) : Option (WebSocketThrottle J) :=
  if s.queue.contains job then removeLoop job (addressList job) [] { s with queue := s.queue.erase job } else some s

/-- The loop over the addresses of `WakeupSocketIfNecessary`: whether the job is at the front everywhere. -/
def shouldWakeup (job : J) (s : WebSocketThrottle J) : List AddrInfo → Option Bool
  | [] => some true
  | addrinfo :: list => do
    let queue ← s.addrMap (addrinfoToHashkey addrinfo)
    let front ← queue.head?
    if job ≠ front then return false else shouldWakeup job s list

/-- The loop of `WakeupSocketIfNecessary`. -/
def wakeupLoop : List J → WebSocketThrottle J → Option (WebSocketThrottle J)
  | [], s => some s
  | job :: jobs, s =>
    if s.waiting job = false then wakeupLoop jobs s
    else do
      if ← shouldWakeup job s (addressList job) then wakeupLoop jobs (s.wakeup job) else wakeupLoop jobs s

def wakeupSocketIfNecessary (s : WebSocketThrottle J) : Option (WebSocketThrottle J) := wakeupLoop addressList s.queue s

/-- The states of a throttle.  A job is put in the queue when it is not in it, and a job that is closed waits no
more. -/
inductive Reachable : WebSocketThrottle J → Prop
  | new {waiting : J → Bool} : Reachable ⟨fun _ => none, [], waiting⟩
  | putInQueue {s : WebSocketThrottle J} {job : J} (h : Reachable s) (hnew : job ∉ s.queue) :
      Reachable (putInQueue addressList job s)
  | removeFromQueue {s s' : WebSocketThrottle J} {job : J} (h : Reachable s)
      (hstep : removeFromQueue addressList job s = some s') : Reachable s'
  | wakeupSocketIfNecessary {s s' : WebSocketThrottle J} (h : Reachable s)
      (hstep : wakeupSocketIfNecessary addressList s = some s') : Reachable s'
  | close {s : WebSocketThrottle J} {job : J} (h : Reachable s) (hclosed : job ∉ s.queue) :
      Reachable (s.wakeup job)

end Methods

/-! ## The queues of the addresses -/

section Queues

variable (addressList : J → List AddrInfo) {job j : J} {s s' : WebSocketThrottle J} {list : List AddrInfo} {addressSet : List (List UInt8)}
  {a : List UInt8} {queue : List J}

def keysOf (list : List AddrInfo) : List (List UInt8) := list.map addrinfoToHashkey

def waitQueue (queue : List J) (a : List UInt8) : List J := queue.filter fun j => (keysOf (addressList j)).contains a

def mapOf (queue : List J) (a : List UInt8) : Option (List J) :=
  if (waitQueue addressList queue a).isEmpty then none else some (waitQueue addressList queue a)

def AtFront (queue : List J) (job : J) : Prop :=
  ∀ a ∈ keysOf (addressList job), (waitQueue addressList queue a).head? = some job

/-- **The invariant**: the map is what the queue says, and a job that does not wait is at the front. -/
structure Inv (s : WebSocketThrottle J) : Prop where
  addrMap : ∀ a, s.addrMap a = mapOf addressList s.queue a
  nodup : s.queue.Nodup
  front : ∀ job ∈ s.queue, s.waiting job = false → AtFront addressList s.queue job

variable {addressList}

theorem mem_keysOf_cons {addrinfo : AddrInfo} :
    a ∈ keysOf (addrinfo :: list) ↔ a = addrinfoToHashkey addrinfo ∨ a ∈ keysOf list := mem_cons

theorem mem_waitQueue : job ∈ waitQueue addressList queue a ↔ job ∈ queue ∧ a ∈ keysOf (addressList job) := by
  rw [waitQueue, List.mem_filter, contains_iff_mem]

theorem waitQueue_concat (ha : a ∈ keysOf (addressList job)) :
    waitQueue addressList (queue ++ [job]) a = waitQueue addressList queue a ++ [job] := by
  rw [waitQueue, List.filter_append, List.filter_singleton, contains_iff_mem.2 ha]
  rfl

theorem waitQueue_concat_of_notMem (ha : a ∉ keysOf (addressList job)) :
    waitQueue addressList (queue ++ [job]) a = waitQueue addressList queue a := by
  rw [waitQueue, List.filter_append, List.filter_singleton, Bool.eq_false_iff.2 (mt contains_iff_mem.1 ha)]
  exact List.append_nil _

theorem mapOf_eq_none : mapOf addressList queue a = none ↔ waitQueue addressList queue a = [] := by
  unfold mapOf
  split
  next h => exact iff_of_true rfl (List.isEmpty_iff.1 h)
  next h => exact iff_of_false (Option.some_ne_none _) (mt List.isEmpty_iff.2 h)

theorem mapOf_of_mem (hjob : job ∈ queue) (ha : a ∈ keysOf (addressList job)) :
    mapOf addressList queue a = some (waitQueue addressList queue a) :=
  if_neg fun h => not_mem_nil (List.isEmpty_iff.1 h ▸ mem_waitQueue.2 ⟨hjob, ha⟩)

theorem head?_append_of_eq_some {q : List J} {front : J} (h : q.head? = some front) (q' : List J) :
    (q ++ q').head? = some front := by
  rw [List.head?_append, h]
  rfl

theorem AtFront.concat (h : AtFront addressList queue job) (j : J) : AtFront addressList (queue ++ [j]) job := by
  intro a ha
  by_cases hj : a ∈ keysOf (addressList j)
  · rw [waitQueue_concat hj]
    exact head?_append_of_eq_some (h a ha) [j]
  · rw [waitQueue_concat_of_notMem hj]
    exact h a ha

theorem AtFront.inj (h : AtFront addressList queue job) (h' : AtFront addressList queue j)
    (ha : a ∈ keysOf (addressList job)) (ha' : a ∈ keysOf (addressList j)) : job = j :=
  Option.some.inj ((h a ha).symm.trans (h' a ha'))

theorem sublist_of_head?_ne {q : List J} (hmem : job ∈ q) (hne : q.head? ≠ some job) :
    ∃ front ∈ q, [front, job].Sublist q := by
  cases q with
  | nil => cases hmem
  | cons front q =>
    have hjob : job ∈ q := (mem_cons.1 hmem).resolve_left fun heq => hne (heq ▸ rfl)
    exact ⟨front, mem_cons_self, (List.singleton_sublist.2 hjob).cons_cons front⟩

variable [DecidableEq J]

theorem waitQueue_erase (h : queue.Nodup) :
    waitQueue addressList (queue.erase job) a = (waitQueue addressList queue a).erase job := by
  have hnodup : (waitQueue addressList queue a).Nodup := h.filter _
  rw [hnodup.erase_eq_filter, h.erase_eq_filter, waitQueue, waitQueue, List.filter_filter, List.filter_filter]
  exact List.filter_congr fun x _ => Bool.and_comm _ _

theorem wakeup_waiting_self (s : WebSocketThrottle J) (job : J) : (s.wakeup job).waiting job = false := by
  simp [wakeup]

theorem wakeup_waiting_of_ne (s : WebSocketThrottle J) (hne : j ≠ job) : (s.wakeup job).waiting j = s.waiting j := by
  simp [wakeup, hne]

/-! ### Putting a job in the queues -/

theorem putInAddressQueue_addrMap (addrkey : List UInt8) : (putInAddressQueue job addrkey s).addrMap =
      Function.update s.addrMap addrkey (some ((s.addrMap addrkey).getD [] ++ [job])) := by
  unfold putInAddressQueue
  cases h : s.addrMap addrkey <;> rfl

theorem putInAddressQueue_queue (addrkey : List UInt8) : (putInAddressQueue job addrkey s).queue = s.queue := by
  unfold putInAddressQueue
  cases h : s.addrMap addrkey <;> rfl

theorem putInAddressQueue_waiting_of_ne (addrkey : List UInt8) (hne : j ≠ job) :
    (putInAddressQueue job addrkey s).waiting j = s.waiting j := by
  unfold putInAddressQueue
  cases h : s.addrMap addrkey with
  | none => rfl
  | some queue => exact update_of_ne hne _ _

theorem putInAddressQueue_waiting {addrkey : List UInt8} (h : (putInAddressQueue job addrkey s).waiting job = false) :
    s.addrMap addrkey = none ∧ s.waiting job = false := by
  unfold putInAddressQueue at h
  cases hq : s.addrMap addrkey with
  | none =>
    rw [hq] at h
    exact ⟨rfl, h⟩
  | some queue =>
    rw [hq] at h
    have hself : Function.update s.waiting job true job = true := update_self job true s.waiting
    exact nomatch hself.symm.trans h

theorem putLoop_queue : (putLoop job list addressSet s).queue = s.queue := by
  induction list generalizing addressSet s with
  | nil => rfl
  | cons addrinfo list ih =>
    rw [putLoop]
    split
    · exact ih
    · rw [ih, putInAddressQueue_queue]

theorem putLoop_waiting_of_ne (hne : j ≠ job) : (putLoop job list addressSet s).waiting j = s.waiting j := by
  induction list generalizing addressSet s with
  | nil => rfl
  | cons addrinfo list ih =>
    rw [putLoop]
    split
    · exact ih
    · rw [ih, putInAddressQueue_waiting_of_ne _ hne]

theorem putLoop_addrMap (a : List UInt8) : (putLoop job list addressSet s).addrMap a =
      if a ∈ keysOf list ∧ a ∉ addressSet then some ((s.addrMap a).getD [] ++ [job]) else s.addrMap a := by
  induction list generalizing addressSet s with
  | nil => exact (if_neg fun h => not_mem_nil h.1).symm
  | cons addrinfo list ih =>
    rw [putLoop]
    split
    next hmem =>
      rw [contains_iff_mem] at hmem
      rw [ih]
      refine if_congr ?_ rfl rfl
      rw [mem_keysOf_cons]
      refine ⟨fun h => ⟨.inr h.1, h.2⟩, fun h => ⟨h.1.resolve_left ?_, h.2⟩⟩
      rintro rfl
      exact h.2 hmem
    next hmem =>
      rw [contains_iff_mem] at hmem
      rw [ih, putInAddressQueue_addrMap]
      by_cases heq : a = addrinfoToHashkey addrinfo
      · subst heq
        rw [if_neg fun h => h.2 mem_cons_self, update_self, if_pos ⟨mem_keysOf_cons.2 (.inl rfl), hmem⟩]
      · rw [update_of_ne heq]
        refine if_congr ?_ rfl rfl
        rw [mem_keysOf_cons, mem_cons, not_or]
        exact ⟨fun h => ⟨.inr h.1, h.2.2⟩, fun h => ⟨h.1.resolve_left heq, heq, h.2⟩⟩

/-- **A job that does not wait behind the loop has found no queue.** -/
theorem putLoop_waiting (h : (putLoop job list addressSet s).waiting job = false) :
    s.waiting job = false ∧ ∀ a ∈ keysOf list, a ∉ addressSet → s.addrMap a = none := by
  induction list generalizing addressSet s with
  | nil => exact ⟨h, nofun⟩
  | cons addrinfo list ih =>
    rw [putLoop] at h
    split at h
    next hmem =>
      rw [contains_iff_mem] at hmem
      obtain ⟨hwait, hnone⟩ := ih h
      refine ⟨hwait, fun a ha hset => ?_⟩
      rcases mem_keysOf_cons.1 ha with rfl | ha
      · exact absurd hmem hset
      · exact hnone a ha hset
    next hmem =>
      obtain ⟨hwait, hnone⟩ := ih h
      obtain ⟨hkey, hwait⟩ := putInAddressQueue_waiting hwait
      refine ⟨hwait, fun a ha hset => ?_⟩
      by_cases heq : a = addrinfoToHashkey addrinfo
      · rw [heq, hkey]
      · have hold := hnone a ((mem_keysOf_cons.1 ha).resolve_left heq) (List.not_mem_cons_of_ne_of_not_mem heq hset)
        rwa [putInAddressQueue_addrMap, update_of_ne heq] at hold

theorem Inv.putInQueue (h : Inv addressList s) (hnew : job ∉ s.queue) :
    Inv addressList (putInQueue addressList job s) where
  addrMap a := by
    rw [WebSocketThrottle.putInQueue, putLoop_addrMap, putLoop_queue]
    dsimp only
    rw [h.addrMap]
    by_cases ha : a ∈ keysOf (addressList job)
    · rw [if_pos ⟨ha, not_mem_nil⟩, mapOf_of_mem (List.mem_append_right _ (List.mem_singleton_self job)) ha,
        waitQueue_concat ha]
      unfold mapOf
      split
      next hempty => rw [List.isEmpty_iff.1 hempty]; rfl
      next => rfl
    · rw [if_neg fun h => ha h.1, mapOf, mapOf, waitQueue_concat_of_notMem ha]
  nodup := by
    rw [WebSocketThrottle.putInQueue, putLoop_queue, ← List.concat_eq_append]
    exact h.nodup.concat hnew
  front j hj hwait := by
    rw [WebSocketThrottle.putInQueue, putLoop_queue] at hj ⊢
    rcases List.mem_append.1 hj with hj | hj
    · have hne : j ≠ job := fun heq => hnew (heq ▸ hj)
      rw [WebSocketThrottle.putInQueue, putLoop_waiting_of_ne hne] at hwait
      exact (h.front j hj hwait).concat job
    · obtain rfl := List.mem_singleton.1 hj
      intro a ha
      have hnone := (putLoop_waiting hwait).2 a ha not_mem_nil
      dsimp only at hnone
      rw [h.addrMap, mapOf_eq_none] at hnone
      rw [waitQueue_concat ha, hnone]
      rfl

/-! ### Taking a job out of the queues -/

def dequeue (job : J) (queue : List J) : Option (List J) :=
  if (queue.erase job).isEmpty then none else some (queue.erase job)

/-- **The loop takes the job out of the queue of each address**, if there are such queues. -/
theorem removeLoop_spec (s : WebSocketThrottle J) (addressSet : List (List UInt8)) (h : ∀ a ∈ keysOf list, a ∉ addressSet → s.addrMap a ≠ none) :
    ∃ s', removeLoop job list addressSet s = some s' ∧ s'.queue = s.queue ∧ s'.waiting = s.waiting ∧
      ∀ a, s'.addrMap a =
        if a ∈ keysOf list ∧ a ∉ addressSet then (s.addrMap a).bind (dequeue job) else s.addrMap a := by
  induction list generalizing addressSet s with
  | nil => exact ⟨s, rfl, rfl, rfl, fun a => (if_neg fun h => not_mem_nil h.1).symm⟩
  | cons addrinfo list ih =>
    rw [removeLoop]
    split
    next hmem =>
      rw [contains_iff_mem] at hmem
      obtain ⟨s', heq, hqueue, hwait, hmap⟩ := ih s addressSet fun a ha => h a (mem_keysOf_cons.2 (.inr ha))
      refine ⟨s', heq, hqueue, hwait, fun a => (hmap a).trans (if_congr ?_ rfl rfl)⟩
      rw [mem_keysOf_cons]
      refine ⟨fun h => ⟨.inr h.1, h.2⟩, fun h => ⟨h.1.resolve_left ?_, h.2⟩⟩
      rintro rfl
      exact h.2 hmem
    next hmem =>
      rw [contains_iff_mem] at hmem
      obtain ⟨queue, hq⟩ := Option.ne_none_iff_exists'.1 (h _ (mem_keysOf_cons.2 (.inl rfl)) hmem)
      have hupdate : ∀ a, a ≠ addrinfoToHashkey addrinfo →
          (s.setQueue (addrinfoToHashkey addrinfo) (dequeue job queue)).addrMap a = s.addrMap a :=
        fun a ha => update_of_ne ha _ _
      obtain ⟨s', heq, hqueue, hwait, hmap⟩ := ih (s.setQueue (addrinfoToHashkey addrinfo) (dequeue job queue))
        (addrinfoToHashkey addrinfo :: addressSet) fun a ha hset => by
          have hne := List.ne_of_not_mem_cons hset
          rw [hupdate a hne]
          exact h a (mem_keysOf_cons.2 (.inr ha)) (List.not_mem_of_not_mem_cons hset)
      refine ⟨s', ?_, hqueue, hwait, fun a => (hmap a).trans ?_⟩
      · rw [removeFromAddressQueue, hq]
        exact heq
      · by_cases heq : a = addrinfoToHashkey addrinfo
        · subst heq
          rw [if_neg fun h => h.2 mem_cons_self, if_pos ⟨mem_keysOf_cons.2 (.inl rfl), hmem⟩, hq]
          exact update_self _ _ _
        · rw [hupdate a heq]
          refine if_congr ?_ rfl rfl
          rw [mem_keysOf_cons, mem_cons, not_or]
          exact ⟨fun h => ⟨.inr h.1, h.2.2⟩, fun h => ⟨h.1.resolve_left heq, heq, h.2⟩⟩

theorem head?_erase {q : List J} {front : J} (h : q.head? = some front) (hne : front ≠ job) :
    (q.erase job).head? = some front := by
  cases q with
  | nil => cases h
  | cons x q =>
    cases h
    rw [List.erase_cons_tail (beq_eq_false_iff_ne.2 hne ▸ Bool.false_ne_true)]
    rfl

theorem AtFront.erase (h : AtFront addressList queue job) (hnodup : queue.Nodup) (hne : job ≠ j) :
    AtFront addressList (queue.erase j) job := by
  intro a ha
  rw [waitQueue_erase hnodup]
  exact head?_erase (h a ha) hne

theorem Inv.removeFromQueue (h : Inv addressList s) (job : J) :
    ∃ s', removeFromQueue addressList job s = some s' ∧ s'.queue = s.queue.erase job ∧ Inv addressList s' := by
  unfold WebSocketThrottle.removeFromQueue
  split
  next hmem =>
    rw [contains_iff_mem] at hmem
    have hthere : ∀ a ∈ keysOf (addressList job), a ∉ [] → s.addrMap a ≠ none := fun a ha _ => by
      rw [h.addrMap, mapOf_of_mem hmem ha]
      exact Option.some_ne_none _
    obtain ⟨s', heq, hqueue, hwait, hmap⟩ := removeLoop_spec { s with queue := s.queue.erase job } [] hthere
    refine ⟨s', heq, hqueue, fun a => ?_, ?_, fun j hj hnot => ?_⟩
    · rw [hmap, hqueue]
      dsimp only
      rw [h.addrMap, mapOf, mapOf, waitQueue_erase h.nodup]
      by_cases ha : a ∈ keysOf (addressList job)
      · have hne : waitQueue addressList s.queue a ≠ [] := List.ne_nil_of_mem (mem_waitQueue.2 ⟨hmem, ha⟩)
        rw [if_pos ⟨ha, not_mem_nil⟩, if_neg (mt List.isEmpty_iff.1 hne)]
        rfl
      · have hnot : job ∉ waitQueue addressList s.queue a := fun hin => ha (mem_waitQueue.1 hin).2
        rw [if_neg fun h => ha h.1, List.erase_of_not_mem hnot]
    · rw [hqueue]
      exact h.nodup.erase job
    · rw [hqueue] at hj ⊢
      rw [hwait] at hnot
      have hne : j ≠ job := fun heq => h.nodup.not_mem_erase (heq ▸ hj)
      exact (h.front j (List.mem_of_mem_erase hj) hnot).erase h.nodup hne
  next hmem =>
    refine ⟨s, rfl, ?_, h⟩
    rw [List.erase_of_not_mem fun hin => hmem (contains_iff_mem.2 hin)]

/-! ### Waking jobs up -/

theorem shouldWakeup_spec (hmap : ∀ a, s.addrMap a = mapOf addressList s.queue a) (hjob : job ∈ s.queue)
    (hlist : ∀ a ∈ keysOf list, a ∈ keysOf (addressList job)) :
    ∃ b, shouldWakeup job s list = some b ∧
      (b = true ↔ ∀ a ∈ keysOf list, (waitQueue addressList s.queue a).head? = some job) := by
  induction list with
  | nil => exact ⟨true, rfl, iff_of_true rfl nofun⟩
  | cons addrinfo list ih =>
    obtain ⟨b, heq, hb⟩ := ih fun a ha => hlist a (mem_keysOf_cons.2 (.inr ha))
    have hkey := hlist _ (mem_keysOf_cons.2 (.inl rfl))
    have hmem := mem_waitQueue.2 ⟨hjob, hkey⟩
    obtain ⟨front, rest, hq⟩ := List.exists_cons_of_ne_nil (List.ne_nil_of_mem hmem)
    have hloop : shouldWakeup job s (addrinfo :: list) = if job ≠ front then some false else some b := by
      rw [shouldWakeup, hmap, mapOf_of_mem hjob hkey, hq, heq]
      rfl
    by_cases hfront : job = front
    · refine ⟨b, hloop.trans (if_neg (not_not_intro hfront)), hb.trans ⟨fun h a ha => ?_, fun h a ha => ?_⟩⟩
      · rcases mem_keysOf_cons.1 ha with rfl | ha
        · rw [hq, hfront]
          rfl
        · exact h a ha
      · exact h a (mem_keysOf_cons.2 (.inr ha))
    · refine ⟨false, hloop.trans (if_pos hfront), iff_of_false Bool.false_ne_true fun h => hfront ?_⟩
      have hhead := h _ (mem_keysOf_cons.2 (.inl rfl))
      rw [hq] at hhead
      exact (Option.some.inj hhead).symm

/-- **The loop wakes the jobs that are at the front**, and no others. -/
theorem wakeupLoop_spec {jobs : List J} (hmap : ∀ a, s.addrMap a = mapOf addressList s.queue a)
    (hjobs : ∀ job ∈ jobs, job ∈ s.queue) :
    ∃ s', wakeupLoop addressList jobs s = some s' ∧ s'.addrMap = s.addrMap ∧ s'.queue = s.queue ∧
      (∀ j, s'.waiting j = true → s.waiting j = true ∧ (j ∈ jobs → ¬ AtFront addressList s.queue j)) ∧
      ∀ j, s'.waiting j = false → s.waiting j = false ∨ AtFront addressList s.queue j := by
  induction jobs generalizing s with
  | nil => exact ⟨s, rfl, rfl, rfl, fun _ h => ⟨h, nofun⟩, fun _ h => .inl h⟩
  | cons job jobs ih =>
    have hrest : ∀ job ∈ jobs, job ∈ s.queue := fun j hj => hjobs j (List.mem_cons_of_mem job hj)
    rw [wakeupLoop]
    split
    next hwait =>
      obtain ⟨s', heq, haddr, hqueue, htrue, hfalse⟩ := ih hmap hrest
      refine ⟨s', heq, haddr, hqueue, fun j hj => ⟨(htrue j hj).1, fun hmem => ?_⟩, hfalse⟩
      rcases mem_cons.1 hmem with rfl | hmem
      · exact nomatch (htrue j hj).1.symm.trans hwait
      · exact (htrue j hj).2 hmem
    next hwait =>
      obtain ⟨b, hb, hfront⟩ := shouldWakeup_spec hmap (hjobs job mem_cons_self) fun _ ha => ha
      rw [hb]
      cases b with
      | false =>
        obtain ⟨s', heq, haddr, hqueue, htrue, hfalse⟩ := ih hmap hrest
        refine ⟨s', heq, haddr, hqueue, fun j hj => ⟨(htrue j hj).1, fun hmem => ?_⟩, hfalse⟩
        rcases mem_cons.1 hmem with rfl | hmem
        · exact fun h => Bool.false_ne_true (hfront.2 h)
        · exact (htrue j hj).2 hmem
      | true =>
        obtain ⟨s', heq, haddr, hqueue, htrue, hfalse⟩ := @ih (s.wakeup job) hmap hrest
        refine ⟨s', heq, haddr, hqueue, fun j hj => ?_, fun j hj => ?_⟩
        · obtain ⟨hold, hnot⟩ := htrue j hj
          have hne : j ≠ job := by
            rintro rfl
            exact nomatch (wakeup_waiting_self s j).symm.trans hold
          have hwaiting : s.waiting j = true := (wakeup_waiting_of_ne s hne).symm.trans hold
          exact ⟨hwaiting, fun hmem => hnot ((mem_cons.1 hmem).resolve_left hne)⟩
        · by_cases hne : j = job
          · exact .inr (hne ▸ hfront.1 rfl)
          · have hold := hfalse j hj
            rwa [wakeup_waiting_of_ne s hne] at hold

/-- **Jobs are woken up**: behind it a job of the queue waits only if it is not at the front of all its queues. -/
theorem Inv.wakeupSocketIfNecessary (h : Inv addressList s) :
    ∃ s', wakeupSocketIfNecessary addressList s = some s' ∧ s'.queue = s.queue ∧ Inv addressList s' ∧
      ∀ job ∈ s'.queue, s'.waiting job = true → ¬ AtFront addressList s'.queue job := by
  obtain ⟨s', heq, haddr, hqueue, htrue, hfalse⟩ := wakeupLoop_spec h.addrMap fun _ hj => hj
  refine ⟨s', heq, hqueue, ⟨fun a => ?_, ?_, fun job hjob hwait => ?_⟩, fun job hjob hwait => ?_⟩
  · rw [haddr, hqueue, h.addrMap]
  · rw [hqueue]
    exact h.nodup
  · rw [hqueue] at hjob ⊢
    exact (hfalse job hwait).elim (h.front job hjob) id
  · rw [hqueue] at hjob ⊢
    exact (htrue job hwait).2 hjob

theorem Reachable.inv (h : Reachable addressList s) : Inv addressList s := by
  induction h with
  | new => exact ⟨fun _ => rfl, List.nodup_nil, nofun⟩
  | putInQueue _ hnew ih => exact ih.putInQueue hnew
  | removeFromQueue _ hstep ih =>
    obtain ⟨s', heq, -, hinv⟩ := ih.removeFromQueue _
    obtain rfl := Option.some.inj (hstep.symm.trans heq)
    exact hinv
  | wakeupSocketIfNecessary _ hstep ih =>
    obtain ⟨s', heq, -, hinv, -⟩ := ih.wakeupSocketIfNecessary
    obtain rfl := Option.some.inj (hstep.symm.trans heq)
    exact hinv
  | @close s job _ hclosed ih =>
    refine ⟨ih.addrMap, ih.nodup, fun j hj hwait => ih.front j hj ?_⟩
    have hne : j ≠ job := fun heq => hclosed (heq ▸ hj)
    exact (wakeup_waiting_of_ne s hne).symm.trans hwait

/-- **The throttle**: in every state the steps have a result; the map has exactly the jobs of the queue, in order; of
the jobs of an address at most one does not wait, and it is the front of the queue there; and when the jobs have been
woken up, a job waits only behind one that was put in the queue before and shares an address. -/
theorem throttle_of_reachable (h : Reachable addressList s) :
    (∀ job, (removeFromQueue addressList job s).isSome) ∧
    (∀ a, s.addrMap a = mapOf addressList s.queue a) ∧
    (∀ a, ∀ job ∈ s.queue, a ∈ keysOf (addressList job) → s.waiting job = false →
      (waitQueue addressList s.queue a).head? = some job ∧
      ∀ j ∈ s.queue, a ∈ keysOf (addressList j) → s.waiting j = false → j = job) ∧
    ∃ s', wakeupSocketIfNecessary addressList s = some s' ∧ ∀ job ∈ s'.queue, s'.waiting job = true →
        ∃ earlier, [earlier, job].Sublist s'.queue ∧ ∃ a, a ∈ keysOf (addressList earlier) ∧
          a ∈ keysOf (addressList job) := by
  have hinv := h.inv
  refine ⟨fun job => ?_, hinv.addrMap, fun a job hjob ha hwait => ?_, ?_⟩
  · obtain ⟨s', heq, -⟩ := hinv.removeFromQueue job
    rw [heq]
    rfl
  · have hfront := hinv.front job hjob hwait
    exact ⟨hfront a ha, fun j hj haj hwaitj => (hinv.front j hj hwaitj).inj hfront haj ha⟩
  · obtain ⟨s', heq, -, hinv', hwoken⟩ := hinv.wakeupSocketIfNecessary
    refine ⟨s', heq, fun job hjob hwait => ?_⟩
    have hnot := hwoken job hjob hwait
    simp only [AtFront, not_forall] at hnot
    obtain ⟨a, ha, hne⟩ := hnot
    obtain ⟨earlier, hmem, hsub⟩ := sublist_of_head?_ne (mem_waitQueue.mpr ⟨hjob, ha⟩) hne
    exact ⟨earlier, hsub.trans List.filter_sublist, a, (mem_waitQueue.mp hmem).2, ha⟩

/-- Two connections of which the second has an address of the first and another. -/
def sharedAddresses : Bool → List AddrInfo
  | false => [⟨AF_INET, [2, 0, 0, 80, 127, 0, 0, 1]⟩]
  | true => [⟨AF_INET, [2, 0, 0, 80, 127, 0, 0, 2]⟩, ⟨AF_INET, [2, 0, 0, 80, 127, 0, 0, 1]⟩]

theorem throttle_of_reachable_shared : ∃ s', wakeupSocketIfNecessary sharedAddresses
        (putInQueue sharedAddresses true (putInQueue sharedAddresses false ⟨fun _ => none, [], fun _ => false⟩)) =
          some s' ∧
      ∀ job ∈ s'.queue, s'.waiting job = true →
        ∃ earlier, [earlier, job].Sublist s'.queue ∧ ∃ a, a ∈ keysOf (sharedAddresses earlier) ∧
          a ∈ keysOf (sharedAddresses job) :=
  (throttle_of_reachable (.putInQueue (.putInQueue .new (by decide)) (by decide))).2.2.2

end Queues

end WebSocketThrottle

end Chromium.Net
